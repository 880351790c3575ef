import Zeenoc.Acceptance
import Zeenoc.World
import Zeenoc.Effects
import Zeenoc.PropertyDocuments
import Zeenoc.Pairing
import Zeenoc.Firestore.History
import Zeenoc.Library.KeyedList
import Zeenoc.LandlordVC
import Zeenoc.Library.ShownRows
import Zeenoc.NotificationsVC
import Zeenoc.Settlements
import Zeenoc.SendRequest
import Zeenoc.Login
import Zeenoc.Sessions
import Zeenoc.ListedDocuments
import Zeenoc.ModifiedProperty
import Zeenoc.Library.TableView
import Zeenoc.Tables
import Zeenoc.MyPropertiesVC
import Zeenoc.IndependentAcceptances
import Zeenoc.Utilities
import Zeenoc.SignUpVC
import Zeenoc.LoginAttempts
import Zeenoc.SoundDocuments
import Zeenoc.UserDocuments
import Zeenoc.PropertyVersions
import Zeenoc.Library.Segments
import Zeenoc.TypedPropertyId
import Zeenoc.Library.Regex
import Zeenoc.PasswordPolicy
import Zeenoc.Firestore.ClientStore
import Zeenoc.Firestore.WriteRuns
