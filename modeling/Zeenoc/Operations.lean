import Zeenoc.Objects

/-! The Firestore calls of the screens, one program for each action. `user` is the signed-in user
(`Auth.auth().currentUser?.uid`, unwrapped) where the action starts. -/

namespace Zeenoc
open Firestore Interleaving

/-- What the callbacks read from the device when they run. -/
structure Device where
  currentUser : Option DocumentId
  properyIDText : String
  accountType : String

abbrev Op := Client Device

section SignUp

def userData (u : DocumentId) (accountType firstName lastName email : String) : Fields :=
  strings [
    ("firstName", firstName),
    ("lastName", lastName),
    ("email", email),
    ("accountType", accountType),
    ("uid", u.val),
    ("paired", "false")]

/-- The success branch of the `createUser` callback; the three names were trimmed and captured at
the tap, the user and the account type are looked up here. -/
def signUpCompleted (firstName lastName email : String) : Op Unit := do
  let device ← Prog.look
  let user ← Prog.force device.currentUser
  setData ["users", user.val] (userData user device.accountType firstName lastName email)

end SignUp

section Landlord

structure PropertyForm where
  address : String
  deadline : String
  rent : String
  room : String
  bath : String
  squareFoot : String

def PropertyForm.data (form : PropertyForm) : List (String × String) := [
  ("address", form.address),
  ("deadline", form.deadline),
  ("rent", form.rent),
  ("room", form.room),
  ("bath", form.bath),
  ("squareFoot", form.squareFoot)]

def registerTapped (user : DocumentId) (form : PropertyForm) : Op Unit := do
  let docID ← addDocument ["users", user.val, "properties"] (strings form.data)
  let ref ← Prog.force (document ["properties"] docID.val)
  setData ref (strings (form.data ++ [("landlord", user.val)]))

def deleteTapped (user : DocumentId) (id : String) : Op Unit := do
  let ref ← Prog.force (document ["users", user.val, "properties"] id)
  delete ref

def removeRequest (user : DocumentId) (id : String) : Op Unit := do
  let ref ← Prog.force (document ["users", user.val, "requests"] id)
  delete ref

def makePairedTrue (tentantID propertyID : String) : Op Unit := do
  let ref ← Prog.force (document ["users"] tentantID)
  mergeData ref (strings [("paired", "true"), ("properyID", propertyID)])

def addNameToProperty (user : DocumentId) (tentantID tenantName propertyID : String) :
    Op Unit := do
  let ref ← Prog.force (document ["users", user.val, "properties"] propertyID)
  mergeData ref (strings [("tenantName", tenantName), ("tenantID", tentantID)])

def paymentData (user : DocumentId) (tentantID propertyID deadline rent : String) : Fields :=
  strings [
    ("deadline", deadline),
    ("rent", rent),
    ("status", "Pending"),
    ("tenantID", tentantID),
    ("landlordID", user.val),
    ("propertyID", propertyID)]

/-- The callback of `addPaymentToTenant`; its `else` only prints. -/
def addPayment (user : DocumentId) (tentantID propertyID : String) :
    Option (Option Fields) → Op Unit
  | some (some doc) => do
    let deadline ← Prog.force (doc.getString "deadline")
    let rent ← Prog.force (doc.getString "rent")
    let tenant ← Prog.force (document ["users"] tentantID)
    let _ ← addDocument (tenant ++ ["payments"])
      (paymentData user tentantID propertyID deadline rent)
    pure ()
  | _ => pure ()

def addPaymentToTenant (user : DocumentId) (tentantID propertyID : String) : Op Unit := do
  let ref ← Prog.force (document ["users", user.val, "properties"] propertyID)
  let doc ← getDocument ref
  addPayment user tentantID propertyID doc

/-- The calls of `leadingSwipeActionsConfigurationForRowAt`, for the request of the row. -/
def accept (user : DocumentId) (r : Request) : Op Unit := do
  removeRequest user r.id
  makePairedTrue r.tenantID r.propertyID
  addNameToProperty user r.tenantID r.tenantName r.propertyID
  addPaymentToTenant user r.tenantID r.propertyID

def decline (user : DocumentId) (r : Request) : Op Unit := removeRequest user r.id

end Landlord

section Tenant

def waitingMessage : String :=
  "Waiting for landlord to approve request. Please log out and log back in once approved"

def notFoundMessage : String := "Property not found"

def requestData (user : DocumentId) (propertyID address tenantName : String) : Fields :=
  strings [
    ("tenantID", user.val),
    ("propertyID", propertyID),
    ("address", address),
    ("tenantName", tenantName)]

/-- The callback that got the property, with the text that `errorMessageLabel` shows after it. -/
def sendRequest (user : DocumentId) (tenantName : String) :
    Option (Option Fields) → Op (Option String)
  | some (some document') => do
    let landlord ← Prog.force (document'.getString "landlord")
    let address ← Prog.force (document'.getString "address")
    let ref ← Prog.force (document ["users"] landlord)
    -- the field is read anew, not kept from the look-up
    let device ← Prog.look
    let _ ← addDocument (ref ++ ["requests"])
      (requestData user device.properyIDText address tenantName)
    pure (some waitingMessage)
  | _ => pure (some notFoundMessage)

/-- The callback that got the tenant's own document. -/
def lookUpProperty (user : DocumentId) : Option (Option Fields) → Op (Option String)
  | some (some doc) => do
    let firstName ← Prog.force (doc.getString "firstName")
    let lastName ← Prog.force (doc.getString "lastName")
    let device ← Prog.look
    let ref ← Prog.force (document ["properties"] device.properyIDText)
    let document' ← getDocument ref
    sendRequest user (firstName ++ " " ++ lastName) document'
  | _ => pure none

def sendRequestTapped (user : DocumentId) : Op (Option String) := do
  let doc ← getDocument ["users", user.val]
  lookUpProperty user doc

end Tenant
end Zeenoc
