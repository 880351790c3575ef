import Zeenoc.Firestore.Document

/-! The records of `Objects/`, and how the listeners of the screens fill them from documents.
A failed `as! String` is `none`. -/

namespace Zeenoc
open Firestore

structure Request where
  id : String
  tenantName : String
  address : String
  tenantID : String
  propertyID : String
  deriving DecidableEq

structure Property where
  id : String
  tenantName : String
  tenantID : String
  address : String
  deadline : String
  rent : String
  room : String
  bath : String
  squareFoot : String
  deriving DecidableEq

structure Payment where
  id : String
  deadline : String
  rent : String
  status : String
  tenantID : String
  landloardID : String
  propertyID : String
  deriving DecidableEq

/-- The entry that `notificationsVC` appends for an added document. -/
def Request.ofDocument (id : DocumentId) (d : Fields) : Option Request := do
  let tenantID ← d.getString "tenantID"
  let propertyID ← d.getString "propertyID"
  some {
    id := id.val
    tenantName := (d.getString "tenantName").getD "Name not found"
    address := (d.getString "address").getD "Address not founf"
    tenantID := tenantID
    propertyID := propertyID }

/-- The entry that `LandlordVC` appends for an added document, to either of its lists. -/
def Property.ofDocument (id : DocumentId) (d : Fields) : Option Property := do
  let address ← d.getString "address"
  let deadline ← d.getString "deadline"
  let rent ← d.getString "rent"
  let room ← d.getString "room"
  let bath ← d.getString "bath"
  let squareFoot ← d.getString "squareFoot"
  some {
    id := id.val
    tenantName := (d.getString "tenantName").getD "N/A"
    tenantID := "N/A"
    address := address
    deadline := "03/" ++ deadline ++ "/2021"
    rent := "$" ++ rent
    room := room ++ " bds"
    bath := bath ++ " ba"
    squareFoot := squareFoot ++ " sqft" }

def Payment.ofDocument (id : DocumentId) (d : Fields) : Option Payment := do
  let deadline ← d.getString "deadline"
  let rent ← d.getString "rent"
  let status ← d.getString "status"
  let tenant ← d.getString "tenantID"
  let landlord ← d.getString "landlordID"
  let property ← d.getString "propertyID"
  some {
    id := id.val
    deadline := "03/" ++ deadline ++ "/2021"
    rent := "$" ++ rent
    status := "Status: " ++ status
    tenantID := tenant
    landloardID := landlord
    propertyID := property }

/-- The strings that a registration writes to both copies of a property. -/
def propertyFields : List String := ["address", "deadline", "rent", "room", "bath", "squareFoot"]

def Complete (d : Fields) : Prop := ∀ field ∈ propertyFields, ∃ s, d.getString field = some s

theorem Complete.ofDocument {d : Fields} (h : Complete d) (id : DocumentId) :
    ∃ p, Property.ofDocument id d = some p := by
  obtain ⟨address, h1⟩ := h "address" (by simp [propertyFields])
  obtain ⟨deadline, h2⟩ := h "deadline" (by simp [propertyFields])
  obtain ⟨rent, h3⟩ := h "rent" (by simp [propertyFields])
  obtain ⟨room, h4⟩ := h "room" (by simp [propertyFields])
  obtain ⟨bath, h5⟩ := h "bath" (by simp [propertyFields])
  obtain ⟨squareFoot, h6⟩ := h "squareFoot" (by simp [propertyFields])
  simp [Property.ofDocument, h1, h2, h3, h4, h5, h6]

theorem Request.ofDocument_fields {id : DocumentId} {d : Fields} {r : Request}
    (h : Request.ofDocument id d = some r) :
    r.id = id.val ∧ d.getString "tenantID" = some r.tenantID ∧
      d.getString "propertyID" = some r.propertyID := by
  simp only [Request.ofDocument, Option.bind_eq_bind, Option.bind_eq_some_iff,
    Option.some.injEq] at h
  obtain ⟨t, ht, p, hp, rfl⟩ := h
  exact ⟨rfl, ht, hp⟩

theorem Property.ofDocument_id {id : DocumentId} {d : Fields} {p : Property}
    (h : Property.ofDocument id d = some p) : p.id = id.val := by
  simp only [Property.ofDocument, Option.bind_eq_bind, Option.bind_eq_some_iff,
    Option.some.injEq] at h
  obtain ⟨a, -, dl, -, r, -, ro, -, b, -, s, -, rfl⟩ := h
  rfl

theorem Payment.ofDocument_id {id : DocumentId} {d : Fields} {p : Payment}
    (h : Payment.ofDocument id d = some p) : p.id = id.val := by
  simp only [Payment.ofDocument, Option.bind_eq_bind, Option.bind_eq_some_iff,
    Option.some.injEq] at h
  obtain ⟨dl, -, r, -, s, -, t, -, l, -, pr, -, rfl⟩ := h
  rfl

section Instances

def landlord : DocumentId := ⟨"L", by decide, by decide⟩
def tenant : DocumentId := ⟨"T", by decide, by decide⟩
def property : DocumentId := ⟨"Q", by decide, by decide⟩
def request : DocumentId := ⟨"R", by decide, by decide⟩
def newId : DocumentId := ⟨"N", by decide, by decide⟩

end Instances
end Zeenoc
