import Zeenoc.Operations

/-! What one turn of each action does to the store, and what it leaves to run. -/

namespace Zeenoc
open Firestore Interleaving Prog
variable (e : Device) (ids : ℕ → DocumentId) (σ : Store) (user : DocumentId)

theorem turn_signUpCompleted (firstName lastName email : String) :
    turn e ids (signUpCompleted firstName lastName email) σ =
      match e.currentUser with
      | none => (σ, .trap)
      | some u => (Function.update σ ["users", u.val]
          (some (userData u e.accountType firstName lastName email)), .pure ()) := by
  cases h : e.currentUser with
  | none => simp [signUpCompleted, turn, h]
  | some u => simp [signUpCompleted, turn, h, setData]

def registered (a : DocumentId) (form : PropertyForm) : Store :=
  Function.update
    (Function.update σ ["users", user.val, "properties", a.val] (some (strings form.data)))
    ["properties", a.val] (some (strings (form.data ++ [("landlord", user.val)])))

theorem turn_registerTapped (form : PropertyForm) :
    turn e ids (registerTapped user form) σ = (registered σ user (ids 0) form, .pure ()) := by
  have hdoc : document ["properties"] (ids 0).val = some ["properties", (ids 0).val] :=
    document_id (by simp) _
  simp [registerTapped, turn, hdoc, setData, registered]

theorem turn_deleteTapped (id : String) :
    turn e ids (deleteTapped user id) σ =
      match document ["users", user.val, "properties"] id with
      | none => (σ, .trap)
      | some p => (Function.update σ p none, .pure ()) := by
  cases h : document ["users", user.val, "properties"] id <;>
    simp [deleteTapped, turn, h, delete]

theorem turn_decline (r : Request) :
    turn e ids (decline user r) σ =
      match document ["users", user.val, "requests"] r.id with
      | none => (σ, .trap)
      | some p => (Function.update σ p none, .pure ()) := by
  cases h : document ["users", user.val, "requests"] r.id <;>
    simp [decline, removeRequest, turn, h, delete]

/-- The three writes of an acceptance to the documents that its strings denote. -/
def removed (pR : ResourcePath) : Store := Function.update σ pR none

def paired (pT : ResourcePath) (propertyID : String) : Store :=
  Function.update σ pT (some
    ((strings [("paired", "true"), ("properyID", propertyID)]).merge (σ pT)))

def named (pP : ResourcePath) (tenantName tenantID : String) : Store :=
  Function.update σ pP (some
    ((strings [("tenantName", tenantName), ("tenantID", tenantID)]).merge (σ pP)))

def accepted (r : Request) (pR pT pP : ResourcePath) : Store :=
  named (paired (removed σ pR) pT r.propertyID) pP r.tenantName r.tenantID

theorem freshId_accepted {σ : Store} {a : DocumentId} (h : FreshId σ a) (r : Request)
    {pR pT pP : ResourcePath} (hR : a.val ∉ pR) (hT : a.val ∉ pT) (hP : a.val ∉ pP) :
    FreshId (accepted σ r pR pT pP) a :=
  ((h.update hR _).update hT _).update hP _

theorem turn_accept (r : Request) :
    turn e ids (accept user r) σ =
      -- a string that denotes no document stops the sequence where it is first used
      match document ["users", user.val, "requests"] r.id, document ["users"] r.tenantID,
        document ["users", user.val, "properties"] r.propertyID with
      | none, _, _ => (σ, .trap)
      | some pR, none, _ => (removed σ pR, .trap)
      | some pR, some pT, none => (paired (removed σ pR) pT r.propertyID, .trap)
      | some pR, some pT, some pP => (accepted σ r pR pT pP,
          .read pP (addPayment user r.tenantID r.propertyID)) := by
  cases hR : document ["users", user.val, "requests"] r.id with
  | none => simp [accept, removeRequest, turn, hR]
  | some pR =>
    cases hT : document ["users"] r.tenantID with
    | none => simp [accept, removeRequest, makePairedTrue, turn, hR, hT, removed]
    | some pT =>
      cases hP : document ["users", user.val, "properties"] r.propertyID with
      | none =>
        simp [accept, removeRequest, makePairedTrue, addNameToProperty, turn, hR, hT, hP,
          removed, paired]
      | some pP =>
        simp [accept, removeRequest, makePairedTrue, addNameToProperty, addPaymentToTenant, turn,
          hR, hT, hP, accepted, removed, paired, named]

theorem freshFor_accept (r : Request) : FreshFor FreshId e ids (accept user r) σ := by
  cases hR : document ["users", user.val, "requests"] r.id <;>
    cases hT : document ["users"] r.tenantID <;>
      cases hP : document ["users", user.val, "properties"] r.propertyID <;>
        simp [accept, removeRequest, makePairedTrue, addNameToProperty, addPaymentToTenant,
          FreshFor, hR, hT, hP]

section SendRequest
variable {d : Fields}

theorem turn_lookUpProperty {firstName lastName : String} {p : ResourcePath}
    (hfirst : d.getString "firstName" = some firstName)
    (hlast : d.getString "lastName" = some lastName)
    (hp : document ["properties"] e.properyIDText = some p) :
    turn e ids (lookUpProperty user (some (some d))) σ =
      (σ, .read p (sendRequest user (firstName ++ " " ++ lastName))) := by
  simp [lookUpProperty, turn, hfirst, hlast, hp]

theorem turn_sendRequest {L address : String} {ref : ResourcePath} (name : String)
    (hL : d.getString "landlord" = some L) (haddr : d.getString "address" = some address)
    (href : document ["users"] L = some ref) :
    turn e ids (sendRequest user name (some (some d))) σ =
      (Function.update σ (ref ++ ["requests", (ids 0).val])
        (some (requestData user e.properyIDText address name)), .pure (some waitingMessage)) := by
  simp [sendRequest, turn, hL, haddr, href]

theorem freshFor_lookUpProperty (doc : Option (Option Fields)) :
    FreshFor FreshId e ids (lookUpProperty user doc) σ := by
  rcases doc with _ | _ | d
  · trivial
  · trivial
  · cases hfirst : d.getString "firstName" <;> cases hlast : d.getString "lastName" <;>
      cases hp : document ["properties"] e.properyIDText <;>
        simp [lookUpProperty, FreshFor, hfirst, hlast, hp]

theorem freshFor_sendRequest (name : String) (doc : Option (Option Fields))
    (ha : FreshId σ (ids 0)) : FreshFor FreshId e ids (sendRequest user name doc) σ := by
  rcases doc with _ | _ | d
  · trivial
  · trivial
  · cases hL : d.getString "landlord" with
    | none => simp [sendRequest, FreshFor, hL]
    | some L =>
      cases haddr : d.getString "address" <;> cases href : document ["users"] L <;>
        simp [sendRequest, FreshFor, hL, haddr, href, ha]

end SendRequest

end Zeenoc
