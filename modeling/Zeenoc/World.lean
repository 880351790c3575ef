import Zeenoc.Library.RelyGuarantee
import Zeenoc.Library.Runs
import Zeenoc.Turns
import Zeenoc.Listener

/-! All users' devices over the one store: actions, callbacks and request snapshots in any order. -/

namespace Zeenoc
open Firestore Interleaving

inductive Action where
  | signUpCompleted (firstName lastName email : String)
  | registerTapped (user : DocumentId) (form : PropertyForm)
  | sendRequestTapped (user : DocumentId)
  | accept (user : DocumentId) (r : Request)
  | decline (user : DocumentId) (r : Request)
  | deleteTapped (user : DocumentId) (id : String)

def Action.program : Action → Op Unit
  | .signUpCompleted firstName lastName email =>
    Zeenoc.signUpCompleted firstName lastName email
  | .registerTapped user form => Zeenoc.registerTapped user form
  | .sendRequestTapped user => do
    let _ ← Zeenoc.sendRequestTapped user
    pure ()
  | .accept user r => Zeenoc.accept user r
  | .decline user r => Zeenoc.decline user r
  | .deleteTapped user id => Zeenoc.deleteTapped user id

/-- The store with the callbacks that wait, its earlier states, and the entries of the `requests`
arrays, by the landlord whose collection they come from. -/
structure World where
  threads : Threads ResourcePath Fields Device DocumentId Unit
  past : List Store
  requests : DocumentId → List Request

namespace World

def store (w : World) : Store := w.threads.store

def initial : World := ⟨⟨fun _ => none, []⟩, [], fun _ => []⟩

/-- A row may hold any landlord's request: the array of the app outlives sign-outs, and every
listener registered since its start still fills it. -/
def Offers (w : World) : Action → Prop
  | .accept _ r => ∃ L, r ∈ w.requests L
  | .decline _ r => ∃ L, r ∈ w.requests L
  | _ => True

def tap (w : World) (e : Device) (ids : ℕ → DocumentId) (a : Action) : World where
  threads :=
    { store := (Prog.turn e ids a.program w.store).1
      pending := (Prog.turn e ids a.program w.store).2 :: w.threads.pending }
  past := w.store :: w.past
  requests := w.requests

inductive Event where
  | tap (a : Action)
  | callback
  | snapshot (landlord : DocumentId)

/-- A snapshot may come late: its additions are documents that the landlord's collection holds or
has held, of its other changes nothing is assumed. -/
inductive Step : World → Event → World → Prop
  | tap {w : World} (e : Device) (ids : ℕ → DocumentId) (a : Action) (ho : w.Offers a)
      (hf : Prog.FreshFor FreshId e ids a.program w.store) :
      Step w (.tap a) (w.tap e ids a)
  | callback {w : World} {t} (h : Threads.Step FreshId w.threads t) :
      Step w .callback { w with threads := t, past := w.store :: w.past }
  | snapshot {w : World} (L : DocumentId) (changes : List DocumentChange) {l b}
      (hadd : ∀ c ∈ changes, c.type = .added → ∃ σ ∈ w.store :: w.past,
        σ ["users", L.val, "requests", c.documentID.val] = some c.document)
      (h : NotificationsVC.firebaseCall changes (w.requests L) = some (l, b)) :
      Step w (.snapshot L) { w with requests := Function.update w.requests L l }

theorem Step.past {w w' : World} {ev : Event} (hs : Step w ev w') :
    ∀ σ ∈ w'.past, σ ∈ w.store :: w.past := by
  intro σ hσ
  cases hs with
  | tap => exact hσ
  | callback => exact hσ
  | snapshot => exact List.mem_cons_of_mem _ hσ

abbrev Reaches (C : World → Event → Prop) : World → Prop := Runs.Reaches Step C initial

end World
end Zeenoc
