import Zeenoc.Library.Programs
import Zeenoc.Firestore.ResourcePath

/-! Documents, the store, and the calls through which a client reaches it. -/

namespace Firestore
open Interleaving

inductive FieldValue where
  | null
  | boolean (b : Bool)
  | integer (n : Int)
  | string (s : String)
  deriving DecidableEq

/-- The data of a document, `ObjectValue` in the client. -/
abbrev Fields := String → Option FieldValue

def strings : List (String × String) → Fields
  | [], _ => none
  | (k, v) :: rest, field => if field = k then some (.string v) else strings rest field

namespace Fields

/-- `get(field) as? String`. -/
def getString (d : Fields) (field : String) : Option String :=
  match d field with
  | some (.string s) => some s
  | _ => none

/-- `PatchMutation::PatchDocument`: an absent document is patched like an empty one. -/
def merge (new : Fields) (old : Option Fields) : Fields :=
  fun field => (new field).or ((old.getD fun _ => none) field)

end Fields

@[simp] theorem strings_nil (field : String) : strings [] field = none := rfl

@[simp] theorem strings_cons (k v field : String) (rest : List (String × String)) :
    strings ((k, v) :: rest) field =
      if field = k then some (.string v) else strings rest field := rfl

theorem getString_congr {d d' : Fields} {field : String} (h : d field = d' field) :
    d.getString field = d'.getString field := by
  unfold Fields.getString
  rw [h]

@[simp] theorem getString_strings_nil (field : String) :
    (strings []).getString field = none := rfl

@[simp] theorem getString_strings_cons (k v field : String) (rest : List (String × String)) :
    (strings ((k, v) :: rest)).getString field =
      if field = k then some v else (strings rest).getString field := by
  unfold Fields.getString
  rw [strings_cons]
  by_cases h : field = k <;> simp [h]

theorem merge_of_none {new : Fields} {field : String} (h : new field = none) (old : Fields) :
    (new.merge (some old)).getString field = old.getString field :=
  getString_congr (by simp [Fields.merge, h])

theorem merge_of_some {new : Fields} {field s : String} (h : new.getString field = some s)
    (old : Option Fields) : (new.merge old).getString field = some s := by
  have hv : new field = some (.string s) := by
    unfold Fields.getString at h
    split at h <;> simp_all
  simp [Fields.getString, Fields.merge, hv]

theorem merge_absent (new : Fields) : new.merge none = new := by
  funext field
  simp [Fields.merge]

abbrev Store := ResourcePath → Option Fields

def FreshId (σ : Store) (a : DocumentId) : Prop := ∀ p, a.val ∈ p → σ p = none

theorem freshId_empty (a : DocumentId) : FreshId (fun _ => none) a := fun _ _ => rfl

theorem FreshId.update {σ : Store} {a : DocumentId} (h : FreshId σ a) {k : ResourcePath}
    (hk : a.val ∉ k) (v : Option Fields) : FreshId (Function.update σ k v) a := by
  intro p hp
  have hpk : p ≠ k := fun he => hk (he ▸ hp)
  rw [Function.update_of_ne hpk]
  exact h p hp

section Calls
variable {E : Type}

abbrev Client (E α : Type) := Prog ResourcePath Fields E DocumentId α

def setData (p : ResourcePath) (d : Fields) : Client E Unit :=
  .write p (fun _ => some d) (.pure ())

/-- `setData(_, merge: true)`; the precondition is `Precondition::None`. -/
def mergeData (p : ResourcePath) (d : Fields) : Client E Unit :=
  .write p (fun old => some (d.merge old)) (.pure ())

def delete (p : ResourcePath) : Client E Unit :=
  .write p (fun _ => none) (.pure ())

/-- `addDocument`, under an id of `CreateAutoId`. -/
def addDocument (collection : ResourcePath) (d : Fields) : Client E DocumentId :=
  .add (fun a => collection ++ [a.val]) d .pure

/-- `getDocument`: `none` when the callback gets an error, `some none` when the document does
not exist. What follows is the callback, so nothing of the caller may come after it. -/
def getDocument (p : ResourcePath) : Client E (Option (Option Fields)) := .read p .pure

@[simp] theorem setData_bind {α : Type} (p : ResourcePath) (d : Fields) (g : Unit → Client E α) :
    (setData p d >>= g) = .write p (fun _ => some d) (g ()) := rfl
@[simp] theorem mergeData_bind {α : Type} (p : ResourcePath) (d : Fields)
    (g : Unit → Client E α) :
    (mergeData p d >>= g) = .write p (fun old => some (d.merge old)) (g ()) := rfl
@[simp] theorem delete_bind {α : Type} (p : ResourcePath) (g : Unit → Client E α) :
    (delete p >>= g) = .write p (fun _ => none) (g ()) := rfl
@[simp] theorem addDocument_bind {α : Type} (c : ResourcePath) (d : Fields)
    (g : DocumentId → Client E α) :
    (addDocument c d >>= g) = .add (fun a => c ++ [a.val]) d g := rfl
@[simp] theorem getDocument_bind {α : Type} (p : ResourcePath)
    (g : Option (Option Fields) → Client E α) : (getDocument p >>= g) = .read p g := rfl

end Calls
end Firestore
