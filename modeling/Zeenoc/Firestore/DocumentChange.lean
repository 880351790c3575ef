import Zeenoc.Firestore.Document
import Mathlib.Data.List.Nodup
import Mathlib.Data.Set.Insert

/-! Document changes, and the batch a snapshot listener gets for two successive states of its
collection (`View::ApplyChanges` sorts a batch by the kind of change). -/

namespace Firestore

inductive ChangeType where
  | added
  | modified
  | removed
  deriving DecidableEq

structure DocumentChange where
  type : ChangeType
  documentID : DocumentId
  document : Fields

abbrev Collection := DocumentId → Option Fields

def Store.collection (σ : Store) (c : ResourcePath) : Collection := fun id => σ (c ++ [id.val])

def Collection.ids (P : Fields → Prop) (c : Collection) : Set String :=
  {k | ∃ id d, id.val = k ∧ c id = some d ∧ P d}

def keys (P : Fields → Prop) (xs : List (DocumentId × Fields)) : Set String :=
  {k | ∃ x ∈ xs, x.1.val = k ∧ P x.2}

@[simp] theorem not_mem_keys_nil (P : Fields → Prop) (k : String) : k ∉ keys P [] := by
  simp [keys]

@[simp] theorem mem_keys_cons (P : Fields → Prop) (x : DocumentId × Fields)
    (xs : List (DocumentId × Fields)) (k : String) :
    k ∈ keys P (x :: xs) ↔ (k = x.1.val ∧ P x.2) ∨ k ∈ keys P xs := by
  constructor
  · rintro ⟨y, hy, rfl, hP⟩
    rcases List.mem_cons.mp hy with rfl | hy
    · exact .inl ⟨rfl, hP⟩
    · exact .inr ⟨y, hy, rfl, hP⟩
  · rintro (⟨rfl, hP⟩ | ⟨y, hy, rfl, hP⟩)
    · exact ⟨x, List.mem_cons_self, rfl, hP⟩
    · exact ⟨y, List.mem_cons_of_mem _ hy, rfl, hP⟩

theorem keys_mono {P Q : Fields → Prop} {xs : List (DocumentId × Fields)}
    (h : ∀ x ∈ xs, P x.2 → Q x.2) : keys P xs ⊆ keys Q xs :=
  fun _ ⟨x, hx, hk, hP⟩ => ⟨x, hx, hk, h x hx hP⟩

theorem mem_keys_append (P : Fields → Prop) (xs ys : List (DocumentId × Fields)) (k : String) :
    k ∈ keys P (xs ++ ys) ↔ k ∈ keys P xs ∨ k ∈ keys P ys := by
  induction xs with
  | nil => simp
  | cons x xs ih => rw [List.cons_append, mem_keys_cons, mem_keys_cons, ih, or_assoc]

/-- The changes from one state of a collection to another, each document in at most one. -/
structure Difference (old new : Collection) where
  removed : List (DocumentId × Fields)
  added : List (DocumentId × Fields)
  modified : List (DocumentId × Fields)
  mem_removed : ∀ x, x ∈ removed ↔ old x.1 = some x.2 ∧ new x.1 = none
  mem_added : ∀ x, x ∈ added ↔ old x.1 = none ∧ new x.1 = some x.2
  mem_modified : ∀ x, x ∈ modified ↔ ∃ d, old x.1 = some d ∧ new x.1 = some x.2 ∧ d ≠ x.2
  removed_nodup : (removed.map Prod.fst).Nodup
  added_nodup : (added.map Prod.fst).Nodup
  modified_nodup : (modified.map Prod.fst).Nodup

def change (type : ChangeType) (x : DocumentId × Fields) : DocumentChange := ⟨type, x.1, x.2⟩

namespace Difference
variable {old new : Collection} (D : Difference old new)

def changes : List DocumentChange :=
  D.removed.map (change .removed) ++ (D.added.map (change .added) ++
    D.modified.map (change .modified))

def ofType : ChangeType → List (DocumentId × Fields)
  | .removed => D.removed
  | .added => D.added
  | .modified => D.modified

theorem mem_changes {c : DocumentChange} (hc : c ∈ D.changes) :
    (c.documentID, c.document) ∈ D.ofType c.type := by
  unfold changes at hc
  rcases List.mem_append.mp hc with hc | hc
  · obtain ⟨x, hx, rfl⟩ := List.mem_map.mp hc
    exact hx
  rcases List.mem_append.mp hc with hc | hc
  · obtain ⟨x, hx, rfl⟩ := List.mem_map.mp hc
    exact hx
  · obtain ⟨x, hx, rfl⟩ := List.mem_map.mp hc
    exact hx

theorem modified_mem {x : DocumentId × Fields} (h : x ∈ D.modified) :
    ∃ d, old x.1 = some d ∧ new x.1 = some x.2 := by
  obtain ⟨d, hold, hnew, -⟩ := (D.mem_modified x).mp h
  exact ⟨d, hold, hnew⟩

theorem kept {id : DocumentId} {d d' : Fields} (hold : old id = some d) (hnew : new id = some d') :
    d' = d ∨ (id, d') ∈ D.modified := by
  by_cases h : d = d'
  · exact .inl h.symm
  · exact .inr ((D.mem_modified (id, d')).mpr ⟨d, hold, hnew, h⟩)

theorem modified_kept {x : DocumentId × Fields} (hx : x ∈ D.modified) :
    x.1.val ∈ old.ids (fun _ => True) ∧ x.1.val ∉ keys (fun _ => True) D.removed := by
  obtain ⟨d, hold, hnew⟩ := D.modified_mem hx
  refine ⟨⟨x.1, d, rfl, hold, trivial⟩, ?_⟩
  rintro ⟨y, hy, hyx, -⟩
  have hgone := ((D.mem_removed y).mp hy).2
  rw [DocumentId.ext_iff_val.mpr hyx, hnew] at hgone
  cases hgone

theorem added_notMem_ids {x : DocumentId × Fields} (hx : x ∈ D.added) (P : Fields → Prop) :
    x.1.val ∉ old.ids P := by
  rintro ⟨id, d, hid, hd, -⟩
  obtain rfl := DocumentId.ext_iff_val.mpr hid
  rw [((D.mem_added x).mp hx).1] at hd
  cases hd

theorem added_eq_nil {S : Set String}
    (h : old.ids (fun _ => True) \ S = new.ids fun _ => True) : D.added = [] := by
  apply List.eq_nil_iff_forall_not_mem.mpr
  intro x hx
  have hnew : x.1.val ∈ new.ids fun _ => True :=
    ⟨x.1, x.2, rfl, ((D.mem_added x).mp hx).2, trivial⟩
  rw [← h] at hnew
  exact D.added_notMem_ids hx _ hnew.1

theorem removed_notMem_ids {x : DocumentId × Fields} (hx : x ∈ D.removed) (P : Fields → Prop) :
    x.1.val ∉ new.ids P := by
  rintro ⟨id, d, hid, hd, -⟩
  obtain rfl := DocumentId.ext_iff_val.mpr hid
  rw [((D.mem_removed x).mp hx).2] at hd
  cases hd

theorem removed_mem_ids {x : DocumentId × Fields} (hx : x ∈ D.removed) (P : Fields → Prop) :
    x.1.val ∈ old.ids P ↔ P x.2 := by
  have hold := ((D.mem_removed x).mp hx).1
  constructor
  · rintro ⟨id, d, hid, hd, hP⟩
    obtain rfl := DocumentId.ext_iff_val.mpr hid
    obtain rfl := Option.some.inj (hold.symm.trans hd)
    exact hP
  · exact fun hP => ⟨x.1, x.2, rfl, hold, hP⟩

theorem removed_key_inj {x y : DocumentId × Fields} (hx : x ∈ D.removed) (hy : y ∈ D.removed)
    (h : x.1.val = y.1.val) : x = y :=
  List.inj_on_of_nodup_map D.removed_nodup hx hy (DocumentId.ext_iff_val.mpr h)

theorem ids_new (P : Fields → Prop) (hM : ∀ x ∈ D.modified, P x.2) (k : String) :
    k ∈ new.ids P ↔ (k ∈ old.ids P ∧ k ∉ keys (fun _ => True) D.removed) ∨
      k ∈ keys P D.added ∨ k ∈ keys P D.modified := by
  constructor
  · rintro ⟨id, d, rfl, hnew, hd⟩
    cases hold : old id with
    | none => exact .inr (.inl ⟨(id, d), (D.mem_added _).mpr ⟨hold, hnew⟩, rfl, hd⟩)
    | some d₀ =>
      have hstays : id.val ∉ keys (fun _ => True) D.removed := by
        rintro ⟨x, hx, hid, -⟩
        obtain rfl := DocumentId.ext_iff_val.mpr hid
        rw [((D.mem_removed x).mp hx).2] at hnew
        cases hnew
      rcases D.kept hold hnew with rfl | hmod
      · exact .inl ⟨⟨id, d, rfl, hold, hd⟩, hstays⟩
      · exact .inr (.inr ⟨(id, d), hmod, rfl, hd⟩)
  · rintro (⟨⟨id, d, rfl, hold, hd⟩, hstays⟩ | ⟨x, hx, rfl, hP⟩ | ⟨x, hx, rfl, hP⟩)
    · cases hnew : new id with
      | none => exact (hstays ⟨(id, d), (D.mem_removed _).mpr ⟨hold, hnew⟩, rfl, trivial⟩).elim
      | some d' =>
        rcases D.kept hold hnew with rfl | hmod
        · exact ⟨id, d', rfl, hnew, hd⟩
        · exact ⟨id, d', rfl, hnew, hM _ hmod⟩
    · exact ⟨x.1, x.2, rfl, ((D.mem_added x).mp hx).2, hP⟩
    · obtain ⟨-, -, hnew, -⟩ := (D.mem_modified x).mp hx
      exact ⟨x.1, x.2, rfl, hnew, hP⟩

end Difference
end Firestore
