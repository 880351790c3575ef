import Zeenoc.Library.KeyedList
import Zeenoc.Objects
import Zeenoc.Firestore.DocumentChange

/-! The snapshot listeners of `notificationsVC` and `TenantVC`, which run the same loop over a
batch: an addition is appended, a removal takes out the entry and leaves the callback. -/

namespace Zeenoc
open Firestore

section Loop
variable {R : Type} (id : R → String) (ofDocument : DocumentId → Fields → Option R)

/-- The loop over `snap!.documentChanges`, on the global array. The flag tells whether the callback
came to its end, where it queues the completion block; `none` is a failed cast. -/
def listen : List DocumentChange → List R → Option (List R × Bool)
  | [], l => some (l, true)
  | c :: cs, l =>
    match c.type with
    | .added => (ofDocument c.documentID c.document).bind fun r => listen cs (l ++ [r])
    | .modified => listen cs l
    | .removed =>
      -- the search ends in `return`: neither the rest of the batch nor the completion follows
      if ∃ r ∈ l, id r = c.documentID.val then
        some (l.eraseP fun r => id r = c.documentID.val, false)
      else listen cs l

theorem mem_listen {cs : List DocumentChange} {l l' : List R} {b : Bool}
    (h : listen id ofDocument cs l = some (l', b)) {r : R} (hr : r ∈ l') :
    r ∈ l ∨ ∃ c ∈ cs, c.type = .added ∧ ofDocument c.documentID c.document = some r := by
  induction cs generalizing l with
  | nil =>
    obtain ⟨rfl, -⟩ := Prod.mk.inj (Option.some.inj h)
    exact .inl hr
  | cons c cs ih =>
    rw [listen] at h
    split at h
    next hc =>
      obtain ⟨r', hr', h⟩ := Option.bind_eq_some_iff.mp h
      rcases ih h with hmem | ⟨c', hc', hty, hof⟩
      · rcases List.mem_append.mp hmem with hmem | hmem
        · exact .inl hmem
        · obtain rfl := List.mem_singleton.mp hmem
          exact .inr ⟨c, List.mem_cons_self, hc, hr'⟩
      · exact .inr ⟨c', List.mem_cons_of_mem _ hc', hty, hof⟩
    next =>
      rcases ih h with hmem | ⟨c', hc', hty, hof⟩
      · exact .inl hmem
      · exact .inr ⟨c', List.mem_cons_of_mem _ hc', hty, hof⟩
    next =>
      split at h
      · obtain ⟨rfl, -⟩ := Prod.mk.inj (Option.some.inj h)
        exact .inl (List.mem_of_mem_eraseP hr)
      · rcases ih h with hmem | ⟨c', hc', hty, hof⟩
        · exact .inl hmem
        · exact .inr ⟨c', List.mem_cons_of_mem _ hc', hty, hof⟩

variable {id ofDocument}

def NotificationsVC.addedIds (changes : List DocumentChange) : List String :=
  (changes.filter (·.type = .added)).map (·.documentID.val)

open NotificationsVC in
theorem listen_eq (hid : ∀ q d r, ofDocument q d = some r → id r = q.val)
    {cs : List DocumentChange} {l l' : List R} {b : Bool}
    (h : listen id ofDocument cs l = some (l', b)) :
    ∃ new, (new.map id).Sublist (addedIds cs) ∧
      (l' = l ++ new ∨ ∃ k, l' = (l ++ new).eraseP fun r => id r = k) := by
  induction cs generalizing l with
  | nil =>
    obtain ⟨rfl, -⟩ := Prod.mk.inj (Option.some.inj h)
    exact ⟨[], List.nil_sublist _, .inl (List.append_nil l).symm⟩
  | cons c cs ih =>
    rw [listen] at h
    split at h
    next hc =>
      obtain ⟨r, hr, h⟩ := Option.bind_eq_some_iff.mp h
      obtain ⟨new, hnew, hl'⟩ := ih h
      have hadded : addedIds (c :: cs) = id r :: addedIds cs := by
        simp [addedIds, hc, hid _ _ _ hr]
      rw [List.append_assoc] at hl'
      exact ⟨r :: new, by rw [hadded, List.map_cons]; exact hnew.cons_cons _, hl'⟩
    next hc =>
      have hadded : addedIds (c :: cs) = addedIds cs := by simp [addedIds, hc]
      rw [hadded]
      exact ih h
    next hc =>
      have hadded : addedIds (c :: cs) = addedIds cs := by simp [addedIds, hc]
      rw [hadded]
      split at h
      · -- the removal is the last thing that the callback does
        obtain ⟨rfl, -⟩ := Prod.mk.inj (Option.some.inj h)
        exact ⟨[], List.nil_sublist _, .inr ⟨_, by rw [List.append_nil]⟩⟩
      · exact ih h

section Follows
variable (hid : ∀ q d r, ofDocument q d = some r → id r = q.val) {l l' : List R} {b : Bool}

include hid in
theorem listen_added {A : List (DocumentId × Fields)} {S : Set String} {rest : List DocumentChange}
    (hl : KeyedList.Lists id l S) (hnew : ∀ x ∈ A, x.1.val ∉ S) (hdup : (A.map Prod.fst).Nodup)
    (h : listen id ofDocument (A.map (change .added) ++ rest) l = some (l', b)) :
    ∃ l₁, KeyedList.Lists id l₁ (S ∪ keys (fun _ => True) A) ∧
      listen id ofDocument rest l₁ = some (l', b) := by
  induction A generalizing l S with
  | nil => exact ⟨l, hl.congr (by simp), h⟩
  | cons x A ih =>
    obtain ⟨r, hr, hrest⟩ := Option.bind_eq_some_iff.mp h
    have hrid : id r = x.1.val := hid x.1 x.2 r hr
    have hadd := hl.append (r := r) (hrid ▸ hnew x List.mem_cons_self)
    rw [hrid] at hadd
    have hnew' : ∀ y ∈ A, y.1.val ∉ insert x.1.val S := by
      intro y hy hmem
      rcases hmem with he | hmem
      · rw [List.map_cons, List.nodup_cons] at hdup
        exact hdup.1 (List.mem_map.mpr ⟨y, hy, DocumentId.ext_iff_val.mpr he⟩)
      · exact hnew y (List.mem_cons_of_mem _ hy) hmem
    obtain ⟨l₁, hl₁, hend⟩ := ih hadd hnew' (List.nodup_cons.mp hdup).2 hrest
    refine ⟨l₁, hl₁.congr fun k => ?_, hend⟩
    rw [Set.mem_union, Set.mem_insert_iff, Set.mem_union, mem_keys_cons]
    tauto

omit hid in
theorem listen_modified (M : List (DocumentId × Fields)) :
    listen id ofDocument (M.map (change .modified)) l = some (l, true) := by
  induction M with
  | nil => rfl
  | cons x M ih => exact ih

/-- A batch whose loop is not cut short: nothing is removed, or one document and none added. -/
def Uncut {old new : Collection} (D : Difference old new) : Prop :=
  D.removed = [] ∨ ∃ x, D.removed = [x] ∧ D.added = []

include hid in
theorem listen_follows {old new : Collection} {D : Difference old new}
    (hl : KeyedList.Lists id l (old.ids fun _ => True)) (hD : Uncut D)
    (h : listen id ofDocument D.changes l = some (l', b)) :
    KeyedList.Lists id l' (new.ids fun _ => True) := by
  have hkept : ∀ k, k ∈ keys (fun _ => True) D.modified →
      k ∈ old.ids (fun _ => True) ∧ k ∉ keys (fun _ => True) D.removed := by
    rintro k ⟨x, hx, rfl, -⟩
    exact D.modified_kept hx
  rcases hD with hnone | ⟨x, hone, hadd⟩
  · unfold Difference.changes at h
    rw [hnone, List.map_nil, List.nil_append] at h
    obtain ⟨l₁, hl₁, hend⟩ := listen_added hid hl (fun x hx => D.added_notMem_ids hx _)
      D.added_nodup h
    rw [listen_modified] at hend
    obtain ⟨rfl, -⟩ := Prod.mk.inj (Option.some.inj hend)
    refine hl₁.congr fun k => ?_
    rw [D.ids_new _ (fun _ _ => trivial), hnone, Set.mem_union]
    have hk := hkept k
    have hnil := not_mem_keys_nil (fun _ => True) k
    tauto
  · -- one document is removed, and the callback returns there
    have hx : x ∈ D.removed := by simp [hone]
    have hmem : ∃ r ∈ l, id r = x.1.val :=
      (hl.exists_iff _).mpr ((D.removed_mem_ids hx _).mpr trivial)
    unfold Difference.changes at h
    rw [hone, hadd] at h
    have hrun : some (l.eraseP fun r => id r = x.1.val, false) = some (l', b) := by
      rw [← h]
      exact (if_pos hmem).symm
    obtain ⟨rfl, -⟩ := Prod.mk.inj (Option.some.inj hrun)
    refine (hl.eraseP x.1.val).congr fun k => ?_
    rw [D.ids_new _ (fun _ _ => trivial), hadd, Set.mem_sdiff, Set.mem_singleton_iff, hone,
      mem_keys_cons]
    have hk := hkept k
    rw [hone, mem_keys_cons] at hk
    have hnil := not_mem_keys_nil (fun _ => True) k
    tauto

end Follows

end Loop

def NotificationsVC.firebaseCall :
    List DocumentChange → List Request → Option (List Request × Bool) :=
  listen Request.id Request.ofDocument

def TenantVC.firebaseCall : List DocumentChange → List Payment → Option (List Payment × Bool) :=
  listen Payment.id Payment.ofDocument

end Zeenoc
