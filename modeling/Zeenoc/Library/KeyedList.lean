import Mathlib.Data.List.Nodup
import Mathlib.Data.Set.Insert

/-! Lists with one entry for each key of a set: hand-kept copies of a keyed collection. -/

namespace KeyedList
variable {R κ : Type} (key : R → κ)

def Lists (l : List R) (S : Set κ) : Prop := (l.map key).Nodup ∧ ∀ k, k ∈ l.map key ↔ k ∈ S

variable {key} {l l' : List R} {S S' : Set κ}

theorem lists_nil : Lists key [] ∅ := ⟨List.nodup_nil, by simp⟩

theorem Lists.congr (h : Lists key l S) (hS : ∀ k, k ∈ S ↔ k ∈ S') : Lists key l S' :=
  ⟨h.1, fun k => (h.2 k).trans (hS k)⟩

theorem Lists.unique (h : Lists key l S) (h' : Lists key l S') : S = S' :=
  Set.ext fun k => (h.2 k).symm.trans (h'.2 k)

theorem Lists.of_map_eq (h : Lists key l S) (hl : l'.map key = l.map key) : Lists key l' S := by
  unfold Lists
  rw [hl]
  exact h

theorem Lists.exists_iff (h : Lists key l S) (k : κ) : (∃ r ∈ l, key r = k) ↔ k ∈ S := by
  rw [← h.2 k, List.mem_map]

theorem Lists.append (h : Lists key l S) {r : R} (hr : key r ∉ S) :
    Lists key (l ++ [r]) (insert (key r) S) := by
  have hnew : key r ∉ l.map key := fun hmem => hr ((h.2 _).mp hmem)
  refine ⟨?_, fun k => ?_⟩
  · rw [List.map_append, List.map_singleton]
    refine List.Nodup.append h.1 (List.nodup_singleton _) ?_
    simpa using hnew
  · rw [List.map_append, List.map_singleton, List.mem_append, List.mem_singleton, h.2 k,
      Set.mem_insert_iff, or_comm]

variable [DecidableEq κ]

theorem map_eraseP (k : κ) : (l.eraseP fun r => key r = k).map key = (l.map key).erase k := by
  induction l with
  | nil => rfl
  | cons r l ih =>
    by_cases hr : key r = k
    · simp [hr]
    · simp [hr, ih]

theorem eraseP_eq_filter (h : (l.map key).Nodup) (k : κ) :
    (l.eraseP fun r => key r = k) = l.filter fun r => key r ≠ k := by
  induction l with
  | nil => rfl
  | cons r l ih =>
    rw [List.map_cons, List.nodup_cons] at h
    by_cases hr : key r = k
    · have hrest : l.filter (fun x => key x ≠ k) = l := by
        apply List.filter_eq_self.mpr
        intro x hx
        have hne : key x ≠ k := fun he => h.1 (hr ▸ he ▸ List.mem_map_of_mem hx)
        simpa using hne
      rw [List.eraseP_cons_of_pos (by simpa using hr), List.filter_cons_of_neg (by simpa using hr),
        hrest]
    · rw [List.eraseP_cons_of_neg (by simpa using hr), List.filter_cons_of_pos (by simpa using hr),
        ih h.2]

theorem Lists.eraseP (h : Lists key l S) (k : κ) :
    Lists key (l.eraseP fun r => key r = k) (S \ {k}) := by
  refine ⟨?_, fun j => ?_⟩
  · rw [map_eraseP]
    exact h.1.erase k
  · rw [map_eraseP, h.1.mem_erase_iff, h.2 j, Set.mem_sdiff, Set.mem_singleton_iff, and_comm]

theorem find?_eq_some_of_nodup (h : (l.map key).Nodup) {r : R} (hr : r ∈ l) :
    l.find? (fun x => key x = key r) = some r := by
  induction l with
  | nil => cases hr
  | cons x l ih =>
    rw [List.map_cons, List.nodup_cons] at h
    rcases List.mem_cons.mp hr with rfl | hr
    · simp
    · have hne : key x ≠ key r := fun he => h.1 (he ▸ List.mem_map_of_mem hr)
      rw [List.find?_cons_of_neg (by simpa using hne), ih h.2 hr]

end KeyedList
