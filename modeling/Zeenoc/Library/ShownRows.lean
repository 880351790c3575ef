import Mathlib.Data.List.Infix
import Mathlib.Data.List.Nodup

/-! Rows that were copied from a list which has gone on changing: while the rows that are not gone
come first in the list and in order, the list resolves the index of a row to that row when nothing
at or above it has gone; where the rows gone are those that are not listed, exactly then. -/

namespace ShownRows
variable {R : Type}

def InStep (gone : R → Prop) [DecidablePred gone] (shown l : List R) : Prop :=
  (shown.filter fun r => ¬ gone r) <+: l

section Gone
variable {gone gone' : R → Prop} [DecidablePred gone] [DecidablePred gone'] {shown l : List R}
  {r : R} {i : ℕ}

theorem inStep_self (h : ∀ r ∈ l, ¬ gone r) : InStep gone l l := by
  have hall : (l.filter fun r => ¬ gone r) = l :=
    List.filter_eq_self.mpr fun r hr => by simpa using h r hr
  unfold InStep
  rw [hall]

theorem InStep.mem (h : InStep gone shown l) (hr : r ∈ shown) (hgone : ¬ gone r) : r ∈ l :=
  h.subset (List.mem_filter.mpr ⟨hr, by simpa using hgone⟩)

theorem InStep.congr (h : InStep gone shown l) (hg : ∀ r ∈ shown, gone' r ↔ gone r) :
    InStep gone' shown l := by
  have hsame : (shown.filter fun r => ¬ gone' r) = shown.filter fun r => ¬ gone r := by
    apply List.filter_congr
    intro x hx
    simp [hg x hx]
  unfold InStep
  rw [hsame]
  exact h

theorem InStep.append (h : InStep gone shown l) (l' : List R) : InStep gone shown (l ++ l') :=
  h.trans (List.prefix_append l l')

theorem InStep.filter (h : InStep gone shown l) (p : R → Bool) :
    InStep (fun r => gone r ∨ p r = false) shown (l.filter p) := by
  have hboth : (shown.filter fun r => ¬ (gone r ∨ p r = false)) =
      (shown.filter fun r => ¬ gone r).filter p := by
    rw [List.filter_filter]
    apply List.filter_congr
    intro x _
    cases p x <;> simp
  unfold InStep
  rw [hboth]
  exact List.IsPrefix.filter p h

theorem InStep.eraseIdx (h : InStep gone shown l) (hi : shown[i]? = some r) (hr : gone r) :
    InStep gone (shown.eraseIdx i) l := by
  have hlt : i < shown.length := (List.getElem?_eq_some_iff.mp hi).1
  have hri : shown[i] = r := (List.getElem?_eq_some_iff.mp hi).2
  have hsplit : shown = shown.take i ++ r :: shown.drop (i + 1) := by
    rw [← hri, List.getElem_cons_drop, List.take_append_drop]
  have hsame : ((shown.eraseIdx i).filter fun r => ¬ gone r) =
      shown.filter fun r => ¬ gone r := by
    rw [List.eraseIdx_eq_take_drop_succ]
    conv_rhs => rw [hsplit]
    rw [List.filter_append, List.filter_append, List.filter_cons_of_neg (by simpa using hr)]
  unfold InStep
  rw [hsame]
  exact h

theorem InStep.take (h : InStep gone shown l) :
    ((shown.take i).filter fun r => ¬ gone r) <+: l :=
  (List.IsPrefix.filter _ (List.take_prefix i shown)).trans h

theorem InStep.getElem? (h : InStep gone shown l)
    (hall : ∀ j ≤ i, ∀ x, shown[j]? = some x → ¬ gone x) (hi : shown[i]? = some r) :
    l[i]? = some r := by
  have hlt : i < shown.length := (List.getElem?_eq_some_iff.mp hi).1
  have hkept : ((shown.take (i + 1)).filter fun r => ¬ gone r) = shown.take (i + 1) := by
    apply List.filter_eq_self.mpr
    intro x hx
    obtain ⟨j, hj, hjx⟩ := List.mem_take_iff_getElem.mp hx
    have hnot := hall j (by omega) x (List.getElem?_eq_some_iff.mpr ⟨by omega, hjx⟩)
    simpa using hnot
  have hpre : shown.take (i + 1) <+: l := hkept ▸ h.take
  have hget : (shown.take (i + 1))[i]? = some r := by
    rw [List.getElem?_take_of_lt (Nat.lt_succ_self i), hi]
  obtain ⟨later, rfl⟩ := hpre
  rw [List.getElem?_append_left (by rw [List.length_take]; omega), hget]

end Gone

section Unlisted
variable [DecidableEq R] {shown l : List R} {r : R} {i : ℕ}

theorem InStep.append_new (h : InStep (· ∉ l) shown l) (hr : r ∉ shown) :
    InStep (· ∉ l ++ [r]) shown (l ++ [r]) := by
  refine (h.append [r]).congr fun x hx => ?_
  have hne : x ≠ r := fun he => hr (he ▸ hx)
  simp [hne]

theorem InStep.filter_listed (h : InStep (· ∉ l) shown l) (p : R → Bool) :
    InStep (· ∉ l.filter p) shown (l.filter p) := by
  refine (h.filter p).congr fun x _ => ?_
  rw [List.mem_filter]
  cases p x <;> simp

theorem InStep.mem_of_getElem? (h : InStep (· ∉ l) shown l) (hl : l.Nodup)
    (hi : shown[i]? = some r) (hget : l[i]? = some r) {j : ℕ} (hj : j ≤ i) {x : R}
    (hx : shown[j]? = some x) : x ∈ l := by
  set kept := (shown.take (i + 1)).filter fun r => ¬ r ∉ l with hkept
  have hrow : ∀ {k y}, k ≤ i → shown[k]? = some y → y ∈ shown.take (i + 1) := by
    intro k y hk hy
    rw [← List.getElem?_take_of_lt (Nat.lt_succ_of_le hk)] at hy
    exact List.mem_of_getElem? hy
  have hr : r ∈ kept :=
    List.mem_filter.mpr ⟨hrow le_rfl hi, by simpa using List.mem_of_getElem? hget⟩
  obtain ⟨k, hk, hkr⟩ := List.getElem_of_mem hr
  have hkl : k < l.length := lt_of_lt_of_le hk h.take.length_le
  have hil : i < l.length := (List.getElem?_eq_some_iff.mp hget).1
  have hki : l[k] = l[i] := by
    rw [← h.take.getElem hk, (List.getElem?_eq_some_iff.mp hget).2]
    exact hkr
  have hik : i = k := ((hl.getElem_inj_iff).mp hki).symm
  have hlen : (shown.take (i + 1)).length ≤ kept.length := by
    rw [List.length_take]
    omega
  have hall : kept = shown.take (i + 1) := List.filter_sublist.eq_of_length_le hlen
  have hxkept : x ∈ kept := hall ▸ hrow hj hx
  simpa using (List.mem_filter.mp hxkept).2

end Unlisted
end ShownRows
