import Mathlib.Data.List.Infix
import Mathlib.Tactic.Common

/-! The non-empty pieces of a list between separators. Where no two separators meet, only the ones
at the ends cost a piece. -/

namespace Segments
variable {α : Type} [DecidableEq α] (c : α)

def segments (l : List α) : List (List α) := (l.splitOn c).filter (· ≠ [])

def ends (l : List α) : ℕ :=
  (if l.head? = some c then 1 else 0) + (if l.getLast? = some c then 1 else 0)

theorem segments_sep (l : List α) : segments c (c :: l) = segments c l := by
  unfold segments
  rw [List.splitOn_cons_eq_if_modifyHead, if_pos (beq_self_eq_true c)]
  simp

variable {c}

theorem splitOn_cons_ne {a : α} (ha : a ≠ c) (l : List α) :
    ∃ piece rest, l.splitOn c = piece :: rest ∧ (a :: l).splitOn c = (a :: piece) :: rest := by
  obtain ⟨piece, rest, hl⟩ := List.exists_cons_of_ne_nil (List.splitOn_ne_nil c l)
  refine ⟨piece, rest, hl, ?_⟩
  rw [List.splitOn_cons_eq_if_modifyHead, if_neg (by simpa using ha), hl, List.modifyHead_cons]

theorem length_segments_start {a : α} (ha : a ≠ c) (l : List α) :
    (segments c (a :: c :: l)).length = (segments c (c :: l)).length + 1 := by
  obtain ⟨piece, rest, hl, hcons⟩ := splitOn_cons_ne ha (c :: l)
  have hpiece : piece = [] := by
    rw [List.splitOn_cons_eq_if_modifyHead, if_pos (beq_self_eq_true c)] at hl
    exact (List.cons.inj hl).1.symm
  unfold segments
  rw [hl, hcons, hpiece]
  simp

theorem length_segments_inside {a b : α} (ha : a ≠ c) (hb : b ≠ c) (l : List α) :
    (segments c (a :: b :: l)).length = (segments c (b :: l)).length := by
  obtain ⟨piece, rest, -, hb'⟩ := splitOn_cons_ne hb l
  obtain ⟨piece', rest', hb'', ha'⟩ := splitOn_cons_ne ha (b :: l)
  obtain ⟨rfl, rfl⟩ := List.cons.inj (hb'.symm.trans hb'')
  unfold segments
  rw [ha', hb']
  simp

theorem length_segments (l : List α) (hl : l ≠ []) (hc : ¬ [c, c] <:+: l) :
    (segments c l).length + ends c l = l.count c + 1 := by
  induction l with
  | nil => exact (hl rfl).elim
  | cons a l ih =>
    cases l with
    | nil =>
      by_cases ha : a = c
      · subst ha
        simp [segments, ends, List.splitOn_cons_eq_if_modifyHead]
      · simp [segments, ends, List.splitOn_cons_eq_if_modifyHead, ha]
    | cons b l =>
      have hrest : ¬ [c, c] <:+: b :: l := fun h => hc (h.trans (List.suffix_cons a _).isInfix)
      have hih := ih (List.cons_ne_nil b l) hrest
      have hends : ∀ x : α, ends c (x :: b :: l) =
          (if x = c then 1 else 0) + (if (b :: l).getLast? = some c then 1 else 0) := by
        intro x
        simp [ends, List.getLast?_cons_cons]
      have hends' : ends c (b :: l) =
          (if b = c then 1 else 0) + (if (b :: l).getLast? = some c then 1 else 0) := by
        simp [ends]
      rw [hends'] at hih
      rw [hends a]
      by_cases ha : a = c
      · -- the next one is no separator, so nothing is lost twice
        have hb : b ≠ c := by
          intro hb
          apply hc
          rw [ha, hb]
          exact (List.prefix_append [c, c] l).isInfix
        subst ha
        rw [segments_sep, List.count_cons_self, if_pos rfl]
        rw [if_neg hb] at hih
        omega
      · rw [List.count_cons_of_ne ha, if_neg ha]
        by_cases hb : b = c
        · subst hb
          rw [length_segments_start ha]
          rw [if_pos rfl] at hih
          omega
        · rw [length_segments_inside ha hb]
          rw [if_neg hb] at hih
          omega

theorem odd_segments_iff {l : List α} (hl : l ≠ []) (hc : ¬ [c, c] <:+: l) :
    (segments c l).length % 2 = 1 ↔ (l.count c + ends c l) % 2 = 0 := by
  have hlen := length_segments l hl hc
  omega

end Segments
