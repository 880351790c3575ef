import Mathlib.Data.List.Basic
import Mathlib.Tactic.Common

/-! Regular expressions with look-aheads: what a pattern matches between what comes before and what
comes after. -/

namespace Patterns

inductive Regex (α : Type) where
  | start
  | one (p : α → Bool)
  | seq (r r' : Regex α)
  | atLeast (n : ℕ) (r : Regex α)
  | ahead (r : Regex α)

section Iterate
variable {α : Type}

def iterate (R : List α → List α → List α → Prop) : ℕ → List α → List α → List α → Prop
  | 0, _, m, _ => m = []
  | k + 1, b, m, a => ∃ m₁ m₂, m = m₁ ++ m₂ ∧ R b m₁ (m₂ ++ a) ∧ iterate R k (b ++ m₁) m₂ a

end Iterate

namespace Regex
variable {α : Type}

/-- The pattern matches `m`, with `b` before it and `a` after it in the subject. -/
def Match : Regex α → List α → List α → List α → Prop
  | .start, b, m, _ => b = [] ∧ m = []
  | .one p, _, m, _ => ∃ c, m = [c] ∧ p c = true
  | .seq r r', b, m, a => ∃ m₁ m₂, m = m₁ ++ m₂ ∧ Match r b m₁ (m₂ ++ a) ∧ Match r' (b ++ m₁) m₂ a
  | .atLeast n r, b, m, a => ∃ k, n ≤ k ∧ iterate (Match r) k b m a
  | .ahead r, b, m, a => m = [] ∧ ∃ m₁ m₂, a = m₁ ++ m₂ ∧ Match r b m₁ m₂

def Matches (r : Regex α) (l : List α) : Prop := Match r [] l []

variable {p q : α → Bool} {r : Regex α} {b m a : List α}

theorem iterate_one {k : ℕ} :
    iterate (Match (.one p)) k b m a ↔ m.length = k ∧ ∀ c ∈ m, p c = true := by
  induction k generalizing b m with
  | zero =>
    rw [List.length_eq_zero_iff]
    exact ⟨fun h => ⟨h, fun c hc => by rw [show m = [] from h] at hc; cases hc⟩, fun h => h.1⟩
  | succ k ih =>
    constructor
    · rintro ⟨m₁, m₂, hm, ⟨c, hc, hp⟩, hrest⟩
      obtain ⟨hlen, hall⟩ := ih.mp hrest
      subst hm hc
      exact ⟨by simpa using hlen, by simpa using ⟨hp, hall⟩⟩
    · rintro ⟨hlen, hall⟩
      cases m with
      | nil => cases hlen
      | cons c m =>
        have hp : p c = true := hall c List.mem_cons_self
        refine ⟨[c], m, rfl, ⟨c, rfl, hp⟩, ih.mpr ⟨by simpa using hlen, fun x hx => ?_⟩⟩
        exact hall x (List.mem_cons_of_mem c hx)

theorem match_class {n : ℕ} :
    Match (.atLeast n (.one p)) b m a ↔ n ≤ m.length ∧ ∀ c ∈ m, p c = true := by
  constructor
  · rintro ⟨k, hk, hiter⟩
    obtain ⟨rfl, hall⟩ := iterate_one.mp hiter
    exact ⟨hk, hall⟩
  · rintro ⟨hlen, hall⟩
    exact ⟨m.length, hlen, iterate_one.mpr ⟨rfl, hall⟩⟩

theorem match_ahead_seq {r' : Regex α} :
    Match (.seq (.ahead r) r') b m a ↔ Match (.ahead r) b [] (m ++ a) ∧ Match r' b m a := by
  constructor
  · rintro ⟨m₁, m₂, rfl, hahead, hrest⟩
    obtain rfl := hahead.1
    rw [List.append_nil] at hrest
    exact ⟨hahead, hrest⟩
  · rintro ⟨hahead, hrest⟩
    exact ⟨[], m, rfl, hahead, by rwa [List.append_nil]⟩

theorem matches_start_seq {l : List α} : Matches (.seq .start r) l ↔ Matches r l := by
  constructor
  · rintro ⟨m₁, m₂, rfl, ⟨-, rfl⟩, hrest⟩
    exact hrest
  · exact fun h => ⟨[], l, rfl, ⟨rfl, rfl⟩, h⟩

/-- `.*[p]` looked for ahead, where the dot stands for `q`. -/
theorem match_ahead_class :
    Match (.ahead (.seq (.atLeast 0 (.one q)) (.one p))) b [] a ↔
      ∃ a₁ c a₂, a = a₁ ++ c :: a₂ ∧ (∀ x ∈ a₁, q x = true) ∧ p c = true := by
  constructor
  · rintro ⟨-, m, a₂, ha, a₁, -, rfl, hmany, c, rfl, hp⟩
    refine ⟨a₁, c, a₂, by rw [ha, List.append_assoc]; rfl, (match_class.mp hmany).2, hp⟩
  · rintro ⟨a₁, c, a₂, ha, hall, hp⟩
    refine ⟨rfl, a₁ ++ [c], a₂, by rw [ha, List.append_assoc]; rfl, a₁, [c], rfl, ?_, c, rfl, hp⟩
    exact match_class.mpr ⟨Nat.zero_le _, hall⟩

theorem match_ahead_class_of_forall (h : ∀ x ∈ a, q x = true) :
    Match (.ahead (.seq (.atLeast 0 (.one q)) (.one p))) b [] a ↔ a.any p = true := by
  rw [match_ahead_class, List.any_eq_true]
  constructor
  · rintro ⟨a₁, c, a₂, rfl, -, hp⟩
    exact ⟨c, by simp, hp⟩
  · rintro ⟨c, hc, hp⟩
    obtain ⟨a₁, a₂, rfl⟩ := List.append_of_mem hc
    exact ⟨a₁, c, a₂, rfl, fun x hx => h x (List.mem_append_left _ hx), hp⟩

end Regex
end Patterns
