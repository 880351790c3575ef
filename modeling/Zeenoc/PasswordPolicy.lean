import Zeenoc.Library.Regex
import Zeenoc.SignUpVC

/-! The pattern of `isPasswordValid`, and the rule that the sign-up screen tells the user. -/

namespace Zeenoc.Utilities
open Patterns

def lineEnds : List ℕ := [0xA, 0xB, 0xC, 0xD, 0x85, 0x2028, 0x2029]

/-- The dot stops at the line ends. -/
def isDot (c : Char) : Bool := c.toNat ∉ lineEnds

/-- `[A-Za-z\d$@$#!%*?&]`. -/
def isAdmitted (c : Char) : Bool := c.isAlpha || isDigit c || isSpecial c

/-- `(?=.*[p])`. -/
def lookAhead (p : Char → Bool) : Regex Char :=
  .ahead (.seq (.atLeast 0 (.one isDot)) (.one p))

/-- `^(?=.*[a-z])(?=.*[$@$#!%*?&])[A-Za-z\d$@$#!%*?&]{8,}`. -/
def passwordTest : Regex Char :=
  .seq .start (.seq (lookAhead Char.isLower) (.seq (lookAhead isSpecial)
    (.atLeast 8 (.one isAdmitted))))

def spaces : List ℕ :=
  List.range' 0x9 5 ++ [0x20, 0x85, 0xA0, 0x1680, 0x2028, 0x2029, 0x202F, 0x205F, 0x3000] ++
    List.range' 0x2000 11

theorem mem_spaces {c : Char} (h : isWhitespaceOrNewline c = true) : c.toNat ∈ spaces := by
  simp only [isWhitespaceOrNewline, Bool.or_eq_true, Bool.and_eq_true, decide_eq_true_eq] at h
  rw [spaces, List.mem_append, List.mem_append, List.mem_range'_1, List.mem_range'_1]
  rcases h with (hcontrol | hlisted) | hsized
  · exact .inl (.inl ⟨hcontrol.1, by omega⟩)
  · exact .inl (.inr hlisted)
  · exact .inr ⟨hsized.1, by omega⟩

/-- The class admits no space and no line end, so trimming leaves an admitted string alone and the
dot reaches all of it. -/
theorem not_isWhitespaceOrNewline {c : Char} (h : isAdmitted c = true) :
    isWhitespaceOrNewline c = false := by
  by_contra hspace
  rw [Bool.not_eq_false] at hspace
  have hnone : ∀ n ∈ spaces, isAdmitted (Char.ofNat n) = false := by decide
  have hc := hnone _ (mem_spaces hspace)
  rw [Char.ofNat_toNat, h] at hc
  cases hc

theorem isDot_of_isAdmitted {c : Char} (h : isAdmitted c = true) : isDot c = true := by
  by_contra hdot
  rw [isDot, decide_eq_true_iff, not_not] at hdot
  have hspace : ∀ n ∈ lineEnds, isWhitespaceOrNewline (Char.ofNat n) = true := by decide
  have hc := hspace _ hdot
  rw [Char.ofNat_toNat, not_isWhitespaceOrNewline h] at hc
  cases hc

theorem matches_iff (s : String) :
    passwordTest.Matches s.toList ↔ isPasswordValid s = true := by
  have hvalid : isPasswordValid s = true ↔ (s.toList.any Char.isLower = true ∧
      s.toList.any isSpecial = true) ∧ (∀ c ∈ s.toList, isAdmitted c = true) ∧
        8 ≤ s.toList.length := by
    simp [isPasswordValid, isAdmitted, and_assoc]
  rw [passwordTest, Regex.matches_start_seq, Regex.Matches, lookAhead, lookAhead,
    Regex.match_ahead_seq, Regex.match_ahead_seq, Regex.match_class, List.append_nil, hvalid]
  constructor
  · rintro ⟨hlower, hspecial, hlen, hall⟩
    have hdot : ∀ c ∈ s.toList, isDot c = true := fun c hc => isDot_of_isAdmitted (hall c hc)
    rw [Regex.match_ahead_class_of_forall hdot] at hlower hspecial
    exact ⟨⟨hlower, hspecial⟩, hall, hlen⟩
  · rintro ⟨⟨hlower, hspecial⟩, hall, hlen⟩
    have hdot : ∀ c ∈ s.toList, isDot c = true := fun c hc => isDot_of_isAdmitted (hall c hc)
    rw [Regex.match_ahead_class_of_forall hdot, Regex.match_ahead_class_of_forall hdot]
    exact ⟨hlower, hspecial, hlen, hall⟩

instance (s : String) : Decidable (passwordTest.Matches s.toList) :=
  decidable_of_iff _ (matches_iff s).symm

section Policy

/-- What the screen asks for: 8 characters, a number, a special character. -/
structure Policy (s : String) : Prop where
  length : 8 ≤ s.toList.length
  number : s.toList.any isDigit = true
  special : s.toList.any isSpecial = true

def Admitted (s : String) : Prop := ∀ c ∈ s.toList, isAdmitted c = true

instance (s : String) : Decidable (Admitted s) :=
  decidable_of_iff (s.toList.all isAdmitted = true) List.all_eq_true

/-- Nothing but letters and digits is left to ask for. -/
structure Candidate (s : String) : Prop where
  length : 8 ≤ s.toList.length
  special : s.toList.any isSpecial = true
  admitted : Admitted s

structure PolicyEnforced (s : String) : Prop where
  enough : isPasswordValid (trimmed s) = true → Policy (trimmed s)
  accepted : Admitted s → Policy s → isPasswordValid (trimmed s) = true

theorem isPasswordValid_iff (s : String) :
    isPasswordValid s = true ↔ Candidate s ∧ s.toList.any Char.isLower = true := by
  simp only [isPasswordValid, Bool.and_eq_true, decide_eq_true_eq, List.all_eq_true]
  exact ⟨fun h => ⟨⟨h.2, h.1.1.2, h.1.2⟩, h.1.1.1⟩,
    fun h => ⟨⟨⟨h.2, h.1.special⟩, h.1.admitted⟩, h.1.length⟩⟩

theorem dropWhile_whitespace {l : List Char} (h : ∀ c ∈ l, isAdmitted c = true) :
    l.dropWhile isWhitespaceOrNewline = l := by
  cases l with
  | nil => rfl
  | cons c l =>
    rw [List.dropWhile_cons_of_neg]
    rw [not_isWhitespaceOrNewline (h c List.mem_cons_self)]
    exact Bool.false_ne_true

theorem trimmed_of_admitted {s : String} (h : Admitted s) : trimmed s = s := by
  have hrev : ∀ c ∈ s.toList.reverse, isAdmitted c = true := by
    intro c hc
    exact h c (List.mem_reverse.mp hc)
  rw [trimmed, dropWhile_whitespace h, dropWhile_whitespace hrev, List.reverse_reverse,
    String.ofList_toList]

/-- The look-ahead for a small letter stands where one for a digit should. -/
theorem policyEnforced_iff (s : String) :
    PolicyEnforced s ↔
      (Candidate (trimmed s) → (trimmed s).toList.any Char.isLower = true →
        (trimmed s).toList.any isDigit = true) ∧
      (Candidate s → s.toList.any isDigit = true → s.toList.any Char.isLower = true) := by
  constructor
  · intro h
    refine ⟨fun hc hlower => (h.enough ((isPasswordValid_iff _).mpr ⟨hc, hlower⟩)).number,
      fun hc hdigit => ?_⟩
    have hvalid := h.accepted hc.admitted ⟨hc.length, hdigit, hc.special⟩
    rw [trimmed_of_admitted hc.admitted] at hvalid
    exact ((isPasswordValid_iff s).mp hvalid).2
  · rintro ⟨henough, haccepted⟩
    refine ⟨fun hvalid => ?_, fun hadmitted hpolicy => ?_⟩
    · obtain ⟨hc, hlower⟩ := (isPasswordValid_iff _).mp hvalid
      exact ⟨hc.length, henough hc hlower, hc.special⟩
    · have hc : Candidate s := ⟨hpolicy.length, hpolicy.special, hadmitted⟩
      rw [trimmed_of_admitted hadmitted]
      exact (isPasswordValid_iff s).mpr ⟨hc, haccepted hc hpolicy.number⟩

/-- The sign-up goes on exactly when the pattern matches and the names and the email are there; the
last of the comparisons with the empty text is never reached. -/
theorem validateFields_eq_none_iff (form : SignUpVC.Form) :
    SignUpVC.validateFields form = none ↔ passwordTest.Matches (trimmed form.password).toList ∧
      trimmed form.firstName ≠ "" ∧ trimmed form.lastName ≠ "" ∧ trimmed form.email ≠ "" := by
  rw [matches_iff]
  unfold SignUpVC.validateFields
  cases hvalid : isPasswordValid (trimmed form.password) with
  | false => simp
  | true =>
    have hpassword : trimmed form.password ≠ "" := by
      intro hempty
      rw [hempty] at hvalid
      exact absurd hvalid (by decide)
    simp [hpassword, not_or]

theorem policy_not_enforced :
    ¬ PolicyEnforced "abcdefg!" ∧ ¬ PolicyEnforced "ABCDEFG1!" ∧
      SignUpVC.validateFields ⟨"F", "N", "E", "abcdefg!"⟩ = none ∧
      SignUpVC.validateFields ⟨"F", "N", "E", "ABCDEFG1!"⟩ =
        some "Password must contain: 8 characters, a number, special character" := by
  refine ⟨fun h => ?_, fun h => ?_, by decide, by decide⟩
  · exact absurd (h.enough (by decide)).number (by decide)
  · exact absurd (h.accepted (by decide) ⟨by decide, by decide, by decide⟩) (by decide)

end Policy
end Zeenoc.Utilities
