import Mathlib.Data.List.Basic

/-! Runs of a system of labelled steps, with conditions on the steps taken. -/

namespace Runs
variable {S E : Type} {Step : S → E → S → Prop} {s₀ : S}

inductive Reaches (Step : S → E → S → Prop) (C : S → E → Prop) (s₀ : S) : S → Prop
  | start : Reaches Step C s₀ s₀
  | step {s s' : S} {e : E} (h : Reaches Step C s₀ s) (hc : C s e) (hs : Step s e s') :
      Reaches Step C s₀ s'

theorem Reaches.mono {C C' : S → E → Prop} (hC : ∀ s e, C s e → C' s e) {s : S}
    (h : Reaches Step C s₀ s) : Reaches Step C' s₀ s := by
  induction h with
  | start => exact .start
  | step _ hc hs ih => exact .step ih (hC _ _ hc) hs

theorem Reaches.invariant {C : S → E → Prop} {I : S → Prop} (h0 : I s₀)
    (hstep : ∀ s e s', I s → C s e → Step s e s' → I s') {s : S} (h : Reaches Step C s₀ s) :
    I s := by
  induction h with
  | start => exact h0
  | step _ hc hs ih => exact hstep _ _ _ ih hc hs

inductive Run (Step : S → E → S → Prop) (s₀ : S) : List E → S → Prop
  | start : Run Step s₀ [] s₀
  | step {es : List E} {s s' : S} {e : E} (h : Run Step s₀ es s) (hs : Step s e s') :
      Run Step s₀ (es ++ [e]) s'

theorem Run.invariant {I : List E → S → Prop} (h0 : I [] s₀)
    (hstep : ∀ es s e s', I es s → Step s e s' → I (es ++ [e]) s') {es : List E} {s : S}
    (h : Run Step s₀ es s) : I es s := by
  induction h with
  | start => exact h0
  | step _ hs ih => exact hstep _ _ _ _ ih hs

/-- The steps with a history variable, which `next` moves at each of them and which hinders none. -/
def Recorded {H : Type} (Step : S → E → S → Prop) (next : S → E → S → H → H) (w : S × H) (e : E)
    (w' : S × H) : Prop :=
  Step w.1 e w'.1 ∧ w'.2 = next w.1 e w'.1 w.2

theorem Run.recorded {H : Type} (next : S → E → S → H → H) (h₀ : H) {es : List E} {s : S}
    (h : Run Step s₀ es s) : ∃ past, Run (Recorded Step next) (s₀, h₀) es (s, past) := by
  induction h with
  | start => exact ⟨h₀, .start⟩
  | @step es s s' e _ hs ih =>
    obtain ⟨past, hrun⟩ := ih
    exact ⟨next s e s' past, .step hrun ⟨hs, rfl⟩⟩

end Runs
