import Zeenoc.Library.Programs

/-! Rely–guarantee reasoning for interleaved programs over one store: turns are atomic, and
between the turns of one program the others may change the store as `Rely` allows. -/

namespace Interleaving
variable {K D E A α : Type} [DecidableEq K]

structure Protocol (K D A : Type) where
  Fresh : (K → Option D) → A → Prop
  Inv : (K → Option D) → Prop
  Rely : (K → Option D) → (K → Option D) → Prop
  Guar : (K → Option D) → (K → Option D) → Prop
  rely_refl : ∀ σ, Rely σ σ
  rely_trans : ∀ {σ₁ σ₂ σ₃}, Rely σ₁ σ₂ → Rely σ₂ σ₃ → Rely σ₁ σ₃
  guar_refl : ∀ σ, Guar σ σ

namespace Protocol
variable (P : Protocol K D A)
open Prog

/-- The program, in a turn that started from `σ₀` and has come to `σ`, ends this turn and all later
ones with the invariant and within the guarantee. -/
def Safe : Prog K D E A α → (K → Option D) → (K → Option D) → Prop
  | .pure _, σ₀, σ => P.Inv σ ∧ P.Guar σ₀ σ
  | .trap, σ₀, σ => P.Inv σ ∧ P.Guar σ₀ σ
  | .ask n, σ₀, σ => ∀ e, Safe (n e) σ₀ σ
  | .write k f n, σ₀, σ => Safe n σ₀ (Function.update σ k (f (σ k)))
  | .add key d n, σ₀, σ =>
    ∀ a, P.Fresh σ a → Safe (n a) σ₀ (Function.update σ (key a) (some d))
  -- answered in `σ₁`, resumed in `σ₂`
  | .read k n, σ₀, σ => P.Inv σ ∧ P.Guar σ₀ σ ∧
    ∀ σ₁, P.Rely σ σ₁ → P.Inv σ₁ → ∀ ok σ₂, P.Rely σ₁ σ₂ → P.Inv σ₂ →
      Safe (n (answer ok σ₁ k)) σ₂ σ₂

def Ready (p : Prog K D E A α) (σ : K → Option D) : Prop :=
  ∀ σ', P.Rely σ σ' → P.Inv σ' → P.Safe p σ' σ'

variable {P}

theorem Ready.rely {p : Prog K D E A α} {σ σ' : K → Option D} (h : P.Ready p σ)
    (hr : P.Rely σ σ') : P.Ready p σ' :=
  fun σ'' hr' hi => h σ'' (P.rely_trans hr hr') hi

theorem Ready.safe {p : Prog K D E A α} {σ : K → Option D} (h : P.Ready p σ) (hi : P.Inv σ) :
    P.Safe p σ σ := h σ (P.rely_refl σ) hi

theorem Ready.answered {k : K} {n : Option (Option D) → Prog K D E A α} {σ : K → Option D}
    (h : P.Ready (.read k n) σ) (hi : P.Inv σ) (ok : Bool) : P.Ready (n (answer ok σ k)) σ := by
  intro σ' hr hi'
  exact (h.safe hi).2.2 σ (P.rely_refl σ) hi ok σ' hr hi'

theorem ready_pure (a : α) (σ : K → Option D) : P.Ready (.pure a : Prog K D E A α) σ :=
  fun σ' _ hi => ⟨hi, P.guar_refl σ'⟩

theorem ready_trap (σ : K → Option D) : P.Ready (.trap : Prog K D E A α) σ :=
  fun σ' _ hi => ⟨hi, P.guar_refl σ'⟩

theorem Safe.map {β : Type} (f : α → β) {p : Prog K D E A α} {σ₀ σ : K → Option D}
    (h : P.Safe p σ₀ σ) : P.Safe (p >>= fun a => .pure (f a)) σ₀ σ := by
  induction p generalizing σ₀ σ with
  | pure a => exact h
  | trap => exact h
  | ask n ih => exact fun e => ih e (h e)
  | write k g n ih => exact ih h
  | add key d n ih => exact fun a ha => ih a (h a ha)
  | read k n ih =>
    exact ⟨h.1, h.2.1, fun σ₁ hr₁ hi₁ ok σ₂ hr₂ hi₂ => ih _ (h.2.2 σ₁ hr₁ hi₁ ok σ₂ hr₂ hi₂)⟩

theorem Safe.turn {e : E} {p : Prog K D E A α} {ids : ℕ → A} {σ₀ σ : K → Option D}
    (h : P.Safe p σ₀ σ) (hf : FreshFor P.Fresh e ids p σ) :
    P.Inv (turn e ids p σ).1 ∧ P.Guar σ₀ (turn e ids p σ).1 ∧
      P.Ready (turn e ids p σ).2 (turn e ids p σ).1 := by
  induction p generalizing ids σ with
  | pure a => exact ⟨h.1, h.2, ready_pure a σ⟩
  | trap => exact ⟨h.1, h.2, ready_trap σ⟩
  | ask n ih => exact ih e (h e) hf
  | write k f n ih => exact ih h hf
  | add key d n ih => exact ih (ids 0) (h _ hf.1) hf.2
  | read k n ih =>
    refine ⟨h.1, h.2.1, fun σ' hr hi => ⟨hi, P.guar_refl σ', ?_⟩⟩
    intro σ₁ hr₁ hi₁ ok σ₂ hr₂ hi₂
    exact h.2.2 σ₁ (P.rely_trans hr hr₁) hi₁ ok σ₂ hr₂ hi₂

end Protocol

section Threads
variable {P : Protocol K D A}

structure Threads (K D E A α : Type) where
  store : K → Option D
  pending : List (Prog K D E A α)

namespace Threads

inductive Step (Fresh : (K → Option D) → A → Prop) :
    Threads K D E A α → Threads K D E A α → Prop
  | answer {c : Threads K D E A α} {i k n} (ok : Bool) (h : c.pending[i]? = some (.read k n)) :
      Step Fresh c { c with pending := c.pending.set i (n (Prog.answer ok c.store k)) }
  | resume {c : Threads K D E A α} {i p} (e : E) (ids : ℕ → A) (h : c.pending[i]? = some p)
      (hf : Prog.FreshFor Fresh e ids p c.store) :
      Step Fresh c
        { store := (Prog.turn e ids p c.store).1
          pending := c.pending.set i (Prog.turn e ids p c.store).2 }

def Good (P : Protocol K D A) (c : Threads K D E A α) : Prop :=
  P.Inv c.store ∧ ∀ p ∈ c.pending, P.Ready p c.store

theorem Good.step {c c' : Threads K D E A α} (hg : ∀ {σ σ'}, P.Guar σ σ' → P.Rely σ σ')
    (h : Good P c) (hs : Step P.Fresh c c') : Good P c' ∧ P.Guar c.store c'.store := by
  cases hs with
  | answer ok hi =>
    refine ⟨⟨h.1, fun p hp => ?_⟩, P.guar_refl _⟩
    rcases List.mem_or_eq_of_mem_set hp with hp | rfl
    · exact h.2 p hp
    · exact (h.2 _ (List.mem_of_getElem? hi)).answered h.1 ok
  | resume e ids hi hf =>
    obtain ⟨hinv, hguar, hready⟩ := ((h.2 _ (List.mem_of_getElem? hi)).safe h.1).turn hf
    refine ⟨⟨hinv, fun p hp => ?_⟩, hguar⟩
    rcases List.mem_or_eq_of_mem_set hp with hp | rfl
    · exact (h.2 p hp).rely (hg hguar)
    · exact hready

theorem Good.spawn {c : Threads K D E A α} {σ : K → Option D} {p : Prog K D E A α}
    (h : Good P c) (hr : P.Rely c.store σ) (hi : P.Inv σ) (hp : P.Ready p σ) :
    Good P { store := σ, pending := p :: c.pending } := by
  refine ⟨hi, fun q hq => ?_⟩
  rcases List.mem_cons.mp hq with rfl | hq
  · exact hp
  · exact (h.2 q hq).rely hr

end Threads
end Threads
end Interleaving
