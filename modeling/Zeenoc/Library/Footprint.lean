import Zeenoc.Library.Programs
import Zeenoc.Library.Runs

/-! Two programs that run at once over one store, operation by operation. Where neither touches a
key of the other, every interleaving ends as one program after the other does. -/

namespace Interleaving
variable {K D E A α : Type}

structure Party (K D E A α : Type) where
  device : E
  ok : Bool
  ids : ℕ → A
  prog : Prog K D E A α

namespace Prog

/-- The keys that the program reads or writes, whatever its reads find. -/
def Touches (e : E) : (ℕ → A) → Prog K D E A α → K → Prop
  | ids, .ask n, k => Touches e ids (n e) k
  | ids, .write k' _ n, k => k = k' ∨ Touches e ids n k
  | ids, .add key _ n, k => k = key (ids 0) ∨ Touches e (fun i => ids (i + 1)) (n (ids 0)) k
  | ids, .read k' n, k => k = k' ∨ ∃ r, Touches e ids (n r) k
  | _, _, _ => False

variable [DecidableEq K] {e : E} {ok : Bool} {k : K}

theorem exec_frame {ids : ℕ → A} {p : Prog K D E A α} {σ : K → Option D}
    (hk : ¬ Touches e ids p k) : (exec e ok ids p σ).1 k = σ k := by
  induction p generalizing ids σ with
  | pure a => rfl
  | trap => rfl
  | ask n ih => exact ih e hk
  | write k' f n ih =>
    obtain ⟨hne, hrest⟩ := not_or.mp hk
    exact (ih hrest).trans (Function.update_of_ne hne _ _)
  | add key d n ih =>
    obtain ⟨hne, hrest⟩ := not_or.mp hk
    exact (ih _ hrest).trans (Function.update_of_ne hne _ _)
  | read k' n ih =>
    obtain ⟨-, hrest⟩ := not_or.mp hk
    exact ih _ fun h => hrest ⟨_, h⟩

theorem exec_congr {ids : ℕ → A} {p : Prog K D E A α} {σ τ : K → Option D}
    (hστ : ∀ k, Touches e ids p k → σ k = τ k) (hk : Touches e ids p k) :
    (exec e ok ids p σ).1 k = (exec e ok ids p τ).1 k := by
  induction p generalizing ids σ τ with
  | pure a => exact hk.elim
  | trap => exact hk.elim
  | ask n ih => exact ih e hστ hk
  | write k' f n ih =>
    have hsame : σ k' = τ k' := hστ k' (.inl rfl)
    have hrest : ∀ j, (j = k' ∨ Touches e ids n j) →
        Function.update σ k' (f (σ k')) j = Function.update τ k' (f (τ k')) j := by
      intro j hj
      by_cases hjk : j = k'
      · rw [hjk, Function.update_self, Function.update_self, hsame]
      · rw [Function.update_of_ne hjk, Function.update_of_ne hjk]
        exact hστ j hj
    by_cases hn : Touches e ids n k
    · exact ih (fun j hj => hrest j (.inr hj)) hn
    · show (exec e ok ids n _).1 k = (exec e ok ids n _).1 k
      rw [exec_frame hn, exec_frame hn]
      exact hrest k hk
  | add key d n ih =>
    have hrest : ∀ j, (j = key (ids 0) ∨ Touches e (fun i => ids (i + 1)) (n (ids 0)) j) →
        Function.update σ (key (ids 0)) (some d) j =
          Function.update τ (key (ids 0)) (some d) j := by
      intro j hj
      by_cases hjk : j = key (ids 0)
      · rw [hjk, Function.update_self, Function.update_self]
      · rw [Function.update_of_ne hjk, Function.update_of_ne hjk]
        exact hστ j hj
    by_cases hn : Touches e (fun i => ids (i + 1)) (n (ids 0)) k
    · exact ih (ids 0) (fun j hj => hrest j (.inr hj)) hn
    · show (exec e ok _ (n (ids 0)) _).1 k = (exec e ok _ (n (ids 0)) _).1 k
      rw [exec_frame hn, exec_frame hn]
      exact hrest k hk
  | read k' n ih =>
    have hans : answer ok σ k' = answer ok τ k' := by
      unfold answer
      rw [hστ k' (.inl rfl)]
    show (exec e ok ids (n (answer ok σ k')) σ).1 k = (exec e ok ids (n (answer ok τ k')) τ).1 k
    rw [hans]
    by_cases hn : Touches e ids (n (answer ok τ k')) k
    · exact ih _ (fun j hj => hστ j (.inr ⟨_, hj⟩)) hn
    · rw [exec_frame hn, exec_frame hn]
      exact hστ k hk

end Prog

namespace Party
variable [DecidableEq K] {p p' : Party K D E A α} {σ σ' : K → Option D} {k : K}

def Touches (p : Party K D E A α) (k : K) : Prop := p.prog.Touches p.device p.ids k

/-- The store that the party leaves when it runs to its end with nothing else going on. -/
def exec (p : Party K D E A α) (σ : K → Option D) : K → Option D :=
  (p.prog.exec p.device p.ok p.ids σ).1

/-- One operation; `none` when the program has ended, by itself or in a trap. -/
def next (p : Party K D E A α) (σ : K → Option D) :
    Option (Party K D E A α × (K → Option D)) :=
  match p.prog with
  | .pure _ => none
  | .trap => none
  | .ask n => some ({ p with prog := n p.device }, σ)
  | .write k f n => some ({ p with prog := n }, Function.update σ k (f (σ k)))
  | .add key d n => some ({ p with ids := fun i => p.ids (i + 1), prog := n (p.ids 0) },
      Function.update σ (key (p.ids 0)) (some d))
  | .read k n => some ({ p with prog := n (Prog.answer p.ok σ k) }, σ)

theorem exec_frame (hk : ¬ p.Touches k) : p.exec σ k = σ k := Prog.exec_frame hk

theorem exec_congr (hσ : ∀ k, p.Touches k → σ k = σ' k) (hk : p.Touches k) :
    p.exec σ k = p.exec σ' k := Prog.exec_congr hσ hk

theorem next_exec (h : p.next σ = some (p', σ')) : p'.exec σ' = p.exec σ := by
  obtain ⟨e, ok, ids, prog⟩ := p
  cases prog with
  | pure a => cases h
  | trap => cases h
  | ask n => obtain ⟨rfl, rfl⟩ := Prod.mk.inj (Option.some.inj h); rfl
  | write k f n => obtain ⟨rfl, rfl⟩ := Prod.mk.inj (Option.some.inj h); rfl
  | add key d n => obtain ⟨rfl, rfl⟩ := Prod.mk.inj (Option.some.inj h); rfl
  | read k n => obtain ⟨rfl, rfl⟩ := Prod.mk.inj (Option.some.inj h); rfl

theorem exec_of_ended (h : p.next σ = none) : p.exec σ = σ := by
  obtain ⟨e, ok, ids, prog⟩ := p
  cases prog with
  | pure a => rfl
  | trap => rfl
  | ask n => cases h
  | write k f n => cases h
  | add key d n => cases h
  | read k n => cases h

theorem next_touches (h : p.next σ = some (p', σ')) :
    (∀ k, p'.Touches k → p.Touches k) ∧ ∀ k, ¬ p.Touches k → σ' k = σ k := by
  obtain ⟨e, ok, ids, prog⟩ := p
  cases prog with
  | pure a => cases h
  | trap => cases h
  | ask n =>
    obtain ⟨rfl, rfl⟩ := Prod.mk.inj (Option.some.inj h)
    exact ⟨fun _ hk => hk, fun _ _ => rfl⟩
  | write k f n =>
    obtain ⟨rfl, rfl⟩ := Prod.mk.inj (Option.some.inj h)
    exact ⟨fun _ hk => .inr hk, fun _ hk => Function.update_of_ne (fun he => hk (.inl he)) _ _⟩
  | add key d n =>
    obtain ⟨rfl, rfl⟩ := Prod.mk.inj (Option.some.inj h)
    exact ⟨fun _ hk => .inr hk, fun _ hk => Function.update_of_ne (fun he => hk (.inl he)) _ _⟩
  | read k n =>
    obtain ⟨rfl, rfl⟩ := Prod.mk.inj (Option.some.inj h)
    exact ⟨fun _ hk => .inr ⟨_, hk⟩, fun _ _ => rfl⟩

end Party

structure Pair (K D E A α : Type) where
  left : Party K D E A α
  right : Party K D E A α
  store : K → Option D

namespace Pair
variable [DecidableEq K]

inductive Side where
  | left
  | right

inductive Step : Pair K D E A α → Side → Pair K D E A α → Prop
  | left {c : Pair K D E A α} {p σ} (h : c.left.next c.store = some (p, σ)) :
      Step c .left ⟨p, c.right, σ⟩
  | right {c : Pair K D E A α} {p σ} (h : c.right.next c.store = some (p, σ)) :
      Step c .right ⟨c.left, p, σ⟩

abbrev Reaches (p q : Party K D E A α) (σ : K → Option D) : Pair K D E A α → Prop :=
  Runs.Reaches Step (fun _ _ => True) ⟨p, q, σ⟩

def Ended (c : Pair K D E A α) : Prop :=
  c.left.next c.store = none ∧ c.right.next c.store = none

variable {p q : Party K D E A α} {σ : K → Option D} {c c' : Pair K D E A α}

/-- What is left of each party, run alone from here, leads at its own keys to where the whole party
led from the start; at all other keys nothing has changed. -/
structure OnTheWay (p q : Party K D E A α) (σ : K → Option D) (c : Pair K D E A α) : Prop where
  left : ∀ k, c.left.Touches k → p.Touches k
  right : ∀ k, c.right.Touches k → q.Touches k
  leftEnd : ∀ k, p.Touches k → c.left.exec c.store k = p.exec σ k
  rightEnd : ∀ k, q.Touches k → c.right.exec c.store k = q.exec σ k
  others : ∀ k, ¬ p.Touches k → ¬ q.Touches k → c.store k = σ k

theorem OnTheWay.swap (h : OnTheWay p q σ c) : OnTheWay q p σ ⟨c.right, c.left, c.store⟩ :=
  ⟨h.right, h.left, h.rightEnd, h.leftEnd, fun k hq hp => h.others k hp hq⟩

theorem OnTheWay.next (hd : ∀ k, p.Touches k → ¬ q.Touches k) (h : OnTheWay p q σ c)
    {p' : Party K D E A α} {σ' : K → Option D} (hs : c.left.next c.store = some (p', σ')) :
    OnTheWay p q σ ⟨p', c.right, σ'⟩ := by
  obtain ⟨hless, hframe⟩ := Party.next_touches hs
  have hkept : ∀ k, ¬ p.Touches k → σ' k = c.store k :=
    fun k hk => hframe k fun h' => hk (h.left k h')
  have hright : ∀ k, q.Touches k → σ' k = c.store k := fun k hk => hkept k fun h' => hd k h' hk
  refine ⟨fun k hk => h.left k (hless k hk), h.right, fun k hk => ?_, fun k hk => ?_,
    fun k hp hq => (hkept k hp).trans (h.others k hp hq)⟩
  · show p'.exec σ' k = _
    rw [Party.next_exec hs]
    exact h.leftEnd k hk
  · show c.right.exec σ' k = _
    rw [← h.rightEnd k hk]
    by_cases hr : c.right.Touches k
    · exact Party.exec_congr (fun j hj => hright j (h.right j hj)) hr
    · rw [Party.exec_frame hr, Party.exec_frame hr]
      exact hright k hk

theorem onTheWay (hd : ∀ k, p.Touches k → ¬ q.Touches k) (h : Reaches p q σ c) :
    OnTheWay p q σ c := by
  have hstart : OnTheWay p q σ ⟨p, q, σ⟩ :=
    ⟨fun _ hk => hk, fun _ hk => hk, fun _ _ => rfl, fun _ _ => rfl, fun _ _ _ => rfl⟩
  refine Runs.Reaches.invariant hstart (fun c s c' hc _ hs => ?_) h
  cases hs with
  | left hs => exact hc.next hd hs
  | right hs => exact (hc.swap.next (fun k hq hp => hd k hp hq) hs).swap

theorem Reaches.frame (hd : ∀ k, p.Touches k → ¬ q.Touches k) (h : Reaches p q σ c) :
    (Step c .left c' → ∀ k, q.Touches k → c'.store k = c.store k) ∧
      (Step c .right c' → ∀ k, p.Touches k → c'.store k = c.store k) := by
  have hway := onTheWay hd h
  constructor
  · intro hs k hk
    cases hs with
    | left hs => exact (Party.next_touches hs).2 k fun hl => hd k (hway.left k hl) hk
  · intro hs k hk
    cases hs with
    | right hs => exact (Party.next_touches hs).2 k fun hr => hd k hk (hway.right k hr)

theorem exec_exec (hd : ∀ k, p.Touches k → ¬ q.Touches k) (k : K) :
    (p.Touches k → q.exec (p.exec σ) k = p.exec σ k) ∧
      (q.Touches k → q.exec (p.exec σ) k = q.exec σ k) ∧
      (¬ p.Touches k → ¬ q.Touches k → q.exec (p.exec σ) k = σ k) := by
  refine ⟨fun hp => Party.exec_frame (hd k hp), fun hq => ?_, fun hp hq => ?_⟩
  · exact Party.exec_congr (fun j hj => Party.exec_frame fun hp => hd j hp hj) hq
  · rw [Party.exec_frame hq, Party.exec_frame hp]

theorem Reaches.end_eq (hd : ∀ k, p.Touches k → ¬ q.Touches k) (h : Reaches p q σ c)
    (hend : c.Ended) : c.store = q.exec (p.exec σ) ∧ c.store = p.exec (q.exec σ) := by
  have hway := onTheWay hd h
  have hd' : ∀ k, q.Touches k → ¬ p.Touches k := fun k hq hp => hd k hp hq
  have hp : ∀ k, p.Touches k → c.store k = p.exec σ k := by
    intro k hk
    rw [← hway.leftEnd k hk, Party.exec_of_ended hend.1]
  have hq : ∀ k, q.Touches k → c.store k = q.exec σ k := by
    intro k hk
    rw [← hway.rightEnd k hk, Party.exec_of_ended hend.2]
  constructor
  · funext k
    obtain ⟨hleft, hright, hnone⟩ := exec_exec (σ := σ) hd k
    by_cases hpk : p.Touches k
    · rw [hleft hpk, hp k hpk]
    by_cases hqk : q.Touches k
    · rw [hright hqk, hq k hqk]
    · rw [hnone hpk hqk, hway.others k hpk hqk]
  · funext k
    obtain ⟨hleft, hright, hnone⟩ := exec_exec (σ := σ) hd' k
    by_cases hqk : q.Touches k
    · rw [hleft hqk, hq k hqk]
    by_cases hpk : p.Touches k
    · rw [hright hpk, hp k hpk]
    · rw [hnone hqk hpk, hway.others k hpk hqk]

end Pair
end Interleaving
