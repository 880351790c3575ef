import Mathlib.Logic.Function.Basic
import Mathlib.Data.List.Basic

/-! Programs of the clients of a keyed store, cut into turns by their asynchronous reads. -/

namespace Interleaving

/-- `ask` looks at the device the program runs on, `add` chooses a new key, and whatever follows
a `read` is a callback: it gets `none` when the read fails. -/
inductive Prog (K D E A : Type) (α : Type) : Type where
  | pure (a : α)
  | trap
  | ask (next : E → Prog K D E A α)
  | write (k : K) (f : Option D → Option D) (next : Prog K D E A α)
  | add (key : A → K) (d : D) (next : A → Prog K D E A α)
  | read (k : K) (next : Option (Option D) → Prog K D E A α)

namespace Prog
variable {K D E A α β : Type}

def bind : Prog K D E A α → (α → Prog K D E A β) → Prog K D E A β
  | .pure a, g => g a
  | .trap, _ => .trap
  | .ask n, g => .ask fun e => (n e).bind g
  | .write k f n, g => .write k f (n.bind g)
  | .add key d n, g => .add key d fun a => (n a).bind g
  | .read k n, g => .read k fun r => (n r).bind g

instance : Monad (Prog K D E A) where
  pure := .pure
  bind := bind

/-- A value that must be there: a failed cast or assertion stops the program. -/
def force : Option α → Prog K D E A α
  | some a => .pure a
  | none => .trap

def look : Prog K D E A E := .ask .pure

@[simp] theorem look_bind (g : E → Prog K D E A α) : (look >>= g) = .ask g := rfl
@[simp] theorem pure_bind (a : α) (g : α → Prog K D E A β) : (Pure.pure a >>= g) = g a := rfl
@[simp] theorem pure_eq (a : α) : (Pure.pure a : Prog K D E A α) = .pure a := rfl
@[simp] theorem bind_pure_con (a : α) (g : α → Prog K D E A β) : (.pure a >>= g) = g a := rfl
@[simp] theorem bind_trap (g : α → Prog K D E A β) : ((.trap : Prog K D E A α) >>= g) = .trap := rfl
@[simp] theorem bind_ask (n : E → Prog K D E A α) (g : α → Prog K D E A β) :
    (.ask n >>= g) = .ask fun e => n e >>= g := rfl
@[simp] theorem bind_write (k : K) (f : Option D → Option D) (n : Prog K D E A α)
    (g : α → Prog K D E A β) : (.write k f n >>= g) = .write k f (n >>= g) := rfl
@[simp] theorem bind_add (key : A → K) (d : D) (n : A → Prog K D E A α)
    (g : α → Prog K D E A β) : (.add key d n >>= g) = .add key d fun a => n a >>= g := rfl
@[simp] theorem bind_read (k : K) (n : Option (Option D) → Prog K D E A α)
    (g : α → Prog K D E A β) : (.read k n >>= g) = .read k fun r => n r >>= g := rfl
@[simp] theorem force_some (a : α) : (force (some a) : Prog K D E A α) = .pure a := rfl
@[simp] theorem force_none : (force none : Prog K D E A α) = .trap := rfl

variable [DecidableEq K]

/-- One turn: everything up to the next read, on a device in state `e`. -/
def turn (e : E) : (ℕ → A) → Prog K D E A α → (K → Option D) → (K → Option D) × Prog K D E A α
  | ids, .ask n, σ => turn e ids (n e) σ
  | ids, .write k f n, σ => turn e ids n (Function.update σ k (f (σ k)))
  | ids, .add key d n, σ =>
    turn e (fun i => ids (i + 1)) (n (ids 0)) (Function.update σ (key (ids 0)) (some d))
  | _, p, σ => (σ, p)

def FreshFor (Fresh : (K → Option D) → A → Prop) (e : E) :
    (ℕ → A) → Prog K D E A α → (K → Option D) → Prop
  | ids, .ask n, σ => FreshFor Fresh e ids (n e) σ
  | ids, .write k f n, σ => FreshFor Fresh e ids n (Function.update σ k (f (σ k)))
  | ids, .add key d n, σ => Fresh σ (ids 0) ∧
    FreshFor Fresh e (fun i => ids (i + 1)) (n (ids 0))
      (Function.update σ (key (ids 0)) (some d))
  | _, _, _ => True

def Runnable : Prog K D E A α → Prop
  | .ask _ => True
  | .write _ _ _ => True
  | .add _ _ _ => True
  | _ => False

def addedKeys (e : E) : (ℕ → A) → Prog K D E A α → (K → Option D) → List K
  | ids, .ask n, σ => addedKeys e ids (n e) σ
  | ids, .write k f n, σ => addedKeys e ids n (Function.update σ k (f (σ k)))
  | ids, .add key d n, σ => key (ids 0) ::
    addedKeys e (fun i => ids (i + 1)) (n (ids 0)) (Function.update σ (key (ids 0)) (some d))
  | _, _, _ => []

/-- On every path to its end the program adds at most `b` keys. -/
def AddsLe : ℕ → Prog K D E A α → Prop
  | b, .ask n => ∀ e, AddsLe b (n e)
  | b, .write _ _ n => AddsLe b n
  | b, .add _ _ n => ∃ c, b = c + 1 ∧ ∀ a, AddsLe c (n a)
  | b, .read _ n => ∀ r, AddsLe b (n r)
  | _, _ => True

theorem AddsLe.turn {e : E} {p : Prog K D E A α} {b : ℕ} {ids : ℕ → A} {σ : K → Option D}
    (h : AddsLe b p) :
    ∃ c, (addedKeys e ids p σ).length + c ≤ b ∧ AddsLe c (turn e ids p σ).2 := by
  induction p generalizing b ids σ with
  | pure a => exact ⟨b, by simp [addedKeys], trivial⟩
  | trap => exact ⟨b, by simp [addedKeys], trivial⟩
  | ask n ih => exact ih e (h e)
  | write k f n ih => exact ih h
  | add key d n ih =>
    obtain ⟨c, rfl, hc⟩ := h
    obtain ⟨c', hle, hc'⟩ := ih (ids 0) (hc (ids 0))
    refine ⟨c', ?_, hc'⟩
    show (_ :: addedKeys e _ _ _).length + c' ≤ c + 1
    rw [List.length_cons]
    omega
  | read k n ih => exact ⟨b, by simp [addedKeys], h⟩

theorem turn_map {e : E} (f : α → β) (ids : ℕ → A) (p : Prog K D E A α) (σ : K → Option D) :
    turn e ids (p >>= fun a => .pure (f a)) σ =
      ((turn e ids p σ).1, (turn e ids p σ).2 >>= fun a => .pure (f a)) := by
  induction p generalizing ids σ with
  | pure a => rfl
  | trap => rfl
  | ask n ih => exact ih e ids σ
  | write k g n ih => exact ih ids _
  | add key d n ih => exact ih (ids 0) _ _
  | read k n ih => rfl

theorem freshFor_map {Fresh : (K → Option D) → A → Prop} {e : E} (f : α → β) (ids : ℕ → A)
    (p : Prog K D E A α) (σ : K → Option D) :
    FreshFor Fresh e ids (p >>= fun a => .pure (f a)) σ ↔ FreshFor Fresh e ids p σ := by
  induction p generalizing ids σ with
  | pure a => exact Iff.rfl
  | trap => exact Iff.rfl
  | ask n ih => exact ih e ids σ
  | write k g n ih => exact ih ids _
  | add key d n ih => exact and_congr_right fun _ => ih (ids 0) _ _
  | read k n ih => exact Iff.rfl

def answer (ok : Bool) (σ : K → Option D) (k : K) : Option (Option D) :=
  if ok then some (σ k) else none

omit [DecidableEq K] in
theorem answer_eq_some {ok : Bool} {σ : K → Option D} {k : K} {v : Option D}
    (h : answer ok σ k = some v) : σ k = v := by
  unfold answer at h
  split_ifs at h
  exact Option.some.inj h

/-- A run to the end with nothing else going on, `ok` telling whether reads succeed.
The result is `none` when the program traps. -/
def exec (e : E) (ok : Bool) :
    (ℕ → A) → Prog K D E A α → (K → Option D) → (K → Option D) × Option α
  | _, .pure a, σ => (σ, some a)
  | _, .trap, σ => (σ, none)
  | ids, .ask n, σ => exec e ok ids (n e) σ
  | ids, .write k f n, σ => exec e ok ids n (Function.update σ k (f (σ k)))
  | ids, .add key d n, σ =>
    exec e ok (fun i => ids (i + 1)) (n (ids 0)) (Function.update σ (key (ids 0)) (some d))
  | ids, .read k n, σ => exec e ok ids (n (answer ok σ k)) σ

/-- A run with nothing else going on is a turn, the answer to its read, and the run of the
callback. The supply is constant here, so that each turn starts from the same one. -/
theorem exec_turn (e : E) (ok : Bool) (a : A) (p : Prog K D E A α) (σ : K → Option D) :
    exec e ok (fun _ => a) p σ =
      match turn e (fun _ => a) p σ with
      | (σ', .pure b) => (σ', some b)
      | (σ', .read k n) => exec e ok (fun _ => a) (n (answer ok σ' k)) σ'
      | (σ', _) => (σ', none) := by
  induction p generalizing σ with
  | pure b => rfl
  | trap => rfl
  | ask n ih => exact ih e σ
  | write k f n ih => exact ih (Function.update σ k (f (σ k)))
  | add key d n ih => exact ih a (Function.update σ (key a) (some d))
  | read k n ih => rfl

/-- The answer to a read while others work on the store: whether it comes, the store that it tells
of, and the store that the callback then finds. -/
structure Reply (K D : Type) where
  ok : Bool
  seen : K → Option D
  store : K → Option D

/-- A run to the end on the replies it gets, with the writes that it makes itself and its result,
`none` when the program traps. -/
def perform (e : E) : (ℕ → A) → (ℕ → Reply K D) → Prog K D E A α → (K → Option D) →
    List (K × Option D) × Option α
  | _, _, .pure a, _ => ([], some a)
  | _, _, .trap, _ => ([], none)
  | ids, replies, .ask n, σ => perform e ids replies (n e) σ
  | ids, replies, .write k f n, σ =>
    let later := perform e ids replies n (Function.update σ k (f (σ k)))
    ((k, f (σ k)) :: later.1, later.2)
  | ids, replies, .add key d n, σ =>
    let later := perform e (fun i => ids (i + 1)) replies (n (ids 0))
      (Function.update σ (key (ids 0)) (some d))
    ((key (ids 0), some d) :: later.1, later.2)
  | ids, replies, .read k n, _ =>
    perform e ids (fun i => replies (i + 1)) (n (answer (replies 0).ok (replies 0).seen k))
      (replies 0).store

end Prog
end Interleaving
