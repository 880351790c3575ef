import Zeenoc.Library.Runs
import Mathlib.Data.List.Induction
import Mathlib.Data.List.Perm.Basic

/-! A table over a list that a listener changes: the list changes at once, the rows only when a
queued block, or the appearance of the screen, loads them again. -/

namespace TableView
variable {C E S R K : Type}

/-- The screen of a table. Its callback works on a batch and tells whether it came to its end, where
it queues the completion block. -/
structure Source (C S R : Type) where
  call : C → S → Option (S × Bool)
  rows : S → List R
  reloadsOnAppear : Bool

inductive Block where
  | completion
  | reload
  deriving DecidableEq

/-- `shown` are the rows that the table last loaded, less those that were deleted; `swipe` is the
open swipe, of one of the kinds `E`, with its row. -/
structure Table (E S R : Type) where
  content : S
  shown : List R
  queue : List Block
  swipe : Option (E × ℕ)

def unloaded (content : S) : Table E S R := ⟨content, [], [], none⟩

inductive Input (C E : Type) where
  | deliver (c : C)
  | block
  | appear
  | cell (row : ℕ)
  | swipe (e : E) (row : ℕ)
  | cancel
  | tap

namespace Source
variable (src : Source C S R)

def read (t : Table E S R) (row : ℕ) : Option R :=
  if row < t.shown.length then (src.rows t.content)[row]? else none

/-- `none` when the input cannot occur or the app traps: a subscript is out of range, or
`deleteRows` finds another number of entries than the rows less one. -/
def step (t : Table E S R) : Input C E → Option (Table E S R)
  | .deliver c => (src.call c t.content).map fun (s, ended) =>
      { t with content := s, queue := if ended then t.queue ++ [.completion] else t.queue }
  | .block =>
    match t.queue with
    | [] => none
    | .completion :: queue => some { t with queue := queue ++ [.reload] }
    | .reload :: queue => some { t with queue := queue, shown := src.rows t.content }
  | .appear => some { t with shown := if src.reloadsOnAppear then src.rows t.content else t.shown }
  | .cell row => (src.read t row).map fun _ => t
  | .swipe e row =>
    if t.swipe.isNone then (src.read t row).map fun _ => { t with swipe := some (e, row) } else none
  | .cancel => if t.swipe.isSome then some { t with swipe := none } else none
  | .tap => t.swipe.bind fun swiped =>
    if swiped.2 < t.shown.length ∧ (src.rows t.content).length + 1 = t.shown.length then
      some { t with swipe := none, shown := t.shown.eraseIdx swiped.2 }
    else none

def Step (t : Table E S R) (i : Input C E) (t' : Table E S R) : Prop := src.step t i = some t'

def Loads (t : Table E S R) : Input C E → Bool
  | .block => t.queue.head? = some .reload
  | .appear => src.reloadsOnAppear
  | _ => false

inductive Does (t : Table E S R) : Input C E → Table E S R → Prop
  | deliver {c s ended} (hcall : src.call c t.content = some (s, ended)) :
      Does t (.deliver c)
        { t with content := s, queue := if ended then t.queue ++ [.completion] else t.queue }
  | completion {queue} (hq : t.queue = .completion :: queue) :
      Does t .block { t with queue := queue ++ [.reload] }
  | reload {queue} (hq : t.queue = .reload :: queue) :
      Does t .block { t with queue := queue, shown := src.rows t.content }
  | appear : Does t .appear
      { t with shown := if src.reloadsOnAppear then src.rows t.content else t.shown }
  | cell (row : ℕ) : Does t (.cell row) t
  | swipe {e row r} (hopen : t.swipe.isNone) (hr : src.read t row = some r) :
      Does t (.swipe e row) { t with swipe := some (e, row) }
  | cancel : Does t .cancel { t with swipe := none }
  | tap {e row} (hswipe : t.swipe = some (e, row)) (hrow : row < t.shown.length) :
      Does t .tap { t with swipe := none, shown := t.shown.eraseIdx row }

variable {src} {t t' : Table E S R} {i : Input C E}

theorem read_eq {row : ℕ} (h : row < t.shown.length) :
    src.read t row = (src.rows t.content)[row]? := if_pos h

theorem step_does (hs : src.step t i = some t') : src.Does t i t' := by
  cases i with
  | deliver c =>
    obtain ⟨⟨s, ended⟩, hcall, rfl⟩ := Option.map_eq_some_iff.mp hs
    exact .deliver hcall
  | block =>
    rw [step] at hs
    split at hs
    next => cases hs
    next hq =>
      obtain rfl := Option.some.inj hs
      exact .completion hq
    next hq =>
      obtain rfl := Option.some.inj hs
      exact .reload hq
  | appear =>
    obtain rfl := Option.some.inj hs
    exact .appear
  | cell row =>
    obtain ⟨r, -, rfl⟩ := Option.map_eq_some_iff.mp hs
    exact .cell row
  | swipe e row =>
    rw [step] at hs
    split at hs
    next hopen =>
      obtain ⟨r, hr, rfl⟩ := Option.map_eq_some_iff.mp hs
      exact .swipe hopen hr
    next => cases hs
  | cancel =>
    rw [step] at hs
    split at hs
    next =>
      obtain rfl := Option.some.inj hs
      exact .cancel
    next => cases hs
  | tap =>
    obtain ⟨⟨e, row⟩, hswipe, hs⟩ := Option.bind_eq_some_iff.mp hs
    split at hs
    next hrow =>
      obtain rfl := Option.some.inj hs
      exact .tap hswipe hrow.1
    next => cases hs

end Source

/-- A source whose list has an entry for each key, with what its callback does: it comes to its end
on a `Whole` batch, lists the same keys after a `Still` one, and one less after one that takes
it. -/
structure Listener (C S R K : Type) [DecidableEq K] extends Source C S R where
  key : R → K
  Whole : C → S → Prop
  ends_of_whole : ∀ {c s s' b}, Whole c s → call c s = some (s', b) → b = true
  Still : C → Prop
  keys_of_still : ∀ {c s s' b}, Still c → call c s = some (s', b) →
    (rows s').map key = (rows s).map key
  Takes : C → K → Prop
  keys_of_takes : ∀ {c k s s' b}, Takes c k → call c s = some (s', b) →
    (rows s').map key = ((rows s).map key).erase k

namespace Listener
variable [DecidableEq K] (src : Listener C S R K)

/-- The batches delivered since the rows were loaded or one of them was deleted. -/
def since (t : Table E S R) (i : Input C E) (_ : Table E S R) (cs : List C) : List C :=
  match i with
  | .deliver c => cs ++ [c]
  | .tap => []
  | i => if src.Loads t i then [] else cs

abbrev Step : Table E S R × List C → Input C E → Table E S R × List C → Prop :=
  Runs.Recorded src.toSource.Step src.since

/-- A batch that may end the callback early comes while a block is queued; an action is tapped when
of the batches since one has taken the swiped entry and no other has added or removed any. -/
def InTime (w : Table E S R × List C) : Input C E → Prop
  | .deliver c => w.1.queue ≠ [] ∨ src.Whole c w.1.content
  | .tap => ∀ e row, w.1.swipe = some (e, row) → ∃ r before c after,
      w.1.shown[row]? = some r ∧ w.2 = before ++ c :: after ∧ src.Takes c (src.key r) ∧
        ∀ d ∈ before ++ after, src.Still d
  | _ => True

def keys (l : List R) : List K := l.map src.key

inductive Calls (s : S) : List C → S → Prop
  | nil : Calls s [] s
  | concat {cs c s' s'' b} (h : Calls s cs s') (hcall : src.call c s' = some (s'', b)) :
      Calls s (cs ++ [c]) s''

variable {src} {s s' : S}

theorem Calls.of_append {cs ds : List C} (h : src.Calls s (cs ++ ds) s') :
    ∃ s₁, src.Calls s cs s₁ ∧ src.Calls s₁ ds s' := by
  induction ds using List.reverseRecOn generalizing s' with
  | nil => exact ⟨s', by simpa using h, .nil⟩
  | append_singleton ds d ih =>
    rw [← List.append_assoc] at h
    generalize hes : cs ++ ds ++ [d] = es at h
    cases h with
    | nil => simp at hes
    | concat h hcall =>
      obtain ⟨rfl, hd⟩ := List.append_inj' hes rfl
      obtain rfl := List.cons.inj hd |>.1
      obtain ⟨s₁, h₁, h₂⟩ := ih h
      exact ⟨s₁, h₁, h₂.concat hcall⟩

theorem Calls.keys_of_still {cs : List C} (h : src.Calls s cs s') (hcs : ∀ c ∈ cs, src.Still c) :
    src.keys (src.rows s') = src.keys (src.rows s) := by
  induction h with
  | nil => rfl
  | concat h hcall ih =>
    have hc := hcs _ (List.mem_append_right _ List.mem_cons_self)
    exact (src.keys_of_still hc hcall).trans (ih fun c hc => hcs c (List.mem_append_left _ hc))

theorem Calls.keys_of_takes {before after : List C} {c : C} {k : K}
    (h : src.Calls s (before ++ c :: after) s') (hc : src.Takes c k)
    (hrest : ∀ d ∈ before ++ after, src.Still d) :
    src.keys (src.rows s') = (src.keys (src.rows s)).erase k := by
  rw [List.append_cons] at h
  obtain ⟨s₂, h₂, hafter⟩ := h.of_append
  generalize hcs : before ++ [c] = cs at h₂
  cases h₂ with
  | nil => simp at hcs
  | concat hbefore hcall =>
    obtain ⟨rfl, hlast⟩ := List.append_inj' hcs rfl
    obtain rfl := List.cons.inj hlast |>.1
    have htaken : src.keys (src.rows s₂) = (src.keys (src.rows _)).erase k :=
      src.keys_of_takes hc hcall
    rw [hafter.keys_of_still fun d hd => hrest d (List.mem_append_right _ hd), htaken,
      hbefore.keys_of_still fun d hd => hrest d (List.mem_append_left _ hd)]

section InStep

def Synced (src : Listener C S R K) (t : Table E S R) : Prop :=
  t.queue = [] → t.shown.length = (src.rows t.content).length

/-- The rows are as many as the entries while nothing is queued, and the batches since have made the
list from one with the keys of the rows. -/
structure InStep (src : Listener C S R K) (w : Table E S R × List C) : Prop where
  synced : src.Synced w.1
  calls : ∃ s, (src.keys (src.rows s)).Perm (src.keys w.1.shown) ∧
    src.Calls s w.2 w.1.content

theorem inStep_unloaded {content : S} (h : src.rows content = []) :
    src.InStep ((unloaded content, []) : Table E S R × List C) where
  synced _ := (congrArg List.length h).symm
  calls := ⟨content, by rw [h]; rfl, .nil⟩

variable {w w' : Table E S R × List C} {t t' : Table E S R} {i : Input C E}

theorem InStep.perm_of_tap (h : src.InStep w) (hc : src.InTime w .tap) {e : E} {row : ℕ}
    (hswipe : w.1.swipe = some (e, row)) :
    row < w.1.shown.length ∧
      (src.keys (src.rows w.1.content)).Perm (src.keys (w.1.shown.eraseIdx row)) := by
  obtain ⟨r, before, c, after, hr, hsince, htakes, hrest⟩ := hc e row hswipe
  obtain ⟨s, hperm, hcalls⟩ := h.calls
  obtain ⟨hrow, rfl⟩ := List.getElem?_eq_some_iff.mp hr
  rw [hsince] at hcalls
  refine ⟨hrow, ?_⟩
  rw [hcalls.keys_of_takes htakes hrest]
  have hsplit : (src.key w.1.shown[row] :: src.keys (w.1.shown.eraseIdx row)).Perm
      (src.keys w.1.shown) := (List.getElem_cons_eraseIdx_perm hrow).map src.key
  have herase := (hperm.trans hsplit.symm).erase (src.key w.1.shown[row])
  rwa [List.erase_cons_head] at herase

theorem length_eq_of_perm {l l' : List R} (h : (src.keys l).Perm (src.keys l')) :
    l.length = l'.length := by
  have hlen := h.length_eq
  unfold keys at hlen
  rwa [List.length_map, List.length_map] at hlen

theorem InStep.length_of_tap (h : src.InStep w) (hc : src.InTime w .tap) {e : E} {row : ℕ}
    (hswipe : w.1.swipe = some (e, row)) :
    (src.rows w.1.content).length + 1 = w.1.shown.length := by
  obtain ⟨hrow, hperm⟩ := h.perm_of_tap hc hswipe
  rw [length_eq_of_perm hperm, List.length_eraseIdx_of_lt hrow]
  omega

theorem append_ne_nil {A : Type} (l : List A) (a : A) : l ++ [a] ≠ [] :=
  List.append_ne_nil_of_right_ne_nil _ (List.cons_ne_nil _ _)

theorem queued_of_deliver {c : C} (hc : src.InTime w (.deliver c)) {s : S} {ended : Bool}
    (hcall : src.call c w.1.content = some (s, ended)) :
    (if ended then w.1.queue ++ [.completion] else w.1.queue) ≠ [] := by
  rcases hc with hqueued | hwhole
  · split_ifs
    · exact append_ne_nil _ _
    · exact hqueued
  · rw [if_pos (src.ends_of_whole hwhole hcall)]
    exact append_ne_nil _ _

theorem InStep.step (h : src.InStep w) (hc : src.InTime w i) (hs : src.Step w i w') :
    src.InStep w' := by
  obtain ⟨t, cs⟩ := w
  obtain ⟨t', cs'⟩ := w'
  obtain ⟨hstep, hsince⟩ := hs
  replace hstep : src.toSource.step t i = some t' := hstep
  replace hsince : cs' = src.since t i t' cs := hsince
  subst hsince
  obtain ⟨s₀, hperm, hcalls⟩ := h.calls
  cases Source.step_does hstep with
  | deliver hcall =>
    exact ⟨fun hq => (queued_of_deliver hc hcall hq).elim, s₀, hperm, hcalls.concat hcall⟩
  | completion hq =>
    refine ⟨fun hq' => (append_ne_nil _ _ hq').elim, s₀, hperm, ?_⟩
    simpa [since, Source.Loads, hq] using hcalls
  | reload hq =>
    refine ⟨fun _ => rfl, t.content, .refl _, ?_⟩
    simpa [since, Source.Loads, hq] using Calls.nil
  | appear =>
    cases hload : src.reloadsOnAppear with
    | true =>
      refine ⟨fun _ => by simp, t.content, by simp, ?_⟩
      simpa [since, Source.Loads, hload] using Calls.nil
    | false =>
      refine ⟨fun hq => by simpa using h.synced hq, s₀, by simpa using hperm, ?_⟩
      simpa [since, Source.Loads, hload] using hcalls
  | cell => exact ⟨h.synced, s₀, hperm, hcalls⟩
  | swipe => exact ⟨h.synced, s₀, hperm, hcalls⟩
  | cancel => exact ⟨h.synced, s₀, hperm, hcalls⟩
  | tap hswipe =>
    have hdeleted := (h.perm_of_tap hc hswipe).2
    exact ⟨fun _ => (length_eq_of_perm hdeleted).symm, t.content, hdeleted, .nil⟩

theorem inStep_of_reaches {w₀ : Table E S R × List C} (h₀ : src.InStep w₀)
    (h : Runs.Reaches src.Step src.InTime w₀ w) : src.InStep w :=
  h.invariant h₀ fun _ _ _ hw hc hs => hw.step hc hs

theorem Synced.read (h : src.Synced t) (hq : t.queue = []) {row : ℕ}
    (hrow : row < t.shown.length) : ∃ r, src.read t row = some r := by
  have hrow' : row < (src.rows t.content).length := h hq ▸ hrow
  exact ⟨_, by rw [Source.read_eq hrow, List.getElem?_eq_getElem hrow']⟩

def Cuts (src : Listener C S R K) : Prop :=
  ∀ c s s' ended, ¬ src.Whole c s → src.call c s = some (s', ended) →
    ended = false ∧ (src.rows s').length + 1 = (src.rows s).length

theorem synced_deliver_iff (hcut : src.Cuts) (hq : t.queue = []) (h : src.Synced t) {c : C}
    (hs : src.toSource.Step t (.deliver c) t') : src.Synced t' ↔ src.Whole c t.content := by
  obtain ⟨⟨s, ended⟩, hcall, rfl⟩ := Option.map_eq_some_iff.mp hs
  constructor
  · intro h'
    by_contra hwhole
    obtain ⟨rfl, hlen⟩ := hcut c t.content s ended hwhole hcall
    have hrows : t.shown.length = (src.rows s).length := h' hq
    rw [h hq] at hrows
    omega
  · intro hwhole hq'
    have hc : src.InTime (t, []) (.deliver c) := Or.inr hwhole
    exact (queued_of_deliver hc hcall hq').elim

end InStep
end Listener
end TableView
