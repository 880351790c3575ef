import Mathlib.Data.List.Perm.Basic
import Mathlib.Logic.Function.Basic
import Zeenoc.Library.Runs

/-! Work that is handed in with a ticket and done in turn, in a line for each user, and callers who
ask to be told when all work that is in line has been done. -/

namespace Ledger
variable {U W T D R : Type} [DecidableEq U]

/-- A caller waits for a number of pieces of work to be done. -/
structure State (U W T D : Type) where
  line : U → List (W × T)
  user : U
  waiting : List (ℕ × D)

inductive Event (U W T D R : Type)
  | handed (user : U) (work : W) (ticket : T)
  | done (user : U) (work : W) (result : R)
  | answered (user : U) (ticket : T) (result : R)
  | asked (user : U) (caller : D)
  | told (caller : D)
  | cancelled (caller : D)

def State.new (user : U) : State U W T D := ⟨fun _ => [], user, []⟩

inductive Step : State U W T D → List (Event U W T D R) → State U W T D → Prop
  | stay {s : State U W T D} : Step s [] s
  | hand {s : State U W T D} (work : W) (ticket : T) : Step s [.handed s.user work ticket]
      { s with line := Function.update s.line s.user (s.line s.user ++ [(work, ticket)]) }
  | finish {s : State U W T D} {work : W} {ticket : T} {rest : List (W × T)} (result : R)
      (h : s.line s.user = (work, ticket) :: rest) :
      Step s (.done s.user work result :: .answered s.user ticket result ::
        (s.waiting.filter fun x => x.1 = 1).map fun x => .told x.2)
      { s with
        line := Function.update s.line s.user rest
        waiting := (s.waiting.filter fun x => x.1 ≠ 1).map fun x => (x.1 - 1, x.2) }
  | wait {s : State U W T D} (caller : D) (h : s.line s.user ≠ []) : Step s [.asked s.user caller]
      { s with waiting := s.waiting ++ [((s.line s.user).length, caller)] }
  | tell {s : State U W T D} (caller : D) (h : s.line s.user = []) :
      Step s [.asked s.user caller, .told caller] s
  | switch {s : State U W T D} (user : U) : Step s (s.waiting.map fun x => .cancelled x.2)
      { s with user := user, waiting := [] }

section History

def Event.handed? (user : U) : Event U W T D R → Option (W × T)
  | .handed user' work ticket => if user' = user then some (work, ticket) else none
  | _ => none

def Event.done? (user : U) : Event U W T D R → Option (W × R)
  | .done user' work result => if user' = user then some (work, result) else none
  | _ => none

def Event.answered? (user : U) : Event U W T D R → Option (T × R)
  | .answered user' ticket result => if user' = user then some (ticket, result) else none
  | _ => none

omit [DecidableEq U] in
def Event.asked? : Event U W T D R → Option D
  | .asked _ caller => some caller
  | _ => none

def Event.told? : Event U W T D R → Option D
  | .told caller => some caller
  | _ => none

def Event.cancelled? : Event U W T D R → Option D
  | .cancelled caller => some caller
  | _ => none

def handed (user : U) (es : List (Event U W T D R)) : List (W × T) :=
  es.filterMap (Event.handed? user)

def done (user : U) (es : List (Event U W T D R)) : List (W × R) :=
  es.filterMap (Event.done? user)

def answered (user : U) (es : List (Event U W T D R)) : List (T × R) :=
  es.filterMap (Event.answered? user)

def asked (es : List (Event U W T D R)) : List D := es.filterMap Event.asked?

def told (es : List (Event U W T D R)) : List D := es.filterMap Event.told?

def cancelled (es : List (Event U W T D R)) : List D := es.filterMap Event.cancelled?

end History

/-- A caller was told, when all work that had been handed in before it asked was done. -/
def Told (es : List (Event U W T D R)) (caller : D) : Prop :=
  ∃ user before during after,
    es = before ++ .asked user caller :: during ++ .told caller :: after ∧
      (done user (before ++ .asked user caller :: during)).map Prod.fst =
        (handed user before).map Prod.fst

structure Kept (es : List (Event U W T D R)) (s : State U W T D) : Prop where
  work : ∀ user, (handed user es).map Prod.fst =
    (done user es).map Prod.fst ++ (s.line user).map Prod.fst
  tickets : ∀ user, (handed user es).map Prod.snd =
    (answered user es).map Prod.fst ++ (s.line user).map Prod.snd
  results : ∀ user, (done user es).map Prod.snd = (answered user es).map Prod.snd
  callers : (asked es).Perm (told es ++ cancelled es ++ s.waiting.map Prod.snd)
  waits : ∀ x ∈ s.waiting, 0 < x.1 ∧ ∃ before during, es = before ++ .asked s.user x.2 :: during ∧
    (handed s.user before).length = (done s.user es).length + x.1
  tells : ∀ caller, .told caller ∈ es → Told es caller

theorem kept_new (user : U) : Kept ([] : List (Event U W T D R)) (.new user) where
  work _ := rfl
  tickets _ := rfl
  results _ := rfl
  callers := .nil
  waits _ hx := by cases hx
  tells _ h := by cases h

section Steps
variable {es new : List (Event U W T D R)} {s s' : State U W T D} {user : U}

theorem handed_append (user : U) (es new : List (Event U W T D R)) :
    handed user (es ++ new) = handed user es ++ handed user new := List.filterMap_append

theorem done_append (user : U) (es new : List (Event U W T D R)) :
    done user (es ++ new) = done user es ++ done user new := List.filterMap_append

theorem answered_append (user : U) (es new : List (Event U W T D R)) :
    answered user (es ++ new) = answered user es ++ answered user new := List.filterMap_append

omit [DecidableEq U] in
theorem asked_append (es new : List (Event U W T D R)) :
    asked (es ++ new) = asked es ++ asked new := List.filterMap_append

omit [DecidableEq U] in
theorem told_append (es new : List (Event U W T D R)) :
    told (es ++ new) = told es ++ told new := List.filterMap_append

omit [DecidableEq U] in
theorem cancelled_append (es new : List (Event U W T D R)) :
    cancelled (es ++ new) = cancelled es ++ cancelled new := List.filterMap_append

theorem work_of_calls {f : ℕ × D → Event U W T D R}
    (hf : (f = fun x => .told x.2) ∨ f = fun x => .cancelled x.2) (user : U) (l : List (ℕ × D)) :
    handed user (l.map f) = [] ∧ done user (l.map f) = [] ∧ answered user (l.map f) = [] ∧
      asked (l.map f) = [] := by
  simp only [handed, done, answered, asked, List.filterMap_map, List.filterMap_eq_nil_iff]
  rcases hf with rfl | rfl
  · exact ⟨fun _ _ => rfl, fun _ _ => rfl, fun _ _ => rfl, fun _ _ => rfl⟩
  · exact ⟨fun _ _ => rfl, fun _ _ => rfl, fun _ _ => rfl, fun _ _ => rfl⟩

theorem Kept.tells_append (h : Kept es s)
    (hnew : ∀ caller, .told caller ∈ new → Told (es ++ new) caller)
    (caller : D) (htold : .told caller ∈ es ++ new) : Told (es ++ new) caller := by
  rcases List.mem_append.mp htold with hold | hnew'
  · obtain ⟨user, before, during, after, rfl, hdone⟩ := h.tells caller hold
    exact ⟨user, before, during, after ++ new, by simp, hdone⟩
  · exact hnew caller hnew'

theorem Kept.hand (h : Kept es s) (work : W) (ticket : T) :
    Kept (es ++ [.handed s.user work ticket])
    { s with line := Function.update s.line s.user (s.line s.user ++ [(work, ticket)]) } where
  work user := by
    rw [handed_append, done_append, List.map_append, h.work user]
    by_cases hu : s.user = user
    · subst hu
      simp [handed, done, List.filterMap_cons, Event.handed?, Event.done?]
    · simp [handed, done, List.filterMap_cons, Event.handed?, Event.done?, hu,
        Function.update_of_ne (Ne.symm hu)]
  tickets user := by
    rw [handed_append, answered_append, List.map_append, h.tickets user]
    by_cases hu : s.user = user
    · subst hu
      simp [handed, answered, List.filterMap_cons, Event.handed?, Event.answered?]
    · simp [handed, answered, List.filterMap_cons, Event.handed?, Event.answered?, hu,
        Function.update_of_ne (Ne.symm hu)]
  results user := by
    rw [done_append, answered_append, List.map_append, List.map_append, h.results user]
    rfl
  callers := by
    have hcallers := h.callers
    simpa [asked, told, cancelled, List.filterMap_cons, Event.asked?, Event.told?,
      Event.cancelled?] using hcallers
  waits x hx := by
    obtain ⟨hpos, before, during, rfl, hcount⟩ := h.waits x hx
    refine ⟨hpos, before, during ++ [.handed s.user work ticket], by simp, ?_⟩
    rw [done_append, List.length_append]
    exact hcount
  tells := h.tells_append fun caller hmem => by simp at hmem

section Finish

/-- What is said when a piece of work of the user is done. -/
def finished (user : U) (work : W) (ticket : T) (result : R) (called : List (ℕ × D)) :
    List (Event U W T D R) :=
  .done user work result :: .answered user ticket result :: called.map fun x => .told x.2

variable {work : W} {ticket : T} {result : R} {called : List (ℕ × D)}

theorem handed_finished (u : U) : handed u (finished user work ticket result called) = [] := by
  have hcalled := (work_of_calls (W := W) (T := T) (R := R) (.inl rfl) u called).1
  unfold handed at hcalled
  simp [handed, finished, List.filterMap_cons, Event.handed?, hcalled]

theorem done_finished (u : U) : done u (finished user work ticket result called) =
    if user = u then [(work, result)] else [] := by
  have hcalled := (work_of_calls (W := W) (T := T) (R := R) (.inl rfl) u called).2.1
  unfold done at hcalled
  by_cases hu : user = u <;> simp [done, finished, List.filterMap_cons, Event.done?, hu, hcalled]

theorem answered_finished (u : U) : answered u (finished user work ticket result called) =
    if user = u then [(ticket, result)] else [] := by
  have hcalled := (work_of_calls (W := W) (T := T) (R := R) (.inl rfl) u called).2.2.1
  unfold answered at hcalled
  by_cases hu : user = u <;>
    simp [answered, finished, List.filterMap_cons, Event.answered?, hu, hcalled]

theorem asked_finished : asked (finished user work ticket result called) = [] := by
  have hcalled := (work_of_calls (W := W) (T := T) (R := R) (.inl rfl) user called).2.2.2
  unfold asked at hcalled
  simp [asked, finished, List.filterMap_cons, Event.asked?, hcalled]

omit [DecidableEq U] in
theorem told_finished :
    told (finished user work ticket result called) = called.map Prod.snd := by
  simp [told, finished, List.filterMap_cons, List.filterMap_map, Event.told?, Function.comp_def]

omit [DecidableEq U] in
theorem cancelled_finished : cancelled (finished user work ticket result called) = [] := by
  simp [cancelled, finished, List.filterMap_cons, Event.cancelled?]

theorem Kept.work_finished (h : Kept es s) {rest : List (W × T)} (result : R)
    (hline : s.line s.user = (work, ticket) :: rest) (u : U) :
    (handed u es).map Prod.fst =
      (done u es ++ if s.user = u then [(work, result)] else []).map Prod.fst ++
        (Function.update s.line s.user rest u).map Prod.fst := by
  rw [h.work u]
  by_cases hu : s.user = u
  · subst hu
    simp [hline]
  · simp [hu, Function.update_of_ne (Ne.symm hu)]

/-- Who waits for one piece of work is told when all that had been handed in is done. -/
theorem Kept.told_finished (h : Kept es s) {rest : List (W × T)} {x : ℕ × D} {told : List (ℕ × D)}
    (more : List (ℕ × D)) (result : R) (hline : s.line s.user = (work, ticket) :: rest)
    (hx : x ∈ s.waiting) (hone : x.1 = 1) :
    Told (es ++ finished s.user work ticket result (told ++ x :: more)) x.2 := by
  obtain ⟨-, before, during, hes, hcount⟩ := h.waits x hx
  refine ⟨s.user, before, during ++ finished s.user work ticket result told,
    more.map fun x => .told x.2, ?_, ?_⟩
  · conv_lhs => rw [hes]
    simp [finished]
  · have htotal := h.work_finished result hline s.user
    rw [if_pos rfl] at htotal
    conv at htotal => lhs; rw [hes, handed_append, List.map_append]
    have hlen : ((handed s.user before).map Prod.fst).length =
        ((done s.user es ++ [(work, result)]).map Prod.fst).length := by
      simp [hcount, hone]
    rw [List.append_inj_left htotal hlen]
    have hnow : before ++ .asked s.user x.2 ::
        (during ++ finished s.user work ticket result told) =
        es ++ finished s.user work ticket result told := by
      conv_rhs => rw [hes]
      simp
    rw [hnow, done_append, done_finished, if_pos rfl]

theorem Kept.callers_finished (h : Kept es s) :
    (asked (es ++ finished s.user work ticket result (s.waiting.filter fun x => x.1 = 1))).Perm
      (told (es ++ finished s.user work ticket result (s.waiting.filter fun x => x.1 = 1)) ++
        cancelled (es ++ finished s.user work ticket result (s.waiting.filter fun x => x.1 = 1)) ++
        (s.waiting.filter fun x => x.1 ≠ 1).map Prod.snd) := by
  have hsplit : (s.waiting.map Prod.snd).Perm ((s.waiting.filter fun x => x.1 = 1).map Prod.snd ++
      (s.waiting.filter fun x => x.1 ≠ 1).map Prod.snd) := by
    rw [← List.map_append]
    simpa using ((List.filter_append_perm (fun x : ℕ × D => x.1 = 1) s.waiting).map Prod.snd).symm
  rw [asked_append, told_append, cancelled_append, asked_finished, Ledger.told_finished,
    cancelled_finished, List.append_nil, List.append_nil]
  refine h.callers.trans ((hsplit.append_left _).trans ?_)
  simp only [List.append_assoc]
  refine List.Perm.append_left _ ?_
  rw [← List.append_assoc, ← List.append_assoc]
  exact List.perm_append_comm.append_right _

theorem Kept.finish (h : Kept es s) {rest : List (W × T)} (result : R)
    (hline : s.line s.user = (work, ticket) :: rest) :
    Kept (es ++ finished s.user work ticket result (s.waiting.filter fun x => x.1 = 1)) { s with
        line := Function.update s.line s.user rest
        waiting := (s.waiting.filter fun x => x.1 ≠ 1).map fun x => (x.1 - 1, x.2) } where
  work u := by
    rw [handed_append, handed_finished, List.append_nil, done_append, done_finished]
    exact h.work_finished result hline u
  tickets u := by
    rw [handed_append, handed_finished, List.append_nil, answered_append, answered_finished,
      h.tickets u]
    by_cases hu : s.user = u
    · subst hu
      simp [hline]
    · simp [hu, Function.update_of_ne (Ne.symm hu)]
  results u := by
    rw [done_append, answered_append, done_finished, answered_finished, List.map_append,
      List.map_append, h.results u]
    by_cases hu : s.user = u <;> simp [hu]
  callers := by
    rw [List.map_map]
    exact h.callers_finished
  waits x hx := by
    obtain ⟨y, hy, rfl⟩ := List.mem_map.mp hx
    obtain ⟨hy, hne⟩ := List.mem_filter.mp hy
    have hne : y.1 ≠ 1 := by simpa using hne
    obtain ⟨hpos, before, during, hes, hcount⟩ := h.waits y hy
    refine ⟨by dsimp only; omega, before, during ++
      finished s.user work ticket result (s.waiting.filter fun x => x.1 = 1), ?_, ?_⟩
    · conv_lhs => rw [hes]
      rw [List.append_assoc, List.cons_append]
    · change (handed s.user before).length = _
      rw [done_append, done_finished, if_pos rfl, List.length_append, hcount,
        List.length_singleton]
      dsimp only
      omega
  tells := h.tells_append fun caller hmem => by
    obtain ⟨x, hx, rfl⟩ : ∃ x ∈ s.waiting.filter fun x => x.1 = 1, x.2 = caller := by
      simpa [finished] using hmem
    obtain ⟨told, more, hsplit⟩ := List.append_of_mem hx
    obtain ⟨hwaiting, hone⟩ := List.mem_filter.mp hx
    rw [hsplit]
    exact h.told_finished more result hline hwaiting (by simpa using hone)

end Finish

theorem Kept.wait (h : Kept es s) (caller : D) (hline : s.line s.user ≠ []) :
    Kept (es ++ [.asked s.user caller])
      { s with waiting := s.waiting ++ [((s.line s.user).length, caller)] } where
  work user := by
    rw [handed_append, done_append, List.map_append, List.map_append, h.work user]
    simp [handed, done, List.filterMap_cons, Event.handed?, Event.done?]
  tickets user := by
    rw [handed_append, answered_append, List.map_append, List.map_append, h.tickets user]
    simp [handed, answered, List.filterMap_cons, Event.handed?, Event.answered?]
  results user := by
    rw [done_append, answered_append, List.map_append, List.map_append, h.results user]
    rfl
  callers := by
    have hcallers := h.callers.append_right [caller]
    simpa [asked, told, cancelled, List.filterMap_cons, Event.asked?, Event.told?,
      Event.cancelled?] using hcallers
  waits x hx := by
    rcases List.mem_append.mp hx with hx | hx
    · obtain ⟨hpos, before, during, rfl, hcount⟩ := h.waits x hx
      refine ⟨hpos, before, during ++ [.asked s.user caller], by simp, ?_⟩
      rw [done_append, List.length_append]
      exact hcount
    · obtain rfl := List.mem_singleton.mp hx
      refine ⟨List.length_pos_of_ne_nil hline, es, [], rfl, ?_⟩
      have hcount := congrArg List.length (h.work s.user)
      rw [List.length_append, List.length_map, List.length_map, List.length_map] at hcount
      rw [done_append, List.length_append]
      exact hcount
  tells := h.tells_append fun caller hmem => by simp at hmem

theorem Kept.tell (h : Kept es s) (caller : D) (hline : s.line s.user = []) :
    Kept (es ++ [.asked s.user caller, .told caller]) s where
  work user := by
    rw [handed_append, done_append, List.map_append, List.map_append, h.work user]
    simp [handed, done, List.filterMap_cons, Event.handed?, Event.done?]
  tickets user := by
    rw [handed_append, answered_append, List.map_append, List.map_append, h.tickets user]
    simp [handed, answered, List.filterMap_cons, Event.handed?, Event.answered?]
  results user := by
    rw [done_append, answered_append, List.map_append, List.map_append, h.results user]
    rfl
  callers := by
    have hcallers := h.callers
    rw [List.append_assoc] at hcallers
    have hnow := (hcallers.cons caller).trans List.perm_middle.symm
    have hlast : asked (es ++ [.asked s.user caller, .told caller]) = asked es ++ [caller] :=
      asked_append _ _
    rw [hlast]
    refine (List.perm_append_singleton caller (asked es)).trans ?_
    simpa [told, cancelled, List.filterMap_cons, Event.told?, Event.cancelled?] using hnow
  waits x hx := by
    obtain ⟨hpos, before, during, rfl, hcount⟩ := h.waits x hx
    refine ⟨hpos, before, during ++ [.asked s.user caller, .told caller], by simp, ?_⟩
    rw [done_append, List.length_append]
    exact hcount
  tells := h.tells_append fun caller' hmem => by
    obtain rfl : caller' = caller := by simpa using hmem
    refine ⟨s.user, es, [], [], by simp, ?_⟩
    rw [h.work s.user, hline, done_append, List.map_append]
    rfl

theorem Kept.switch (h : Kept es s) (user : U) :
    Kept (es ++ s.waiting.map fun x => .cancelled x.2) { s with user := user, waiting := [] } := by
  have hcalls := work_of_calls (U := U) (W := W) (T := T) (R := R) (.inr rfl) (l := s.waiting)
  refine ⟨fun user' => ?_, fun user' => ?_, fun user' => ?_, ?_, fun x hx =>
    (List.not_mem_nil hx).elim,
    h.tells_append fun caller hmem => by simp at hmem⟩
  · obtain ⟨hhanded, hdone, -⟩ := hcalls user'
    rw [handed_append, done_append, hhanded, hdone, List.append_nil, List.append_nil]
    exact h.work user'
  · obtain ⟨hhanded, -, hanswered, -⟩ := hcalls user'
    rw [handed_append, answered_append, hhanded, hanswered, List.append_nil, List.append_nil]
    exact h.tickets user'
  · obtain ⟨-, hdone, hanswered, -⟩ := hcalls user'
    rw [done_append, answered_append, hdone, hanswered, List.append_nil, List.append_nil]
    exact h.results user'
  · have hcallers := h.callers
    simpa [asked, told, cancelled, List.filterMap_map, Event.asked?, Event.told?, Event.cancelled?,
      Function.comp_def] using hcallers

theorem Step.kept (hstep : Step s new s') (h : Kept es s) : Kept (es ++ new) s' := by
  cases hstep with
  | stay =>
    rw [List.append_nil]
    exact h
  | hand work ticket => exact h.hand work ticket
  | finish result hline => exact h.finish result hline
  | wait caller hline => exact h.wait caller hline
  | tell caller hline => exact h.tell caller hline
  | switch user => exact h.switch user

end Steps

/-- In every run: work is done in the order in which a user handed it in, and its tickets are
answered so; every caller has been told or cancelled once, or waits; and one is told when all work
that was in line has been done. -/
theorem kept_of_run {user : U} {es : List (List (Event U W T D R))} {s : State U W T D}
    (hrun : Runs.Run Step (.new user) es s) : Kept es.flatten s := by
  refine hrun.invariant (I := fun es s => Kept es.flatten s) (kept_new user)
    fun es s new s' h hstep => ?_
  rw [List.flatten_append, List.flatten_singleton]
  exact hstep.kept h

end Ledger
