import Zeenoc.NotificationsVC
import Zeenoc.Acceptance

/-! What the swipes of `notificationsVC` do to the store over a run: which method issues the writes
of each settlement, and the payments that acceptances leave behind. -/

namespace Zeenoc.NotificationsVC
open Firestore Interleaving Prog

/-- The writes of one settlement, with what is left of them and the documents they have added. -/
structure Task where
  settlement : Settlement
  program : Op Unit
  created : List ResourcePath

structure Board where
  screen : Screen
  store : Store
  log : List Settlement
  tasks : List Task

inductive Event where
  | input (i : Input)
  | callback
  | others

/-- An input moves the screen and starts what it issues; later the reads are answered and their
callbacks run; meanwhile the store may change in any way. -/
inductive Board.Step (L : DocumentId) : Board → Event → Board → Prop
  | quiet {b : Board} {i s'} (hs : b.screen.step i = some (s', [])) :
      Board.Step L b (.input i) { b with screen := s' }
  | issue {b : Board} {i s' x} (e : Device) (ids : ℕ → DocumentId)
      (hs : b.screen.step i = some (s', [x]))
      (hf : FreshFor FreshId e ids (x.program L) b.store) :
      Board.Step L b (.input i)
        { screen := s'
          store := (turn e ids (x.program L) b.store).1
          log := b.log ++ [x]
          tasks := b.tasks ++ [⟨x, (turn e ids (x.program L) b.store).2,
            addedKeys e ids (x.program L) b.store⟩] }
  | answer {b : Board} {j t k n} (ok : Bool) (ht : b.tasks[j]? = some t)
      (hp : t.program = .read k n) :
      Board.Step L b .callback
        { b with tasks := b.tasks.set j { t with program := n (answer ok b.store k) } }
  | resume {b : Board} {j t} (e : Device) (ids : ℕ → DocumentId) (ht : b.tasks[j]? = some t)
      (hf : FreshFor FreshId e ids t.program b.store) :
      Board.Step L b .callback
        { b with
          store := (turn e ids t.program b.store).1
          tasks := b.tasks.set j { t with
            program := (turn e ids t.program b.store).2
            created := t.created ++ addedKeys e ids t.program b.store } }
  | others {b : Board} (σ : Store) : Board.Step L b .others { b with store := σ }

def Board.loaded (σ : Store) : Board := ⟨.loaded, σ, [], []⟩

def Board.payments (b : Board) (id : String) : List ResourcePath :=
  (b.tasks.filter fun t => t.settlement.request.id = id).flatMap Task.created

structure SettledByAction (b : Board) : Prop where
  byHandler : ∀ x ∈ b.log, x.origin = .handler
  once : ∀ id, (b.log.filter fun x => x.request.id = id).length ≤ 1
  payment : ∀ id, (b.payments id).length ≤ 1

section Payments

def Edge.payments : Edge → ℕ
  | .leading => 1
  | .trailing => 0

theorem addsLe_addPayment (L : DocumentId) (T P : String) (doc : Option (Option Fields)) :
    AddsLe 1 (addPayment L T P doc) := by
  rcases doc with _ | _ | d
  · trivial
  · trivial
  · cases hdl : d.getString "deadline" <;> cases hrent : d.getString "rent" <;>
      cases hT : document ["users"] T <;> simp [addPayment, AddsLe, hdl, hrent, hT]

theorem addsLe_program (L : DocumentId) (x : Settlement) :
    AddsLe x.edge.payments (x.program L) := by
  obtain ⟨origin, edge, r⟩ := x
  cases edge with
  | leading =>
    cases hR : document ["users", L.val, "requests"] r.id <;>
      cases hT : document ["users"] r.tenantID <;>
        cases hP : document ["users", L.val, "properties"] r.propertyID <;>
          simp [Settlement.program, Edge.payments, accept, removeRequest, makePairedTrue,
            addNameToProperty, addPaymentToTenant, AddsLe, hR, hT, hP, addsLe_addPayment]
  | trailing =>
    cases hR : document ["users", L.val, "requests"] r.id <;>
      simp [Settlement.program, Edge.payments, decline, removeRequest, AddsLe, hR, delete]

structure Board.Good (b : Board) : Prop where
  settlements : b.tasks.map Task.settlement = b.log
  bound : ∀ t ∈ b.tasks, ∃ c, t.created.length + c ≤ t.settlement.edge.payments ∧ AddsLe c t.program
  origin : ∀ x ∈ b.log, x.origin = .configuration

theorem Board.good_loaded (σ : Store) : (Board.loaded σ).Good :=
  ⟨rfl, fun _ h => absurd h List.not_mem_nil, fun _ h => absurd h List.not_mem_nil⟩

theorem map_settlement_set {ts : List Task} {j : ℕ} {t : Task} (ht : ts[j]? = some t) (t' : Task)
    (hs : t'.settlement = t.settlement) :
    (ts.set j t').map Task.settlement = ts.map Task.settlement := by
  apply List.ext_getElem?
  intro k
  rw [List.getElem?_map, List.getElem?_map, List.getElem?_set]
  split
  next hjk =>
    subst hjk
    have hj : j < ts.length := (List.getElem?_eq_some_iff.mp ht).1
    rw [if_pos hj, ht, Option.map_some, Option.map_some, hs]
  next => rfl

theorem Board.Good.set {b : Board} (h : b.Good) (σ : Store) {j : ℕ} {t t' : Task}
    (ht : b.tasks[j]? = some t) (hs : t'.settlement = t.settlement)
    (hbound : ∃ c, t'.created.length + c ≤ t'.settlement.edge.payments ∧ AddsLe c t'.program) :
    Board.Good { b with store := σ, tasks := b.tasks.set j t' } := by
  refine ⟨?_, fun t'' ht'' => ?_, h.origin⟩
  · show (b.tasks.set j t').map Task.settlement = b.log
    rw [map_settlement_set ht t' hs]
    exact h.settlements
  · rcases List.mem_or_eq_of_mem_set ht'' with ht'' | rfl
    · exact h.bound t'' ht''
    · exact hbound

theorem Board.Good.step {L : DocumentId} {b b' : Board} {ev : Event} (h : b.Good)
    (hs : Board.Step L b ev b') : b'.Good := by
  cases hs with
  | quiet hs => exact ⟨h.settlements, h.bound, h.origin⟩
  | @issue i s' x e ids hs hf =>
    have hx : x.origin = .configuration := by
      rcases Screen.writes_cases hs with ⟨e, row, r, -, -, hout⟩ | ⟨-, hout⟩
      · rw [(List.cons.inj hout).1]
      · exact absurd hout (List.cons_ne_nil _ _)
    refine ⟨?_, fun t ht => ?_, fun y hy => ?_⟩
    · show (b.tasks ++ [_]).map Task.settlement = b.log ++ [x]
      rw [List.map_append, h.settlements, List.map_singleton]
    · rcases List.mem_append.mp ht with ht | ht
      · exact h.bound t ht
      · obtain rfl := List.mem_singleton.mp ht
        exact (addsLe_program L x).turn
    · rcases List.mem_append.mp hy with hy | hy
      · exact h.origin y hy
      · obtain rfl := List.mem_singleton.mp hy
        exact hx
  | @answer j t k n ok ht hp =>
    obtain ⟨c, hc, hadds⟩ := h.bound t (List.mem_of_getElem? ht)
    rw [hp] at hadds
    apply h.set b.store ht
    · rfl
    · exact ⟨c, hc, hadds _⟩
  | @resume j t e ids ht hf =>
    obtain ⟨c, hc, hadds⟩ := h.bound t (List.mem_of_getElem? ht)
    obtain ⟨c', hc', hrest⟩ : ∃ c', (addedKeys e ids t.program b.store).length + c' ≤ c ∧
        AddsLe c' (turn e ids t.program b.store).2 := hadds.turn
    -- what the turn has added has gone from the bound of the rest
    have hlen : (t.created ++ addedKeys e ids t.program b.store).length + c' ≤
        t.settlement.edge.payments := by
      rw [List.length_append]
      omega
    apply h.set _ ht
    · rfl
    · exact ⟨c', hlen, hrest⟩
  | others σ => exact ⟨h.settlements, h.bound, h.origin⟩

theorem created_le (id : String) (ts : List Task)
    (hts : ∀ t ∈ ts, t.created.length ≤ t.settlement.edge.payments) :
    ((ts.filter fun t => t.settlement.request.id = id).flatMap Task.created).length ≤
      ((ts.map Task.settlement).filter fun x => x.request.id = id ∧ x.edge = .leading).length := by
  induction ts with
  | nil => simp
  | cons t ts ih =>
    have hrest := ih fun t' ht' => hts t' (List.mem_cons_of_mem _ ht')
    have ht := hts t List.mem_cons_self
    rw [List.map_cons]
    by_cases hid : t.settlement.request.id = id
    · rw [List.filter_cons_of_pos (by simpa using hid), List.flatMap_cons, List.length_append]
      cases hedge : t.settlement.edge with
      | leading =>
        rw [List.filter_cons_of_pos (by simp [hid, hedge]), List.length_cons]
        have hone : t.created.length ≤ 1 := by rwa [hedge] at ht
        omega
      | trailing =>
        rw [List.filter_cons_of_neg (by simp [hedge])]
        have hzero : t.created.length ≤ 0 := by rwa [hedge] at ht
        omega
    · rw [List.filter_cons_of_neg (by simpa using hid), List.filter_cons_of_neg (by simp [hid])]
      exact hrest

theorem Board.Good.payments_le {b : Board} (h : b.Good) (id : String) :
    (b.payments id).length ≤
      (b.log.filter fun x => x.request.id = id ∧ x.edge = .leading).length := by
  rw [← h.settlements]
  apply created_le
  intro t ht
  obtain ⟨c, hc, -⟩ := h.bound t ht
  omega

end Payments

theorem log_eq_nil_iff {L : DocumentId} {σ : Store} {evs : List Event} {b : Board}
    (h : Runs.Run (Board.Step L) (Board.loaded σ) evs b) :
    b.log = [] ↔ ∀ e row, .input (.swipe e row) ∉ evs := by
  refine Runs.Run.invariant
    (I := fun evs b => b.log = [] ↔ ∀ e row, Event.input (.swipe e row) ∉ evs)
    (by simp [Board.loaded]) (fun evs b ev b' ih hs => ?_) h
  cases hs with
  | @quiet i s' hs =>
    have hne : ∀ e row, Event.input (.swipe e row) ≠ .input i := by
      rintro e row ⟨⟩
      rcases Screen.writes_cases hs with ⟨_, _, r, -, -, hout⟩ | ⟨hno, -⟩
      · cases hout
      · exact hno e row rfl
    simpa [hne] using ih
  | @issue i s' x e ids hs hf =>
    have hswipe : ∃ e row, i = .swipe e row := by
      rcases Screen.writes_cases hs with ⟨e, row, -, hi, -⟩ | ⟨-, hout⟩
      · exact ⟨e, row, hi⟩
      · exact absurd hout (List.cons_ne_nil _ _)
    obtain ⟨e, row, rfl⟩ := hswipe
    refine iff_of_false (by simp) fun hno => hno e row ?_
    exact List.mem_append_right _ List.mem_cons_self
  | answer => simpa using ih
  | resume => simpa using ih
  | others => simpa using ih

/-- Requests are settled by their actions, at most once and with one payment at most, exactly in the
runs in which no swipe begins: every swipe writes when it is configured. -/
theorem settledByAction_iff {L : DocumentId} {σ : Store} {evs : List Event} {b : Board}
    (h : Runs.Run (Board.Step L) (Board.loaded σ) evs b) :
    SettledByAction b ↔ ∀ e row, .input (.swipe e row) ∉ evs := by
  have hgood : b.Good := Runs.Run.invariant (I := fun _ b => b.Good) (Board.good_loaded σ)
    (fun _ _ _ _ hb hs => hb.step hs) h
  rw [← log_eq_nil_iff h]
  constructor
  · intro hsettled
    apply List.eq_nil_iff_forall_not_mem.mpr
    intro x hx
    have hhandler := hsettled.byHandler x hx
    rw [hgood.origin x hx] at hhandler
    cases hhandler
  · intro hlog
    refine ⟨?_, fun id => ?_, fun id => ?_⟩
    · simp [hlog]
    · simp [hlog]
    · have hle := hgood.payments_le id
      rw [hlog] at hle
      exact hle.trans (Nat.zero_le 1)

section Instances

def pendingFields : Fields :=
  strings [("tenantID", "T"), ("propertyID", "Q"), ("address", "A"), ("tenantName", "N")]

def otherId : DocumentId := ⟨"O", by decide, by decide⟩

def asked : Settlement := ⟨.configuration, .leading, pendingRequest⟩

def rowShown : Screen := ⟨[pendingRequest], [pendingRequest], [], none⟩

theorem run_rowShown : Runs.Run (Board.Step landlord) (Board.loaded listedProperty)
    [.input (.deliver [⟨.added, request, pendingFields⟩]), .input .block, .input .block]
    ⟨rowShown, listedProperty, [], []⟩ :=
  ((Runs.Run.start.step (.quiet rfl)).step (.quiet rfl)).step (.quiet rfl)

def acceptedTwice : Store :=
  accepted (accepted listedProperty pendingRequest ["users", "L", "requests", "R"] ["users", "T"]
    ["users", "L", "properties", "Q"]) pendingRequest ["users", "L", "requests", "R"]
    ["users", "T"] ["users", "L", "properties", "Q"]

theorem freshId_acceptedTwice {a : DocumentId}
    (ha : a.val ∉ ["users", "L", "requests", "R", "T", "properties", "Q"]) :
    FreshId acceptedTwice a := by
  simp only [List.mem_cons, List.not_mem_nil, or_false, not_or] at ha
  have hlisted : FreshId listedProperty a :=
    ((freshId_empty a).update (by simp [ha]) _).update (by simp [ha]) _
  have honce : FreshId (accepted listedProperty pendingRequest ["users", "L", "requests", "R"]
      ["users", "T"] ["users", "L", "properties", "Q"]) a :=
    freshId_accepted hlisted pendingRequest (by simp [ha]) (by simp [ha]) (by simp [ha])
  exact freshId_accepted honce pendingRequest (by simp [ha]) (by simp [ha]) (by simp [ha])

/-- The leading action of a row is configured twice and its handler never runs: two payments. -/
theorem accepted_twice :
    ∃ evs b, Runs.Run (Board.Step landlord) (Board.loaded listedProperty) evs b ∧
      .input .tap ∉ evs ∧ ¬ SettledByAction b ∧ b.log = [asked, asked] ∧
      (b.payments "R").length = 2 := by
  have h₁ := run_rowShown.step (e := .input (.swipe .leading 0))
    (.issue (x := asked) anyDevice (fun _ => newId) rfl (freshFor_accept _ _ _ _ _))
  have h₂ := (h₁.step (.quiet (i := .cancel) rfl)).step (e := .input (.swipe .leading 0))
    (.issue (x := asked) anyDevice (fun _ => newId) rfl (freshFor_accept _ _ _ _ _))
  have hfirst : FreshId acceptedTwice newId := freshId_acceptedTwice (by decide)
  have h₃ := (h₂.step (.answer (j := 0) true rfl rfl)).step
    (.resume (j := 0) anyDevice (fun _ => newId) rfl ⟨hfirst, trivial⟩)
  have hsecond : FreshId acceptedTwice otherId := freshId_acceptedTwice (by decide)
  have h₄ := (h₃.step (.answer (j := 1) true rfl rfl)).step
    (.resume (j := 1) anyDevice (fun _ => otherId) rfl
      ⟨hsecond.update (by decide) _, trivial⟩)
  refine ⟨_, _, h₄, by simp, fun hsettled => ?_, rfl, rfl⟩
  have hhandler : asked.origin = .handler := hsettled.byHandler asked List.mem_cons_self
  cases hhandler

theorem rowShown_settledByAction :
    SettledByAction ⟨rowShown, listedProperty, [], []⟩ :=
  (settledByAction_iff run_rowShown).mpr (by simp)

end Instances
end Zeenoc.NotificationsVC
