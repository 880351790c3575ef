import Zeenoc.Firestore.WritePipeline
import Zeenoc.Library.Ledger

/-! The callbacks of writes, and of those who wait for pending writes: the client keeps a ledger of
them. -/

namespace Firestore
variable {V User C : Type} [ObjectValue V] [DecidableEq User]

namespace LocalStore
variable {s s' : LocalStore V User} {changes : MaybeDocumentMap V} {user : User}

omit [DecidableEq User] in
def queues (s : LocalStore V User) (user : User) : List (MutationBatch V) :=
  (s.mutationQueues user).queue

omit [DecidableEq User] in
theorem Sound.queues_sorted (h : s.Sound) (user : User) :
    (s.queues user).Pairwise fun a b => a.batchId < b.batchId := by
  have hwf : (s.mutationQueues user).WellFormed := (h.queues user).queue
  exact (List.pairwise_map.mp hwf.sorted).imp fun hlt => compare_lt_iff_lt.mp hlt

theorem queues_withQueue (s : LocalStore V User) (queue : MemoryMutationQueue V) :
    (s.withQueue queue).queues = Function.update s.queues s.user queue.queue := by
  funext user
  unfold queues withQueue
  by_cases hu : user = s.user
  · subst hu
    simp
  · simp [Function.update_of_ne hu]

theorem queues_of_acknowledgeBatch {r : MutationBatchResult V}
    (h : s.acknowledgeBatch r = some (s', changes)) (hu : user ≠ s.user) :
    s'.queues user = s.queues user := by
  unfold acknowledgeBatch at h
  obtain ⟨queue, -, h⟩ := Option.bind_eq_some_iff.mp h
  obtain ⟨s₁, happly, h⟩ := Option.bind_eq_some_iff.mp h
  split_ifs at h
  obtain ⟨_, -, h⟩ := Option.map_eq_some_iff.mp h
  obtain ⟨rfl, -⟩ := Prod.mk.inj h
  unfold applyBatchResult at happly
  obtain ⟨cache, -, happly⟩ := Option.bind_eq_some_iff.mp happly
  obtain ⟨queue', -, rfl⟩ := Option.map_eq_some_iff.mp happly
  simp [queues, withQueue, Function.update_of_ne hu]

theorem queues_of_rejectBatch {batchId : ℤ} (h : s.rejectBatch batchId = some (s', changes))
    (hu : user ≠ s.user) : s'.queues user = s.queues user := by
  unfold rejectBatch at h
  obtain ⟨batch, -, h⟩ := Option.bind_eq_some_iff.mp h
  obtain ⟨queue, -, h⟩ := Option.bind_eq_some_iff.mp h
  split_ifs at h
  obtain ⟨_, -, h⟩ := Option.map_eq_some_iff.mp h
  obtain ⟨rfl, -⟩ := Prod.mk.inj h
  rw [queues_withQueue, Function.update_of_ne hu]

theorem queues_startMutationQueue (s : LocalStore V User) : s.startMutationQueue.queues =
    s.queues := by
  unfold startMutationQueue
  rw [queues_withQueue, MemoryMutationQueue.start_queue]
  exact Function.update_eq_self _ _

theorem queues_new (user : User) : (new user : LocalStore V User).queues = fun _ => [] :=
  queues_startMutationQueue _

theorem queues_of_handleUserChange {user' : User}
    (h : s.handleUserChange user' = some (s', changes)) : s'.queues = s.queues := by
  unfold handleUserChange at h
  obtain ⟨_, -, h⟩ := Option.map_eq_some_iff.mp h
  obtain ⟨rfl, -⟩ := Prod.mk.inj h
  exact queues_startMutationQueue _

theorem queues_of_writeLocally {localWriteTime : Timestamp} {mutations : List (Mutation V)}
    {result : LocalWriteResult V} (h : s.writeLocally localWriteTime mutations = some (s', result))
    (hu : user ≠ s.user) : s'.queues user = s.queues user := by
  unfold writeLocally at h
  obtain ⟨_, -, h⟩ := Option.bind_eq_some_iff.mp h
  obtain ⟨x, -, h⟩ := Option.bind_eq_some_iff.mp h
  obtain ⟨_, -, h⟩ := Option.map_eq_some_iff.mp h
  obtain ⟨rfl, -⟩ := Prod.mk.inj h
  rw [queues_withQueue, Function.update_of_ne hu]

end LocalStore

namespace WriteEngine
variable {e : WriteEngine V User C}

omit [DecidableEq User] in
/-- What the users and those who wait for pending writes can see: a write has its callback, and one
waits for the batches up to one. -/
def ledger (e : WriteEngine V User C) : Ledger.State User (List (Mutation V)) (Option C) C where
  line user := (e.localStore.queues user).map fun batch =>
    (batch.mutations, (e.mutationCallbacks user)[batch.batchId]?)
  user := e.currentUser
  waiting := e.pendingWritesCallbacks.map fun x =>
    ((e.localStore.queues e.currentUser).countP fun batch => batch.batchId ≤ x.1, x.2)

omit [DecidableEq User] in
structure Waits (e : WriteEngine V User C) : Prop where
  mutation : ∀ user (batchId : ℤ), ((e.mutationCallbacks user)[batchId]?).isSome ↔
    ∃ batch ∈ e.localStore.queues user, batch.batchId = batchId
  pending : ∀ x ∈ e.pendingWritesCallbacks,
    ∃ batch ∈ e.localStore.queues e.currentUser, batch.batchId = x.1

def settled (e : WriteEngine V User C) (localStore : LocalStore V User) (batchId : ℤ) :
    WriteEngine V User C := { e with
  localStore := localStore
  mutationCallbacks := Function.update e.mutationCallbacks e.currentUser
    ((e.mutationCallbacks e.currentUser).erase batchId)
  pendingWritesCallbacks := e.pendingWritesCallbacks.filter fun x => x.1 ≠ batchId }

end WriteEngine

omit [DecidableEq User] in
def WriteEffect.events :
    WriteEffect V User C → List (Ledger.Event User (List (Mutation V)) (Option C) C Status)
  | acknowledged user batchResult => [.done user batchResult.batch.mutations .OK]
  | rejected user batch error => [.done user batch.mutations error]
  | mutationCallback user callback status => [.answered user (some callback) status]
  | pendingWritesCallback callback status =>
    if status.ok then [.told callback] else [.cancelled callback]
  | emitted _ => []

namespace WriteEngine
variable {e : WriteEngine V User C}

section Settled
variable {s' : LocalStore V User} {batch : MutationBatch V} {rest : List (MutationBatch V)}
  {changes : MaybeDocumentMap V} {callback : C}

theorem handleSuccessfulWrite_eq {r : MutationBatchResult V}
    (hcallback : (e.mutationCallbacks e.currentUser)[r.batch.batchId]? = some callback)
    (h : e.localStore.acknowledgeBatch r = some (s', changes)) :
    e.handleSuccessfulWrite r = some (e.settled s' r.batch.batchId,
      .mutationCallback e.currentUser callback .OK ::
        (e.pendingWritesCallbacks.filter fun x => x.1 = r.batch.batchId).map
          (fun x => .pendingWritesCallback x.2 .OK) ++ [.emitted changes]) := by
  unfold handleSuccessfulWrite notifyUser
  rw [hcallback]
  dsimp only [triggerPendingWriteCallbacks]
  rw [h]
  rfl

theorem handleRejectedWrite_eq {batchId : ℤ} (error : Status)
    (hcallback : (e.mutationCallbacks e.currentUser)[batchId]? = some callback)
    (h : e.localStore.rejectBatch batchId = some (s', changes)) :
    e.handleRejectedWrite batchId error = some (e.settled s' batchId,
      .mutationCallback e.currentUser callback error ::
        (e.pendingWritesCallbacks.filter fun x => x.1 = batchId).map
          (fun x => .pendingWritesCallback x.2 .OK) ++ [.emitted changes]) := by
  unfold handleRejectedWrite notifyUser
  rw [h]
  dsimp only [Option.map_some]
  rw [hcallback]
  rfl

omit [DecidableEq User] in
theorem Waits.count_first (h : e.Waits) (hstore : e.localStore.Sound)
    (hqueue : e.localStore.queues e.currentUser = batch :: rest) {x : ℤ × C}
    (hx : x ∈ e.pendingWritesCallbacks) :
    ((e.localStore.queues e.currentUser).countP fun b => b.batchId ≤ x.1) =
        (rest.countP fun b => b.batchId ≤ x.1) + 1 ∧
      ((rest.countP fun b => b.batchId ≤ x.1) = 0 ↔ x.1 = batch.batchId) := by
  have hsorted := hstore.queues_sorted e.currentUser
  obtain ⟨b, hb, hid⟩ := h.pending x hx
  rw [hqueue] at hsorted hb ⊢
  obtain ⟨hfirst, -⟩ := List.pairwise_cons.mp hsorted
  constructor
  · apply List.countP_cons_of_pos
    rcases List.mem_cons.mp hb with rfl | hb
    · simp [hid]
    · have := hfirst b hb
      simp only [decide_eq_true_eq]
      omega
  · rw [List.countP_eq_zero]
    constructor
    · intro hnone
      rcases List.mem_cons.mp hb with rfl | hb
      · exact hid.symm
      · exact absurd hid.le (by simpa using hnone b hb)
    · intro he b' hb'
      have := hfirst b' hb'
      simp only [decide_eq_true_eq]
      omega

omit [DecidableEq User] in
theorem Waits.waiting_first (h : e.Waits) (hstore : e.localStore.Sound)
    (hqueue : e.localStore.queues e.currentUser = batch :: rest) :
    (e.ledger.waiting.filter fun x => x.1 = 1).map Prod.snd =
      (e.pendingWritesCallbacks.filter fun x => x.1 = batch.batchId).map Prod.snd := by
  unfold ledger
  dsimp only
  rw [List.filter_map, List.map_map]
  refine congrArg (List.map Prod.snd) (List.filter_congr fun x hx => ?_)
  obtain ⟨hone, hzero⟩ := h.count_first hstore hqueue hx
  simp only [Function.comp_apply, hone, Nat.add_eq_right, hzero]

theorem Waits.waiting_settled (h : e.Waits) (hstore : e.localStore.Sound)
    (hqueue : e.localStore.queues e.currentUser = batch :: rest)
    (hrest : s'.queues e.currentUser = rest) :
    (e.settled s' batch.batchId).ledger.waiting =
      (e.ledger.waiting.filter fun x => x.1 ≠ 1).map fun x => (x.1 - 1, x.2) := by
  unfold ledger settled
  dsimp only
  rw [List.filter_map, List.map_map, hrest]
  have hfilter : (e.pendingWritesCallbacks.filter fun x => x.1 ≠ batch.batchId) =
      e.pendingWritesCallbacks.filter ((fun x : ℕ × C => decide (x.1 ≠ 1)) ∘ fun x =>
        ((e.localStore.queues e.currentUser).countP fun b => b.batchId ≤ x.1, x.2)) := by
    apply List.filter_congr
    intro x hx
    obtain ⟨hone, hzero⟩ := h.count_first hstore hqueue hx
    simp only [Function.comp_apply, hone, ne_eq, Nat.add_eq_right, hzero]
  rw [← hfilter]
  apply List.map_congr_left
  intro x hx
  obtain ⟨hone, -⟩ := h.count_first hstore hqueue (List.mem_of_mem_filter hx)
  simp only [Function.comp_apply, hone, Nat.add_sub_cancel]

theorem line_settled (hstore : e.localStore.Sound)
    (hqueue : e.localStore.queues e.currentUser = batch :: rest)
    (hqueues : s'.queues = Function.update e.localStore.queues e.currentUser rest) :
    (e.settled s' batch.batchId).ledger.line = Function.update e.ledger.line e.currentUser
      (rest.map fun b => (b.mutations, (e.mutationCallbacks e.currentUser)[b.batchId]?)) := by
  have hsorted := hstore.queues_sorted e.currentUser
  rw [hqueue] at hsorted
  obtain ⟨hfirst, -⟩ := List.pairwise_cons.mp hsorted
  funext user
  unfold ledger settled
  dsimp only
  rw [hqueues]
  by_cases hu : user = e.currentUser
  · subst hu
    rw [Function.update_self, Function.update_self, Function.update_self]
    apply List.map_congr_left
    intro b hb
    have hne : compare batch.batchId b.batchId ≠ .eq := by
      rw [ne_eq, Std.LawfulEqCmp.compare_eq_iff_eq]
      exact (hfirst b hb).ne
    rw [Std.ExtTreeMap.getElem?_erase, if_neg hne]
  · rw [Function.update_of_ne hu, Function.update_of_ne hu, Function.update_of_ne hu]

theorem Waits.after_settled (h : e.Waits) (hstore : e.localStore.Sound)
    (hqueue : e.localStore.queues e.currentUser = batch :: rest)
    (hqueues : s'.queues = Function.update e.localStore.queues e.currentUser rest) :
    (e.settled s' batch.batchId).Waits := by
  have hsorted := hstore.queues_sorted e.currentUser
  rw [hqueue] at hsorted
  obtain ⟨hfirst, -⟩ := List.pairwise_cons.mp hsorted
  refine ⟨fun user id => ?_, fun x hx => ?_⟩
  · have hmutation := h.mutation user id
    unfold settled
    dsimp only
    rw [hqueues]
    by_cases hu : user = e.currentUser
    · subst hu
      rw [hqueue] at hmutation
      simp only [Function.update_self, Std.ExtTreeMap.getElem?_erase,
        Std.LawfulEqCmp.compare_eq_iff_eq]
      split_ifs with hid
      · simp only [Option.isSome_none, Bool.false_eq_true, false_iff, not_exists, not_and]
        intro b hb
        have := hfirst b hb
        omega
      · rw [hmutation, List.exists_mem_cons_iff]
        exact or_iff_right hid
    · rw [Function.update_of_ne hu, Function.update_of_ne hu]
      exact hmutation
  · obtain ⟨hx, hne⟩ := List.mem_filter.mp hx
    obtain ⟨b, hb, hid⟩ := h.pending x hx
    rw [hqueue] at hb
    unfold settled
    dsimp only
    rw [hqueues, Function.update_self]
    rcases List.mem_cons.mp hb with rfl | hb
    · exact absurd hid.symm (by simpa using hne)
    · exact ⟨b, hb, hid⟩

omit [DecidableEq User] in
theorem events_of_calls (status : Status) (l : List (ℤ × C)) :
    (l.map fun x => (.pendingWritesCallback x.2 status : WriteEffect V User C)).flatMap
        WriteEffect.events =
      (l.map Prod.snd).map fun callback =>
        if status.ok then .told callback else .cancelled callback := by
  induction l with
  | nil => rfl
  | cons x l ih =>
    rw [List.map_cons, List.flatMap_cons, ih]
    cases hok : status.ok <;> simp [WriteEffect.events, hok]

/-- The first batch leaves the queue: its callback is called, and so is everyone who waited for
it. -/
theorem Waits.finish (h : e.Waits) (hstore : e.localStore.Sound)
    (hqueue : e.localStore.queues e.currentUser = batch :: rest)
    (hqueues : s'.queues = Function.update e.localStore.queues e.currentUser rest)
    (hcallback : (e.mutationCallbacks e.currentUser)[batch.batchId]? = some callback)
    (status : Status) (changes : MaybeDocumentMap V) :
    Ledger.Step e.ledger (.done e.currentUser batch.mutations status ::
      (.mutationCallback e.currentUser callback status ::
        (e.pendingWritesCallbacks.filter fun x => x.1 = batch.batchId).map
          (fun x => .pendingWritesCallback x.2 .OK) ++
            [.emitted changes] : WriteEffects V User C).flatMap WriteEffect.events)
      (e.settled s' batch.batchId).ledger := by
  have hfirst : e.ledger.line e.ledger.user = (batch.mutations, some callback) ::
      rest.map fun b => (b.mutations, (e.mutationCallbacks e.currentUser)[b.batchId]?) := by
    unfold ledger
    dsimp only
    rw [hqueue, List.map_cons, hcallback]
  have hrest : s'.queues e.currentUser = rest := by rw [hqueues, Function.update_self]
  -- those registered under this id wait for one batch, and are told
  have hevents : (.done e.currentUser batch.mutations status ::
      (.mutationCallback e.currentUser callback status ::
        (e.pendingWritesCallbacks.filter fun x => x.1 = batch.batchId).map
          (fun x => .pendingWritesCallback x.2 .OK) ++
            [.emitted changes] : WriteEffects V User C).flatMap WriteEffect.events) =
      .done e.currentUser batch.mutations status :: .answered e.currentUser
        (some callback) status ::
        (e.ledger.waiting.filter fun x => x.1 = 1).map fun x => .told x.2 := by
    rw [List.cons_append, List.flatMap_cons, List.flatMap_append, events_of_calls,
      ← h.waiting_first hstore hqueue, List.map_map]
    simp [WriteEffect.events, Status.ok, Status.OK, Function.comp_def]
  have hstep := Ledger.Step.finish status hfirst
  have hline := line_settled hstore hqueue hqueues
  have hwaiting := h.waiting_settled hstore hqueue hrest
  rw [hevents]
  change Ledger.Step _ _ ⟨(e.settled s' batch.batchId).ledger.line, e.currentUser,
    (e.settled s' batch.batchId).ledger.waiting⟩
  rw [hline, hwaiting]
  exact hstep

end Settled

section Requests
variable {s' : LocalStore V User} {batch : MutationBatch V} {changes : MaybeDocumentMap V}

def written (e : WriteEngine V User C) (localStore : LocalStore V User) (batchId : ℤ)
    (callback : C) :
    WriteEngine V User C := { e with
  localStore := localStore
  mutationCallbacks := Function.update e.mutationCallbacks e.currentUser
    ((e.mutationCallbacks e.currentUser).insertIfNew batchId callback) }

omit [DecidableEq User] in
theorem Waits.callback_written (h : e.Waits)
    (hbefore : ∀ b ∈ e.localStore.queues e.currentUser, b.batchId < batch.batchId) (callback : C)
    (id : ℤ) :
    ((e.mutationCallbacks e.currentUser).insertIfNew batch.batchId callback)[id]? =
      if batch.batchId = id then some callback else (e.mutationCallbacks e.currentUser)[id]? := by
  rw [Std.ExtTreeMap.getElem?_insertIfNew]
  by_cases hid : batch.batchId = id
  · subst hid
    have hnot : batch.batchId ∉ e.mutationCallbacks e.currentUser := by
      rw [Std.ExtTreeMap.mem_iff_isSome_getElem?, h.mutation]
      rintro ⟨b, hb, hid⟩
      exact (hbefore b hb).ne hid
    simp [hnot]
  · simp [hid]

theorem Waits.line_written (h : e.Waits) (hqueues : s'.queues =
      Function.update e.localStore.queues e.currentUser
        (e.localStore.queues e.currentUser ++ [batch]))
    (hbefore : ∀ b ∈ e.localStore.queues e.currentUser, b.batchId < batch.batchId)
    (callback : C) :
    (e.written s' batch.batchId callback).ledger.line = Function.update e.ledger.line
      e.ledger.user (e.ledger.line e.ledger.user ++ [(batch.mutations, some callback)]) := by
  funext user
  unfold ledger written
  dsimp only
  rw [hqueues]
  by_cases hu : user = e.currentUser
  · subst hu
    rw [Function.update_self, Function.update_self, Function.update_self, List.map_append]
    refine congrArg₂ _ (List.map_congr_left fun b hb => ?_) ?_
    · rw [h.callback_written hbefore, if_neg (hbefore b hb).ne']
    · rw [List.map_singleton, h.callback_written hbefore, if_pos rfl]
  · rw [Function.update_of_ne hu, Function.update_of_ne hu, Function.update_of_ne hu]

/-- A caller waits for as many batches as before: the new one is later than its last. -/
theorem Waits.waiting_written (h : e.Waits) (hqueues : s'.queues =
      Function.update e.localStore.queues e.currentUser
        (e.localStore.queues e.currentUser ++ [batch]))
    (hbefore : ∀ b ∈ e.localStore.queues e.currentUser, b.batchId < batch.batchId)
    (callback : C) :
    (e.written s' batch.batchId callback).ledger.waiting = e.ledger.waiting := by
  unfold ledger written
  dsimp only
  rw [hqueues, Function.update_self]
  apply List.map_congr_left
  intro x hx
  obtain ⟨b, hb, hid⟩ := h.pending x hx
  have hlt := hbefore b hb
  rw [List.countP_append]
  have hlast : [batch].countP (fun b => b.batchId ≤ x.1) = 0 := by
    simp
    omega
  rw [hlast, Nat.add_zero]

theorem Waits.hand (h : e.Waits) (hs' : s'.Sound) (hqueues : s'.queues =
      Function.update e.localStore.queues e.currentUser
        (e.localStore.queues e.currentUser ++ [batch])) (callback : C) :
    (e.written s' batch.batchId callback).Waits ∧
      Ledger.Step e.ledger [(.handed e.currentUser batch.mutations (some callback) :
        Ledger.Event User (List (Mutation V)) (Option C) C Status)]
        (e.written s' batch.batchId callback).ledger := by
  have hbefore : ∀ b ∈ e.localStore.queues e.currentUser, b.batchId < batch.batchId := by
    have hsorted := hs'.queues_sorted e.currentUser
    rw [hqueues, Function.update_self, List.pairwise_append] at hsorted
    exact fun b hb => hsorted.2.2 b hb batch (List.mem_singleton_self batch)
  refine ⟨⟨fun user id => ?_, fun x hx => ?_⟩, ?_⟩
  · have hmutation := h.mutation user id
    unfold written
    dsimp only
    rw [hqueues]
    by_cases hu : user = e.currentUser
    · subst hu
      rw [Function.update_self, Function.update_self, h.callback_written hbefore]
      split_ifs with hid
      · simp [hid]
      · simpa [hid] using hmutation
    · rw [Function.update_of_ne hu, Function.update_of_ne hu]
      exact hmutation
  · obtain ⟨b, hb, hid⟩ := h.pending x hx
    unfold written
    dsimp only
    rw [hqueues, Function.update_self]
    exact ⟨b, List.mem_append_left _ hb, hid⟩
  · have hstep := Ledger.Step.hand (R := Status) (s := e.ledger) batch.mutations (some callback)
    change Ledger.Step _ _ ⟨(e.written s' batch.batchId callback).ledger.line, e.currentUser,
      (e.written s' batch.batchId callback).ledger.waiting⟩
    rw [h.line_written hqueues hbefore, h.waiting_written hqueues hbefore]
    exact hstep

theorem Waits.register (h : e.Waits) (hstore : e.localStore.Sound)
    (huser : e.currentUser = e.localStore.user) (callback : C) :
    (e.registerPendingWritesCallback callback).1.Waits ∧
      Ledger.Step e.ledger (.asked e.currentUser callback ::
        (e.registerPendingWritesCallback callback).2.flatMap WriteEffect.events)
        (e.registerPendingWritesCallback callback).1.ledger := by
  have hwf : e.localStore.mutationQueue.WellFormed := hstore.documents.queue
  have hqueue : e.localStore.queues e.currentUser = e.localStore.mutationQueue.queue := by
    rw [huser]
    rfl
  unfold registerPendingWritesCallback LocalStore.getHighestUnacknowledgedBatchId
    MemoryMutationQueue.getHighestUnacknowledgedBatchId
  by_cases hempty : e.localStore.mutationQueue.queue = []
  · -- nothing is pending, and the caller is told at once
    have hline : e.ledger.line e.ledger.user = [] := by
      change (e.localStore.queues e.currentUser).map _ = []
      rw [hqueue, hempty, List.map_nil]
    simp only [hempty, List.isEmpty_nil, if_true]
    exact ⟨h, .tell callback hline⟩
  · have hpos := hwf.positive
    have hlast : ∃ b ∈ e.localStore.queues e.currentUser,
        b.batchId = e.localStore.mutationQueue.nextBatchId - 1 := by
      have hlen := List.length_pos_of_ne_nil hempty
      have hget : e.localStore.mutationQueue.queue[e.localStore.mutationQueue.queue.length - 1]? =
          some (e.localStore.mutationQueue.queue.getLast hempty) := by
        rw [← List.getLast?_eq_getElem?, List.getLast?_eq_some_getLast hempty]
      refine ⟨e.localStore.mutationQueue.queue.getLast hempty, ?_, ?_⟩
      · rw [hqueue]
        exact List.getLast_mem hempty
      · rw [hwf.consecutive _ _ hget]
        omega
    -- the id is that of the last batch, so the caller waits for every batch of the queue
    have hall : (e.localStore.queues e.currentUser).countP (fun b =>
        b.batchId ≤ e.localStore.mutationQueue.nextBatchId - 1) =
          (e.ledger.line e.ledger.user).length := by
      change _ = ((e.localStore.queues e.currentUser).map _).length
      rw [List.length_map, List.countP_eq_length]
      intro b hb
      have := hwf.mem_bounds (hqueue ▸ hb)
      simp only [decide_eq_true_eq]
      omega
    have hne : e.ledger.line e.ledger.user ≠ [] := by
      change (e.localStore.queues e.currentUser).map _ ≠ []
      rw [hqueue, ne_eq, List.map_eq_nil_iff]
      exact hempty
    have hknown : ¬e.localStore.mutationQueue.nextBatchId - 1 =
        MemoryMutationQueue.batchIdUnknown := by
      unfold MemoryMutationQueue.batchIdUnknown
      omega
    simp only [List.isEmpty_iff, hempty, if_false, hknown]
    refine ⟨⟨h.mutation, fun x hx => ?_⟩, ?_⟩
    · rcases List.mem_append.mp hx with hx | hx
      · exact h.pending x hx
      · obtain rfl := List.mem_singleton.mp hx
        exact hlast
    · have hwaiting : ledger { e with pendingWritesCallbacks := e.pendingWritesCallbacks ++
          [(e.localStore.mutationQueue.nextBatchId - 1, callback)] } = { e.ledger with
            waiting := e.ledger.waiting ++
              [((e.ledger.line e.ledger.user).length, callback)] } := by
        unfold ledger
        dsimp only
        rw [List.map_append, List.map_singleton, hall]
        rfl
      rw [hwaiting]
      exact .wait callback hne

def switched (e : WriteEngine V User C) (localStore : LocalStore V User) (user : User) :
    WriteEngine V User C := { e with
  localStore := localStore
  currentUser := user
  pendingWritesCallbacks := [] }

theorem Waits.switch (h : e.Waits) (user : User) (changes : MaybeDocumentMap V) (message : String)
    (hqueues : s'.queues = e.localStore.queues) :
    (e.switched s' user).Waits ∧ Ledger.Step e.ledger
      ((e.pendingWritesCallbacks.map (fun x => .pendingWritesCallback x.2 ⟨.cancelled, message⟩) ++
        [.emitted changes] : WriteEffects V User C).flatMap WriteEffect.events)
      (e.switched s' user).ledger := by
  refine ⟨⟨fun user' id => ?_, fun x hx => (List.not_mem_nil hx).elim⟩, ?_⟩
  · have hmutation := h.mutation user' id
    unfold switched
    dsimp only
    rw [hqueues]
    exact hmutation
  · have hstep := Ledger.Step.switch (R := Status) (s := e.ledger) user
    have hevents : (e.pendingWritesCallbacks.map (fun x =>
        .pendingWritesCallback x.2 ⟨.cancelled, message⟩) ++
          [.emitted changes] : WriteEffects V User C).flatMap WriteEffect.events =
            e.ledger.waiting.map fun x => .cancelled x.2 := by
      rw [List.flatMap_append, events_of_calls]
      simp [WriteEffect.events, Status.ok, ledger, Function.comp_def]
    have hledger : (e.switched s' user).ledger = { e.ledger with user := user, waiting := [] } := by
      unfold ledger switched
      dsimp only
      rw [hqueues]
      rfl
    rw [hevents, hledger]
    exact hstep

end Requests
end WriteEngine
end Firestore
