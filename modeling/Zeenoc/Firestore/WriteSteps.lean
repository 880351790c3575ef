import Zeenoc.Firestore.WriteCallbacks

/-! What each event does to the engine that sends writes: it stays sound, its ledger takes a step,
and it believes the backend only what that has said. -/

namespace Firestore
variable {V User C : Type} [ObjectValue V]

abbrev Answer (V : Type) [ObjectValue V] :=
  List (Mutation V) × SnapshotVersion × List (MutationResult V)

def Commit.answer (c : Commit V) : Answer V := (c.mutations, c.commitVersion, c.mutationResults)

def WriteEffect.answer? : WriteEffect V User C → Option (Answer V)
  | acknowledged _ r => some (r.batch.mutations, r.commitVersion, r.mutationResults)
  | _ => none

abbrev WriteLedgerEvent (V User C : Type) [ObjectValue V] :=
  Ledger.Event User (List (Mutation V)) (Option C) C Status

def WriteStream.stopped (s : WriteStream V) : WriteStream V :=
  if s.isStarted then { s.shutDown .OK with handshakeComplete := false } else s

theorem WriteStream.WellFormed.stopped {s : WriteStream V} (h : s.WellFormed) :
    s.stopped.WellFormed ∧ s.stopped.isStarted = false := by
  unfold WriteStream.stopped
  split_ifs with hstarted
  · have hs' := h.shutDown .OK
    exact ⟨⟨hs'.connected, hs'.awaited, hs'.issued, hs'.nodup, hs'.idle⟩, rfl⟩
  · exact ⟨h, by simpa using hstarted⟩

theorem WriteStream.isOpen_of_not_started {s : WriteStream V} (h : s.isStarted = false) :
    s.isOpen = false := by
  unfold isStarted at h
  exact (Bool.or_eq_false_iff.mp h).2

namespace WriteEngine

structure Sound (e : WriteEngine V User C) (onWay : List (Commit V)) : Prop where
  ready : e.Ready onWay
  filled : e.Filled
  waits : e.Waits
  silent : e.writeStream.isOpen = false → e.writeStream.handshakeComplete = false

structure Moves (e e' : WriteEngine V User C) (asked : List (WriteLedgerEvent V User C))
    (effects : WriteEffects V User C) (onWay onWay' : List (Commit V))
    [DecidableEq User] : Prop where
  sound : e'.Sound onWay'
  ledger : Ledger.Step e.ledger (asked ++ effects.flatMap WriteEffect.events) e'.ledger
  answered : (effects.filterMap WriteEffect.answer? ++ onWay'.map Commit.answer).Sublist
    (onWay.map Commit.answer)

variable [DecidableEq User] {e : WriteEngine V User C} {onWay : List (Commit V)}

omit [DecidableEq User] in
theorem ready_of_stopped (hstore : e.localStore.Sound) (huser : e.currentUser = e.localStore.user)
    (hstream : e.writeStream.WellFormed) (hstopped : e.writeStream.isStarted = false)
    (hempty : e.writePipeline = []) : e.Ready [] := by
  have hclosed := WriteStream.isOpen_of_not_started hstopped
  refine ⟨hstore, huser, hstream, ⟨fun _ => rfl, fun hopen => ?_, fun hopen => ?_⟩, ?_, ?_,
    fun _ => ⟨hempty, hstopped⟩, fun hstarted => ?_, fun hidle => ?_⟩
  · exact absurd hopen (Bool.eq_false_iff.mp hclosed)
  · exact absurd hopen (Bool.eq_false_iff.mp hclosed)
  · rw [hempty]
    exact List.nil_prefix
  · rw [hempty]
    exact Nat.zero_le _
  · exact absurd hstarted (Bool.eq_false_iff.mp hstopped)
  · exact absurd (hstream.idle hidle) (Bool.eq_false_iff.mp hclosed)

section Requests
variable {mutations : List (Mutation V)}

omit [DecidableEq User] in
theorem Ready.queues_currentUser (h : e.Ready onWay) :
    e.localStore.queues e.currentUser = e.localStore.mutationQueue.queue := by
  rw [h.user]
  rfl

theorem queues_of_user {s s' : LocalStore V User} {queue : List (MutationBatch V)}
    (huser : s'.user = s.user) (hqueue : s'.mutationQueue.queue = queue)
    (hothers : ∀ user, user ≠ s.user → s'.queues user = s.queues user) :
    s'.queues = Function.update s.queues s.user queue := by
  funext user
  by_cases hu : user = s.user
  · subst hu
    rw [Function.update_self, ← hqueue, ← huser]
    rfl
  · rw [Function.update_of_ne hu, hothers user hu]

theorem Sound.wrote (h : e.Sound onWay) (localWriteTime : Timestamp) (hne : mutations ≠ [])
    (callback : C) :
    ∃ e' effects, e.writeMutations localWriteTime mutations callback = some (e', effects) ∧
      e.Moves e' [.handed e.currentUser mutations (some callback)] effects onWay onWay := by
  obtain ⟨s', batch, changes, hwrite, hs', -, hmutations, hqueue, -, huser, -⟩ :=
    h.ready.store.writeLocally_eq localWriteTime hne
  have hqueues : s'.queues = Function.update e.localStore.queues e.currentUser
      (e.localStore.queues e.currentUser ++ [batch]) := by
    rw [h.ready.queues_currentUser, h.ready.user]
    exact queues_of_user huser hqueue fun user => LocalStore.queues_of_writeLocally hwrite
  obtain ⟨hwaits, hstep⟩ := h.waits.hand hs' hqueues callback
  have hready : (e.written s' batch.batchId callback).Ready onWay :=
    ⟨hs', h.ready.user.trans huser.symm, h.ready.stream, h.ready.carries,
      h.ready.pipeline.trans (hqueue ▸ List.prefix_append _ _), h.ready.bounded, h.ready.offline,
      h.ready.needed, h.ready.idle⟩
  obtain ⟨pipeline, s, hfill, hready', hfilled, hhandshake, hopen⟩ := hready.fillWritePipeline_eq
  refine ⟨_, [.emitted changes], ?_, ⟨hready', hfilled, ⟨hwaits.mutation, hwaits.pending⟩,
    fun hclosed => hhandshake.trans (h.silent (hopen ▸ hclosed))⟩, hmutations ▸ hstep,
    List.Sublist.refl _⟩
  unfold writeMutations
  rw [hwrite, Option.bind_some]
  exact Option.map_eq_some_iff.mpr ⟨_, hfill, rfl⟩

omit [DecidableEq User] in
theorem exists_registered (e : WriteEngine V User C) (callback : C) :
    ∃ waiting, (e.registerPendingWritesCallback callback).1 =
      { e with pendingWritesCallbacks := waiting } := by
  unfold registerPendingWritesCallback
  dsimp only
  split_ifs
  · exact ⟨e.pendingWritesCallbacks, rfl⟩
  · exact ⟨_, rfl⟩

omit [DecidableEq User] in
theorem answer_registered (e : WriteEngine V User C) (callback : C) :
    (e.registerPendingWritesCallback callback).2.filterMap WriteEffect.answer? = [] := by
  unfold registerPendingWritesCallback
  dsimp only
  split_ifs <;> rfl

theorem Sound.registered (h : e.Sound onWay) (callback : C) :
    e.Moves (e.registerPendingWritesCallback callback).1 [.asked e.currentUser callback]
      (e.registerPendingWritesCallback callback).2 onWay onWay := by
  obtain ⟨hwaits, hstep⟩ := h.waits.register h.ready.store h.ready.user callback
  refine ⟨?_, hstep, ?_⟩
  · obtain ⟨waiting, he⟩ := e.exists_registered callback
    rw [he] at hwaits ⊢
    have hr := h.ready
    exact ⟨⟨hr.store, hr.user, hr.stream, hr.carries, hr.pipeline, hr.bounded,
      hr.offline, hr.needed,
      hr.idle⟩, ⟨h.filled.full, h.filled.running⟩, hwaits, h.silent⟩
  · rw [answer_registered]
    exact List.Sublist.refl _

theorem Sound.received (h : e.Sound onWay) {event : RemoteEvent V} (hevent : event.Versioned)
    (hlast : event.snapshotVersion = .none ∨
      e.localStore.lastRemoteSnapshotVersion ≤ event.snapshotVersion) :
    ∃ e' effects, e.applyRemoteEvent event = some (e', effects) ∧
      e.Moves e' [] effects onWay onWay := by
  obtain ⟨s', changes, hreceive, hs', -, huser, hsame⟩ :=
    h.ready.store.applyRemoteEvent_eq hevent hlast
  have hqueues : s'.queues = e.localStore.queues := by
    unfold LocalStore.queues
    rw [hsame]
  have hqueue : s'.mutationQueue.queue = e.localStore.mutationQueue.queue := by
    unfold LocalStore.mutationQueue
    rw [hsame, huser]
  have hledger : ledger { e with localStore := s' } = e.ledger := by
    unfold ledger
    dsimp only
    rw [hqueues]
  have hr := h.ready
  refine ⟨{ e with localStore := s' }, [.emitted changes], ?_, ⟨⟨hs', hr.user.trans huser.symm,
    hr.stream, hr.carries, hqueue ▸ hr.pipeline, hr.bounded, hr.offline, hr.needed, hr.idle⟩,
    ⟨fun hnetwork => hqueue ▸ h.filled.full hnetwork, h.filled.running⟩,
    ⟨fun user id => hqueues ▸ h.waits.mutation user id, fun x hx => hqueues ▸ h.waits.pending x hx⟩,
    h.silent⟩, hledger ▸ .stay, List.Sublist.refl _⟩
  unfold applyRemoteEvent
  rw [hreceive]
  rfl

end Requests

section Network

theorem close_of_ok {status : Status} (hok : status.ok)
    (hneeded : e.isNetworkEnabled = false ∨ e.writePipeline = []) :
    e.close status = some ({ e with writeStream := e.writeStream.stopped }, []) := by
  have hshut : e.writeStream.shutDown status = e.writeStream.shutDown .OK := by
    unfold WriteStream.shutDown
    rw [if_pos hok]
    rfl
  unfold close WriteStream.stopped
  split_ifs with hstarted
  · have hshould : shouldStartWriteStream
        { e with writeStream := e.writeStream.shutDown .OK } = false := by
      unfold shouldStartWriteStream
      rcases hneeded with hoff | hempty
      · simp [hoff]
      · simp [hempty]
    unfold onWriteStreamClose
    simp [hshut, hshould, hok]
  · rfl

def offline (e : WriteEngine V User C) : WriteEngine V User C := { e with
  isNetworkEnabled := false
  writePipeline := []
  writeStream := e.writeStream.stopped }

theorem disableNetwork_eq (e : WriteEngine V User C) : e.disableNetwork = some (e.offline, []) := by
  unfold disableNetwork disableNetworkInternal stop
  rw [close_of_ok rfl (.inl rfl)]
  rfl

omit [DecidableEq User] in
theorem ready_offline (hstore : e.localStore.Sound) (huser : e.currentUser = e.localStore.user)
    (hstream : e.writeStream.WellFormed) : e.offline.Ready [] :=
  ready_of_stopped hstore huser hstream.stopped.1 hstream.stopped.2 rfl

omit [DecidableEq User] in
theorem silent_stopped {s : WriteStream V}
    (hsilent : s.isOpen = false → s.handshakeComplete = false) :
    s.stopped.handshakeComplete = false := by
  unfold WriteStream.stopped
  split_ifs with hstarted
  · rfl
  · exact hsilent (WriteStream.isOpen_of_not_started (by simpa using hstarted))

theorem Sound.disabled (h : e.Sound onWay) : e.Moves e.offline [] [] onWay [] where
  sound := ⟨ready_offline h.ready.store h.ready.user h.ready.stream,
    ⟨fun hnetwork => absurd hnetwork (by simp [offline]), fun _ hne => absurd rfl hne⟩,
    ⟨h.waits.mutation, h.waits.pending⟩, fun _ => silent_stopped h.silent⟩
  ledger := .stay
  answered := List.nil_sublist _

omit [DecidableEq User] in
theorem exists_enabled (hready : e.Ready onWay) (hwaits : e.Waits)
    (hsilent : e.writeStream.isOpen = false → e.writeStream.handshakeComplete = false) :
    ∃ e', e.enableNetwork = some e' ∧ e'.Sound onWay ∧ e'.ledger = e.ledger := by
  have hready' : Ready { e with isNetworkEnabled := true } onWay :=
    ⟨hready.store, hready.user, hready.stream, hready.carries, hready.pipeline, hready.bounded,
      fun hoff => (Bool.noConfusion hoff), hready.needed, hready.idle⟩
  obtain ⟨pipeline, s, hfill, hready'', hfilled, hhandshake, hopen⟩ := hready'.fillWritePipeline_eq
  exact ⟨_, hfill, ⟨hready'', hfilled, ⟨hwaits.mutation, hwaits.pending⟩,
    fun hclosed => hhandshake.trans (hsilent (hopen ▸ hclosed))⟩, rfl⟩

theorem Sound.enabled (h : e.Sound onWay) :
    ∃ e', e.enableNetwork = some e' ∧ e.Moves e' [] [] onWay onWay := by
  obtain ⟨e', henable, hsound, hledger⟩ := exists_enabled h.ready h.waits h.silent
  exact ⟨e', henable, hsound, hledger ▸ .stay, List.Sublist.refl _⟩

/-- The streams restart with the queue of a user; what was on its way is not heard of again. -/
theorem exists_restarted (hstore : e.localStore.Sound) (huser : e.currentUser = e.localStore.user)
    (hstream : e.writeStream.WellFormed) (hwaits : e.Waits)
    (hsilent : e.writeStream.isOpen = false → e.writeStream.handshakeComplete = false)
    (hnetwork : e.isNetworkEnabled) :
    ∃ e', e.restartStreams = some (e', []) ∧ e'.Sound [] ∧ e'.ledger = e.ledger := by
  obtain ⟨e', henable, hsound, hledger⟩ := exists_enabled (ready_offline hstore huser hstream)
    ⟨hwaits.mutation, hwaits.pending⟩ fun _ => silent_stopped hsilent
  refine ⟨e', ?_, hsound, hledger⟩
  have hdisable : disableNetworkInternal { e with isNetworkEnabled := false } =
      some (e.offline, []) := e.disableNetwork_eq
  unfold restartStreams
  rw [if_pos hnetwork, hdisable, Option.bind_some]
  simp only [henable, Option.map_some]

theorem handleCredentialChange_eq {user : User} (hu : e.currentUser ≠ user)
    {s' : LocalStore V User} {changes : MaybeDocumentMap V}
    (hchange : e.localStore.handleUserChange user = some (s', changes)) :
    e.handleCredentialChange user = (e.switched s' user).restartStreams.map fun (e', more) =>
      (e', e.pendingWritesCallbacks.map (fun x => .pendingWritesCallback x.2 ⟨.cancelled,
        "'waitForPendingWrites' callback is cancelled due to a user change."⟩) ++
          [.emitted changes] ++ more) := by
  unfold handleCredentialChange
  rw [if_pos hu]
  dsimp only [failOutstandingPendingWriteCallbacks]
  rw [hchange]
  rfl

theorem restartStreams_of_offline (hnetwork : e.isNetworkEnabled = false) :
    e.restartStreams = some (e, []) := by
  unfold restartStreams
  rw [if_neg (by simp [hnetwork])]

omit [DecidableEq User] in
theorem answers_of_cancelled (status : Status) (changes : MaybeDocumentMap V) (l : List (ℤ × C)) :
    (l.map (fun x => .pendingWritesCallback x.2 status) ++
      [.emitted changes] : WriteEffects V User C).filterMap WriteEffect.answer? = [] := by
  rw [List.filterMap_append, List.filterMap_map]
  simp [WriteEffect.answer?, Function.comp_def]

theorem Sound.changedUser (h : e.Sound onWay) (user : User) :
    ∃ e' effects onWay', e.handleCredentialChange user = some (e', effects) ∧
      e.Moves e' [] effects onWay onWay' := by
  have hr := h.ready
  by_cases hu : e.currentUser = user
  · -- the same user again, perhaps with a new token: the streams are restarted
    unfold handleCredentialChange
    rw [if_neg (not_not.mpr hu), Option.bind_some]
    cases hnetwork : e.isNetworkEnabled with
    | false =>
      refine ⟨e, [], onWay, ?_, h, .stay, List.Sublist.refl _⟩
      simp only [restartStreams_of_offline hnetwork, Option.map_some, List.nil_append]
    | true =>
      obtain ⟨e', hrestart, hsound, hledger⟩ :=
        exists_restarted hr.store hr.user hr.stream h.waits h.silent hnetwork
      refine ⟨e', [], [], ?_, hsound, hledger ▸ .stay, List.nil_sublist _⟩
      simp only [hrestart, Option.map_some, List.nil_append]
  · obtain ⟨s', changes, hchange, hs', -, huser, -⟩ := hr.store.handleUserChange_eq user
    obtain ⟨hwaits, hstep⟩ := h.waits.switch user changes
      "'waitForPendingWrites' callback is cancelled due to a user change."
      (LocalStore.queues_of_handleUserChange hchange)
    rw [handleCredentialChange_eq hu hchange]
    cases hnetwork : e.isNetworkEnabled with
    | false =>
      -- offline there is no stream to restart
      obtain ⟨hempty, hstopped⟩ := hr.offline hnetwork
      have hready : (e.switched s' user).Ready [] :=
        ready_of_stopped hs' huser.symm hr.stream hstopped hempty
      have hoff : (e.switched s' user).restartStreams = some (e.switched s' user, []) :=
        restartStreams_of_offline hnetwork
      rw [hoff]
      refine ⟨_, _, [], rfl, ⟨hready, ⟨fun hyes => ?_, fun _ hne => absurd hempty hne⟩, hwaits,
        h.silent⟩, ?_, ?_⟩
      · exact absurd (hnetwork.symm.trans hyes) (by simp)
      · rw [List.append_nil]
        exact hstep
      · rw [List.append_nil, answers_of_cancelled]
        exact List.nil_sublist _
    | true =>
      obtain ⟨e', hrestart, hsound, hledger⟩ := exists_restarted
        (e := e.switched s' user) hs' huser.symm hr.stream hwaits h.silent hnetwork
      rw [hrestart]
      refine ⟨_, _, [], rfl, hsound, ?_, ?_⟩
      · rw [List.append_nil, hledger]
        exact hstep
      · rw [List.append_nil, answers_of_cancelled]
        exact List.nil_sublist _

end Network
end WriteEngine
end Firestore
