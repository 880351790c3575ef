import Zeenoc.Firestore.WriteSteps

/-! What the stream brings to the engine that sends writes: tokens, answers and the end of it. -/

namespace Firestore
variable {V User C : Type} [ObjectValue V]

namespace WriteStream
variable {s : WriteStream V}

theorem WellFormed.withTokens (h : s.WellFormed) (closeCount : ℕ) :
    WellFormed { s with tokenRequests := s.tokenRequests.erase closeCount } :=
  ⟨h.connected, fun hmem => h.awaited (List.mem_of_mem_erase hmem),
    fun c hc => h.issued c (List.mem_of_mem_erase hc), h.nodup.erase _, h.idle⟩

theorem WellFormed.reset (h : s.WellFormed) (hclosed : s.isOpen = false)
    (hstate : s.state ≠ .starting) :
    WellFormed { s with state := .initial } :=
  ⟨h.connected.trans hclosed, fun hmem => absurd (h.awaited hmem) hstate, h.issued, h.nodup,
    fun hi => absurd (h.idle hi) (Bool.eq_false_iff.mp hclosed)⟩

theorem connect_eq (hstate : s.state = .starting) (hhandshake : s.handshakeComplete = false) :
    s.connect = some { s with
      state := .opened
      idlenessTimer := false
      grpcStream := some ⟨[.handshake], []⟩ } := by
  unfold connect onStreamStart writeHandshake write isOpen
  simp [hstate, hhandshake]

theorem WellFormed.sent (h : s.WellFormed) (hopen : s.isOpen) (hhandshake : s.handshakeComplete)
    (hidle : s.idlenessTimer = false) {requests : List (WriteRequest V)}
    {responses : List (WriteResponse V)} (hgrpc : s.grpcStream = some ⟨requests, responses⟩)
    (pipeline : List (MutationBatch V)) :
    ∃ s', pipeline.foldlM (fun s write => s.writeMutations write.mutations) s = some s' ∧
      s'.WellFormed ∧ s'.isOpen ∧ s'.handshakeComplete ∧ s'.idlenessTimer = false ∧
      s'.grpcStream =
        some ⟨requests ++ pipeline.map fun write => .mutations write.mutations, responses⟩ := by
  induction pipeline generalizing s requests with
  | nil => exact ⟨s, rfl, h, hopen, hhandshake, hidle, by rw [List.map_nil, List.append_nil, hgrpc]⟩
  | cons write rest ih =>
    obtain ⟨hwrite, hwf⟩ := h.written hgrpc (.mutations write.mutations)
    obtain ⟨s', hrest, hs', hopen', hhandshake', hidle', hgrpc'⟩ := ih hwf hopen hhandshake rfl rfl
    refine ⟨s', ?_, hs', hopen', hhandshake', hidle', ?_⟩
    · have hfirst : s.writeMutations write.mutations = s.write (.mutations write.mutations) := by
        unfold writeMutations
        rw [hopen, hhandshake]
        rfl
      rw [List.foldlM_cons, hfirst, hwrite]
      exact hrest
    · rw [hgrpc', List.map_cons, List.append_assoc]
      rfl

end WriteStream

namespace WriteEngine
variable {e : WriteEngine V User C} {onWay onWay' : List (Commit V)}

theorem Ready.withStream (h : e.Ready onWay) {s : WriteStream V} (hs : s.WellFormed)
    (hcarries : Carries s e.writePipeline onWay') (hstate : s.state = e.writeStream.state)
    (hhandshake : s.handshakeComplete = e.writeStream.handshakeComplete)
    (hidle : s.idlenessTimer = e.writeStream.idlenessTimer) :
    Ready { e with writeStream := s } onWay' := by
  have hopen : s.isOpen = e.writeStream.isOpen := by
    unfold WriteStream.isOpen
    rw [hstate]
  have hstarted : s.isStarted = e.writeStream.isStarted := by
    unfold WriteStream.isStarted
    rw [hstate, hopen]
  exact ⟨h.store, h.user, hs, hcarries, h.pipeline, h.bounded,
    fun hoff => ⟨(h.offline hoff).1, hstarted.trans (h.offline hoff).2⟩,
    fun hs hno => h.needed (hstarted ▸ hs) (hopen ▸ hhandshake ▸ hno),
    fun hi => ⟨(h.idle (hidle ▸ hi)).1, hhandshake.trans (h.idle (hidle ▸ hi)).2⟩⟩

theorem Sound.withStream (h : e.Sound onWay) {s : WriteStream V} (hs : s.WellFormed)
    (hcarries : Carries s e.writePipeline onWay') (hstate : s.state = e.writeStream.state)
    (hhandshake : s.handshakeComplete = e.writeStream.handshakeComplete)
    (hidle : s.idlenessTimer = e.writeStream.idlenessTimer) :
    Sound { e with writeStream := s } onWay' := by
  refine ⟨h.ready.withStream hs hcarries hstate hhandshake hidle,
    ⟨h.filled.full, fun hnetwork hne => ?_⟩,
    ⟨h.waits.mutation, h.waits.pending⟩, fun hclosed => hhandshake.trans (h.silent ?_)⟩
  · have hrunning := h.filled.running hnetwork hne
    unfold WriteStream.isStarted WriteStream.isOpen at hrunning ⊢
    exact hstate ▸ hrunning
  · unfold WriteStream.isOpen at hclosed ⊢
    exact hstate ▸ hclosed

theorem Ready.reset (h : e.Ready onWay) (hclosed : e.writeStream.isOpen = false)
    (hstate : e.writeStream.state ≠ .starting) :
    Ready { e with writeStream := { e.writeStream with state := .initial } } onWay :=
  ⟨h.store, h.user, h.stream.reset hclosed hstate, ⟨fun _ => h.carries.closed hclosed,
    fun hopen => Bool.noConfusion hopen, fun hopen => Bool.noConfusion hopen⟩,
      h.pipeline, h.bounded,
    fun hoff => ⟨(h.offline hoff).1, rfl⟩, fun hstarted => Bool.noConfusion hstarted, h.idle⟩

theorem Ready.shutDown (h : e.Ready onWay) (status : Status) :
    Ready { e with writeStream := e.writeStream.shutDown status } [] ∧
      (e.writeStream.shutDown status).isStarted = false := by
  have hstopped : (e.writeStream.shutDown status).isStarted = false := by
    unfold WriteStream.shutDown WriteStream.isStarted WriteStream.isOpen
    cases status.ok <;> rfl
  have hclosed := WriteStream.isOpen_of_not_started hstopped
  refine ⟨⟨h.store, h.user, h.stream.shutDown status,
    ⟨fun _ => rfl, fun hopen => ?_, fun hopen => ?_⟩,
    h.pipeline, h.bounded, fun hoff => ⟨(h.offline hoff).1, hstopped⟩, fun hstarted => ?_,
    fun hi => Bool.noConfusion hi⟩, hstopped⟩
  · exact absurd hopen (Bool.eq_false_iff.mp hclosed)
  · exact absurd hopen (Bool.eq_false_iff.mp hclosed)
  · exact absurd hstarted (Bool.eq_false_iff.mp hstopped)

theorem Ready.told (h : e.Ready onWay) (hclosed : e.writeStream.isOpen = false) :
    Ready { e with writeStream := { e.writeStream with handshakeComplete := false } } onWay := by
  have hwf := h.stream
  refine ⟨h.store, h.user, ⟨hwf.connected, hwf.awaited, hwf.issued, hwf.nodup, hwf.idle⟩,
    ⟨h.carries.closed, fun hopen => ?_, fun hopen => ?_⟩, h.pipeline, h.bounded, h.offline,
    fun hstarted _ => h.needed hstarted (by rw [hclosed, Bool.false_and]), fun hi => ?_⟩
  · exact absurd hopen (Bool.eq_false_iff.mp hclosed)
  · exact absurd hopen (Bool.eq_false_iff.mp hclosed)
  · exact absurd (hwf.idle hi) (Bool.eq_false_iff.mp hclosed)

section Timers
variable [DecidableEq User]

theorem Sound.ended (h : e.Sound onWay) {status : Status} (hok : status.ok)
    (hempty : e.writePipeline = []) :
    ∃ e', e.close status = some (e', []) ∧ e.Moves e' [] [] onWay [] := by
  obtain ⟨hwf, hstopped⟩ := h.ready.stream.stopped
  exact ⟨_, close_of_ok hok (.inr hempty), ⟨ready_of_stopped h.ready.store h.ready.user hwf hstopped
    hempty, ⟨h.filled.full, fun _ hne => absurd hempty hne⟩, ⟨h.waits.mutation, h.waits.pending⟩,
    fun _ => silent_stopped h.silent⟩, .stay, List.nil_sublist _⟩

theorem Sound.idled (h : e.Sound onWay) (hidle : e.writeStream.idlenessTimer) :
    ∃ e', e.stop = some (e', []) ∧ e.Moves e' [] [] onWay [] :=
  h.ended rfl (h.ready.idle hidle).1

theorem Sound.backoffElapsed (h : e.Sound onWay) (hstate : e.writeStream.state = .backoff) :
    ∃ s, e.writeStream.backoffElapsed = some s ∧
      e.Moves { e with writeStream := s } [] [] onWay onWay := by
  have hclosed : e.writeStream.isOpen = false := by
    unfold WriteStream.isOpen
    rw [hstate]
    rfl
  have hstarted : e.writeStream.isStarted := by
    unfold WriteStream.isStarted
    rw [hstate]
    rfl
  have hne : e.writePipeline ≠ [] := h.ready.needed hstarted (by rw [hclosed, Bool.false_and])
  have hnetwork : e.isNetworkEnabled := by
    by_contra hoff
    exact hne (h.ready.offline (by simpa using hoff)).1
  have hreset := h.ready.reset hclosed (by simp [hstate])
  obtain ⟨s, hs, hready, hrunning, hhandshake, hopen⟩ := hreset.started (by
    simp [shouldStartWriteStream, hnetwork, hne, WriteStream.isStarted, WriteStream.isOpen])
  have hstart : WriteStream.start { e.writeStream with state := .initial } = some s := by
    unfold startWriteStream at hs
    split_ifs at hs
    obtain ⟨s', hs', he⟩ := Option.map_eq_some_iff.mp hs
    exact hs'.trans (congrArg some (congrArg writeStream he))
  refine ⟨s, ?_, ⟨hready, ⟨h.filled.full, fun _ _ => hrunning⟩, ⟨h.waits.mutation, h.waits.pending⟩,
    fun hno => hhandshake.trans (h.silent hclosed)⟩, .stay, List.Sublist.refl _⟩
  unfold WriteStream.backoffElapsed
  rw [if_pos hstate, hstart, Option.bind_some, if_pos hrunning]

end Timers

section First
variable {batch : MutationBatch V} {rest : List (MutationBatch V)}

theorem Ready.first (h : e.Ready onWay) (hwaits : e.Waits)
    (hfirst : e.writePipeline = batch :: rest) :
    ∃ queue callback, e.localStore.mutationQueue.queue = batch :: queue ∧ rest <+: queue ∧
      (e.mutationCallbacks e.currentUser)[batch.batchId]? = some callback := by
  obtain ⟨more, hqueue⟩ := h.pipeline
  rw [hfirst, List.cons_append] at hqueue
  have hcallback : ((e.mutationCallbacks e.currentUser)[batch.batchId]?).isSome := by
    rw [hwaits.mutation, h.queues_currentUser, ← hqueue]
    exact ⟨batch, List.mem_cons_self, rfl⟩
  obtain ⟨callback, hcallback⟩ := Option.isSome_iff_exists.mp hcallback
  exact ⟨rest ++ more, callback, hqueue.symm, List.prefix_append _ _, hcallback⟩

theorem Ready.afterFirst [DecidableEq User] (h : e.Ready onWay)
    (hfirst : e.writePipeline = batch :: rest) {s : WriteStream V} (hwf : s.WellFormed)
    (hcarries : Carries s rest onWay') (hidle : s.idlenessTimer = false)
    (hready : s.isStarted → s.isOpen && s.handshakeComplete) {s' : LocalStore V User}
    (hs' : s'.Sound)
    (huser : s'.user = e.localStore.user) (hrest : rest <+: s'.mutationQueue.queue) :
    Ready { e.settled s' batch.batchId with writePipeline := rest, writeStream := s } onWay' := by
  have hbounded := h.bounded
  rw [hfirst, List.length_cons] at hbounded
  refine ⟨hs', h.user.trans huser.symm, hwf, hcarries, hrest, (Nat.le_succ _).trans hbounded,
    fun hoff => ?_, fun hstarted hno => ?_, fun hi => ?_⟩
  · have hnone := (h.offline hoff).1
    rw [hfirst] at hnone
    cases hnone
  · exact absurd (hready hstarted) (Bool.eq_false_iff.mp hno)
  · exact absurd hi (Bool.eq_false_iff.mp hidle)

end First

section Closed
variable [DecidableEq User] {status : Status}

/-- What is done between the end of a stream and the word to its owner. -/
structure Handles (e e' : WriteEngine V User C) (effects : WriteEffects V User C) : Prop where
  ready : e'.Ready []
  full : e'.isNetworkEnabled →
    e'.writePipeline = e'.localStore.mutationQueue.queue.take maxPendingWrites
  waits : e'.Waits
  closed : e'.writeStream.isOpen = false
  ledger : Ledger.Step e.ledger (effects.flatMap WriteEffect.events) e'.ledger
  silent : effects.filterMap WriteEffect.answer? = []

/-- A permanent error takes the first write; with any other, all writes wait for the next stream. -/
theorem exists_handledError (h : e.Ready []) (hfull : e.isNetworkEnabled →
      e.writePipeline = e.localStore.mutationQueue.queue.take maxPendingWrites) (hwaits : e.Waits)
    (hstopped : e.writeStream.isStarted = false) (hne : e.writePipeline ≠ [])
    (herror : status.ok = false) :
    ∃ e' effects, e.handleWriteError status = some (e', effects) ∧ e.Handles e' effects := by
  have hclosed := WriteStream.isOpen_of_not_started hstopped
  obtain ⟨permanent, hpermanent⟩ :=
    Option.isSome_iff_exists.mp (isPermanentWriteError_isSome.mpr herror)
  unfold handleWriteError
  rw [hpermanent, Option.bind_some]
  cases permanent with
  | false => exact ⟨e, [], rfl, h, hfull, hwaits, hclosed, .stay, rfl⟩
  | true =>
    -- the backend will not take the first write, so its batch is rejected
    obtain ⟨batch, rest, hfirst⟩ := List.exists_cons_of_ne_nil hne
    obtain ⟨queue, callback, hqueue, hrest, hcallback⟩ := h.first hwaits hfirst
    obtain ⟨s', changes, hreject, hs', -, huser, hqueue', -⟩ := h.store.rejectBatch_eq hqueue
    have hstate : e.writeStream.state ≠ .starting := fun hstate => by
      simp [WriteStream.isStarted, hstate] at hstopped
    have hqueues : s'.queues = Function.update e.localStore.queues e.currentUser queue := by
      rw [h.user]
      exact queues_of_user huser hqueue' fun user => LocalStore.queues_of_rejectBatch hreject
    have hline : e.localStore.queues e.currentUser = batch :: queue := by
      rw [h.queues_currentUser, hqueue]
    have hready := h.afterFirst hfirst (h.stream.reset hclosed hstate)
      ⟨fun _ => rfl, fun hopen => Bool.noConfusion hopen, fun hopen => Bool.noConfusion hopen⟩
      (h.stream.idle_of_not_open hclosed) (fun hstarted => Bool.noConfusion hstarted) hs' huser
      (hqueue' ▸ hrest)
    obtain ⟨pipeline, s, hfill, hready', hfilled, -, hopen⟩ := hready.fillWritePipeline_eq
    have hwaits' := hwaits.after_settled h.store hline hqueues
    have hstep := hwaits.finish h.store hline hqueues hcallback status changes
    have hrejected := handleRejectedWrite_eq status (e := { e with
      writePipeline := rest, writeStream :=
        { e.writeStream with state := .initial } }) hcallback hreject
    simp only [hfirst, if_true, WriteStream.inhibitBackoff, hstopped, Bool.false_eq_true, if_false,
      Option.bind_some]
    rw [hrejected, Option.bind_some]
    refine ⟨_, _, Option.map_eq_some_iff.mpr ⟨_, hfill, rfl⟩, hready', hfilled.full,
      ⟨hwaits'.mutation,
      hwaits'.pending⟩, hopen, hstep, ?_⟩
    rw [List.cons_append, List.filterMap_cons, List.filterMap_cons]
    exact answers_of_cancelled .OK changes _

/-- A stream ends: if it does so well, there must be nothing left to send. -/
theorem Sound.closed (h : e.Sound onWay) (hstarted : e.writeStream.isStarted)
    (hok : status.ok → e.writePipeline = []) :
    ∃ e' effects, e.close status = some (e', effects) ∧ e.Moves e' [] effects onWay [] := by
  cases herror : status.ok with
  | true =>
    obtain ⟨e', hclose, hmoves⟩ := h.ended herror (hok herror)
    exact ⟨e', [], hclose, hmoves⟩
  | false =>
    obtain ⟨hshut, hstopped⟩ := h.ready.shutDown status
    set e₁ : WriteEngine V User C := { e with writeStream := e.writeStream.shutDown status }
    have hwaits : e₁.Waits := ⟨h.waits.mutation, h.waits.pending⟩
    have hclosed := WriteStream.isOpen_of_not_started hstopped
    obtain ⟨e₂, effects, hhandle, hhandles⟩ : ∃ e₂ effects,
        (if !status.ok && !e₁.writePipeline.isEmpty && e₁.writeStream.handshakeComplete then
          e₁.handleWriteError status else some (e₁, [])) = some (e₂, effects) ∧
            e₁.Handles e₂ effects := by
      split_ifs with hsent
      · have hne : e₁.writePipeline ≠ [] := by
          simp only [Bool.and_eq_true, Bool.not_eq_true', List.isEmpty_eq_false_iff] at hsent
          exact hsent.1.2
        exact exists_handledError hshut h.filled.full hwaits hstopped hne herror
      · exact ⟨e₁, [], rfl, hshut, h.filled.full, hwaits, hclosed, .stay, rfl⟩
    obtain ⟨s, hstart, hready, hfilled, -, hopen⟩ := hhandles.ready.startedIfNeeded hhandles.full
    have hsclosed : s.isOpen = false := hopen.trans hhandles.closed
    have hnotify : e₁.onWriteStreamClose status = some ({ e₂ with writeStream := s }, effects) := by
      unfold onWriteStreamClose
      rw [if_neg (by simp [herror]), hhandle, Option.bind_some]
      exact Option.map_eq_some_iff.mpr ⟨_, hstart, rfl⟩
    refine ⟨{ e₂ with writeStream := { s with handshakeComplete := false } }, effects, ?_,
      ⟨hready.told hsclosed, ⟨hfilled.full, hfilled.running⟩,
        ⟨hhandles.waits.mutation, hhandles.waits.pending⟩, fun _ => rfl⟩, hhandles.ledger, ?_⟩
    · unfold close
      rw [if_pos hstarted]
      exact Option.map_eq_some_iff.mpr ⟨_, hnotify, rfl⟩
    · rw [hhandles.silent]
      exact List.nil_sublist _

end Closed

section Tokens
variable [DecidableEq User]

theorem Sound.token (h : e.Sound onWay) {closeCount : ℕ}
    (hasked : closeCount ∈ e.writeStream.tokenRequests) (maybeToken : Status) :
    ∃ e' effects onWay', e.onToken closeCount maybeToken = some (e', effects) ∧
      e.Moves e' [] effects onWay onWay' := by
  have hsound : Sound { e with writeStream := { e.writeStream with
      tokenRequests := e.writeStream.tokenRequests.erase closeCount } } onWay :=
    h.withStream (h.ready.stream.withTokens closeCount)
      ⟨h.ready.carries.closed, h.ready.carries.greeting, h.ready.carries.writes⟩ rfl rfl rfl
  have hgone : closeCount ∉ e.writeStream.tokenRequests.erase closeCount :=
    h.ready.stream.nodup.not_mem_erase
  unfold onToken
  dsimp only
  split_ifs with hold htoken hstate
  · -- a token that an earlier start asked for is ignored
    exact ⟨_, [], onWay, rfl, hsound, .stay, List.Sublist.refl _⟩
  · have hstate : e.writeStream.state = .starting :=
      h.ready.stream.awaited (by rw [not_not.mp hold]; exact hasked)
    have hclosed : e.writeStream.isOpen = false := by simp [WriteStream.isOpen, hstate]
    have hstarted : e.writeStream.isStarted := by simp [WriteStream.isStarted, hstate]
    rw [WriteStream.connect_eq (by exact hstate) (by exact h.silent hclosed), Option.map_some]
    have hnone : onWay = [] := h.ready.carries.closed hclosed
    refine ⟨_, [], onWay, rfl, ⟨⟨h.ready.store, h.ready.user, ⟨rfl, fun hmem => ?_,
      hsound.ready.stream.issued, hsound.ready.stream.nodup, fun hi => Bool.noConfusion hi⟩,
      ⟨fun hno => Bool.noConfusion hno, fun _ _ => ⟨hnone, _, rfl, .inl ⟨rfl, rfl⟩⟩,
        fun _ hyes => ?_⟩,
      h.ready.pipeline, h.ready.bounded, fun hoff => ?_, fun _ _ => ?_,
      fun hi => Bool.noConfusion hi⟩, ⟨h.filled.full, fun _ _ => rfl⟩,
      ⟨h.waits.mutation, h.waits.pending⟩, fun hno => Bool.noConfusion hno⟩, .stay,
      List.Sublist.refl _⟩
    · exact absurd (not_not.mp hold ▸ hmem) hgone
    · exact absurd hyes (Bool.eq_false_iff.mp (h.silent hclosed))
    · exact absurd hstarted (Bool.eq_false_iff.mp (h.ready.offline hoff).2)
    · exact h.ready.needed hstarted (by rw [hclosed, Bool.false_and])
  · have hstarted : e.writeStream.isStarted := by
      have hstate : e.writeStream.state = .starting := hstate
      simp [WriteStream.isStarted, hstate]
    -- an error instead of a token closes the stream
    obtain ⟨e', effects, hclose, hmoves⟩ := hsound.closed hstarted
      fun hok : maybeToken.ok => absurd hok htoken
    exact ⟨e', effects, [], hclose, hmoves.sound, hmoves.ledger, hmoves.answered⟩
  · exact absurd (h.ready.stream.awaited (by rw [not_not.mp hold]; exact hasked)) hstate

end Tokens

section Responses
variable [DecidableEq User] {requests : List (WriteRequest V)} {response : WriteResponse V}
  {responses : List (WriteResponse V)}

theorem Sound.greeted (h : e.Sound onWay)
    (hgrpc : e.writeStream.grpcStream = some ⟨requests, response :: responses⟩)
    (hhandshake : e.writeStream.handshakeComplete = false) :
    ∃ e', onWriteStreamHandshakeComplete { e with writeStream := { e.writeStream with
        handshakeComplete := true, grpcStream := some ⟨requests, responses⟩ } } = some e' ∧
      e.Moves e' [] [] onWay [] := by
  have hwf := h.ready.stream
  have hopen : e.writeStream.isOpen := by
    rw [← hwf.connected, hgrpc]
    rfl
  have hidle : e.writeStream.idlenessTimer = false := Bool.eq_false_iff.mpr fun hi =>
    absurd (h.ready.idle hi).2 (Bool.eq_false_iff.mp hhandshake)
  have hstarted : e.writeStream.isStarted := by
    unfold WriteStream.isStarted
    rw [hopen, Bool.or_true]
  obtain ⟨-, g, hg, hgreeting⟩ := h.ready.carries.greeting hopen hhandshake
  obtain rfl := Option.some.inj (hgrpc.symm.trans hg)
  -- the handshake has been answered, and nothing else
  obtain ⟨rfl, rfl⟩ : requests = [] ∧ responses = [] := by
    rcases hgreeting with ⟨-, hnone⟩ | ⟨hempty, hone⟩
    · cases hnone
    · exact ⟨hempty, List.length_eq_zero_iff.mp (Nat.succ.inj hone)⟩
  obtain ⟨s, hsent, hs, hopen', hhandshake', hidle', hgrpc'⟩ :=
    WriteStream.WellFormed.sent (s := { e.writeStream with
      handshakeComplete := true, grpcStream := some ⟨[], []⟩ })
      ⟨hopen.symm, hwf.awaited, hwf.issued, hwf.nodup, fun _ => hopen⟩ hopen rfl hidle rfl
      e.writePipeline
  have hstarted' : s.isStarted := by
    unfold WriteStream.isStarted
    rw [hopen', Bool.or_true]
  refine ⟨{ e with writeStream := s }, ?_, ⟨⟨h.ready.store, h.ready.user, hs, ⟨fun hno => ?_,
    fun _ hno => ?_, fun _ _ => ⟨e.writePipeline.map MutationBatch.mutations, ?_, rfl⟩⟩,
    h.ready.pipeline, h.ready.bounded, fun hoff => ?_, fun _ hno => ?_, fun hi => ?_⟩,
    ⟨h.filled.full, fun _ _ => hstarted'⟩,
      ⟨h.waits.mutation, h.waits.pending⟩, fun hno => ?_⟩, .stay,
    List.nil_sublist _⟩
  · unfold onWriteStreamHandshakeComplete
    exact Option.map_eq_some_iff.mpr ⟨s, hsent, rfl⟩
  · exact absurd hopen' (Bool.eq_false_iff.mp hno)
  · exact absurd hhandshake' (Bool.eq_false_iff.mp hno)
  · rw [hgrpc', List.map_map]
    rfl
  · exact absurd hstarted (Bool.eq_false_iff.mp (h.ready.offline hoff).2)
  · rw [hopen', hhandshake'] at hno
    cases hno
  · exact absurd hi (Bool.eq_false_iff.mp hidle')
  · exact absurd hopen' (Bool.eq_false_iff.mp hno)

theorem onWriteStreamMutationResult_eq {r : MutationBatchResult V} {rest : List (MutationBatch V)}
    (hfirst : e.writePipeline = r.batch :: rest) {e₁ e₂ : WriteEngine V User C}
    {effects : WriteEffects V User C}
    (hsuccess : handleSuccessfulWrite { e with writePipeline := rest } r = some (e₁, effects))
    (hfill : e₁.fillWritePipeline = some e₂) :
    e.onWriteStreamMutationResult r.commitVersion r.mutationResults =
      some (e₂, .acknowledged e.currentUser r :: effects) := by
  unfold onWriteStreamMutationResult
  rw [hfirst]
  dsimp only
  rw [dif_pos r.length_eq, hsuccess, Option.bind_some]
  exact Option.map_eq_some_iff.mpr ⟨e₂, hfill, rfl⟩

omit [DecidableEq User] in
theorem answers_of_acknowledged (user user' : User) (r : MutationBatchResult V) (callback : C)
    (calls : List (ℤ × C)) (changes : MaybeDocumentMap V) :
    (.acknowledged user r :: (.mutationCallback user' callback .OK ::
      calls.map (fun x => .pendingWritesCallback x.2 .OK) ++ [.emitted changes]) :
        WriteEffects V User C).filterMap WriteEffect.answer? =
      [(r.batch.mutations, r.commitVersion, r.mutationResults)] := by
  rw [List.filterMap_cons, List.cons_append, List.filterMap_cons]
  exact congrArg (List.cons _) (answers_of_cancelled .OK changes calls)

theorem Sound.answered (h : e.Sound onWay)
    (hgrpc : e.writeStream.grpcStream = some ⟨requests, response :: responses⟩)
    (hhandshake : e.writeStream.handshakeComplete) :
    ∃ e' effects onWay', onWriteStreamMutationResult { e with writeStream := { e.writeStream with
        grpcStream := some ⟨requests, responses⟩ } } response.commitVersion
          response.mutationResults = some (e', effects) ∧
      e.Moves e' [] effects onWay onWay' := by
  have hwf := h.ready.stream
  have hopen : e.writeStream.isOpen := by
    rw [← hwf.connected, hgrpc]
    rfl
  -- requests are answered in order, so this answer is for the first batch
  obtain ⟨sent, hg, hcarried⟩ := h.ready.carries.writes hopen hhandshake
  obtain ⟨rfl, hresponses⟩ := GrpcStream.mk.inj (Option.some.inj (hgrpc.symm.trans hg))
  obtain ⟨c, onWay', rfl, rfl, rfl⟩ := List.map_eq_cons_iff.mp hresponses.symm
  rw [List.map_cons, List.cons_append] at hcarried
  obtain ⟨batch, rest, hfirst, hbatch, hrest⟩ := List.map_eq_cons_iff.mp hcarried
  obtain ⟨queue, callback, hqueue, hprefix, hcallback⟩ := h.ready.first h.waits hfirst
  have hlen : batch.mutations.length = c.mutationResults.length := by rw [hbatch, c.length_eq]
  set r : MutationBatchResult V := ⟨batch, c.commitVersion, c.mutationResults, hlen⟩
  have hfits : r.Fits := by
    intro x hx
    exact c.fits x (by rwa [← hbatch])
  obtain ⟨s', changes, hack, hs', -, huser, hqueue', -⟩ :=
    h.ready.store.acknowledgeBatch_eq (r := r) hqueue hfits c.positive
  have hqueues : s'.queues = Function.update e.localStore.queues e.currentUser queue := by
    rw [h.ready.user]
    exact queues_of_user huser hqueue' fun user => LocalStore.queues_of_acknowledgeBatch hack
  have hline : e.localStore.queues e.currentUser = batch :: queue := by
    rw [h.ready.queues_currentUser, hqueue]
  have hidle : e.writeStream.idlenessTimer = false := Bool.eq_false_iff.mpr fun hi => by
    have hnone := (h.ready.idle hi).1
    rw [hfirst] at hnone
    cases hnone
  set s₁ : WriteStream V := { e.writeStream with
    grpcStream := some ⟨sent.map .mutations, onWay'.map Commit.response⟩ }
  have hready := h.ready.afterFirst hfirst (s := s₁)
    ⟨hopen.symm, hwf.awaited, hwf.issued, hwf.nodup, hwf.idle⟩
    ⟨fun hno => absurd hopen (Bool.eq_false_iff.mp hno),
      fun _ hno => absurd hhandshake (Bool.eq_false_iff.mp hno), fun _ _ => ⟨sent, rfl, hrest⟩⟩
    hidle (fun _ => (Bool.and_eq_true _ _).mpr ⟨hopen, hhandshake⟩) hs' huser (hqueue' ▸ hprefix)
  obtain ⟨pipeline, s, hfill, hready', hfilled, -, hopen'⟩ := hready.fillWritePipeline_eq
  have hsuccess := handleSuccessfulWrite_eq (r := r)
    (e := { e with writePipeline := rest, writeStream := s₁ }) hcallback hack
  have hwaits := h.waits.after_settled h.ready.store hline hqueues
  have hstep := h.waits.finish h.ready.store hline hqueues hcallback .OK changes
  have hanswer : (batch.mutations, c.commitVersion, c.mutationResults) = c.answer := by
    rw [hbatch]
    rfl
  refine ⟨_, _, onWay', onWriteStreamMutationResult_eq (r := r) (e := { e with writeStream := s₁ })
    hfirst hsuccess hfill,
      ⟨hready', hfilled, ⟨hwaits.mutation, hwaits.pending⟩, fun hno => ?_⟩, hstep,
    ?_⟩
  · exact absurd hopen (Bool.eq_false_iff.mp (hopen'.symm.trans hno))
  · rw [answers_of_acknowledged, hanswer]
    exact List.Sublist.refl _

theorem Sound.read (h : e.Sound onWay)
    (hgrpc : e.writeStream.grpcStream = some ⟨requests, response :: responses⟩) :
    ∃ e' effects onWay', onStreamRead { e with writeStream := { e.writeStream with
        grpcStream := some ⟨requests, responses⟩ } } response = some (e', effects) ∧
      e.Moves e' [] effects onWay onWay' := by
  have hstarted : e.writeStream.isStarted := by
    unfold WriteStream.isStarted
    rw [← h.ready.stream.connected, hgrpc]
    exact Bool.or_true _
  unfold onStreamRead
  rw [if_pos (by exact hstarted)]
  cases hhandshake : e.writeStream.handshakeComplete with
  | false =>
    obtain ⟨e', hgreet, hmoves⟩ := h.greeted hgrpc hhandshake
    exact ⟨e', [], [], Option.map_eq_some_iff.mpr ⟨e', hgreet, rfl⟩, hmoves⟩
  | true => exact h.answered hgrpc hhandshake

end Responses

end WriteEngine
end Firestore
