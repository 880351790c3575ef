import Zeenoc.Firestore.WriteEngine

/-! What holds of the write pipeline: it is the start of the queue of the user, and the stream
carries just its writes. -/

namespace Firestore
variable {V User C : Type} [ObjectValue V]

/-- Writes that the backend has committed, with its results: one for each mutation. -/
structure Commit (V : Type) [ObjectValue V] where
  mutations : List (Mutation V)
  commitVersion : SnapshotVersion
  mutationResults : List (MutationResult V)
  length_eq : mutations.length = mutationResults.length
  fits : ∀ x ∈ mutations.zip mutationResults, x.2.Fits x.1
  positive : 0 < commitVersion

def Commit.response (c : Commit V) : WriteResponse V := ⟨c.commitVersion, c.mutationResults⟩

section Next
variable {q : MemoryMutationQueue V}

theorem MemoryMutationQueue.WellFormed.next_take (h : q.WellFormed) {n : ℕ}
    (hn : n ≤ q.queue.length) :
    q.nextMutationBatchAfterBatchId
      (((q.queue.take n).getLast?.map MutationBatch.batchId).getD batchIdUnknown) =
        q.queue[n]? := by
  by_cases hne : q.queue = []
  · simp [nextMutationBatchAfterBatchId, hne]
  · have hindex := h.indexOfBatchId_eq hne
    have hpos := h.positive
    unfold nextMutationBatchAfterBatchId
    rw [hindex]
    cases n with
    | zero =>
      have hzero : ((batchIdUnknown + 1 : ℤ) - (q.nextBatchId - q.queue.length)).toNat = 0 := by
        unfold batchIdUnknown
        omega
      simp [hzero]
    | succ m =>
      obtain ⟨batch, hbatch⟩ : ∃ batch, q.queue[m]? = some batch :=
        ⟨_, List.getElem?_eq_getElem (Nat.lt_of_succ_le hn)⟩
      have hlast : (q.queue.take (m + 1)).getLast? = some batch := by
        rw [List.take_add_one, hbatch, Option.toList_some, List.getLast?_concat]
      have hid := h.consecutive m batch hbatch
      have hnext : ((batch.batchId + 1 : ℤ) - (q.nextBatchId - q.queue.length)).toNat = m + 1 := by
        omega
      rw [hlast, Option.map_some, Option.getD_some, hnext]

end Next

/-- What a stream carries: the writes that were answered on it, and those that were not. -/
structure Carries (s : WriteStream V) (pipeline : List (MutationBatch V))
    (onWay : List (Commit V)) :
    Prop where
  closed : s.isOpen = false → onWay = []
  greeting : s.isOpen → s.handshakeComplete = false → onWay = [] ∧ ∃ g, s.grpcStream = some g ∧
    (g.requests = [.handshake] ∧ g.responses = [] ∨ g.requests = [] ∧ g.responses.length = 1)
  writes : s.isOpen → s.handshakeComplete → ∃ requests,
    s.grpcStream = some ⟨requests.map .mutations, onWay.map Commit.response⟩ ∧
      pipeline.map MutationBatch.mutations = onWay.map Commit.mutations ++ requests

namespace WriteEngine

/-- What holds of the pipeline and its stream, also within an operation. -/
structure Ready (e : WriteEngine V User C) (onWay : List (Commit V)) : Prop where
  store : e.localStore.Sound
  user : e.currentUser = e.localStore.user
  stream : e.writeStream.WellFormed
  carries : Carries e.writeStream e.writePipeline onWay
  pipeline : e.writePipeline <+: e.localStore.mutationQueue.queue
  bounded : e.writePipeline.length ≤ maxPendingWrites
  offline : e.isNetworkEnabled = false → e.writePipeline = [] ∧ e.writeStream.isStarted = false
  needed : e.writeStream.isStarted →
    (e.writeStream.isOpen && e.writeStream.handshakeComplete) = false → e.writePipeline ≠ []
  idle : e.writeStream.idlenessTimer → e.writePipeline = [] ∧ e.writeStream.handshakeComplete

structure Filled (e : WriteEngine V User C) : Prop where
  full : e.isNetworkEnabled →
    e.writePipeline = e.localStore.mutationQueue.queue.take maxPendingWrites
  running : e.isNetworkEnabled → e.writePipeline ≠ [] → e.writeStream.isStarted

variable {e : WriteEngine V User C} {onWay : List (Commit V)}

namespace Ready

theorem next_eq (h : e.Ready onWay) : e.localStore.getNextMutationBatch e.lastBatchIdRetrieved =
    e.localStore.mutationQueue.queue[e.writePipeline.length]? := by
  have hwf : e.localStore.mutationQueue.WellFormed := h.store.documents.queue
  have htake := List.prefix_iff_eq_take.mp h.pipeline
  unfold LocalStore.getNextMutationBatch lastBatchIdRetrieved
  conv_lhs => rw [htake]
  exact hwf.next_take h.pipeline.length_le

theorem added (h : e.Ready onWay) (hadd : e.canAddToWritePipeline) {batch : MutationBatch V}
    (hbatch : e.localStore.mutationQueue.queue[e.writePipeline.length]? = some batch) :
    ∃ s, e.addToWritePipeline batch =
        some { e with writePipeline := e.writePipeline ++ [batch], writeStream := s } ∧
      Ready { e with writePipeline := e.writePipeline ++ [batch], writeStream := s } onWay ∧
      s.handshakeComplete = e.writeStream.handshakeComplete ∧
      s.isOpen = e.writeStream.isOpen ∧ s.isStarted = e.writeStream.isStarted := by
  obtain ⟨hnetwork, hlen⟩ : e.isNetworkEnabled ∧ e.writePipeline.length < maxPendingWrites := by
    simpa [canAddToWritePipeline] using hadd
  have hprefix : e.writePipeline ++ [batch] <+: e.localStore.mutationQueue.queue := by
    have htake := List.prefix_iff_eq_take.mp h.pipeline
    rw [List.prefix_iff_eq_take, List.length_append, List.length_singleton, List.take_add_one,
      hbatch, ← htake]
    rfl
  have hbounded : (e.writePipeline ++ [batch]).length ≤ maxPendingWrites := by
    rw [List.length_append]
    exact hlen
  have hoffline : e.isNetworkEnabled = false → e.writePipeline ++ [batch] = [] ∧
      e.writeStream.isStarted = false := fun hoff => by
    rw [hnetwork] at hoff
    cases hoff
  unfold addToWritePipeline
  rw [if_pos hadd]
  cases hready : e.writeStream.isOpen && e.writeStream.handshakeComplete with
  | true =>
    obtain ⟨hopen, hhandshake⟩ : e.writeStream.isOpen ∧ e.writeStream.handshakeComplete := by
      simpa using hready
    -- past the handshake the batch is sent at once
    obtain ⟨requests, hgrpc, hcarried⟩ := h.carries.writes hopen hhandshake
    obtain ⟨hwrite, hwf⟩ := h.stream.written hgrpc (.mutations batch.mutations)
    simp only [hready, if_true, WriteStream.writeMutations, hwrite, Option.map_some]
    refine ⟨_, rfl, ⟨h.store, h.user, hwf, ⟨fun hno => ?_, fun _ hno => ?_, fun _ _ => ?_⟩, hprefix,
      hbounded, fun hoff => ⟨(hoffline hoff).1, (hoffline hoff).2⟩, fun _ _ => by simp,
      fun hi => by cases hi⟩, rfl, rfl, rfl⟩
    · exact absurd hopen (Bool.eq_false_iff.mp hno)
    · exact absurd hhandshake (Bool.eq_false_iff.mp hno)
    · refine ⟨requests ++ [batch.mutations], by simp, ?_⟩
      rw [List.map_append, hcarried, List.append_assoc]
      rfl
  | false =>
    simp only [hready]
    -- else it waits in the pipeline until the handshake is complete
    refine ⟨e.writeStream, rfl, ⟨h.store, h.user, h.stream, ⟨h.carries.closed, h.carries.greeting,
      fun hopen hhandshake => ?_⟩, hprefix, hbounded, hoffline, fun _ _ => by simp,
      fun hi => ?_⟩, rfl, rfl, rfl⟩
    · rw [hopen, hhandshake] at hready
      cases hready
    · have hopen := h.stream.idle hi
      rw [hopen, (h.idle hi).2] at hready
      cases hready

theorem markedIdle (h : e.Ready onWay) (hempty : e.writePipeline = []) :
    Ready { e with writeStream := e.writeStream.markIdle } onWay := by
  unfold WriteStream.markIdle
  split_ifs with hopen
  · have hhandshake : e.writeStream.handshakeComplete := by
      by_contra hno
      exact h.needed (by simp [WriteStream.isStarted, hopen]) (by simp [hno]) hempty
    exact ⟨h.store, h.user, ⟨h.stream.connected, h.stream.awaited, h.stream.issued, h.stream.nodup,
      fun _ => hopen⟩, ⟨h.carries.closed, h.carries.greeting, h.carries.writes⟩,
        h.pipeline, h.bounded,
      h.offline, h.needed, fun _ => ⟨hempty, hhandshake⟩⟩
  · exact h

theorem started (h : e.Ready onWay) (hstart : e.shouldStartWriteStream) :
    ∃ s, e.startWriteStream = some { e with writeStream := s } ∧
      Ready { e with writeStream := s } onWay ∧ s.isStarted ∧
      s.handshakeComplete = e.writeStream.handshakeComplete ∧ s.isOpen = e.writeStream.isOpen := by
  obtain ⟨⟨hnetwork, hno⟩, hne⟩ : (e.isNetworkEnabled ∧ e.writeStream.isStarted = false) ∧
      e.writePipeline ≠ [] := by
    simpa [shouldStartWriteStream] using hstart
  obtain ⟨s, hs, hwf, hstarted, hopen, hhandshake, hidle⟩ := h.stream.started hno
  have hclosed : e.writeStream.isOpen = false := by
    cases hopen : e.writeStream.isOpen with
    | false => rfl
    | true => simp [WriteStream.isStarted, hopen] at hno
  unfold startWriteStream
  rw [if_pos hstart, hs, Option.map_some]
  refine ⟨s, rfl, ⟨h.store, h.user, hwf, ⟨fun _ => h.carries.closed hclosed, fun hyes => ?_,
    fun hyes => ?_⟩, h.pipeline, h.bounded, fun hoff => ?_, fun _ _ => hne, fun hi => ?_⟩, hstarted,
    hhandshake, hopen.trans hclosed.symm⟩
  · exact absurd hyes (Bool.eq_false_iff.mp hopen)
  · exact absurd hyes (Bool.eq_false_iff.mp hopen)
  · rw [hnetwork] at hoff
    cases hoff
  · exact absurd hi (Bool.eq_false_iff.mp hidle)

theorem startedIfNeeded (h : e.Ready onWay) (hfull : e.isNetworkEnabled →
    e.writePipeline = e.localStore.mutationQueue.queue.take maxPendingWrites) :
    ∃ s, (if e.shouldStartWriteStream then e.startWriteStream else some e) =
        some { e with writeStream := s } ∧ Ready { e with writeStream := s } onWay ∧
      Filled { e with writeStream := s } ∧
      s.handshakeComplete = e.writeStream.handshakeComplete ∧ s.isOpen = e.writeStream.isOpen := by
  cases hstart : e.shouldStartWriteStream with
  | false =>
    refine ⟨e.writeStream, rfl, h, ⟨hfull, fun hnetwork hne => ?_⟩, rfl, rfl⟩
    unfold shouldStartWriteStream at hstart
    cases hstarted : e.writeStream.isStarted with
    | true => rfl
    | false =>
      rw [hnetwork, hstarted] at hstart
      exact absurd (by simpa using hstart) hne
  | true =>
    obtain ⟨s, hstarted, hready, hrunning, hhandshake, hopen⟩ := h.started hstart
    exact ⟨s, hstarted, hready, ⟨hfull, fun _ _ => hrunning⟩, hhandshake, hopen⟩

theorem fillLoop_eq (fuel : ℕ) {e : WriteEngine V User C} (h : e.Ready onWay)
    (hfuel : maxPendingWrites < e.writePipeline.length + fuel) :
    ∃ pipeline s, fillLoop fuel e.lastBatchIdRetrieved e =
        some { e with writePipeline := pipeline, writeStream := s } ∧
      Ready { e with writePipeline := pipeline, writeStream := s } onWay ∧
      (e.isNetworkEnabled → pipeline = e.localStore.mutationQueue.queue.take maxPendingWrites) ∧
      s.handshakeComplete = e.writeStream.handshakeComplete ∧
      s.isOpen = e.writeStream.isOpen := by
  induction fuel generalizing e with
  | zero => exact absurd h.bounded (not_le.mpr hfuel)
  | succ fuel ih =>
    unfold fillLoop
    cases hadd : e.canAddToWritePipeline with
    | false =>
      -- there is no network, or the pipeline is full
      refine ⟨e.writePipeline, e.writeStream, rfl, h, fun hnetwork => ?_, rfl, rfl⟩
      have hlen : e.writePipeline.length = maxPendingWrites := by
        have := h.bounded
        simp only [canAddToWritePipeline, hnetwork, Bool.true_and, decide_eq_false_iff_not] at hadd
        omega
      rw [← hlen]
      exact List.prefix_iff_eq_take.mp h.pipeline
    | true =>
      rw [if_pos rfl, h.next_eq]
      cases hnext : e.localStore.mutationQueue.queue[e.writePipeline.length]? with
      | none =>
        -- the pipeline has all of the queue
        have hall : e.writePipeline = e.localStore.mutationQueue.queue :=
          h.pipeline.eq_of_length_le (List.getElem?_eq_none_iff.mp hnext)
        have htake : e.writePipeline = e.localStore.mutationQueue.queue.take maxPendingWrites := by
          rw [← hall, List.take_of_length_le h.bounded]
        by_cases hempty : e.writePipeline = []
        · refine ⟨e.writePipeline, e.writeStream.markIdle, by simp [hempty], ?_,
            fun _ => htake, ?_, ?_⟩
          · exact h.markedIdle hempty
          · unfold WriteStream.markIdle
            split_ifs <;> rfl
          · unfold WriteStream.markIdle
            split_ifs <;> rfl
        · exact ⟨e.writePipeline, e.writeStream, by simp [hempty], h, fun _ => htake, rfl, rfl⟩
      | some batch =>
        obtain ⟨s, hadded, hready, hhandshake, hopen, -⟩ := h.added hadd hnext
        have hlast : (lastBatchIdRetrieved { e with
            writePipeline := e.writePipeline ++ [batch], writeStream := s }) = batch.batchId := by
          simp [lastBatchIdRetrieved]
        obtain ⟨pipeline, s', hloop, hready', hfull, hhandshake', hopen'⟩ := ih hready (by
          simp only [List.length_append, List.length_singleton]
          omega)
        rw [hlast] at hloop
        refine ⟨pipeline, s', ?_, hready', hfull, hhandshake'.trans hhandshake, hopen'.trans hopen⟩
        simp only [hadded, Option.bind_some, hloop]

/-- After a change of the queue or the network, the pipeline is filled and sent. -/
theorem fillWritePipeline_eq (h : e.Ready onWay) :
    ∃ pipeline s, e.fillWritePipeline =
        some { e with writePipeline := pipeline, writeStream := s } ∧
      Ready { e with writePipeline := pipeline, writeStream := s } onWay ∧
      Filled { e with writePipeline := pipeline, writeStream := s } ∧
      s.handshakeComplete = e.writeStream.handshakeComplete ∧ s.isOpen = e.writeStream.isOpen := by
  obtain ⟨pipeline, s, hloop, hready, hfull, hhandshake, hopen⟩ :=
    h.fillLoop_eq (maxPendingWrites + 1) (by omega)
  obtain ⟨s', hstarted, hready', hfilled, hhandshake', hopen'⟩ := hready.startedIfNeeded hfull
  refine ⟨pipeline, s', ?_, hready', hfilled, hhandshake'.trans hhandshake, hopen'.trans hopen⟩
  unfold fillWritePipeline
  rw [hloop, Option.bind_some]
  exact hstarted

end Ready
end WriteEngine
end Firestore
