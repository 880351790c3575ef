import Zeenoc.Firestore.WriteAnswers

/-! The engine that sends writes together with its users and the backend, in every order of
events. -/

namespace Firestore
variable {V User C : Type} [ObjectValue V]

inductive WriteInput (V User C : Type) [ObjectValue V]
  | write (localWriteTime : Timestamp) (mutations : List (Mutation V)) (callback : C)
  | waitForPendingWrites (callback : C)
  | credentialChange (user : User)
  | remoteEvent (event : RemoteEvent V)
  | enableNetwork
  | disableNetwork
  | token (closeCount : ℕ) (maybeToken : Status)
  | backoffElapsed
  | idle
  | read
  | finish (status : Status)

namespace WriteEngine
variable [DecidableEq User]

def new (user : User) : WriteEngine V User C :=
  ⟨.new user, user, fun _ => ∅, [], false, [], .new⟩

def readResponse (e : WriteEngine V User C) :
    Option (WriteEngine V User C × WriteEffects V User C) :=
  e.writeStream.grpcStream.bind fun g => g.responses.head?.bind fun response =>
    onStreamRead { e with writeStream := { e.writeStream with
      grpcStream := some ⟨g.requests, g.responses.tail⟩ } } response

def handle (e : WriteEngine V User C) :
    WriteInput V User C → Option (WriteEngine V User C × WriteEffects V User C)
  | .write localWriteTime mutations callback => e.writeMutations localWriteTime mutations callback
  | .waitForPendingWrites callback => some (e.registerPendingWritesCallback callback)
  | .credentialChange user => e.handleCredentialChange user
  | .remoteEvent event => e.applyRemoteEvent event
  | .enableNetwork => e.enableNetwork.map fun e => (e, [])
  | .disableNetwork => e.disableNetwork
  | .token closeCount maybeToken => e.onToken closeCount maybeToken
  | .backoffElapsed =>
    e.writeStream.backoffElapsed.map fun s => ({ e with writeStream := s }, [])
  | .idle => e.stop
  | .read => e.readResponse
  | .finish status => e.onStreamFinish status

end WriteEngine

/-- When an input can come: the client does not hand in empty batches, what the backend sends for
the listeners has versions that do not go back, tokens and timers have been asked for, and the
backend ends a stream without an error only when all of its writes have been answered. -/
def WriteInput.Occurs (e : WriteEngine V User C) : WriteInput V User C → Prop
  | write _ mutations _ => mutations ≠ []
  | remoteEvent event => event.Versioned ∧ (event.snapshotVersion = .none ∨
      e.localStore.lastRemoteSnapshotVersion ≤ event.snapshotVersion)
  | token closeCount _ => closeCount ∈ e.writeStream.tokenRequests
  | backoffElapsed => e.writeStream.state = .backoff
  | idle => e.writeStream.idlenessTimer
  | read => ∃ g, e.writeStream.grpcStream = some g ∧ g.responses ≠ []
  | finish status => e.writeStream.grpcStream.isSome ∧ (status.ok → e.writePipeline = [])
  | _ => True

def WriteInput.asked (user : User) : WriteInput V User C → List (WriteLedgerEvent V User C)
  | write _ mutations callback => [.handed user mutations (some callback)]
  | waitForPendingWrites callback => [.asked user callback]
  | _ => []

inductive WriteEvent (V User C : Type) [ObjectValue V]
  | handled (user : User) (input : WriteInput V User C) (effects : WriteEffects V User C)
  | greeted
  | committed (c : Commit V)

namespace WriteEvent

def said : WriteEvent V User C → List (WriteLedgerEvent V User C)
  | handled user input effects => input.asked user ++ effects.flatMap WriteEffect.events
  | _ => []

def answers : WriteEvent V User C → List (Answer V)
  | handled _ _ effects => effects.filterMap WriteEffect.answer?
  | _ => []

def commits : WriteEvent V User C → List (Answer V)
  | committed c => [c.answer]
  | _ => []

end WriteEvent

/-- The backend takes the requests of a stream in their order, and may come to those of a stream
that is gone too. -/
inductive WriteStep [DecidableEq User] :
    WriteEngine V User C → WriteEvent V User C → WriteEngine V User C → Prop
  | handle {e e' : WriteEngine V User C} {input : WriteInput V User C}
      {effects : WriteEffects V User C} (hinput : input.Occurs e)
      (h : e.handle input = some (e', effects)) :
      WriteStep e (.handled e.currentUser input effects) e'
  | greet {e : WriteEngine V User C} {requests : List (WriteRequest V)}
      {responses : List (WriteResponse V)}
      (h : e.writeStream.grpcStream = some ⟨.handshake :: requests, responses⟩)
      (response : WriteResponse V) :
      WriteStep e .greeted { e with writeStream := { e.writeStream with
        grpcStream := some ⟨requests, responses ++ [response]⟩ } }
  | commit {e : WriteEngine V User C} (c : Commit V) {requests : List (WriteRequest V)}
      {responses : List (WriteResponse V)}
      (h : e.writeStream.grpcStream = some ⟨.mutations c.mutations :: requests, responses⟩) :
      WriteStep e (.committed c) { e with writeStream := { e.writeStream with
        grpcStream := some ⟨requests, responses ++ [c.response]⟩ } }
  | commitLate {e : WriteEngine V User C} (c : Commit V) {requests : List (WriteRequest V)}
      {before after : List (List (WriteRequest V))}
      (h : e.writeStream.closedStreams = before ++ (.mutations c.mutations :: requests) :: after) :
      WriteStep e (.committed c) { e with writeStream := { e.writeStream with
        closedStreams := before ++ requests :: after } }

section Steps
variable [DecidableEq User] {e e' : WriteEngine V User C} {event : WriteEvent V User C}
  {onWay : List (Commit V)}

theorem WriteEngine.Sound.handled (h : e.Sound onWay) {input : WriteInput V User C}
    (hinput : input.Occurs e) : ∃ e' effects onWay', e.handle input = some (e', effects) ∧
      e.Moves e' (input.asked e.currentUser) effects onWay onWay' := by
  cases input with
  | write localWriteTime mutations callback =>
    obtain ⟨e', effects, hwrite, hmoves⟩ := h.wrote localWriteTime hinput callback
    exact ⟨e', effects, onWay, hwrite, hmoves⟩
  | waitForPendingWrites callback => exact ⟨_, _, onWay, rfl, h.registered callback⟩
  | credentialChange user => exact h.changedUser user
  | remoteEvent event =>
    obtain ⟨e', effects, hreceive, hmoves⟩ := h.received hinput.1 hinput.2
    exact ⟨e', effects, onWay, hreceive, hmoves⟩
  | enableNetwork =>
    obtain ⟨e', henable, hmoves⟩ := h.enabled
    exact ⟨e', [], onWay, Option.map_eq_some_iff.mpr ⟨e', henable, rfl⟩, hmoves⟩
  | disableNetwork => exact ⟨_, [], [], e.disableNetwork_eq, h.disabled⟩
  | token closeCount maybeToken => exact h.token hinput maybeToken
  | backoffElapsed =>
    obtain ⟨s, helapsed, hmoves⟩ := h.backoffElapsed hinput
    exact ⟨_, [], onWay, Option.map_eq_some_iff.mpr ⟨s, helapsed, rfl⟩, hmoves⟩
  | idle =>
    obtain ⟨e', hstop, hmoves⟩ := h.idled hinput
    exact ⟨e', [], [], hstop, hmoves⟩
  | read =>
    obtain ⟨⟨requests, responses⟩, hgrpc, hne⟩ := hinput
    obtain ⟨response, rest, rfl⟩ := List.exists_cons_of_ne_nil hne
    have hread : e.handle .read = WriteEngine.onStreamRead { e with writeStream :=
        { e.writeStream with grpcStream := some ⟨requests, rest⟩ } } response := by
      unfold WriteEngine.handle WriteEngine.readResponse
      rw [hgrpc]
      rfl
    rw [hread]
    exact h.read hgrpc
  | finish status =>
    obtain ⟨hgrpc, hok⟩ := hinput
    have hopen : e.writeStream.isOpen := h.ready.stream.connected ▸ hgrpc
    obtain ⟨e', effects, hclose, hmoves⟩ := h.closed (by simp [WriteStream.isStarted, hopen]) hok
    exact ⟨e', effects, [], hclose, hmoves⟩

section Backend
variable {c : Commit V} {requests : List (WriteRequest V)} {responses : List (WriteResponse V)}

omit [DecidableEq User] in
theorem WriteEngine.Sound.exists_requests (h : e.Sound onWay) {request : WriteRequest V}
    (hgrpc : e.writeStream.grpcStream = some ⟨request :: requests, responses⟩) :
    e.writeStream.isOpen ∧ (e.writeStream.handshakeComplete = false ∧ request = .handshake ∧
        requests = [] ∧ responses = [] ∧ onWay = [] ∨
      e.writeStream.handshakeComplete ∧ ∃ mutations sent, request = .mutations mutations ∧
        requests = sent.map .mutations ∧ responses = onWay.map Commit.response ∧
        e.writePipeline.map MutationBatch.mutations =
          onWay.map Commit.mutations ++ mutations :: sent) := by
  have hopen : e.writeStream.isOpen := by
    rw [← h.ready.stream.connected, hgrpc]
    rfl
  refine ⟨hopen, ?_⟩
  cases hhandshake : e.writeStream.handshakeComplete with
  | false =>
    obtain ⟨hnone, g, hg, hgreeting⟩ := h.ready.carries.greeting hopen hhandshake
    obtain rfl := Option.some.inj (hgrpc.symm.trans hg)
    rcases hgreeting with ⟨hrequests, hresponses⟩ | ⟨hempty, -⟩
    · obtain ⟨rfl, rfl⟩ := List.cons.inj hrequests
      exact .inl ⟨rfl, rfl, rfl, hresponses, hnone⟩
    · cases hempty
  | true =>
    obtain ⟨sent, hg, hcarried⟩ := h.ready.carries.writes hopen hhandshake
    obtain ⟨hrequests, rfl⟩ := GrpcStream.mk.inj (Option.some.inj (hgrpc.symm.trans hg))
    obtain ⟨mutations, sent, rfl, rfl, rfl⟩ := List.map_eq_cons_iff.mp hrequests.symm
    exact .inr ⟨rfl, mutations, sent, rfl, rfl, rfl, hcarried⟩

omit [DecidableEq User] in
theorem WriteEngine.Sound.greet (h : e.Sound onWay)
    (hgrpc : e.writeStream.grpcStream = some ⟨.handshake :: requests, responses⟩)
    (response : WriteResponse V) : WriteEngine.Sound { e with writeStream := { e.writeStream with
      grpcStream := some ⟨requests, responses ++ [response]⟩ } } onWay := by
  have hwf := h.ready.stream
  obtain ⟨hopen, ⟨hhandshake, -, rfl, rfl, rfl⟩ | ⟨-, _, _, hno, -⟩⟩ := h.exists_requests hgrpc
  · exact h.withStream ⟨hopen.symm, hwf.awaited, hwf.issued, hwf.nodup, hwf.idle⟩
      ⟨fun _ => rfl, fun _ _ => ⟨rfl, _, rfl, .inr ⟨rfl, rfl⟩⟩,
        fun _ hyes => absurd hyes (Bool.eq_false_iff.mp hhandshake)⟩ rfl rfl rfl
  · cases hno

omit [DecidableEq User] in
theorem WriteEngine.Sound.commit (h : e.Sound onWay)
    (hgrpc : e.writeStream.grpcStream = some ⟨.mutations c.mutations :: requests, responses⟩) :
    WriteEngine.Sound { e with writeStream := { e.writeStream with
      grpcStream := some ⟨requests, responses ++ [c.response]⟩ } } (onWay ++ [c]) := by
  have hwf := h.ready.stream
  obtain ⟨hopen, ⟨-, hno, -⟩ | ⟨hhandshake, mutations, sent, hrequest, rfl, rfl, hcarried⟩⟩ :=
    h.exists_requests hgrpc
  · cases hno
  · obtain rfl := WriteRequest.mutations.inj hrequest
    refine h.withStream ⟨hopen.symm, hwf.awaited, hwf.issued, hwf.nodup, hwf.idle⟩
      ⟨fun hno => absurd hopen (Bool.eq_false_iff.mp hno),
        fun _ hno => absurd hhandshake (Bool.eq_false_iff.mp hno),
        fun _ _ => ⟨sent, ?_, ?_⟩⟩ rfl rfl rfl
    · rw [List.map_append]
      rfl
    · rw [hcarried, List.map_append, List.append_assoc]
      rfl

end Backend

/-- A step keeps the engine sound, moves its ledger, and answers what the backend has committed. -/
theorem WriteStep.moves (hstep : WriteStep e event e') (h : e.Sound onWay) :
    ∃ onWay', e'.Sound onWay' ∧ Ledger.Step e.ledger event.said e'.ledger ∧
      (event.answers ++ onWay'.map Commit.answer).Sublist
        (onWay.map Commit.answer ++ event.commits) := by
  cases hstep with
  | handle hinput hhandle =>
    obtain ⟨e₁, effects, onWay', hhandle', hmoves⟩ := h.handled hinput
    obtain ⟨rfl, rfl⟩ := Prod.mk.inj (Option.some.inj (hhandle.symm.trans hhandle'))
    exact ⟨onWay', hmoves.sound, hmoves.ledger,
      hmoves.answered.trans (List.sublist_append_left _ _)⟩
  | greet hgrpc response =>
    exact ⟨onWay, h.greet hgrpc response, .stay, List.sublist_append_left _ _⟩
  | commit c hgrpc =>
    refine ⟨onWay ++ [c], h.commit hgrpc, .stay, ?_⟩
    rw [List.map_append]
    exact List.Sublist.refl _
  | commitLate c hclosed =>
    have hwf := h.ready.stream
    exact ⟨onWay, h.withStream ⟨hwf.connected, hwf.awaited, hwf.issued, hwf.nodup, hwf.idle⟩
      ⟨h.ready.carries.closed, h.ready.carries.greeting, h.ready.carries.writes⟩ rfl rfl rfl, .stay,
      List.sublist_append_left _ _⟩

end Steps

section Runs
variable [DecidableEq User] {user : User} {es : List (WriteEvent V User C)}
  {e : WriteEngine V User C}

theorem WriteEngine.sound_new (user : User) : (new user : WriteEngine V User C).Sound [] where
  ready := ready_of_stopped (LocalStore.sound_new user) rfl WriteStream.wellFormed_new rfl rfl
  filled := ⟨fun hno => Bool.noConfusion hno, fun hno => Bool.noConfusion hno⟩
  waits := ⟨fun user' id => by
    change ((∅ : Std.ExtTreeMap ℤ C)[id]?).isSome ↔ ∃ batch ∈ (LocalStore.new user).queues user', _
    simp [LocalStore.queues_new], fun x hx => (List.not_mem_nil hx).elim⟩
  silent _ := rfl

theorem write_run_sound (hrun : Runs.Run WriteStep (.new user) es e) :
    ∃ onWay, e.Sound onWay ∧ Runs.Run Ledger.Step (.new user) (es.map WriteEvent.said) e.ledger ∧
      (es.flatMap WriteEvent.answers ++ onWay.map Commit.answer).Sublist
        (es.flatMap WriteEvent.commits) := by
  induction hrun with
  | start =>
    have hledger : (WriteEngine.new user : WriteEngine V User C).ledger = .new user := by
      unfold WriteEngine.ledger WriteEngine.new
      simp only [LocalStore.queues_new]
      rfl
    exact ⟨[], WriteEngine.sound_new user, hledger ▸ .start, List.Sublist.refl _⟩
  | @step es e e' event _ hstep ih =>
    obtain ⟨onWay, hsound, hledger, hanswered⟩ := ih
    obtain ⟨onWay', hsound', hstep', hanswered'⟩ := hstep.moves hsound
    refine ⟨onWay', hsound', ?_, ?_⟩
    · rw [List.map_append]
      exact .step hledger hstep'
    · rw [List.flatMap_append, List.flatMap_append, List.flatMap_singleton, List.flatMap_singleton,
        List.append_assoc]
      refine ((List.Sublist.refl _).append hanswered').trans ?_
      rw [← List.append_assoc]
      exact hanswered.append (List.Sublist.refl _)

/-- The pipeline is the start of the queue of the user who is signed in, and an open stream carries
just its writes, each of them once and in their order. -/
theorem pipeline_follows_queue (hrun : Runs.Run WriteStep (.new user) es e) :
    e.currentUser = e.localStore.user ∧
      (e.isNetworkEnabled →
        e.writePipeline = e.localStore.mutationQueue.queue.take maxPendingWrites ∧
          (e.writePipeline ≠ [] → e.writeStream.isStarted)) ∧
      (e.isNetworkEnabled = false → e.writePipeline = [] ∧ e.writeStream.isStarted = false) ∧
      (e.writeStream.isOpen → e.writeStream.handshakeComplete →
        ∃ (answered : List (Commit V)) (sent : List (List (Mutation V))),
          e.writeStream.grpcStream = some ⟨sent.map .mutations, answered.map Commit.response⟩ ∧
            e.writePipeline.map MutationBatch.mutations =
              answered.map Commit.mutations ++ sent) := by
  obtain ⟨onWay, h, -⟩ := write_run_sound hrun
  exact ⟨h.ready.user, fun hnetwork => ⟨h.filled.full hnetwork, h.filled.running hnetwork⟩,
    h.ready.offline, fun hopen hhandshake => ⟨onWay, h.ready.carries.writes hopen hhandshake⟩⟩

/-- What is acknowledged has been committed, in that order and no more than once. -/
theorem acknowledgements_committed (hrun : Runs.Run WriteStep (.new user) es e) :
    (es.flatMap WriteEvent.answers).Sublist (es.flatMap WriteEvent.commits) := by
  obtain ⟨onWay, -, -, hanswered⟩ := write_run_sound hrun
  exact (List.sublist_append_left _ _).trans hanswered

end Runs

section Renting

instance {result : MutationResult V} {m : Mutation V} : Decidable (result.Fits m) :=
  inferInstanceAs (Decidable (_ = _))

abbrev RentEngine := WriteEngine (Entries FieldValue) String ℕ

def rentWritten : RentEngine × WriteEffects (Entries FieldValue) String ℕ :=
  ((WriteEngine.new "L").handle (.write 0 [setRent] 7)).get (by decide +kernel)

def rentWaited : RentEngine × WriteEffects (Entries FieldValue) String ℕ :=
  (rentWritten.1.handle (.waitForPendingWrites 8)).get (by decide +kernel)

def rentEnabled : RentEngine × WriteEffects (Entries FieldValue) String ℕ :=
  (rentWaited.1.handle .enableNetwork).get (by decide +kernel)

def rentConnected : RentEngine × WriteEffects (Entries FieldValue) String ℕ :=
  (rentEnabled.1.handle (.token 0 .OK)).get (by decide +kernel)

def rentGreeted : RentEngine :=
  { rentConnected.1 with writeStream := { rentConnected.1.writeStream with
    grpcStream := some ⟨[], [⟨0, []⟩]⟩ } }

def rentSent : RentEngine × WriteEffects (Entries FieldValue) String ℕ :=
  (rentGreeted.handle .read).get (by decide +kernel)

def rentCommit : Commit (Entries FieldValue) where
  mutations := (rentSent.1.writePipeline.head (by decide +kernel)).mutations
  commitVersion := 5
  mutationResults := [⟨5, none⟩]
  length_eq := by decide +kernel
  fits := by decide +kernel
  positive := by decide

def rentCommitted : RentEngine :=
  { rentSent.1 with writeStream := { rentSent.1.writeStream with
    grpcStream := some ⟨[], [rentCommit.response]⟩ } }

def rentAnswered : RentEngine × WriteEffects (Entries FieldValue) String ℕ :=
  (rentCommitted.handle .read).get (by decide +kernel)

def rentRequested : List (WriteEvent (Entries FieldValue) String ℕ) :=
  [.handled "L" (.write 0 [setRent] 7) rentWritten.2,
    .handled "L" (.waitForPendingWrites 8) rentWaited.2, .handled "L" .enableNetwork rentEnabled.2,
    .handled "L" (.token 0 .OK) rentConnected.2]

theorem step_of_handle {e : RentEngine} {input : WriteInput (Entries FieldValue) String ℕ}
    {x : RentEngine × WriteEffects (Entries FieldValue) String ℕ} (h : e.handle input = some x)
    (huser : e.currentUser = "L") (hinput : input.Occurs e) :
    WriteStep e (.handled "L" input x.2) x.1 :=
  huser ▸ .handle hinput h

theorem requested_run : Runs.Run WriteStep (.new "L") rentRequested rentConnected.1 := by
  have hwrite : (WriteEngine.new "L").handle (.write 0 [setRent] 7) = some rentWritten :=
    (Option.some_get _).symm
  have hwait : rentWritten.1.handle (.waitForPendingWrites 8) = some rentWaited :=
    (Option.some_get _).symm
  have henable : rentWaited.1.handle .enableNetwork = some rentEnabled := (Option.some_get _).symm
  have htoken : rentEnabled.1.handle (.token 0 .OK) = some rentConnected :=
    (Option.some_get _).symm
  have hasked : 0 ∈ rentEnabled.1.writeStream.tokenRequests := by decide +kernel
  exact .step (.step (.step (.step .start (step_of_handle hwrite rfl (List.cons_ne_nil _ _)))
    (step_of_handle hwait (by decide +kernel) trivial))
    (step_of_handle henable (by decide +kernel) trivial))
    (step_of_handle htoken (by decide +kernel) hasked)

theorem greeted_step : WriteStep rentConnected.1 .greeted rentGreeted := by
  obtain ⟨onWay, h, -⟩ := write_run_sound requested_run
  have hrequests : (rentConnected.1.writeStream.grpcStream.map fun g => g.requests.isEmpty) =
      some false := by decide +kernel
  have hhandshake : rentConnected.1.writeStream.handshakeComplete = false := by decide +kernel
  obtain ⟨⟨requests, responses⟩, hgrpc, hne⟩ := Option.map_eq_some_iff.mp hrequests
  obtain ⟨request, requests, rfl⟩ :=
    List.exists_cons_of_ne_nil (List.isEmpty_eq_false_iff.mp hne)
  obtain ⟨-, ⟨-, rfl, rfl, rfl, -⟩ | ⟨hyes, -⟩⟩ := h.exists_requests hgrpc
  · exact .greet hgrpc ⟨0, []⟩
  · exact absurd hyes (Bool.eq_false_iff.mp hhandshake)

def rentSentHistory : List (WriteEvent (Entries FieldValue) String ℕ) :=
  rentRequested ++ [.greeted] ++ [.handled "L" .read rentSent.2]

theorem sent_run : Runs.Run WriteStep (.new "L") rentSentHistory rentSent.1 := by
  have hread : rentGreeted.handle .read = some rentSent := (Option.some_get _).symm
  exact .step (.step requested_run greeted_step)
    (step_of_handle hread (by decide +kernel) ⟨_, rfl, List.cons_ne_nil _ _⟩)

theorem commit_step : WriteStep rentSent.1 (.committed rentCommit) rentCommitted := by
  obtain ⟨onWay, h, -⟩ := write_run_sound sent_run
  have hrequests : (rentSent.1.writeStream.grpcStream.map fun g =>
      (g.requests.length, g.responses.length)) = some (1, 0) := by decide +kernel
  have hhandshake : rentSent.1.writeStream.handshakeComplete := by decide +kernel
  obtain ⟨⟨requests, responses⟩, hgrpc, hlen⟩ := Option.map_eq_some_iff.mp hrequests
  obtain ⟨hone, hnone⟩ := Prod.mk.inj hlen
  obtain ⟨request, rfl⟩ := List.length_eq_one_iff.mp hone
  obtain rfl := List.length_eq_zero_iff.mp hnone
  obtain ⟨-, ⟨hno, -⟩ | ⟨-, mutations, sent, rfl, hsent, honWay, hcarried⟩⟩ :=
    h.exists_requests hgrpc
  · exact absurd hhandshake (Bool.eq_false_iff.mp hno)
  · obtain rfl := List.map_eq_nil_iff.mp honWay.symm
    have hmutations : rentCommit.mutations = mutations := by
      obtain ⟨batch, rest, hpipeline, hbatch, -⟩ := List.map_eq_cons_iff.mp hcarried
      have hhead : rentSent.1.writePipeline.head? = some batch := by rw [hpipeline, List.head?_cons]
      rw [List.head?_eq_some_head (by decide +kernel)] at hhead
      rw [← hbatch, ← Option.some.inj hhead]
      rfl
    exact .commit rentCommit (hmutations ▸ hgrpc)

def rentHistory : List (WriteEvent (Entries FieldValue) String ℕ) :=
  rentSentHistory ++ [.committed rentCommit] ++ [.handled "L" .read rentAnswered.2]

theorem answered_run : Runs.Run WriteStep (.new "L")
    rentHistory rentAnswered.1 := by
  have hread : rentCommitted.handle .read = some rentAnswered := (Option.some_get _).symm
  exact .step (.step sent_run commit_step)
    (step_of_handle hread (by decide +kernel) ⟨_, rfl, List.cons_ne_nil _ _⟩)

theorem rent_in_pipeline : rentSent.1.writePipeline.length = 1 ∧
    ∃ (answered : List (Commit (Entries FieldValue))) (sent : List (List (Mutation _))),
      rentSent.1.writeStream.grpcStream = some ⟨sent.map .mutations, answered.map Commit.response⟩ ∧
        rentSent.1.writePipeline.map MutationBatch.mutations =
          answered.map Commit.mutations ++ sent := by
  have hopen : rentSent.1.writeStream.isOpen ∧ rentSent.1.writeStream.handshakeComplete := by
    decide +kernel
  exact ⟨by decide +kernel, (pipeline_follows_queue sent_run).2.2.2 hopen.1 hopen.2⟩

theorem rent_acknowledged : (rentHistory.flatMap WriteEvent.answers).length = 1 ∧
    (rentHistory.flatMap WriteEvent.answers).Sublist (rentHistory.flatMap WriteEvent.commits) :=
  ⟨by decide +kernel, acknowledgements_committed answered_run⟩

end Renting
end Firestore
