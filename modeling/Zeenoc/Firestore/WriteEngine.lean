import Mathlib.Logic.Function.Basic
import Zeenoc.Firestore.Acknowledgements
import Zeenoc.Firestore.WriteStream

/-! How writes get to the backend: the write pipeline of `remote_store.cc` and the callbacks of
`sync_engine.cc`. A failed `HARD_ASSERT` is `none`. -/

namespace Firestore
variable {V User C : Type} [ObjectValue V]

inductive WriteEffect (V User C : Type) [ObjectValue V]
  | acknowledged (user : User) (batchResult : MutationBatchResult V)
  | rejected (user : User) (batch : MutationBatch V) (error : Status)
  | mutationCallback (user : User) (callback : C) (status : Status)
  | pendingWritesCallback (callback : C) (status : Status)
  | emitted (changes : MaybeDocumentMap V)

/-- The callbacks that wait for pending writes are listed with the last batch of then. -/
structure WriteEngine (V User C : Type) [ObjectValue V] where
  localStore : LocalStore V User
  currentUser : User
  mutationCallbacks : User → Std.ExtTreeMap ℤ C
  pendingWritesCallbacks : List (ℤ × C)
  isNetworkEnabled : Bool
  writePipeline : List (MutationBatch V)
  writeStream : WriteStream V

abbrev WriteEffects (V User C : Type) [ObjectValue V] := List (WriteEffect V User C)

def maxPendingWrites : ℕ := 10

namespace WriteEngine
variable (e : WriteEngine V User C)

section Pipeline

def shouldStartWriteStream : Bool :=
  e.isNetworkEnabled && !e.writeStream.isStarted && !e.writePipeline.isEmpty

def startWriteStream : Option (WriteEngine V User C) :=
  if e.shouldStartWriteStream then e.writeStream.start.map fun s => { e with writeStream := s }
  else none

def canAddToWritePipeline : Bool :=
  e.isNetworkEnabled && decide (e.writePipeline.length < maxPendingWrites)

def addToWritePipeline (batch : MutationBatch V) : Option (WriteEngine V User C) :=
  if e.canAddToWritePipeline then
    let e := { e with writePipeline := e.writePipeline ++ [batch] }
    if e.writeStream.isOpen && e.writeStream.handshakeComplete then
      (e.writeStream.writeMutations batch.mutations).map fun s => { e with writeStream := s }
    else some e
  else none

/-- The loop of `FillWritePipeline`: it never adds more batches than the pipeline takes. -/
def fillLoop : ℕ → ℤ → WriteEngine V User C → Option (WriteEngine V User C)
  | 0, _, _ => none
  | fuel + 1, lastBatchIdRetrieved, e =>
    if e.canAddToWritePipeline then
      match e.localStore.getNextMutationBatch lastBatchIdRetrieved with
      | none =>
        some (if e.writePipeline.isEmpty then { e with writeStream := e.writeStream.markIdle }
          else e)
      | some batch => (e.addToWritePipeline batch).bind (fillLoop fuel batch.batchId)
    else some e

def lastBatchIdRetrieved : ℤ :=
  (e.writePipeline.getLast?.map MutationBatch.batchId).getD MemoryMutationQueue.batchIdUnknown

def fillWritePipeline : Option (WriteEngine V User C) :=
  (fillLoop (maxPendingWrites + 1) e.lastBatchIdRetrieved e).bind fun e =>
  if e.shouldStartWriteStream then e.startWriteStream else some e

end Pipeline

section Callbacks
variable [DecidableEq User]

def notifyUser (batchId : ℤ) (status : Status) : WriteEngine V User C × WriteEffects V User C :=
  match (e.mutationCallbacks e.currentUser)[batchId]? with
  | none => (e, [])
  | some callback =>
    let callbacks := (e.mutationCallbacks e.currentUser).erase batchId
    ({ e with mutationCallbacks := Function.update e.mutationCallbacks e.currentUser callbacks },
      [.mutationCallback e.currentUser callback status])

omit [DecidableEq User] in
def triggerPendingWriteCallbacks (batchId : ℤ) : WriteEngine V User C × WriteEffects V User C :=
  ({ e with pendingWritesCallbacks := e.pendingWritesCallbacks.filter fun x => x.1 ≠ batchId },
    (e.pendingWritesCallbacks.filter fun x => x.1 = batchId).map fun x =>
      .pendingWritesCallback x.2 .OK)

def failOutstandingPendingWriteCallbacks (message : String) :
    WriteEngine V User C × WriteEffects V User C :=
  ({ e with pendingWritesCallbacks := [] },
    e.pendingWritesCallbacks.map fun x => .pendingWritesCallback x.2 ⟨.cancelled, message⟩)

def registerPendingWritesCallback (callback : C) : WriteEngine V User C × WriteEffects V User C :=
  let largestPendingBatchId := e.localStore.getHighestUnacknowledgedBatchId
  if largestPendingBatchId = MemoryMutationQueue.batchIdUnknown then
    (e, [.pendingWritesCallback callback .OK])
  else
    ({ e with pendingWritesCallbacks :=
        e.pendingWritesCallbacks ++ [(largestPendingBatchId, callback)] }, [])

def handleSuccessfulWrite (batchResult : MutationBatchResult V) :
    Option (WriteEngine V User C × WriteEffects V User C) :=
  let (e, notified) := e.notifyUser batchResult.batch.batchId .OK
  let (e, triggered) := e.triggerPendingWriteCallbacks batchResult.batch.batchId
  (e.localStore.acknowledgeBatch batchResult).map fun (localStore, changes) =>
    ({ e with localStore := localStore }, notified ++ triggered ++ [.emitted changes])

def handleRejectedWrite (batchId : ℤ) (error : Status) :
    Option (WriteEngine V User C × WriteEffects V User C) :=
  (e.localStore.rejectBatch batchId).map fun (localStore, changes) =>
    let (e, notified) := { e with localStore := localStore }.notifyUser batchId error
    let (e, triggered) := e.triggerPendingWriteCallbacks batchId
    (e, notified ++ triggered ++ [.emitted changes])

end Callbacks

section Streams
variable [DecidableEq User]

def onWriteStreamMutationResult (commitVersion : SnapshotVersion)
    (mutationResults : List (MutationResult V)) :
    Option (WriteEngine V User C × WriteEffects V User C) :=
  match e.writePipeline with
  | [] => none
  | batch :: rest =>
    if h : batch.mutations.length = mutationResults.length then
      let batchResult := ⟨batch, commitVersion, mutationResults, h⟩
      ({ e with writePipeline := rest }.handleSuccessfulWrite batchResult).bind fun (e', effects) =>
      e'.fillWritePipeline.map fun e' => (e', .acknowledged e.currentUser batchResult :: effects)
    else none

/-- Only permanent errors are the fault of the first write. -/
def handleWriteError (status : Status) : Option (WriteEngine V User C × WriteEffects V User C) :=
  (isPermanentWriteError status).bind fun permanent =>
  if permanent then
    match e.writePipeline with
    | [] => none
    | batch :: rest =>
      e.writeStream.inhibitBackoff.bind fun s =>
      ({ e with writePipeline := rest, writeStream := s }.handleRejectedWrite batch.batchId
        status).bind fun (e', effects) =>
      e'.fillWritePipeline.map fun e' => (e', .rejected e.currentUser batch status :: effects)
  else some (e, [])

/-- An error in the handshake concerns the stream token alone. -/
def onWriteStreamClose (status : Status) : Option (WriteEngine V User C × WriteEffects V User C) :=
  if status.ok && e.shouldStartWriteStream then none
  else
    (if !status.ok && !e.writePipeline.isEmpty && e.writeStream.handshakeComplete then
      e.handleWriteError status
    else some (e, [])).bind fun (e, effects) =>
    (if e.shouldStartWriteStream then e.startWriteStream else some e).map fun e => (e, effects)

/-- The handshake counts until its owner has been told. -/
def close (status : Status) : Option (WriteEngine V User C × WriteEffects V User C) :=
  if e.writeStream.isStarted then
    let e := { e with writeStream := e.writeStream.shutDown status }
    (e.onWriteStreamClose status).map fun (e, effects) =>
      ({ e with writeStream := { e.writeStream with handshakeComplete := false } }, effects)
  else if status.ok then some (e, [])
  else none

def stop : Option (WriteEngine V User C × WriteEffects V User C) := e.close .OK

def onStreamFinish (status : Status) : Option (WriteEngine V User C × WriteEffects V User C) :=
  e.close status

/-- A token arrives, or the error that there is none; the stream may have been stopped since. -/
def onToken (closeCount : ℕ) (maybeToken : Status) :
    Option (WriteEngine V User C × WriteEffects V User C) :=
  let e := { e with writeStream := { e.writeStream with
    tokenRequests := e.writeStream.tokenRequests.erase closeCount } }
  if e.writeStream.closeCount ≠ closeCount then some (e, [])
  else if maybeToken.ok then e.writeStream.connect.map fun s => ({ e with writeStream := s }, [])
  else if e.writeStream.state = .starting then e.onStreamFinish maybeToken
  else none

omit [DecidableEq User] in
def onWriteStreamHandshakeComplete : Option (WriteEngine V User C) :=
  (e.writePipeline.foldlM (fun (s : WriteStream V) write => s.writeMutations write.mutations)
    e.writeStream).map fun s => { e with writeStream := s }

/-- The first response is the one to the handshake. -/
def onStreamRead (response : WriteResponse V) :
    Option (WriteEngine V User C × WriteEffects V User C) :=
  if e.writeStream.isStarted then
    if e.writeStream.handshakeComplete then
      e.onWriteStreamMutationResult response.commitVersion response.mutationResults
    else
      let e := { e with writeStream := { e.writeStream with handshakeComplete := true } }
      e.onWriteStreamHandshakeComplete.map fun e => (e, [])
  else none

end Streams

section Network
variable [DecidableEq User]

def enableNetwork : Option (WriteEngine V User C) :=
  { e with isNetworkEnabled := true }.fillWritePipeline

def disableNetworkInternal : Option (WriteEngine V User C × WriteEffects V User C) :=
  e.stop.map fun (e, effects) => ({ e with writePipeline := [] }, effects)

def disableNetwork : Option (WriteEngine V User C × WriteEffects V User C) :=
  { e with isNetworkEnabled := false }.disableNetworkInternal

/-- `RemoteStore::HandleCredentialChange` -/
def restartStreams : Option (WriteEngine V User C × WriteEffects V User C) :=
  if e.isNetworkEnabled then
    { e with isNetworkEnabled := false }.disableNetworkInternal.bind fun (e, effects) =>
    e.enableNetwork.map fun e => (e, effects)
  else some (e, [])

end Network

section Requests
variable [DecidableEq User]

def writeMutations (localWriteTime : Timestamp) (mutations : List (Mutation V)) (callback : C) :
    Option (WriteEngine V User C × WriteEffects V User C) :=
  (e.localStore.writeLocally localWriteTime mutations).bind fun (localStore, result) =>
  let callbacks := (e.mutationCallbacks e.currentUser).insertIfNew result.batchId callback
  let e := { e with
    localStore := localStore
    mutationCallbacks := Function.update e.mutationCallbacks e.currentUser callbacks }
  e.fillWritePipeline.map fun e => (e, [.emitted result.changes])

def handleCredentialChange (user : User) : Option (WriteEngine V User C × WriteEffects V User C) :=
  (if e.currentUser ≠ user then
    let (e, failed) := { e with currentUser := user }.failOutstandingPendingWriteCallbacks
      "'waitForPendingWrites' callback is cancelled due to a user change."
    (e.localStore.handleUserChange user).map fun (localStore, changes) =>
      ({ e with localStore := localStore }, failed ++ [.emitted changes])
  else some (e, [])).bind fun (e, effects) =>
  e.restartStreams.map fun (e, more) => (e, effects ++ more)

/-- What `ApplyRemoteEvent` does to the local store. -/
def applyRemoteEvent (event : RemoteEvent V) :
    Option (WriteEngine V User C × WriteEffects V User C) :=
  (e.localStore.applyRemoteEvent event).map fun (localStore, changes) =>
    ({ e with localStore := localStore }, [.emitted changes])

end Requests
end WriteEngine
end Firestore
