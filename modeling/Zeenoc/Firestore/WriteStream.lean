import Zeenoc.Firestore.LocalStore

/-! The stream that takes writes to the backend (`stream.cc`, `write_stream.cc`), with what is on
its way. A failed `HARD_ASSERT` is `none`. -/

namespace Firestore

/-- `firestore_errors.h` -/
inductive Error
  | ok
  | cancelled
  | unknown
  | invalidArgument
  | deadlineExceeded
  | notFound
  | alreadyExists
  | permissionDenied
  | resourceExhausted
  | failedPrecondition
  | aborted
  | outOfRange
  | unimplemented
  | internal
  | unavailable
  | dataLoss
  | unauthenticated
  deriving DecidableEq

structure Status where
  code : Error
  errorMessage : String
  deriving DecidableEq

namespace Status

def OK : Status := ⟨.ok, ""⟩

def ok (status : Status) : Bool := status.code = .ok

end Status

/-- `Datastore::IsPermanentError` -/
def isPermanentError (error : Status) : Option Bool :=
  match error.code with
  | .ok => none
  | .cancelled | .unknown | .deadlineExceeded | .resourceExhausted | .internal | .unavailable
  | .unauthenticated => some false
  | .invalidArgument | .notFound | .alreadyExists | .permissionDenied | .failedPrecondition
  | .aborted | .outOfRange | .unimplemented | .dataLoss => some true

def isPermanentWriteError (error : Status) : Option Bool :=
  (isPermanentError error).map fun permanent => permanent && error.code ≠ .aborted

theorem isPermanentWriteError_isSome {error : Status} :
    (isPermanentWriteError error).isSome ↔ error.ok = false := by
  unfold isPermanentWriteError isPermanentError Status.ok
  cases error.code <;> simp

inductive StreamState
  | initial
  | starting
  | opened
  | error
  | backoff
  deriving DecidableEq

inductive WriteRequest (V : Type) [ObjectValue V]
  | handshake
  | mutations (mutations : List (Mutation V))

/-- The response to a handshake has neither. -/
structure WriteResponse (V : Type) [ObjectValue V] where
  commitVersion : SnapshotVersion
  mutationResults : List (MutationResult V)

/-- What is on its way to the backend, and back. -/
structure GrpcStream (V : Type) [ObjectValue V] where
  requests : List (WriteRequest V)
  responses : List (WriteResponse V)

/-- A token that is asked for comes with the close count of that time. Requests of streams that are
gone may reach the backend all the same. -/
structure WriteStream (V : Type) [ObjectValue V] where
  state : StreamState
  handshakeComplete : Bool
  idlenessTimer : Bool
  closeCount : ℕ
  tokenRequests : List ℕ
  grpcStream : Option (GrpcStream V)
  closedStreams : List (List (WriteRequest V))

variable {V : Type} [ObjectValue V]

namespace WriteStream
variable (s : WriteStream V)

def new : WriteStream V := ⟨.initial, false, false, 0, [], none, []⟩

def isOpen : Bool := s.state = .opened

def isStarted : Bool := s.state = .starting || s.state = .backoff || s.isOpen

def requestCredentials : WriteStream V :=
  { s with tokenRequests := s.tokenRequests ++ [s.closeCount] }

def start : Option (WriteStream V) :=
  match s.state with
  | .error => some { s with state := .backoff }
  | .initial => some { s with state := .starting }.requestCredentials
  | _ => none

/-- The callback of `BackoffAndTryRestarting` -/
def backoffElapsed : Option (WriteStream V) :=
  if s.state = .backoff then
    { s with state := .initial }.start.bind fun s => if s.isStarted then some s else none
  else none

def inhibitBackoff : Option (WriteStream V) :=
  if s.isStarted then none else some { s with state := .initial }

def markIdle : WriteStream V := if s.isOpen then { s with idlenessTimer := true } else s

def write (request : WriteRequest V) : Option (WriteStream V) :=
  if s.isOpen then
    s.grpcStream.map fun grpcStream => { s with
      idlenessTimer := false
      grpcStream := some { grpcStream with requests := grpcStream.requests ++ [request] } }
  else none

def writeHandshake : Option (WriteStream V) :=
  if s.isOpen && !s.handshakeComplete then s.write .handshake else none

def writeMutations (mutations : List (Mutation V)) : Option (WriteStream V) :=
  if s.isOpen && s.handshakeComplete then s.write (.mutations mutations) else none

/-- `OnWriteStreamOpen` answers with the handshake. -/
def onStreamStart : Option (WriteStream V) := { s with state := .opened }.writeHandshake

/-- `ResumeStartWithCredentials`, with a token -/
def connect : Option (WriteStream V) :=
  if s.state = .starting then { s with grpcStream := some ⟨[], []⟩ }.onStreamStart else none

def shutDown (status : Status) : WriteStream V := { s with
  state := if status.ok then .initial else .error
  idlenessTimer := false
  closeCount := s.closeCount + 1
  grpcStream := none
  closedStreams := s.closedStreams ++ s.grpcStream.toList.map GrpcStream.requests }

end WriteStream

structure WriteStream.WellFormed (s : WriteStream V) : Prop where
  connected : s.grpcStream.isSome = s.isOpen
  awaited : s.closeCount ∈ s.tokenRequests → s.state = .starting
  issued : ∀ closeCount ∈ s.tokenRequests, closeCount ≤ s.closeCount
  nodup : s.tokenRequests.Nodup
  idle : s.idlenessTimer → s.isOpen

namespace WriteStream
variable {s s' : WriteStream V}

theorem wellFormed_new : (new : WriteStream V).WellFormed where
  connected := rfl
  awaited h := by cases h
  issued _ h := by cases h
  nodup := List.nodup_nil
  idle h := by cases h

namespace WellFormed

theorem idle_of_not_open (h : s.WellFormed) (hopen : s.isOpen = false) : s.idlenessTimer = false :=
  Bool.eq_false_iff.mpr fun hidle => Bool.eq_false_iff.mp hopen (h.idle hidle)

theorem started (h : s.WellFormed) (hs : s.isStarted = false) :
    ∃ s', s.start = some s' ∧ s'.WellFormed ∧ s'.isStarted ∧ s'.isOpen = false ∧
      s'.handshakeComplete = s.handshakeComplete ∧ s'.idlenessTimer = false := by
  unfold isStarted at hs
  have hidle : s.isOpen = false → s.idlenessTimer = false := h.idle_of_not_open
  unfold start
  cases hstate : s.state with
  | initial =>
    have hopen : s.isOpen = false := by simp [isOpen, hstate]
    have hnew : s.closeCount ∉ s.tokenRequests := fun hmem => by
      have := h.awaited hmem
      rw [hstate] at this
      cases this
    refine ⟨_, rfl, ⟨?_, fun _ => rfl, fun c hc => ?_, ?_, fun hi => ?_⟩, rfl, rfl, rfl,
      hidle hopen⟩
    · exact h.connected.trans hopen
    · rcases List.mem_append.mp hc with hc | hc
      · exact h.issued c hc
      · exact (List.mem_singleton.mp hc).le
    · exact List.nodup_append.mpr ⟨h.nodup, List.nodup_singleton _, fun a ha b hb => by
        rw [List.mem_singleton.mp hb]
        exact fun he => hnew (he ▸ ha)⟩
    · exact absurd hi (Bool.eq_false_iff.mp (hidle hopen))
  | error =>
    have hopen : s.isOpen = false := by simp [isOpen, hstate]
    refine ⟨_, rfl, ⟨h.connected.trans hopen, fun hmem => ?_, h.issued, h.nodup, fun hi => ?_⟩, rfl,
      rfl, rfl, hidle hopen⟩
    · have := h.awaited hmem
      rw [hstate] at this
      cases this
    · exact absurd hi (Bool.eq_false_iff.mp (hidle hopen))
  | starting => simp [hstate] at hs
  | opened => simp [isOpen, hstate] at hs
  | backoff => simp [hstate] at hs

theorem written (h : s.WellFormed) {g : GrpcStream V} (hg : s.grpcStream = some g)
    (request : WriteRequest V) :
    s.write request = some { s with
      idlenessTimer := false
      grpcStream := some { g with requests := g.requests ++ [request] } } ∧
    WellFormed { s with
      idlenessTimer := false
      grpcStream := some { g with requests := g.requests ++ [request] } } := by
  have hopen : s.isOpen := by
    rw [← h.connected, hg]
    rfl
  refine ⟨?_, ⟨hopen.symm, h.awaited, h.issued, h.nodup, fun hi => by cases hi⟩⟩
  unfold write
  rw [if_pos hopen, hg, Option.map_some]

theorem shutDown (h : s.WellFormed) (status : Status) : (s.shutDown status).WellFormed := by
  have hold : s.closeCount + 1 ∉ s.tokenRequests := fun hmem =>
    absurd (h.issued _ hmem) (Nat.not_succ_le_self _)
  refine ⟨?_, fun hmem => absurd hmem hold, fun c hc => (h.issued c hc).trans (Nat.le_succ _),
    h.nodup, fun hi => by cases hi⟩
  unfold WriteStream.shutDown isOpen
  cases status.ok <;> rfl

end WellFormed
end WriteStream
end Firestore
