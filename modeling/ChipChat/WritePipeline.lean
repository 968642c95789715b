import ChipChat.LabelledSystem
import ChipChat.LocalStores

/-!
# The pipeline of writes

A write stays in the table of mutations until it is settled. The first writes of the current
account are in the pipeline of `RemoteStore`, which sends them over a stream; the backend
answers them in their order. When a stream breaks they are all sent again over the next one.
-/

namespace ChipChat.WritePipeline

open LabelledSystem
open LocalStores (MutationBatch)

set_option autoImplicit false

/-- `Error`: what a stream finishes with. -/
inductive Code where
  | ok
  | cancelled
  | unknown
  | invalidArgument
  | deadlineExceeded
  | notFound
  | alreadyExists
  | permissionDenied
  | resourceExhausted
  | failedPrecondition
  | aborted
  | outOfRange
  | unimplemented
  | internal
  | unavailable
  | dataLoss
  | unauthenticated
  deriving DecidableEq, Repr

/-- It is not asked of `ok`. -/
def Code.isPermanentError : Code → Bool
  | .ok | .cancelled | .unknown | .deadlineExceeded | .resourceExhausted | .internal | .unavailable
  | .unauthenticated => false
  | .invalidArgument | .notFound | .alreadyExists | .permissionDenied | .failedPrecondition | .aborted
  | .outOfRange | .unimplemented | .dataLoss => true

def Code.isPermanentWriteError (c : Code) : Bool := c.isPermanentError && decide (c ≠ .aborted)

/-- A row of the table of mutations; `call` is the number of the `WriteMutations` it is from. -/
structure Batch where
  user : Option String
  batchId : Nat
  mutation : MutationBatch
  call : Nat
  deriving DecidableEq, Repr

inductive StreamState where
  | initial
  | starting
  | opened
  | error
  | backoff
  deriving DecidableEq, Repr

/-- `idle` says that the idle timer is running. -/
structure WriteStream where
  state : StreamState
  handshakeComplete : Bool
  idle : Bool
  deriving DecidableEq, Repr

namespace WriteStream

def new : WriteStream := ⟨.initial, false, false⟩

def isOpen (w : WriteStream) : Bool := decide (w.state = .opened)

def isStarted (w : WriteStream) : Bool :=
  decide (w.state = .starting ∨ w.state = .backoff) || w.isOpen

/-- Writes are sent over the stream. -/
def ready (w : WriteStream) : Bool := w.isOpen && w.handshakeComplete

def start (w : WriteStream) : Option WriteStream :=
  match w.state with
  | .error => some { w with state := .backoff }
  | .initial => some { w with state := .starting }
  | .starting | .opened | .backoff => none

def inhibitBackoff (w : WriteStream) : Option WriteStream :=
  if w.isStarted then none else some { w with state := .initial }

def markIdle (w : WriteStream) : WriteStream := if w.isOpen then { w with idle := true } else w

end WriteStream

/-- The far end. `requests` have been sent over the stream and not been looked at, `responses`
are for writes that are committed; `refusal` is the status the stream is being closed with on
account of the first request. What was sent over a stream that broke is `orphaned`, and may
still be committed. -/
structure Backend where
  requests : List Batch
  responses : List Batch
  refusal : Option Code
  orphaned : List Batch
  committed : List Batch
  refused : List Batch

namespace Backend

def new : Backend := ⟨[], [], none, [], [], []⟩

def disconnect (b : Backend) : Backend :=
  { b with
    requests := []
    responses := []
    refusal := none
    orphaned := b.orphaned ++ if b.refusal.isSome then [] else b.requests }

end Backend

/-- `completed` are the callbacks that were run, by the number of their call, and `lost` the
calls whose callbacks went with an earlier process; `written` and `settled` are histories. -/
structure State where
  mutations : List Batch
  nextBatchId : Nat
  user : Option String
  mutationCallbacks : WriteLog.Table (Option String × Nat) Nat
  writePipeline : List Batch
  isNetworkEnabled : Bool
  stream : WriteStream
  backend : Backend
  written : List Batch
  settled : List (Batch × Outcome)
  completed : List (Nat × Outcome)
  lost : List Nat

def kMaxPendingWrites : Nat := 10

/-- `LoadNextBatchIdFromDb`: over the mutations of all accounts. -/
def loadNextBatchId (mutations : List Batch) : Nat :=
  mutations.foldl (fun maxBatchId b => max maxBatchId b.batchId) 0 + 1

namespace State

def initial : State := ⟨[], 1, none, ∅, [], true, .new, .new, [], [], [], []⟩

/-- The rows of the current account. -/
def queue (s : State) : List Batch := s.mutations.filter fun b => decide (b.user = s.user)

/-- `NextMutationBatchAfterBatchId` -/
def nextMutationBatch (s : State) (last : Option Nat) : Option Batch :=
  s.queue.find? fun b => last.all fun batchId => decide (batchId < b.batchId)

def lookupMutationBatch (s : State) (batchId : Nat) : Option Batch :=
  s.queue.find? fun b => decide (b.batchId = batchId)

def canAddToWritePipeline (s : State) : Bool :=
  s.isNetworkEnabled && decide (s.writePipeline.length < kMaxPendingWrites)

def shouldStartWriteStream (s : State) : Bool :=
  s.isNetworkEnabled && !s.stream.isStarted && !s.writePipeline.isEmpty

def startWriteStream (s : State) : Option State :=
  if s.shouldStartWriteStream then s.stream.start.map fun stream => { s with stream := stream }
  else none

/-- `WriteStream::WriteMutations` -/
def send (s : State) (b : Batch) : State :=
  { s with
    stream := { s.stream with idle := false }
    backend := { s.backend with requests := s.backend.requests ++ [b] } }

def addToWritePipeline (s : State) (b : Batch) : Option State :=
  if s.canAddToWritePipeline then
    let t := { s with writePipeline := s.writePipeline ++ [b] }
    some (if t.stream.ready then t.send b else t)
  else none

/-- The loop of `FillWritePipeline`; it fails when it is cut short. -/
def fillLoop (s : State) (last : Option Nat) : Nat → Option State
  | 0 => if s.canAddToWritePipeline then none else some s
  | n + 1 =>
    if s.canAddToWritePipeline then
      match s.nextMutationBatch last with
      | none => some (if s.writePipeline.isEmpty then { s with stream := s.stream.markIdle } else s)
      | some b => (s.addToWritePipeline b).bind fun t => t.fillLoop (some b.batchId) n
    else some s

def startIfNeeded (s : State) : Option State :=
  if s.shouldStartWriteStream then s.startWriteStream else some s

def fillWritePipeline (s : State) : Option State :=
  (s.fillLoop (s.writePipeline.getLast?.map Batch.batchId) kMaxPendingWrites).bind startIfNeeded

def notifyUser (s : State) (batchId : Nat) (o : Outcome) : State :=
  match s.mutationCallbacks.lookup (s.user, batchId) with
  | none => s
  | some call =>
    { s with
      mutationCallbacks := s.mutationCallbacks.erase (s.user, batchId)
      completed := s.completed ++ [(call, o)] }

def removeMutationBatch (s : State) (b : Batch) (o : Outcome) : Option State :=
  if (s.lookupMutationBatch b.batchId).isSome then
    some { s with
      mutations := s.mutations.filter fun r => !decide (r.user = s.user ∧ r.batchId = b.batchId)
      settled := s.settled ++ [(b, o)] }
  else none

def handleSuccessfulWrite (s : State) (b : Batch) : Option State :=
  (s.notifyUser b.batchId .stored).removeMutationBatch b .stored

def handleRejectedWrite (s : State) (batchId : Nat) : Option State :=
  (s.lookupMutationBatch batchId).bind fun b =>
    (s.removeMutationBatch b .rejected).map fun t => t.notifyUser batchId .rejected

def onWriteStreamMutationResult (s : State) : Option State :=
  match s.writePipeline with
  | [] => none
  | b :: rest => ({ s with writePipeline := rest }.handleSuccessfulWrite b).bind fillWritePipeline

def handleWriteError (s : State) (status : Code) : Option State :=
  if status.isPermanentWriteError then
    match s.writePipeline with
    | [] => none
    | b :: rest =>
      s.stream.inhibitBackoff.bind fun stream =>
        ({ s with writePipeline := rest, stream := stream }.handleRejectedWrite b.batchId).bind
          fillWritePipeline
  else some s

/-- An error before the handshake resets the token of the stream at most. -/
def onWriteStreamClose (s : State) (status : Code) : Option State :=
  if status = .ok ∧ s.shouldStartWriteStream then none
  else
    (if status ≠ .ok ∧ s.writePipeline ≠ [] ∧ s.stream.handshakeComplete then s.handleWriteError status
    else some s).bind startIfNeeded

/-- `Stream::Close`; the handshake is only forgotten once the listener has been told. -/
def close (s : State) (status : Code) : Option State :=
  if ¬ s.stream.isStarted then if status = .ok then some s else none
  else
    (onWriteStreamClose
      { s with
        stream := ⟨if status = .ok then .initial else .error, s.stream.handshakeComplete, false⟩
        backend := s.backend.disconnect } status).map fun t =>
      { t with stream := { t.stream with handshakeComplete := false } }

def disableNetwork (s : State) : Option State :=
  (close { s with isNetworkEnabled := false } .ok).map fun t => { t with writePipeline := [] }

def enableNetwork (s : State) : Option State := fillWritePipeline { s with isNetworkEnabled := true }

def restartNetwork (s : State) : Option State :=
  s.disableNetwork.bind fun t =>
    t.stream.inhibitBackoff.bind fun stream => { t with stream := stream }.enableNetwork

def handleCredentialChange (s : State) (user : Option String) : Option State :=
  let t := if s.user = user then s
    else { s with user := user, nextBatchId := loadNextBatchId s.mutations }
  if t.isNetworkEnabled then t.restartNetwork else some t

def newBatch (s : State) (mutation : MutationBatch) : Batch :=
  ⟨s.user, s.nextBatchId, mutation, s.written.length⟩

/-- `WriteLocally`; a callback does not replace another one under its key. -/
def writeLocally (s : State) (mutation : MutationBatch) : State :=
  let b := s.newBatch mutation
  { s with
    mutations := s.mutations ++ [b]
    nextBatchId := s.nextBatchId + 1
    mutationCallbacks :=
      if (s.mutationCallbacks.lookup (b.user, b.batchId)).isSome then s.mutationCallbacks
      else s.mutationCallbacks.insert (b.user, b.batchId) b.call
    written := s.written ++ [b] }

def writeMutations (s : State) (mutation : MutationBatch) : Option State :=
  (s.writeLocally mutation).fillWritePipeline

/-- The app is killed and launched again: only the table is left. -/
def relaunch (s : State) : Option State :=
  enableNetwork
    { s with
      nextBatchId := loadNextBatchId s.mutations
      mutationCallbacks := ∅
      writePipeline := []
      stream := .new
      backend := s.backend.disconnect
      lost := s.lost ++ s.mutations.map Batch.call }

/-- The token is there, and the handshake is sent. -/
def onStreamStart (s : State) : Option State :=
  if s.stream.handshakeComplete then none
  else some { s with stream := ⟨.opened, false, false⟩ }

def onHandshakeComplete (s : State) : State :=
  s.writePipeline.foldl send { s with stream := { s.stream with handshakeComplete := true } }

/-- The backend commits the first request and answers it. -/
def commit (s : State) : State :=
  { s with
    backend := { s.backend with
      requests := s.backend.requests.tail
      responses := s.backend.responses ++ s.backend.requests.head?.toList
      committed := s.backend.committed ++ s.backend.requests.head?.toList } }

def commitOrphaned (s : State) (b : Batch) : State :=
  { s with
    backend := { s.backend with
      orphaned := s.backend.orphaned.erase b
      committed := s.backend.committed ++ [b] } }

def refuse (s : State) (status : Code) : State :=
  { s with
    backend := { s.backend with
      refusal := some status
      refused := s.backend.refused ++ s.backend.requests.head?.toList } }

/-- The next response is read. -/
def onMutationResult (s : State) : Option State :=
  if s.stream.isStarted then
    onWriteStreamMutationResult { s with backend := { s.backend with responses := s.backend.responses.tail } }
  else none

def onBackoffElapsed (s : State) : Option State :=
  (WriteStream.start { s.stream with state := .initial }).map fun stream => { s with stream := stream }

end State

inductive Action where
  | writeMutations (mutation : MutationBatch)
  | handleCredentialChange (user : Option String)
  | networkChanged
  | enableNetwork
  | disableNetwork
  | relaunch
  | onStreamStart
  | onHandshakeComplete
  | commit
  | commitOrphaned (b : Batch)
  | refuse (status : Code)
  | onMutationResult
  | onStreamFinish (status : Code)
  | onBackoffElapsed
  | onIdle

/-- What may come next. A stream finishes at any time and with any status. -/
def Possible (s : State) : Action → Prop
  | .writeMutations _ | .handleCredentialChange _ | .networkChanged | .enableNetwork | .disableNetwork
  | .relaunch => True
  | .onStreamStart => s.stream.state = .starting
  | .onHandshakeComplete => s.stream.isOpen ∧ ¬ s.stream.handshakeComplete
  | .commit => s.backend.requests ≠ [] ∧ s.backend.refusal = none
  | .commitOrphaned b => b ∈ s.backend.orphaned
  | .refuse status =>
    s.backend.requests ≠ [] ∧ s.backend.refusal = none ∧ status.isPermanentWriteError
  | .onMutationResult => s.backend.responses ≠ []
  | .onStreamFinish status => s.stream.isOpen ∨ s.stream.state = .starting ∧ status ≠ .ok
  | .onBackoffElapsed => s.stream.state = .backoff
  | .onIdle => s.stream.idle

instance decidablePossible (s : State) : ∀ a, Decidable (Possible s a)
  | .writeMutations _ | .handleCredentialChange _ | .networkChanged | .enableNetwork | .disableNetwork
  | .relaunch => isTrue trivial
  | .onStreamStart => inferInstanceAs (Decidable (_ = _))
  | .onHandshakeComplete => inferInstanceAs (Decidable (_ ∧ ¬ _))
  | .commit => inferInstanceAs (Decidable (_ ∧ _))
  | .commitOrphaned _ => inferInstanceAs (Decidable (_ ∈ _))
  | .refuse _ => inferInstanceAs (Decidable (_ ∧ _ ∧ _))
  | .onMutationResult => inferInstanceAs (Decidable (_ ≠ _))
  | .onStreamFinish _ => inferInstanceAs (Decidable (_ ∨ _ ∧ _))
  | .onBackoffElapsed => inferInstanceAs (Decidable (_ = _))
  | .onIdle => inferInstanceAs (Decidable (_ = _))

/-- Fails on an assertion that fails. -/
def handle (s : State) : Action → Option State
  | .writeMutations mutation => s.writeMutations mutation
  | .handleCredentialChange user => s.handleCredentialChange user
  | .networkChanged => if s.isNetworkEnabled then s.restartNetwork else some s
  | .enableNetwork => s.enableNetwork
  | .disableNetwork => s.disableNetwork
  | .relaunch => s.relaunch
  | .onStreamStart => s.onStreamStart
  | .onHandshakeComplete => some s.onHandshakeComplete
  | .commit => some s.commit
  | .commitOrphaned b => some (s.commitOrphaned b)
  | .refuse status => some (s.refuse status)
  | .onMutationResult => s.onMutationResult
  | .onStreamFinish status => s.close status
  | .onBackoffElapsed => s.onBackoffElapsed
  | .onIdle => s.close .ok

def step (s : State) (a : Action) : Option State := if Possible s a then handle s a else none

def system : System State Action := ⟨.initial, step⟩

end ChipChat.WritePipeline
