import ChipChat.QueryListeners
import Mathlib.Data.Finset.Sort
import Mathlib.Data.String.Basic

/-!
# The local store behind the views

The documents of the backend are cached; the writes of each account wait in a queue until
they are acknowledged or rejected, and the local view of a document is what the cache holds
with the writes of the queue applied. Each change of the store names the documents whose
local view may have changed, and the views are updated from these alone.
-/

namespace ChipChat.LocalStores

open DocumentViews LabelledSystem QueryListeners

set_option autoImplicit false

/-- A document of the collection, without its key, or that there is none. -/
inductive MaybeDocument where
  | document (value : ObjectValue) (version : Nat) (documentState : DocumentState)
  | noDocument (version : Nat) (hasCommittedMutations : Bool)
  deriving DecidableEq, Repr

namespace MaybeDocument

def version : MaybeDocument → Nat
  | document _ version _ => version
  | noDocument version _ => version

def hasPendingWrites : MaybeDocument → Bool
  | document _ _ documentState => decide (documentState ≠ .synced)
  | noDocument _ hasCommittedMutations => hasCommittedMutations

def asDocument (key : String) : MaybeDocument → Option Document
  | document value _ documentState => some ⟨key, value, documentState⟩
  | noDocument _ _ => none

/-- `GetPostMutationVersion` -/
def postMutationVersion : Option MaybeDocument → Nat
  | some (document _ version _) => version
  | _ => 0

end MaybeDocument

/-- A batch of one `SetMutation` without a precondition, as `addDocument` and `setData`
make it. -/
structure MutationBatch where
  key : String
  value : ObjectValue
  deriving DecidableEq, Repr

namespace MutationBatch

def applyToLocalView (b : MutationBatch) (maybe : Option MaybeDocument) : MaybeDocument :=
  .document b.value (MaybeDocument.postMutationVersion maybe) .localMutations

def applyToLocalDocument (key : String) (maybe : Option MaybeDocument) (b : MutationBatch) :
    Option MaybeDocument :=
  if b.key = key then some (b.applyToLocalView maybe) else maybe

def applyToRemoteDocument (b : MutationBatch) (version : Nat) : MaybeDocument :=
  .document b.value version .committedMutations

/-- What the batch does to the documents a query has come to so far. -/
def applyToResults (results : WriteLog.Table String MaybeDocument) (b : MutationBatch) :
    WriteLog.Table String MaybeDocument :=
  results.insert b.key (b.applyToLocalView (results.lookup b.key))

end MutationBatch

/-- `mutationQueues` has a queue for each account, and for nobody. -/
structure LocalStore where
  remoteDocuments : WriteLog.Table String MaybeDocument
  mutationQueues : Option String → List MutationBatch
  user : Option String

namespace LocalStore

def empty : LocalStore := ⟨∅, fun _ => [], none⟩

def mutationQueue (s : LocalStore) : List MutationBatch := s.mutationQueues s.user

def setQueue (s : LocalStore) (batches : List MutationBatch) : LocalStore :=
  { s with mutationQueues := fun user => if user = s.user then batches else s.mutationQueues user }

/-- The writes of the queue applied to what is given for a document. -/
def applyLocalMutations (s : LocalStore) (key : String) (base : Option MaybeDocument) :
    Option MaybeDocument :=
  s.mutationQueue.foldl (MutationBatch.applyToLocalDocument key) base

def localView (s : LocalStore) (key : String) (base : Option MaybeDocument) : Option Document :=
  (s.applyLocalMutations key base).bind (MaybeDocument.asDocument key)

/-- `GetDocument`, where a missing document and a deleted one are the same. -/
def getDocument (s : LocalStore) (key : String) : Option Document :=
  s.localView key (s.remoteDocuments.lookup key)

end LocalStore

theorem key_asDocument {key : String} {maybe : Option MaybeDocument} {d : Document}
    (h : maybe.bind (MaybeDocument.asDocument key) = some d) : d.key = key := by
  obtain ⟨doc, -, hdoc⟩ := Option.bind_eq_some_iff.mp h
  cases doc with
  | document => cases hdoc; rfl
  | noDocument => cases hdoc

/-- `ApplyQuery`: the documents that match. -/
def applyQuery (documents : MaybeDocumentMap) : MaybeDocumentMap where
  entries := documents.entries.filter fun e => (e.2.bind Document.matched).isSome
  distinct := (List.filter_sublist.map Prod.fst).nodup documents.distinct
  keyed k d h := documents.keyed k d (List.mem_filter.mp h).1

namespace LocalStore

/-- `GetLocalViewOfDocuments` -/
def getLocalViewOfDocuments (s : LocalStore) (bases : List (String × Option MaybeDocument))
    (h : (bases.map Prod.fst).Nodup) : MaybeDocumentMap where
  entries := bases.map fun base => (base.1, s.localView base.1 base.2)
  distinct := by
    rw [List.map_map]
    exact h
  keyed k d hd := by
    obtain ⟨base, -, heq⟩ := List.mem_map.mp hd
    obtain ⟨rfl, hview⟩ := Prod.mk.inj heq
    exact key_asDocument hview

/-- `GetDocuments` -/
def getDocuments (s : LocalStore) (keys : List String) : MaybeDocumentMap :=
  s.getLocalViewOfDocuments (keys.dedup.map fun key => (key, s.remoteDocuments.lookup key)) (by
    rw [List.map_map]
    simpa [Function.comp_def] using keys.nodup_dedup)

/-- The changed document is the batch applied to the local view there was. -/
def writeLocally (s : LocalStore) (b : MutationBatch) : LocalStore × MaybeDocumentMap :=
  let existing := s.applyLocalMutations b.key (s.remoteDocuments.lookup b.key)
  let changed := MutationBatch.applyToLocalDocument b.key existing b
  (s.setQueue (s.mutationQueue ++ [b]),
    { entries := [(b.key, changed.bind (MaybeDocument.asDocument b.key))]
      distinct := List.nodup_singleton _
      keyed := fun k d h => by
        obtain ⟨rfl, hd⟩ := Prod.mk.inj (List.mem_singleton.mp h)
        exact key_asDocument hd.symm })

/-- `ApplyBatchResult`: the write becomes the cached document, unless that is as new. -/
def applyBatchResult (s : LocalStore) (b : MutationBatch) (ackVersion : Nat) : LocalStore :=
  if (s.remoteDocuments.lookup b.key).all fun doc => decide (doc.version < ackVersion) then
    { s with remoteDocuments := s.remoteDocuments.insert b.key (b.applyToRemoteDocument ackVersion) }
  else s

/-- The result is that of the first write in the pipeline. -/
def acknowledgeBatch (s : LocalStore) (ackVersion : Nat) : Option (LocalStore × MaybeDocumentMap) :=
  match s.mutationQueue with
  | [] => none
  | b :: batches =>
    let next := (s.applyBatchResult b ackVersion).setQueue batches
    some (next, next.getDocuments [b.key])

def rejectBatch (s : LocalStore) : Option (LocalStore × MaybeDocumentMap) :=
  match s.mutationQueue with
  | [] => none
  | b :: batches =>
    let next := s.setQueue batches
    some (next, next.getDocuments [b.key])

/-- An update of `ApplyRemoteEvent`: a document that is manufactured as deleted leaves the
cache, and an update that is older than the cached document is ignored. -/
def takesUpdate (existing : Option MaybeDocument) (doc : MaybeDocument) : Bool :=
  match existing with
  | none => true
  | some old =>
    decide (doc.version > old.version) || decide (doc.version = old.version) && old.hasPendingWrites

def isManufactured : MaybeDocument → Bool
  | .noDocument version _ => decide (version = 0)
  | .document .. => false

def changesCache (s : LocalStore) (update : String × MaybeDocument) : Bool :=
  isManufactured update.2 || takesUpdate (s.remoteDocuments.lookup update.1) update.2

def cacheUpdate (documents : WriteLog.Table String MaybeDocument) (update : String × MaybeDocument) :
    WriteLog.Table String MaybeDocument :=
  if isManufactured update.2 then documents.erase update.1 else documents.insert update.1 update.2

end LocalStore

/-- `document_updates` of a remote event: what the backend sends is synced. -/
structure DocumentUpdates where
  entries : List (String × MaybeDocument)
  distinct : (entries.map Prod.fst).Nodup
  synced : ∀ e ∈ entries, e.2.hasPendingWrites = false

namespace LocalStore

def applyRemoteEvent (s : LocalStore) (updates : DocumentUpdates) : LocalStore × MaybeDocumentMap :=
  let changed := updates.entries.filter s.changesCache
  let next := { s with remoteDocuments := changed.foldl cacheUpdate s.remoteDocuments }
  (next, next.getLocalViewOfDocuments (changed.map fun update => (update.1, some update.2)) (by
    rw [List.map_map]
    exact (List.filter_sublist.map Prod.fst).nodup updates.distinct))

/-- The queue of the one account gives way to that of the other. -/
def handleUserChange (s : LocalStore) (user : Option String) : LocalStore × MaybeDocumentMap :=
  let next := { s with user := user }
  (next, next.getDocuments ((s.mutationQueue ++ next.mutationQueue).map MutationBatch.key))

/-- `GetMatching`: all cached documents that match, or those that were read after a version. -/
def getMatching (s : LocalStore) (readSince : Option (Finset String)) :
    WriteLog.Table String MaybeDocument :=
  WriteLog.replay ((WriteLog.pairs s.remoteDocuments).filter fun e =>
    match readSince with
    | none => ((MaybeDocument.asDocument e.1 e.2).bind Document.matched).isSome
    | some keys => decide (e.1 ∈ keys))

/-- These with the writes of the queue applied in their order. -/
def mutatedDocuments (s : LocalStore) (readSince : Option (Finset String)) :
    WriteLog.Table String MaybeDocument :=
  s.mutationQueue.foldl MutationBatch.applyToResults (s.getMatching readSince)

/-- `GetDocumentsMatchingCollectionQuery`: the ones that do not match are taken out again. -/
def getDocumentsMatchingQuery (s : LocalStore) (readSince : Option (Finset String)) :
    MaybeDocumentMap :=
  applyQuery
    { entries := (WriteLog.pairs (s.mutatedDocuments readSince)).map fun e =>
        (e.1, MaybeDocument.asDocument e.1 e.2)
      distinct := by
        rw [List.map_map]
        exact WriteLog.pairs_keys_nodup _
      keyed := fun k d h => by
        obtain ⟨e, -, heq⟩ := List.mem_map.mp h
        obtain ⟨rfl, hd⟩ := Prod.mk.inj heq
        have hbind : (some e.2).bind (MaybeDocument.asDocument e.1) = some d := hd
        exact key_asDocument hbind }

/-- The query is run over the whole collection, or, if its target has had a snapshot without
limbo documents, over the target's remote keys and what was read since that snapshot. -/
def executeQuery (s : LocalStore) (remoteKeys : Finset String) : Option (Finset String) → MaybeDocumentMap
  | none => s.getDocumentsMatchingQuery none
  | some readSince =>
    (s.getDocumentsMatchingQuery (some readSince)).insertAll
      (applyQuery (s.getDocuments (remoteKeys.sort (· ≤ ·))))

end LocalStore

structure State where
  store : LocalStore
  manager : QueryListeners.State

/-- A listen comes with the remote keys of its target and, once the target has had a snapshot
without limbo documents, with the keys that were read since. -/
inductive Action where
  | addSnapshotListener (remoteKeys : Finset String) (readSince : Option (Finset String))
  | writeMutations (b : MutationBatch)
  | handleSuccessfulWrite (ackVersion : Nat)
  | handleRejectedWrite
  | applyRemoteEvent (updates : DocumentUpdates) (targetChange : Option TargetChange)
  | handleCredentialChange (user : Option String)
  | handleOnlineStateChange (onlineState : OnlineState)
  | handleRejectedListen

/-- The store after a step, and the documents that are then emitted to the view. -/
def emitted (s : LocalStore) : Action → Option (LocalStore × MaybeDocumentMap)
  | .writeMutations b => some (s.writeLocally b)
  | .handleSuccessfulWrite ackVersion => s.acknowledgeBatch ackVersion
  | .handleRejectedWrite => s.rejectBatch
  | .applyRemoteEvent updates _ => some (s.applyRemoteEvent updates)
  | .handleCredentialChange user => if s.user = user then none else some (s.handleUserChange user)
  | .addSnapshotListener .. | .handleOnlineStateChange _ | .handleRejectedListen => none

/-- `EmitNewSnapshotsAndNotifyLocalStore` -/
def State.emit (s : State) (targetChange : Option TargetChange) (r : LocalStore × MaybeDocumentMap) :
    Option State :=
  (s.manager.emitNewSnapshots r.2 targetChange).map fun manager => ⟨r.1, manager⟩

def step (s : State) : Action → Option State
  | .addSnapshotListener remoteKeys readSince =>
    (s.manager.addQueryListener (s.store.executeQuery remoteKeys readSince) remoteKeys).map
      fun manager => { s with manager := manager }
  | .handleOnlineStateChange onlineState =>
    (s.manager.handleOnlineStateChange onlineState).map fun manager => { s with manager := manager }
  | .handleRejectedListen => some { s with manager := s.manager.onError }
  | .handleCredentialChange user =>
    if s.store.user = user then some s
    else (emitted s.store (.handleCredentialChange user)).bind (s.emit none)
  | .applyRemoteEvent updates targetChange =>
    (emitted s.store (.applyRemoteEvent updates targetChange)).bind (s.emit targetChange)
  | .writeMutations b => (emitted s.store (.writeMutations b)).bind (s.emit none)
  | .handleSuccessfulWrite ackVersion =>
    (emitted s.store (.handleSuccessfulWrite ackVersion)).bind (s.emit none)
  | .handleRejectedWrite => (emitted s.store .handleRejectedWrite).bind (s.emit none)

def system : System State Action := ⟨⟨.empty, .initial⟩, step⟩

end ChipChat.LocalStores
