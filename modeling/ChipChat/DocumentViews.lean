import ChipChat.QuerySnapshots
import ChipChat.RankedTables
import Mathlib.Data.Finset.Basic
import Mathlib.Data.Prod.Lex

/-!
# The view behind a query ordered by timestamp

Firestore keeps one view for each query that is listened to. Changed documents of the local
store are compared with it one by one; the changes are collected by key, sorted by kind
and query order, and handed on as a snapshot together with what the backend has confirmed.
-/

namespace ChipChat.DocumentViews

open RankedTables

set_option autoImplicit false

inductive DocumentState where
  | localMutations
  | committedMutations
  | synced
  deriving DecidableEq, Repr

/-- The fields of a document, in the order of their names and each once, so that equal values
have equal lists. What the query is ordered by holds a timestamp wherever this app writes it. -/
structure ObjectValue where
  fields : Dictionary
  sorted : (fields.map Prod.fst).Pairwise (· < ·)
  stamped : "timestamp" ∈ fields.map Prod.fst → (fields.asTimestamp "timestamp").isSome
  deriving DecidableEq, Repr

def ObjectValue.empty : ObjectValue := ⟨[], List.Pairwise.nil, fun h => absurd h List.not_mem_nil⟩

/-- A document in the collection of the query; `key` is the last segment of its path. -/
structure Document where
  key : String
  value : ObjectValue
  documentState : DocumentState
  deriving DecidableEq, Repr

namespace Document

def data (d : Document) : Dictionary := d.value.fields

def hasLocalMutations (d : Document) : Prop := d.documentState = .localMutations

def hasCommittedMutations (d : Document) : Prop := d.documentState = .committedMutations

instance (d : Document) : Decidable d.hasLocalMutations := inferInstanceAs (Decidable (_ = _))

instance (d : Document) : Decidable d.hasCommittedMutations := inferInstanceAs (Decidable (_ = _))

def queryDocument (d : Document) : QueryDocument := ⟨d.key, d.data⟩

end Document

/-- A document that matches the query, with the timestamp it is ordered by. -/
abbrev MatchedDocument := {d : Document // (d.data.asTimestamp "timestamp").isSome}

/-- `Query::Matches`, which asks for the field the query is ordered by. -/
def Document.matched (d : Document) : Option MatchedDocument :=
  if h : "timestamp" ∈ d.data.map Prod.fst then some ⟨d, d.value.stamped h⟩ else none

/-- The order of `Query::Comparator`: by timestamp, then by key. -/
def documentRanking : Ranking MatchedDocument String (Timestamp ×ₗ String) where
  key d := d.1.key
  rank d := toLex (d.1.queryDocument.timestamp, d.1.key)
  key_eq _ _ h := congrArg (fun r => (ofLex r).2) h

abbrev DocumentSet := Table documentRanking

inductive ChangeType where
  | removed
  | added
  | modified
  | metadata
  deriving DecidableEq, Repr

/-- `GetDocumentViewChangeTypePosition` -/
def ChangeType.position : ChangeType → Nat
  | .removed => 0
  | .added => 1
  | .modified => 2
  | .metadata => 2

structure DocumentViewChange where
  document : MatchedDocument
  type : ChangeType
  deriving DecidableEq

def DocumentViewChange.key (c : DocumentViewChange) : String := c.document.1.key

/-- The order in which `ApplyChanges` sorts changes. -/
def DocumentViewChange.rank (c : DocumentViewChange) : Nat ×ₗ (Timestamp ×ₗ String) :=
  toLex (c.type.position, documentRanking.rank c.document)

abbrev DocumentViewChangeSet := WriteLog.Table String DocumentViewChange

/-- `AddChange`; combinations that make no sense fail. -/
def DocumentViewChangeSet.addChange (changes : DocumentViewChangeSet) (change : DocumentViewChange) :
    Option DocumentViewChangeSet :=
  match changes.lookup change.key with
  | none => some (changes.insert change.key change)
  | some old =>
    if change.type ≠ .added ∧ old.type = .metadata then
      some (changes.insert change.key change)
    else if change.type = .metadata ∧ old.type ≠ .removed then
      some (changes.insert change.key ⟨change.document, old.type⟩)
    else if change.type = .modified ∧ old.type = .modified then
      some (changes.insert change.key ⟨change.document, .modified⟩)
    else if change.type = .modified ∧ old.type = .added then
      some (changes.insert change.key ⟨change.document, .added⟩)
    else if change.type = .removed ∧ old.type = .added then
      some (changes.erase change.key)
    else if change.type = .removed ∧ old.type = .modified then
      some (changes.insert change.key ⟨old.document, .removed⟩)
    else if change.type = .added ∧ old.type = .removed then
      some (changes.insert change.key ⟨change.document, .modified⟩)
    else none

/-- `GetChanges` -/
def DocumentViewChangeSet.getChanges (changes : DocumentViewChangeSet) : List DocumentViewChange :=
  (WriteLog.pairs changes).map Prod.snd

/-- The changed documents of the local store; a deleted one has no data. No key occurs
twice, and each document stands under its own key. -/
structure MaybeDocumentMap where
  entries : List (String × Option Document)
  distinct : (entries.map Prod.fst).Nodup
  keyed : ∀ k d, (k, some d) ∈ entries → d.key = k

/-- The documents of the one map put into the other. -/
def MaybeDocumentMap.insertAll (documents others : MaybeDocumentMap) : MaybeDocumentMap where
  entries := others.entries ++
    documents.entries.filter fun e => decide (e.1 ∉ others.entries.map Prod.fst)
  distinct := by
    rw [List.map_append, List.nodup_append']
    refine ⟨others.distinct, (List.filter_sublist.map Prod.fst).nodup documents.distinct, ?_⟩
    intro key hothers hkey
    obtain ⟨e, he, rfl⟩ := List.mem_map.mp hkey
    exact of_decide_eq_true (List.mem_filter.mp he).2 hothers
  keyed k d h := (List.mem_append.mp h).elim (others.keyed k d) fun hmem =>
    documents.keyed k d (List.mem_filter.mp hmem).1

/-- `TargetChange`: what the backend says of the query's results. -/
structure TargetChange where
  addedDocuments : Finset String
  modifiedDocuments : Finset String
  removedDocuments : Finset String
  current : Bool

inductive SyncState where
  | none
  | local
  | synced
  deriving DecidableEq, Repr

inductive OnlineState where
  | unknown
  | online
  | offline
  deriving DecidableEq, Repr

structure ViewDocumentChanges where
  documentSet : DocumentSet
  changeSet : DocumentViewChangeSet
  mutatedKeys : Finset String

/-- What a change that is applied does to the documents and the mutated keys. -/
def ViewDocumentChanges.apply (acc : ViewDocumentChanges) (key : String)
    (newDoc : Option MatchedDocument) (changeSet : DocumentViewChangeSet) : ViewDocumentChanges :=
  match newDoc with
  | some d =>
    ⟨acc.documentSet.insert d, changeSet,
      if d.1.hasLocalMutations then insert key acc.mutatedKeys else acc.mutatedKeys.erase key⟩
  | none => ⟨acc.documentSet.erase key, changeSet, acc.mutatedKeys.erase key⟩

structure ViewSnapshot where
  documents : DocumentSet
  oldDocuments : DocumentSet
  documentChanges : List DocumentViewChange
  mutatedKeys : Finset String
  fromCache : Bool
  syncStateChanged : Bool
  excludesMetadataChanges : Bool

/-- What `UpdateLimboDocuments` returns. -/
structure LimboDocumentChanges where
  removed : Finset String
  added : Finset String
  deriving DecidableEq

structure ViewChange where
  snapshot : Option ViewSnapshot
  limboChanges : LimboDocumentChanges

structure View where
  documentSet : DocumentSet
  syncedDocuments : Finset String
  limboDocuments : Finset String
  mutatedKeys : Finset String
  current : Bool
  syncState : SyncState

namespace View

def new (remoteDocuments : Finset String) : View :=
  ⟨.empty, remoteDocuments, ∅, ∅, false, .none⟩

/-- The update of a document that is only acknowledged is left to the backend's own. -/
def shouldWaitForSyncedDocument (newDoc oldDoc : Document) : Prop :=
  oldDoc.hasLocalMutations ∧ newDoc.hasCommittedMutations ∧ ¬ newDoc.hasLocalMutations

instance (newDoc oldDoc : Document) : Decidable (shouldWaitForSyncedDocument newDoc oldDoc) :=
  inferInstanceAs (Decidable (_ ∧ _))

/-- The change of one document; `mutated` says whether the view knows it as mutated. -/
def documentChange (mutated : Bool) :
    Option MatchedDocument → Option MatchedDocument → Option DocumentViewChange
  | some oldDoc, some newDoc =>
    if oldDoc.1.data = newDoc.1.data then
      if mutated = decide (newDoc.1.hasLocalMutations ∨
          mutated ∧ newDoc.1.hasCommittedMutations) then none
      else some ⟨newDoc, .metadata⟩
    else if shouldWaitForSyncedDocument newDoc.1 oldDoc.1 then none
    else some ⟨newDoc, .modified⟩
  | none, some newDoc => some ⟨newDoc, .added⟩
  | some oldDoc, none => some ⟨oldDoc, .removed⟩
  | none, none => none

/-- The loop of `ComputeDocumentChanges`. -/
def computeDocumentChange (v : View) (acc : ViewDocumentChanges) (entry : String × Option Document) :
    Option ViewDocumentChanges :=
  let key := entry.1
  let newDoc := entry.2.bind Document.matched
  match documentChange (key ∈ v.mutatedKeys) (v.documentSet.find? key) newDoc with
  | none => some acc
  | some change => (acc.changeSet.addChange change).map (acc.apply key newDoc)

/-- `ComputeDocumentChanges` of a query without a limit, which never needs a refill. -/
def computeDocumentChanges (v : View) (changes : MaybeDocumentMap) : Option ViewDocumentChanges :=
  changes.entries.foldlM v.computeDocumentChange ⟨v.documentSet, ∅, v.mutatedKeys⟩

/-- Fails when a modified document is not one the backend has added. -/
def applyTargetChange (v : View) : Option TargetChange → Option View
  | none => some v
  | some change =>
    let synced := v.syncedDocuments ∪ change.addedDocuments
    if change.modifiedDocuments ⊆ synced then
      some { v with syncedDocuments := synced \ change.removedDocuments, current := change.current }
    else none

/-- A document the backend should know, but has not said to be in the results. -/
def shouldBeInLimbo (v : View) (key : String) : Bool :=
  decide (key ∉ v.syncedDocuments) &&
    match v.documentSet.find? key with
    | none => false
    | some d => !decide d.1.hasLocalMutations

def updateLimboDocuments (v : View) : View × LimboDocumentChanges :=
  if v.current then
    let limbo := ((v.documentSet.items.map documentRanking.key).filter v.shouldBeInLimbo).toFinset
    ({ v with limboDocuments := limbo }, ⟨v.limboDocuments \ limbo, limbo \ v.limboDocuments⟩)
  else (v, ⟨∅, ∅⟩)

def newSyncState (v : View) : SyncState :=
  if v.limboDocuments = ∅ ∧ v.current then .synced else .local

def applyChanges (v : View) (docChanges : ViewDocumentChanges) (targetChange : Option TargetChange) :
    Option (View × ViewChange) :=
  let changes := sort DocumentViewChange.rank docChanges.changeSet.getChanges
  (applyTargetChange
    { v with documentSet := docChanges.documentSet, mutatedKeys := docChanges.mutatedKeys }
    targetChange).map fun applied =>
      let updated := applied.updateLimboDocuments
      let next := { updated.1 with syncState := updated.1.newSyncState }
      let syncStateChanged := decide (next.syncState ≠ v.syncState)
      let snapshot : ViewSnapshot :=
        ⟨docChanges.documentSet, v.documentSet, changes, docChanges.mutatedKeys,
          next.syncState = .local, syncStateChanged, false⟩
      (next, ⟨if changes = [] ∧ ¬ syncStateChanged then none else some snapshot, updated.2⟩)

def applyOnlineStateChange (v : View) (onlineState : OnlineState) : Option (View × ViewChange) :=
  if v.current ∧ onlineState = .offline then
    { v with current := false }.applyChanges ⟨v.documentSet, ∅, v.mutatedKeys⟩ none
  else some (v, ⟨none, ∅, ∅⟩)

end View

/-- The documents of a set as the app reads them. -/
def result (documents : DocumentSet) : QueryResult where
  documents := documents.items.map fun d => d.1.queryDocument
  stamped := by
    intro q hq
    obtain ⟨d, -, rfl⟩ := List.mem_map.mp hq
    exact d.2
  ordered := by
    apply List.pairwise_map.mpr
    exact documents.ordered.imp fun h => Prod.Lex.toLex_lt_toLex.mp h
  distinct := by
    rw [documentIDs, List.map_map]
    exact documents.distinct

/-- `DocumentChangeTypeForChange` -/
def ChangeType.documentChangeType : ChangeType → DocumentChangeType
  | .added => .added
  | .modified => .modified
  | .metadata => .modified
  | .removed => .removed

def DocumentViewChange.documentChange (c : DocumentViewChange) : DocumentChange :=
  ⟨c.type.documentChangeType, c.document.1.queryDocument⟩

namespace ViewSnapshot

def fromInitialDocuments (documents : DocumentSet) (mutatedKeys : Finset String)
    (fromCache excludesMetadataChanges : Bool) : ViewSnapshot where
  documents := documents
  oldDocuments := .empty
  documentChanges := documents.items.map fun d => ⟨d, .added⟩
  mutatedKeys := mutatedKeys
  fromCache := fromCache
  syncStateChanged := true
  excludesMetadataChanges := excludesMetadataChanges

/-- The first branch of `ForEachChange`, which asserts that additions come in order. -/
def forEachAddition : Option MatchedDocument → List DocumentViewChange → Option (List DocumentChange)
  | _, [] => some []
  | last, c :: changes =>
    if c.type = .added ∧ ∀ d ∈ last, documentRanking.rank d < documentRanking.rank c.document then
      (forEachAddition (some c.document) changes).map (c.documentChange :: ·)
    else none

/-- `index_tracker` after a change. -/
def track (tracker : DocumentSet) (c : DocumentViewChange) : DocumentSet :=
  let erased := if c.type ≠ .added then tracker.erase c.key else tracker
  if c.type ≠ .removed then erased.insert c.document else erased

/-- The second branch, which asserts that what is not an addition is found in the documents
of the changes so far. -/
def forEachTracked : DocumentSet → List DocumentViewChange → Option (List DocumentChange)
  | _, [] => some []
  | tracker, c :: changes =>
    if c.type = .metadata then forEachTracked tracker changes
    else if c.type ≠ .added ∧ tracker.find? c.key = none then none
    else (forEachTracked (track tracker c) changes).map (c.documentChange :: ·)

/-- `ForEachChange` without metadata changes, as `documentChanges` calls it. -/
def forEachChange (snapshot : ViewSnapshot) : Option (List DocumentChange) :=
  if snapshot.oldDocuments.items = [] then forEachAddition none snapshot.documentChanges
  else forEachTracked snapshot.oldDocuments snapshot.documentChanges

end ViewSnapshot

end ChipChat.DocumentViews
