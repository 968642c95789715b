import ChipChat.LabelledSystem
import ChipChat.ViewChanges

/-!
# The listeners of a query

All listeners of one query share its view: `SyncEngine` updates the view, `EventManager`
passes its snapshots to each listener and keeps the last for those added later. A listener
is first given all documents as additions and from then on the changes of the view.
-/

namespace ChipChat.QueryListeners

open DocumentViews LabelledSystem RankedTables

set_option autoImplicit false

/-- A listener made by `addSnapshotListener`, whose options are all off; `events` are the
snapshots it has been given. -/
structure QueryListener where
  onlineState : OnlineState
  raisedInitialEvent : Bool
  snapshot : Option ViewSnapshot
  events : List ViewSnapshot

namespace QueryListener

def new : QueryListener := ⟨.unknown, false, none, []⟩

def shouldRaiseInitialEvent (snapshot : ViewSnapshot) (onlineState : OnlineState) : Bool :=
  !snapshot.fromCache || !snapshot.documents.items.isEmpty || decide (onlineState = .offline)

/-- Changes of metadata have been taken out by now, and the others are always passed on. -/
def shouldRaiseEvent (snapshot : ViewSnapshot) : Bool := !snapshot.documentChanges.isEmpty

def raiseInitialEvent (l : QueryListener) (snapshot : ViewSnapshot) : QueryListener :=
  let modified := ViewSnapshot.fromInitialDocuments snapshot.documents snapshot.mutatedKeys
    snapshot.fromCache snapshot.excludesMetadataChanges
  { l with raisedInitialEvent := true, events := l.events ++ [modified] }

def withoutMetadata (snapshot : ViewSnapshot) : ViewSnapshot :=
  { snapshot with
    documentChanges := snapshot.documentChanges.filter fun c => decide (c.type ≠ .metadata)
    excludesMetadataChanges := true }

/-- What is raised of a snapshot without changes of metadata. -/
def raise (l : QueryListener) (snapshot : ViewSnapshot) : QueryListener :=
  if l.raisedInitialEvent then
    if shouldRaiseEvent snapshot then { l with events := l.events ++ [snapshot] } else l
  else if shouldRaiseInitialEvent snapshot l.onlineState then l.raiseInitialEvent snapshot
  else l

/-- Fails on a snapshot that says nothing. -/
def onViewSnapshot (l : QueryListener) (snapshot : ViewSnapshot) : Option QueryListener :=
  if snapshot.documentChanges = [] ∧ ¬ snapshot.syncStateChanged then none
  else some { l.raise (withoutMetadata snapshot) with snapshot := some (withoutMetadata snapshot) }

/-- The listener, and whether it has raised an event. -/
def onOnlineStateChanged (l : QueryListener) (onlineState : OnlineState) : QueryListener × Bool :=
  let changed := { l with onlineState := onlineState }
  match l.snapshot with
  | none => (changed, false)
  | some snapshot =>
    if ¬ l.raisedInitialEvent ∧ shouldRaiseInitialEvent snapshot onlineState then
      (changed.raiseInitialEvent snapshot, true)
    else (changed, false)

end QueryListener

/-- One query of `EventManager` and `SyncEngine`; `closed` are the listeners that an error
has ended. -/
structure State where
  view : Option View
  viewSnapshot : Option ViewSnapshot
  onlineState : OnlineState
  listeners : List QueryListener
  closed : List QueryListener

namespace State

def initial : State := ⟨none, none, .unknown, [], []⟩

/-- `OnViewSnapshots` -/
def onViewSnapshots (s : State) : Option ViewSnapshot → Option State
  | none => some s
  | some snapshot =>
    (s.listeners.mapM fun l : QueryListener => l.onViewSnapshot snapshot).map fun listeners =>
      { s with listeners := listeners, viewSnapshot := some snapshot }

/-- `SyncEngine::Listen`: the view starts from the documents of the local store. -/
def listen (s : State) (documents : MaybeDocumentMap) (remoteKeys : Finset String) : Option State :=
  ((View.new remoteKeys).computeDocumentChanges documents).bind fun docChanges =>
    ((View.new remoteKeys).applyChanges docChanges none).bind fun (view, change) =>
      -- a new view always returns a snapshot
      if change.snapshot = none then none
      else onViewSnapshots { s with view := some view } change.snapshot

def addQueryListener (s : State) (documents : MaybeDocumentMap) (remoteKeys : Finset String) :
    Option State :=
  let (listener, raised) := QueryListener.new.onOnlineStateChanged s.onlineState
  if raised then none
  else
    (match s.viewSnapshot with
    | none => some listener
    | some snapshot => listener.onViewSnapshot snapshot).bind fun shown =>
      let added := { s with listeners := s.listeners ++ [shown] }
      -- the first listener of the query
      if s.view.isNone then added.listen documents remoteKeys else some added

def emitNewSnapshots (s : State) (changes : MaybeDocumentMap) (targetChange : Option TargetChange) :
    Option State :=
  match s.view with
  | none => some s
  | some v =>
    (v.computeDocumentChanges changes).bind fun docChanges =>
      (v.applyChanges docChanges targetChange).bind fun (view, change) =>
        onViewSnapshots { s with view := some view } change.snapshot

/-- `SyncEngine::HandleOnlineStateChange`, ahead of the listeners' own. -/
def applyOnlineStateChange (s : State) (onlineState : OnlineState) : Option State :=
  match s.view with
  | none => some s
  | some v =>
    (v.applyOnlineStateChange onlineState).bind fun (view, change) =>
      -- a change of the online state does not affect limbo documents
      if change.limboChanges ≠ ⟨∅, ∅⟩ then none
      else onViewSnapshots { s with view := some view } change.snapshot

def handleOnlineStateChange (s : State) (onlineState : OnlineState) : Option State :=
  (s.applyOnlineStateChange onlineState).map fun t =>
    { t with
      onlineState := onlineState
      listeners := t.listeners.map fun l => (l.onOnlineStateChanged onlineState).1 }

/-- `OnError`: the query and its listeners are dropped. -/
def onError (s : State) : State :=
  { s with view := none, viewSnapshot := none, listeners := [], closed := s.closed ++ s.listeners }

end State

inductive Action where
  | addQueryListener (documents : MaybeDocumentMap) (remoteKeys : Finset String)
  | emitNewSnapshots (changes : MaybeDocumentMap) (targetChange : Option TargetChange)
  | handleOnlineStateChange (onlineState : OnlineState)
  | onError

/-- A step that is not possible is one that runs into a failing assertion. -/
def step (s : State) : Action → Option State
  | .addQueryListener documents remoteKeys => s.addQueryListener documents remoteKeys
  | .emitNewSnapshots changes targetChange => s.emitNewSnapshots changes targetChange
  | .handleOnlineStateChange onlineState => s.handleOnlineStateChange onlineState
  | .onError => some s.onError

def system : System State Action := ⟨.initial, step⟩

end ChipChat.QueryListeners
