import ChipChat.QueryListeners

/-!
# The events of a listener

Each event of a listener carries the changes from the result it was given before, the first
event those from no documents at all; a listener that has been given an event is up to date
with the view.
-/

namespace ChipChat.QueryListeners

open DocumentViews LabelledSystem RankedTables

set_option autoImplicit false

/-- Each snapshot carries the changes from the result before it. -/
def Chained : QueryResult → List ViewSnapshot → Prop
  | _, [] => True
  | prev, n :: events =>
    n.forEachChange = some (documentChanges prev.documents (result n.documents).documents) ∧
      Chained (result n.documents) events

/-- The result a listener has been given last. -/
def lastResult (events : List ViewSnapshot) : QueryResult :=
  match events.getLast? with
  | none => .empty
  | some n => result n.documents

theorem lastResult_concat (events : List ViewSnapshot) (n : ViewSnapshot) :
    lastResult (events ++ [n]) = result n.documents := by
  rw [lastResult, List.getLast?_append_of_ne_nil _ (by simp)]
  rfl

theorem chained_concat {events : List ViewSnapshot} {n : ViewSnapshot}
    (h : Chained .empty events) (hn : n.forEachChange =
      some (documentChanges (lastResult events).documents (result n.documents).documents)) :
    Chained .empty (events ++ [n]) := by
  have hgeneral : ∀ prev : QueryResult, Chained prev events →
      (n.forEachChange = some (documentChanges
        ((events.getLast?.map fun m => result m.documents).getD prev).documents
        (result n.documents).documents)) →
      Chained prev (events ++ [n]) := by
    clear h hn
    induction events with
    | nil => exact fun prev _ hn => ⟨hn, trivial⟩
    | cons m events ih =>
      intro prev h hn
      refine ⟨h.1, ih (result m.documents) h.2 ?_⟩
      cases events with
      | nil => exact hn
      | cons e events =>
        rw [List.getLast?_cons_cons] at hn
        rw [hn]
        simp [List.getLast?_cons]
  apply hgeneral .empty h
  rw [hn, lastResult]
  cases events.getLast? <;> rfl

section Results

theorem eq_of_no_changes {old new : QueryResult}
    (h : documentChanges old.documents new.documents = []) : new.documents = old.documents := by
  unfold documentChanges at h
  obtain ⟨h, hmodified⟩ := List.append_eq_nil_iff.mp h
  obtain ⟨hremoved, hadded⟩ := List.append_eq_nil_iff.mp h
  have hgrows : old.Grows new := ⟨List.map_eq_nil_iff.mp hremoved, List.map_eq_nil_iff.mp hmodified⟩
  have hnone : old.added new = [] := List.map_eq_nil_iff.mp hadded
  have hall := hgrows.eq_append (by simp [hnone])
  rwa [hnone, List.append_nil] at hall

theorem accounts_withoutMetadata {old new : DocumentSet} {changes : List DocumentViewChange}
    (h : Accounts old new changes) :
    Accounts old new (changes.filter fun c => decide (c.type ≠ .metadata)) where
  sorted := h.sorted.filter _
  distinct := (List.filter_sublist.map _).nodup h.distinct
  told c hc := h.told c (List.mem_filter.mp hc).1
  complete k c hc hmeta := List.mem_filter.mpr ⟨h.complete k c hc hmeta, decide_eq_true hmeta⟩

end Results

/-- The snapshot shows the view, whatever its changes. -/
structure Shows (v : View) (n : ViewSnapshot) : Prop where
  documents : n.documents = v.documentSet
  fromCache : n.fromCache = decide (v.syncState = .local)

/-- A listener of the view: what it has been given is chained and up to date, and it only
waits for its first event while there is nothing to show and the backend may yet answer. -/
structure Served (v : View) (o : OnlineState) (l : QueryListener) : Prop where
  chained : Chained .empty l.events
  online : l.onlineState = o
  snapshot : ∃ n, l.snapshot = some n ∧ Shows v n
  raised : l.raisedInitialEvent → (lastResult l.events).documents = (result v.documentSet).documents
  waiting : ¬ l.raisedInitialEvent → l.events = [] ∧ v.documentSet.items = [] ∧
    v.syncState = .local ∧ o ≠ .offline

section Listener
variable {v w : View} {o : OnlineState} {l : QueryListener} {n : ViewSnapshot}

theorem Served.congr (h : Served v o l) (hdocuments : w.documentSet = v.documentSet)
    (hsync : w.syncState = v.syncState) : Served w o l := by
  obtain ⟨n, hn, hshows⟩ := h.snapshot
  refine ⟨h.chained, h.online, ⟨n, hn, ?_, ?_⟩, ?_, ?_⟩
  · rw [hdocuments, hshows.documents]
  · rw [hsync, hshows.fromCache]
  · rw [hdocuments]
    exact h.raised
  · rw [hdocuments, hsync]
    exact h.waiting

theorem shouldRaise_eq_false (h : QueryListener.shouldRaiseInitialEvent n o = false) :
    n.fromCache = true ∧ n.documents.items = [] ∧ o ≠ .offline := by
  simpa [QueryListener.shouldRaiseInitialEvent, and_assoc] using h

/-- The first event lists all documents as additions. -/
theorem chained_initial (documents : DocumentSet) (mutatedKeys : Finset String) (fromCache excludes : Bool) :
    (ViewSnapshot.fromInitialDocuments documents mutatedKeys fromCache excludes).forEachChange =
      some (documentChanges (lastResult []).documents (result documents).documents) :=
  forEachChange_eq (accounts_initial documents)

theorem served_raiseInitialEvent (hl : l.events = []) (ho : l.onlineState = o) (hn : Shows v n)
    (hsnapshot : ∃ m, l.snapshot = some m ∧ Shows v m) : Served v o (l.raiseInitialEvent n) := by
  refine ⟨?_, ho, hsnapshot, fun _ => ?_, fun h => absurd rfl h⟩
  · rw [QueryListener.raiseInitialEvent, hl]
    exact ⟨chained_initial _ _ _ _, trivial⟩
  · rw [QueryListener.raiseInitialEvent, lastResult_concat, ← hn.documents]
    rfl

theorem shows_withoutMetadata (h : Shows v n) : Shows v (QueryListener.withoutMetadata n) :=
  ⟨h.documents, h.fromCache⟩

theorem onViewSnapshot_eq (h : n.documentChanges ≠ [] ∨ n.syncStateChanged) :
    l.onViewSnapshot n = some { l.raise (QueryListener.withoutMetadata n) with
      snapshot := some (QueryListener.withoutMetadata n) } := by
  unfold QueryListener.onViewSnapshot
  rw [if_neg]
  rintro ⟨hnone, hsync⟩
  exact h.elim (fun hne => hne hnone) hsync

/-- A listener that waits for its first event gets it with the first snapshot to show. -/
theorem served_waiting (hl : l.events = []) (hraised : ¬ l.raisedInitialEvent)
    (ho : l.onlineState = o) (hn : Shows v n) (hchanged : n.documentChanges ≠ [] ∨ n.syncStateChanged) :
    ∃ l', l.onViewSnapshot n = some l' ∧ Served v o l' := by
  have hstripped := shows_withoutMetadata hn
  refine ⟨_, onViewSnapshot_eq hchanged, ?_⟩
  unfold QueryListener.raise
  rw [if_neg hraised, ho]
  split
  · exact served_raiseInitialEvent (l := { l with snapshot := some _ }) hl ho hstripped ⟨_, rfl, hstripped⟩
  · rename_i hshould
    obtain ⟨hcache, hempty, hoffline⟩ := shouldRaise_eq_false (Bool.eq_false_iff.mpr hshould)
    rw [hstripped.documents] at hempty
    refine ⟨by rw [hl]; trivial, ho, ⟨_, rfl, hstripped⟩, fun h => absurd h hraised,
      fun _ => ⟨hl, hempty, ?_, hoffline⟩⟩
    exact of_decide_eq_true (hn.fromCache.symm.trans hcache)

theorem served_reported (h : Served v o l) (hn : Reports v w n) :
    ∃ l', l.onViewSnapshot n = some l' ∧ Served w o l' := by
  have hshows : Shows w n := ⟨hn.documents, hn.fromCache⟩
  have hstripped := shows_withoutMetadata hshows
  by_cases hraised : l.raisedInitialEvent
  · have haccounts := accounts_withoutMetadata hn.accounts
    have hlast := h.raised hraised
    rw [← hn.oldDocuments] at hlast
    refine ⟨_, onViewSnapshot_eq hn.changed, ?_⟩
    unfold QueryListener.raise
    rw [if_pos hraised]
    split
    · refine ⟨chained_concat h.chained ?_, h.online, ⟨_, rfl, hstripped⟩, fun _ => ?_,
        fun hnot => absurd hraised hnot⟩
      · rw [hlast]
        exact forEachChange_eq haccounts
      · rw [lastResult_concat, ← hn.documents]
        rfl
    · rename_i hshould
      have hnone : (QueryListener.withoutMetadata n).documentChanges = [] := by
        simpa [QueryListener.shouldRaiseEvent] using hshould
      have hsame : (result n.documents).documents = (result n.oldDocuments).documents := by
        apply eq_of_no_changes
        rw [← hn.accounts.changes_eq]
        exact congrArg _ hnone
      refine ⟨h.chained, h.online, ⟨_, rfl, hstripped⟩, fun _ => ?_, fun hnot => absurd hraised hnot⟩
      rw [← hn.documents, hsame]
      exact hlast
  · exact served_waiting (h.waiting hraised).1 hraised h.online hshows hn.changed

theorem onOnlineStateChanged_eq (hn : l.snapshot = some n) (o : OnlineState) :
    l.onOnlineStateChanged o =
      if ¬ l.raisedInitialEvent ∧ QueryListener.shouldRaiseInitialEvent n o then
        (QueryListener.raiseInitialEvent { l with onlineState := o } n, true)
      else ({ l with onlineState := o }, false) := by
  unfold QueryListener.onOnlineStateChanged
  rw [hn]

theorem served_onOnlineStateChanged (h : Served v o l) (o' : OnlineState) :
    Served v o' (l.onOnlineStateChanged o').1 := by
  obtain ⟨n, hn, hshows⟩ := h.snapshot
  rw [onOnlineStateChanged_eq hn]
  split
  · rename_i hwaits
    exact served_raiseInitialEvent (l := { l with onlineState := o' }) (h.waiting hwaits.1).1 rfl hshows
      ⟨n, hn, hshows⟩
  · rename_i hnot
    refine ⟨h.chained, rfl, ⟨n, hn, hshows⟩, h.raised, fun hwaits => ?_⟩
    obtain ⟨hl, hempty, hlocal, -⟩ := h.waiting hwaits
    have hshould : QueryListener.shouldRaiseInitialEvent n o' = false :=
      Bool.eq_false_iff.mpr fun hshould => hnot ⟨hwaits, hshould⟩
    exact ⟨hl, hempty, hlocal, (shouldRaise_eq_false hshould).2.2⟩

end Listener

theorem exists_mapM {α β : Type} {f : α → Option β} {P : β → Prop} {l : List α}
    (h : ∀ a ∈ l, ∃ b, f a = some b ∧ P b) : ∃ m, l.mapM f = some m ∧ ∀ b ∈ m, P b := by
  induction l with
  | nil => exact ⟨[], rfl, fun b hb => by cases hb⟩
  | cons a l ih =>
    obtain ⟨b, hb, hPb⟩ := h a List.mem_cons_self
    obtain ⟨m, hm, hPm⟩ := ih fun a ha => h a (List.mem_cons_of_mem _ ha)
    refine ⟨b :: m, by rw [List.mapM_cons, hb, hm]; rfl, fun c hc => ?_⟩
    rcases List.mem_cons.mp hc with rfl | hc
    · exact hPb
    · exact hPm c hc

/-- What holds of the manager between any two steps. -/
structure Consistent (s : State) : Prop where
  sound : ∀ v ∈ s.view, Sound v
  stored : ∀ v ∈ s.view, ∃ n, s.viewSnapshot = some n ∧ Shows v n ∧
    (n.documentChanges ≠ [] ∨ n.syncStateChanged)
  idle : s.view = none → s.viewSnapshot = none ∧ s.listeners = []
  served : ∀ v ∈ s.view, ∀ l ∈ s.listeners, Served v s.onlineState l
  closed : ∀ l ∈ s.closed, Chained .empty l.events

/-- The backend only modifies documents it has added. -/
def Permitted (s : State) : Action → Prop
  | .emitNewSnapshots _ targetChange => ∀ v ∈ s.view, v.Permits targetChange
  | _ => True

section Steps
variable {s : State} {v w : View}

theorem consistent_init : Consistent .initial :=
  ⟨fun v hv => (by cases hv), fun v hv => (by cases hv), fun _ => ⟨rfl, rfl⟩,
    fun v hv => (by cases hv), fun l hl => (by cases hl)⟩

/-- A snapshot reaches every listener, those that are up to date and those that wait. -/
theorem consistent_shown {n : ViewSnapshot} (hclosed : ∀ l ∈ s.closed, Chained .empty l.events)
    (hsound : Sound w) (hview : s.view = some w) (hn : Shows w n)
    (hchanged : n.documentChanges ≠ [] ∨ n.syncStateChanged)
    (hlisteners : ∀ l ∈ s.listeners, ∃ l', l.onViewSnapshot n = some l' ∧ Served w s.onlineState l') :
    ∃ t, s.onViewSnapshots (some n) = some t ∧ Consistent t := by
  obtain ⟨listeners, hmap, hserved⟩ := exists_mapM hlisteners
  refine ⟨{ s with listeners := listeners, viewSnapshot := some n }, ?_, ?_, ?_, ?_, ?_, hclosed⟩
  · rw [State.onViewSnapshots, hmap]
    rfl
  · rintro v hv
    rwa [← Option.some.inj (hview.symm.trans hv)]
  · rintro v hv
    rw [← Option.some.inj (hview.symm.trans hv)]
    exact ⟨n, rfl, hn, hchanged⟩
  · exact fun hnone => absurd (hview.symm.trans hnone) (by simp)
  · rintro v hv
    rw [← Option.some.inj (hview.symm.trans hv)]
    exact hserved

theorem consistent_applied (h : Consistent s) (hv : s.view = some v) {change : ViewChange}
    (happlied : Applied v w change) :
    ∃ t, State.onViewSnapshots { s with view := some w } change.snapshot = some t ∧ Consistent t := by
  cases hn : change.snapshot with
  | none =>
    obtain ⟨hdocuments, hsync⟩ := happlied.silent hn
    refine ⟨_, rfl, ?_, ?_, fun hnone => (by cases hnone), ?_, h.closed⟩
    · rintro _ ⟨⟩
      exact happlied.sound
    · rintro _ ⟨⟩
      obtain ⟨n, hn, hshows, hchanged⟩ := h.stored v hv
      exact ⟨n, hn, ⟨hshows.documents.trans hdocuments.symm, by rw [hsync, hshows.fromCache]⟩, hchanged⟩
    · rintro _ ⟨⟩
      exact fun l hl => (h.served v hv l hl).congr hdocuments hsync
  | some n =>
    have hreports := happlied.reported n hn
    exact consistent_shown (s := { s with view := some w }) h.closed happlied.sound rfl
      ⟨hreports.documents, hreports.fromCache⟩ hreports.changed
      fun l hl => served_reported (h.served v hv l hl) hreports

/-- A listener that has been given nothing. -/
structure Fresh (o : OnlineState) (l : QueryListener) : Prop where
  events : l.events = []
  raised : ¬ l.raisedInitialEvent
  online : l.onlineState = o

theorem consistent_listen (hclosed : ∀ l ∈ s.closed, Chained .empty l.events)
    (hfresh : ∀ l ∈ s.listeners, Fresh s.onlineState l) (documents : MaybeDocumentMap)
    (remoteKeys : Finset String) : ∃ t, s.listen documents remoteKeys = some t ∧ Consistent t := by
  obtain ⟨c, hc, hcomputed⟩ := computed_documentChanges (View.new remoteKeys) documents
  have hsome := (applyChanges_isSome_iff (v := View.new remoteKeys) c none).mpr fun change h => (by cases h)
  obtain ⟨⟨w, change⟩, happly⟩ := Option.isSome_iff_exists.mp hsome
  have happlied := applied_applyChanges hcomputed happly
  unfold State.listen
  simp only [hc, happly, Option.bind_some]
  cases hn : change.snapshot with
  | none => exact absurd (happlied.silent hn).2 happlied.sound.known
  | some n =>
    have hreports := happlied.reported n hn
    have hshows : Shows w n := ⟨hreports.documents, hreports.fromCache⟩
    rw [if_neg (by simp)]
    refine consistent_shown (s := { s with view := some w }) hclosed happlied.sound rfl hshows
      hreports.changed fun l hl => ?_
    have hl := hfresh l hl
    exact served_waiting hl.events hl.raised hl.online hshows hreports.changed

theorem consistent_addQueryListener (h : Consistent s) (documents : MaybeDocumentMap)
    (remoteKeys : Finset String) :
    ∃ t, s.addQueryListener documents remoteKeys = some t ∧ Consistent t := by
  have hnew : QueryListener.new.onOnlineStateChanged s.onlineState =
      (⟨s.onlineState, false, none, []⟩, false) := rfl
  unfold State.addQueryListener
  rw [hnew]
  cases hv : s.view with
  | none =>
    obtain ⟨hstored, hlisteners⟩ := h.idle hv
    simp only [hstored, hlisteners, List.nil_append, Option.bind_some, Option.isNone_none, if_true,
      Bool.false_eq_true, if_false]
    apply consistent_listen
    · exact h.closed
    · intro l hl
      rw [List.mem_singleton.mp hl]
      exact ⟨rfl, Bool.false_ne_true, rfl⟩
  | some v =>
    obtain ⟨n, hn, hshows, hchanged⟩ := h.stored v hv
    obtain ⟨l, hl, hserved⟩ := served_waiting (l := ⟨s.onlineState, false, none, []⟩) rfl
      Bool.false_ne_true rfl hshows hchanged
    simp only [hn, hl, Option.bind_some, Option.isNone_some, Bool.false_eq_true, if_false]
    refine ⟨_, rfl, ?_, ?_, fun hnone => (by cases hnone), ?_, h.closed⟩
    · rintro _ ⟨⟩
      exact h.sound v hv
    · rintro _ ⟨⟩
      exact ⟨n, rfl, hshows, hchanged⟩
    · rintro _ ⟨⟩ l' hl'
      rcases List.mem_append.mp hl' with hl' | hl'
      · exact h.served v hv l' hl'
      · rwa [List.mem_singleton.mp hl']

theorem consistent_emitNewSnapshots (h : Consistent s) (changes : MaybeDocumentMap)
    {targetChange : Option TargetChange} (hpermits : ∀ v ∈ s.view, v.Permits targetChange) :
    ∃ t, s.emitNewSnapshots changes targetChange = some t ∧ Consistent t := by
  unfold State.emitNewSnapshots
  cases hv : s.view with
  | none => exact ⟨s, rfl, h⟩
  | some v =>
    obtain ⟨c, hc, hcomputed⟩ := computed_documentChanges v changes
    obtain ⟨⟨w, change⟩, happly⟩ := Option.isSome_iff_exists.mp
      ((applyChanges_isSome_iff c targetChange).mpr (hpermits v hv))
    simp only [hc, Option.bind_some, happly]
    exact consistent_applied h hv (applied_applyChanges hcomputed happly)

theorem consistent_handleOnlineStateChange (h : Consistent s) (o : OnlineState) :
    ∃ t, s.handleOnlineStateChange o = some t ∧ Consistent t := by
  have happly : ∃ t, s.applyOnlineStateChange o = some t ∧ Consistent t := by
    unfold State.applyOnlineStateChange
    cases hv : s.view with
    | none => exact ⟨s, rfl, h⟩
    | some v =>
      obtain ⟨w, change, hchange, happlied, hlimbo⟩ := applyOnlineStateChange_eq (h.sound v hv) o
      simp only [hchange, Option.bind_some, hlimbo, ne_eq, not_true_eq_false, if_false]
      exact consistent_applied h hv happlied
  obtain ⟨t, ht, hconsistent⟩ := happly
  refine ⟨{ t with
      onlineState := o
      listeners := t.listeners.map fun l => (l.onOnlineStateChanged o).1 },
    by rw [State.handleOnlineStateChange, ht, Option.map_some], hconsistent.sound,
    hconsistent.stored, fun hnone => ?_, fun v hv l hl => ?_, hconsistent.closed⟩
  · obtain ⟨hstored, hlisteners⟩ := hconsistent.idle hnone
    exact ⟨hstored, by rw [hlisteners]; rfl⟩
  · obtain ⟨l', hl', rfl⟩ := List.mem_map.mp hl
    exact served_onOnlineStateChanged (hconsistent.served v hv l' hl') o

theorem consistent_onError (h : Consistent s) : Consistent s.onError := by
  refine ⟨fun v hv => (by cases hv), fun v hv => (by cases hv), fun _ => ⟨rfl, rfl⟩,
    fun v hv => (by cases hv), fun l hl => ?_⟩
  rcases List.mem_append.mp hl with hl | hl
  · exact h.closed l hl
  · cases hv : s.view with
    | none =>
      rw [(h.idle hv).2] at hl
      cases hl
    | some v => exact (h.served v hv l hl).chained

theorem not_emitNewSnapshots {changes : MaybeDocumentMap} {targetChange : Option TargetChange}
    (hv : s.view = some v) (h : ¬ v.Permits targetChange) :
    s.emitNewSnapshots changes targetChange = none := by
  obtain ⟨c, hc, -⟩ := computed_documentChanges v changes
  have hnone : v.applyChanges c targetChange = none := by
    rw [← Option.not_isSome_iff_eq_none, applyChanges_isSome_iff]
    exact h
  unfold State.emitNewSnapshots
  simp only [hv, hc, hnone, Option.bind_some, Option.bind_none]

theorem permitted_of_step {t : State} {a : Action} (ht : step s a = some t) : Permitted s a := by
  cases a with
  | emitNewSnapshots changes targetChange =>
    intro v hv
    by_contra hnot
    rw [step, not_emitNewSnapshots hv hnot] at ht
    cases ht
  | addQueryListener | handleOnlineStateChange | onError => trivial

theorem consistent_permitted (h : Consistent s) {a : Action} (ha : Permitted s a) :
    ∃ t, step s a = some t ∧ Consistent t := by
  cases a with
  | addQueryListener documents remoteKeys => exact consistent_addQueryListener h documents remoteKeys
  | emitNewSnapshots changes targetChange => exact consistent_emitNewSnapshots h changes ha
  | handleOnlineStateChange o => exact consistent_handleOnlineStateChange h o
  | onError => exact ⟨_, rfl, consistent_onError h⟩

theorem consistent_step (h : Consistent s) {t : State} {a : Action} (ht : step s a = some t) :
    Consistent t := by
  obtain ⟨u, hu, hconsistent⟩ := consistent_permitted h (permitted_of_step ht)
  rwa [← Option.some.inj (hu.symm.trans ht)]

end Steps

section Runs
variable {s : State} {as : List Action} (hrun : run system as = some s)
include hrun

theorem consistent_run : Consistent s := by
  refine invariant (I := Consistent) consistent_init ?_ hrun
  exact fun s a t h (ht : step s a = some t) => consistent_step h ht

theorem served_run : ∀ l ∈ s.listeners, ∃ v, s.view = some v ∧ Served v s.onlineState l := by
  intro l hl
  have h := consistent_run hrun
  cases hv : s.view with
  | none =>
    rw [(h.idle hv).2] at hl
    cases hl
  | some v => exact ⟨v, rfl, h.served v hv l hl⟩

theorem chained_run : ∀ l ∈ s.closed ++ s.listeners, Chained .empty l.events := by
  intro l hl
  rcases List.mem_append.mp hl with hl | hl
  · exact (consistent_run hrun).closed l hl
  · obtain ⟨v, -, hl⟩ := served_run hrun l hl
    exact hl.chained

end Runs

/-- In every reachable state every step runs through without a failing assertion, but for a
target change that modifies documents the backend has not added. -/
theorem no_assertion_fails {s : State} {as : List Action} (hrun : run system as = some s) (a : Action) :
    (step s a).isSome ↔ Permitted s a := by
  rw [Option.isSome_iff_exists]
  constructor
  · rintro ⟨t, ht⟩
    exact permitted_of_step ht
  · intro ha
    obtain ⟨t, ht, -⟩ := consistent_permitted (consistent_run hrun) ha
    exact ⟨t, ht⟩

def unchanged : MaybeDocumentMap := ⟨[], List.nodup_nil, fun _ _ h => by cases h⟩

def changed (d : Document) : MaybeDocumentMap where
  entries := [(d.key, some d)]
  distinct := List.nodup_singleton _
  keyed k e h := by
    obtain ⟨rfl, heq⟩ := Prod.mk.inj (List.mem_singleton.mp h)
    rw [Option.some.inj heq]

def greeting (key : String) (date : Timestamp) (documentState : DocumentState) : Document :=
  { key := key
    value :=
      { fields := [("fromID", .string "bob"), ("text", .string "Hi"), ("timestamp", .timestamp date),
          ("toID", .string "ann")]
        sorted := (by decide : ["fromID", "text", "timestamp", "toID"].Pairwise (· < ·))
        stamped := fun _ => rfl }
    documentState := documentState }

/-- A message comes from the backend, one is sent, and a second listener joins in between. -/
def session : List Action :=
  [.handleOnlineStateChange .online, .addQueryListener unchanged ∅,
    .emitNewSnapshots (changed (greeting "m2" 1 .synced)) (some ⟨{"m2"}, ∅, ∅, true⟩),
    .emitNewSnapshots (changed (greeting "m1" 2 .localMutations)) none,
    .addQueryListener unchanged ∅,
    .emitNewSnapshots (changed (greeting "m1" 2 .synced)) (some ⟨{"m1"}, ∅, ∅, true⟩)]

def listening : State := (run system session).get (by decide)

theorem run_session : run system session = some listening := (Option.some_get _).symm

theorem no_assertion_fails_session :
    Permitted listening (.emitNewSnapshots unchanged (some ⟨∅, {"m1"}, ∅, true⟩)) ∧
      ¬ Permitted listening (.emitNewSnapshots unchanged (some ⟨∅, {"m3"}, ∅, true⟩)) := by
  constructor
  · exact (no_assertion_fails run_session _).mp (by decide)
  · exact fun h => absurd ((no_assertion_fails run_session _).mpr h) (by decide)

/-- Whenever listeners are added and however the view changes: the events of each listener
carry the changes from one result to the next, from no documents on; one that has raised
its first event has been given the documents of the view, and one that has not has nothing
to show while the backend may yet answer. -/
theorem listener_events {s : State} {as : List Action} (hrun : run system as = some s) :
    (∀ l ∈ s.closed ++ s.listeners, Chained .empty l.events) ∧
    ∀ l ∈ s.listeners, ∃ v, s.view = some v ∧
      (l.raisedInitialEvent → (lastResult l.events).documents = (result v.documentSet).documents) ∧
      (¬ l.raisedInitialEvent → l.events = [] ∧ v.documentSet.items = [] ∧ v.syncState = .local ∧
        s.onlineState ≠ .offline) := by
  refine ⟨chained_run hrun, fun l hl => ?_⟩
  obtain ⟨v, hv, hserved⟩ := served_run hrun l hl
  exact ⟨v, hv, hserved.raised, hserved.waiting⟩

theorem listener_events_session :
    (listening.listeners.map fun l => l.events.length) = [2, 1] ∧
      ∀ l ∈ listening.closed ++ listening.listeners, Chained .empty l.events :=
  ⟨by decide, (listener_events run_session).1⟩

/-- While the backend's answer is complete, limbo holds just the documents that neither the
backend nor a local write stands behind; the view is synced when there are none. -/
theorem limbo_documents {s : State} {as : List Action} (hrun : run system as = some s) {v : View}
    (hv : s.view = some v) :
    (v.current → ∀ key, key ∈ v.limboDocuments ↔ v.Unconfirmed key) ∧
      (v.syncState = .synced ↔ v.current ∧ ∀ key, ¬ v.Unconfirmed key) := by
  have hsound := (consistent_run hrun).sound v hv
  exact ⟨hsound.limbo, hsound.synced⟩

theorem limbo_documents_session : (listening.view.get (by decide)).syncState = .synced ∧
    ∀ key, ¬ (listening.view.get (by decide)).Unconfirmed key := by
  have hsynced : (listening.view.get (by decide)).syncState = .synced := by decide
  have hlimbo := limbo_documents run_session (v := listening.view.get (by decide))
    (Option.some_get _).symm
  exact ⟨hsynced, (hlimbo.2.mp hsynced).2⟩

end ChipChat.QueryListeners
