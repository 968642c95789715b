import ChipChat.ListenerEvents
import ChipChat.LocalQueries

/-!
# Views in step with the local store

A view is only told of the documents that a step of the store may have changed. It holds
every document that matches, as long as the listen it is made by looks at them all, but for
a write that is taken back over one that is acknowledged: there the view waits for the backend.
-/

namespace ChipChat.LocalStores

open DocumentViews LabelledSystem QueryListeners RankedTables

set_option autoImplicit false

section Stores
variable {s : LocalStore}

@[simp] theorem setQueue_mutationQueue (batches : List MutationBatch) :
    (s.setQueue batches).mutationQueue = batches := by
  simp [LocalStore.setQueue, LocalStore.mutationQueue]

@[simp] theorem setQueue_remoteDocuments (batches : List MutationBatch) :
    (s.setQueue batches).remoteDocuments = s.remoteDocuments := rfl

theorem getDocument_eq (key : String) : s.getDocument key =
    (s.mutationQueue.foldl (MutationBatch.applyToLocalDocument key) (s.remoteDocuments.lookup key)).bind
      (MaybeDocument.asDocument key) := rfl

/-- What is emitted is the local view afterwards, and nothing else has changed. -/
structure Emits (s : LocalStore) (r : LocalStore × MaybeDocumentMap) : Prop where
  emitted : ∀ e ∈ r.2.entries, e.2 = r.1.getDocument e.1
  others : ∀ key ∉ r.2.entries.map Prod.fst, r.1.getDocument key = s.getDocument key

theorem emits_writeLocally (b : MutationBatch) : Emits s (s.writeLocally b) := by
  constructor
  · intro e he
    obtain rfl := List.mem_singleton.mp he
    rw [getDocument_eq, LocalStore.writeLocally, setQueue_mutationQueue, List.foldl_append]
    rfl
  · intro key hkey
    have hne : b.key ≠ key := fun heq => hkey (List.mem_singleton.mpr heq.symm)
    rw [getDocument_eq, LocalStore.writeLocally, setQueue_mutationQueue, List.foldl_append,
      List.foldl_cons, List.foldl_nil, MutationBatch.applyToLocalDocument, if_neg hne]
    rfl

/-- The first write leaves the queue, and at most its own document changes in the cache. -/
theorem emits_dequeued {b : MutationBatch} {batches : List MutationBatch} {next : LocalStore}
    (hs : s.mutationQueue = b :: batches) (hnext : next.mutationQueue = batches)
    (hcache : ∀ key ≠ b.key, next.remoteDocuments.lookup key = s.remoteDocuments.lookup key) :
    Emits s (next, next.getDocuments [b.key]) := by
  constructor
  · exact fun e he => mem_getDocuments he
  · intro key hkey
    rw [keys_getDocuments] at hkey
    have hne : key ≠ b.key := by simpa using hkey
    rw [getDocument_eq, getDocument_eq, hs, hnext, hcache key hne, List.foldl_cons,
      MutationBatch.applyToLocalDocument, if_neg (Ne.symm hne)]

theorem emits_acknowledgeBatch {ackVersion : Nat} {r : LocalStore × MaybeDocumentMap}
    (h : s.acknowledgeBatch ackVersion = some r) : Emits s r := by
  unfold LocalStore.acknowledgeBatch at h
  split at h
  · cases h
  · rename_i b batches hs
    cases h
    refine emits_dequeued hs (setQueue_mutationQueue _) fun key hne => ?_
    rw [setQueue_remoteDocuments, LocalStore.applyBatchResult]
    split
    · exact AList.lookup_insert_ne hne
    · rfl

theorem emits_rejectBatch {r : LocalStore × MaybeDocumentMap} (h : s.rejectBatch = some r) :
    Emits s r := by
  unfold LocalStore.rejectBatch at h
  split at h
  · cases h
  · rename_i b batches hs
    cases h
    exact emits_dequeued hs (setQueue_mutationQueue _) fun key _ => rfl

theorem emits_handleUserChange (user : Option String) : Emits s (s.handleUserChange user) := by
  constructor
  · exact fun e he => mem_getDocuments he
  · intro key hkey
    rw [LocalStore.handleUserChange, keys_getDocuments, List.mem_dedup, List.map_append,
      List.mem_append, not_or] at hkey
    rw [getDocument_eq, getDocument_eq, foldl_applyToLocalDocument_of_not_mem hkey.1]
    exact congrArg (Option.bind · _) (foldl_applyToLocalDocument_of_not_mem hkey.2 _)

theorem lookup_cacheUpdate (documents : WriteLog.Table String MaybeDocument)
    (update : String × MaybeDocument) (key : String) :
    (LocalStore.cacheUpdate documents update).lookup key =
      if key = update.1 then (if LocalStore.isManufactured update.2 then none else some update.2)
      else documents.lookup key := by
  unfold LocalStore.cacheUpdate
  by_cases hkey : key = update.1
  · rw [if_pos hkey, hkey]
    split
    · exact AList.lookup_erase _ _
    · exact AList.lookup_insert _
  · rw [if_neg hkey]
    split
    · exact AList.lookup_erase_ne hkey
    · exact AList.lookup_insert_ne hkey

theorem lookup_cacheUpdates {updates : List (String × MaybeDocument)}
    (hdistinct : (updates.map Prod.fst).Nodup) (documents : WriteLog.Table String MaybeDocument) :
    (∀ key ∉ updates.map Prod.fst,
      (updates.foldl LocalStore.cacheUpdate documents).lookup key = documents.lookup key) ∧
    ∀ e ∈ updates, (updates.foldl LocalStore.cacheUpdate documents).lookup e.1 =
      if LocalStore.isManufactured e.2 then none else some e.2 := by
  induction updates generalizing documents with
  | nil => exact ⟨fun _ _ => rfl, fun e he => by cases he⟩
  | cons update updates ih =>
    obtain ⟨hfresh, hdistinct⟩ := List.nodup_cons.mp hdistinct
    obtain ⟨hothers, hupdated⟩ := ih hdistinct (LocalStore.cacheUpdate documents update)
    constructor
    · intro key hkey
      obtain ⟨hne, hkey⟩ := not_or.mp (fun hmem => hkey (List.mem_cons.mpr hmem))
      rw [List.foldl_cons, hothers key hkey, lookup_cacheUpdate, if_neg hne]
    · intro e he
      rcases List.mem_cons.mp he with rfl | he
      · rw [List.foldl_cons, hothers _ hfresh, lookup_cacheUpdate, if_pos rfl]
      · exact hupdated e he

theorem emits_applyRemoteEvent (updates : DocumentUpdates) : Emits s (s.applyRemoteEvent updates) := by
  have hdistinct := (List.filter_sublist (p := s.changesCache) |>.map Prod.fst).nodup updates.distinct
  obtain ⟨hothers, hupdated⟩ := lookup_cacheUpdates hdistinct s.remoteDocuments
  constructor
  · intro e he
    obtain ⟨base, hbase, rfl⟩ := List.mem_map.mp he
    obtain ⟨update, hupdate, rfl⟩ := List.mem_map.mp hbase
    apply foldl_applyToLocalDocument_congr
    rw [LocalStore.applyRemoteEvent, hupdated update hupdate]
    split
    · rename_i hmanufactured
      cases hdoc : update.2 with
      | document => rw [hdoc] at hmanufactured; cases hmanufactured
      | noDocument => rfl
    · rfl
  · intro key hkey
    have hkey : key ∉ (updates.entries.filter s.changesCache).map Prod.fst := by
      simpa [LocalStore.applyRemoteEvent, LocalStore.getLocalViewOfDocuments] using hkey
    rw [getDocument_eq, getDocument_eq, LocalStore.applyRemoteEvent, hothers key hkey]
    rfl

theorem emits_emitted {a : Action} {r : LocalStore × MaybeDocumentMap} (h : emitted s a = some r) :
    Emits s r := by
  cases a with
  | writeMutations b => cases h; exact emits_writeLocally b
  | handleSuccessfulWrite ackVersion => exact emits_acknowledgeBatch h
  | handleRejectedWrite => exact emits_rejectBatch h
  | applyRemoteEvent updates targetChange => cases h; exact emits_applyRemoteEvent updates
  | handleCredentialChange user =>
    obtain ⟨-, h⟩ := Option.ite_none_left_eq_some.mp h
    cases h
    exact emits_handleUserChange user
  | addSnapshotListener | handleOnlineStateChange | handleRejectedListen => cases h

end Stores

def dataOf (d : Option MatchedDocument) : Option Dictionary := d.map fun m => m.1.data

/-- The store takes back a local write over an acknowledged one, which the view does not
show by itself. -/
def Waits (v : View) (key : String) (maybe : Option Document) : Prop :=
  ∃ oldDoc newDoc, v.documentSet.find? key = some oldDoc ∧ maybe.bind Document.matched = some newDoc ∧
    oldDoc.1.data ≠ newDoc.1.data ∧ View.shouldWaitForSyncedDocument newDoc.1 oldDoc.1

/-- The view shows the data that the store has for the documents that match. -/
def InSync (s : State) : Prop :=
  ∀ v ∈ s.manager.view, ∀ key,
    dataOf (v.documentSet.find? key) = dataOf ((s.store.getDocument key).bind Document.matched)

/-- No document that the step emits has the view wait for the backend. -/
def NotWaiting (s : State) (a : Action) : Prop :=
  ∀ r ∈ emitted s.store a, ∀ v ∈ s.manager.view, ∀ e ∈ r.2.entries, ¬ Waits v e.1 e.2

/-- Where a listen makes a view, it looks at every document that matches. -/
def Covering (s : State) : Action → Prop
  | .addSnapshotListener remoteKeys readSince =>
      s.manager.view = none → ∀ key, ((s.store.getDocument key).bind Document.matched).isSome →
        s.store.Reads remoteKeys readSince key
  | _ => True

section Views
variable {v : View}

theorem dataOf_updated_iff (key : String) (maybe : Option Document) :
    dataOf (v.updated key maybe) = dataOf (maybe.bind Document.matched) ↔ ¬ Waits v key maybe := by
  unfold View.updated View.changeOf Waits
  generalize v.documentSet.find? key = before
  generalize maybe.bind Document.matched = after
  cases before with
  | none => cases after <;> simp [View.documentChange]
  | some oldDoc =>
    cases after with
    | none => simp [View.documentChange]
    | some newDoc =>
      by_cases hdata : oldDoc.1.data = newDoc.1.data
      · have hsame : dataOf (some oldDoc) = dataOf (some newDoc) := congrArg some hdata
        constructor
        · rintro - ⟨old, new, hold, hnew, hne, -⟩
          cases hold
          cases hnew
          exact hne hdata
        · intro
          split
          · rfl
          · exact hsame
      · have hne : dataOf (some oldDoc) ≠ dataOf (some newDoc) := fun h => hdata (Option.some.inj h)
        simp only [View.documentChange, if_neg hdata]
        by_cases hwait : View.shouldWaitForSyncedDocument newDoc.1 oldDoc.1
        · rw [if_pos hwait]
          exact iff_of_false hne fun h => h ⟨oldDoc, newDoc, rfl, rfl, hdata, hwait⟩
        · rw [if_neg hwait]
          refine iff_of_true rfl ?_
          rintro ⟨old, new, hold, hnew, -, hwaits⟩
          cases hold
          cases hnew
          exact hwait hwaits

theorem view_onViewSnapshots {s t : QueryListeners.State} {snapshot : Option ViewSnapshot}
    (h : s.onViewSnapshots snapshot = some t) : t.view = s.view := by
  cases snapshot with
  | none =>
    cases h
    rfl
  | some n =>
    obtain ⟨listeners, -, rfl⟩ := Option.map_eq_some_iff.mp h
    rfl

theorem documentSet_applyChanges {w : View} {c : ViewDocumentChanges} {targetChange : Option TargetChange}
    {change : ViewChange} (h : v.applyChanges c targetChange = some (w, change)) :
    w.documentSet = c.documentSet := by
  obtain ⟨applied, happlied, heq⟩ := Option.map_eq_some_iff.mp h
  obtain ⟨rfl, -⟩ := Prod.mk.inj heq
  rw [updateLimboDocuments_documentSet]
  exact applyTargetChange_documentSet happlied

theorem view_emitNewSnapshots {s t : QueryListeners.State} {changes : MaybeDocumentMap}
    {targetChange : Option TargetChange} (h : s.emitNewSnapshots changes targetChange = some t)
    (hv : s.view = some v) :
    ∃ w, t.view = some w ∧ ∀ key, w.documentSet.find? key =
      (changes.entries.lookup key).elim (v.documentSet.find? key) (v.updated key) := by
  simp only [State.emitNewSnapshots, hv] at h
  obtain ⟨c, hc, h⟩ := Option.bind_eq_some_iff.mp h
  obtain ⟨⟨w, change⟩, happly, h⟩ := Option.bind_eq_some_iff.mp h
  obtain ⟨c', hc', hcomputed⟩ := computed_documentChanges v changes
  cases hc.symm.trans hc'
  refine ⟨w, view_onViewSnapshots h, fun key => ?_⟩
  rw [documentSet_applyChanges happly]
  exact hcomputed.documents key

/-- The first listener of the query has it run over the documents of the store. -/
theorem view_listen {s t : QueryListeners.State} {documents : MaybeDocumentMap}
    {remoteKeys : Finset String} (h : s.listen documents remoteKeys = some t) :
    ∃ w, t.view = some w ∧ ∀ key, w.documentSet.find? key = found documents key := by
  obtain ⟨c, hc, h⟩ := Option.bind_eq_some_iff.mp h
  obtain ⟨⟨w, change⟩, happly, h⟩ := Option.bind_eq_some_iff.mp h
  obtain ⟨-, h⟩ := Option.ite_none_left_eq_some.mp h
  obtain ⟨c', hc', hcomputed⟩ := computed_documentChanges (View.new remoteKeys) documents
  cases hc.symm.trans hc'
  refine ⟨w, view_onViewSnapshots h, fun key => ?_⟩
  rw [documentSet_applyChanges happly, hcomputed.documents, found]
  cases documents.entries.lookup key with
  | none => rfl
  | some maybe =>
    have hempty : (View.new remoteKeys).documentSet.find? key = none := rfl
    rw [Option.elim_some, View.updated, View.changeOf, hempty, Option.bind_some]
    cases maybe.bind Document.matched <;> rfl

theorem view_addQueryListener {s t : QueryListeners.State} {documents : MaybeDocumentMap}
    {remoteKeys : Finset String} (h : s.addQueryListener documents remoteKeys = some t) :
    (s.view ≠ none ∧ t.view = s.view) ∨ s.view = none ∧
      ∃ w, t.view = some w ∧ ∀ key, w.documentSet.find? key = found documents key := by
  have hnew : QueryListener.new.onOnlineStateChanged s.onlineState =
      (⟨s.onlineState, false, none, []⟩, false) := rfl
  rw [State.addQueryListener, hnew] at h
  obtain ⟨shown, -, h⟩ := Option.bind_eq_some_iff.mp h
  split at h
  · rename_i hview
    exact .inr ⟨Option.isNone_iff_eq_none.mp hview, view_listen h⟩
  · rename_i hview
    cases h
    exact .inl ⟨fun hnone => hview (Option.isNone_iff_eq_none.mpr hnone), rfl⟩

theorem view_handleOnlineStateChange {s t : QueryListeners.State} {onlineState : OnlineState}
    (h : s.handleOnlineStateChange onlineState = some t) :
    t.view.map View.documentSet = s.view.map View.documentSet := by
  obtain ⟨u, hu, rfl⟩ := Option.map_eq_some_iff.mp h
  unfold State.applyOnlineStateChange at hu
  split at hu
  · cases hu
    rfl
  · rename_i v hv
    obtain ⟨⟨w, change⟩, hchange, hu⟩ := Option.bind_eq_some_iff.mp hu
    obtain ⟨-, hu⟩ := Option.ite_none_left_eq_some.mp hu
    change u.view.map View.documentSet = _
    rw [view_onViewSnapshots hu, hv]
    refine congrArg some ?_
    unfold View.applyOnlineStateChange at hchange
    split at hchange
    · exact documentSet_applyChanges hchange
    · cases hchange
      rfl

end Views

section Steps
variable {s t : State} {a : Action}

/-- A step that emits nothing leaves the store as it is, and the documents of the view too,
unless it has the query run. -/
theorem view_silent (ht : step s a = some t) (ha : emitted s.store a = none) :
    t.store = s.store ∧ ∀ w ∈ t.manager.view,
      (∃ v ∈ s.manager.view, w.documentSet = v.documentSet) ∨
        ∃ remoteKeys readSince, a = .addSnapshotListener remoteKeys readSince ∧ ∀ key,
          w.documentSet.find? key = found (s.store.executeQuery remoteKeys readSince) key := by
  cases a with
  | addSnapshotListener remoteKeys readSince =>
    obtain ⟨manager, hmanager, rfl⟩ := Option.map_eq_some_iff.mp ht
    refine ⟨rfl, fun w hw => ?_⟩
    rcases view_addQueryListener hmanager with ⟨-, hview⟩ | ⟨-, w', hw', hfind⟩
    · exact .inl ⟨w, hview ▸ hw, rfl⟩
    · cases (Option.mem_def.mp hw).symm.trans hw'
      exact .inr ⟨remoteKeys, readSince, rfl, hfind⟩
  | handleOnlineStateChange onlineState =>
    obtain ⟨manager, hmanager, rfl⟩ := Option.map_eq_some_iff.mp ht
    refine ⟨rfl, fun w hw => .inl ?_⟩
    have hview := view_handleOnlineStateChange hmanager
    rw [Option.mem_def.mp hw, Option.map_some] at hview
    obtain ⟨v, hv, hdocuments⟩ := Option.map_eq_some_iff.mp hview.symm
    exact ⟨v, hv, hdocuments.symm⟩
  | handleRejectedListen =>
    cases ht
    exact ⟨rfl, fun w hw => by cases hw⟩
  | handleCredentialChange user =>
    rw [step] at ht
    split at ht
    · cases ht
      exact ⟨rfl, fun w hw => .inl ⟨w, hw, rfl⟩⟩
    · rw [ha] at ht
      cases ht
  | writeMutations | handleSuccessfulWrite | handleRejectedWrite | applyRemoteEvent =>
    simp only [step, ha, Option.bind_none, reduceCtorEq] at ht

/-- What the query returns is up to date for each key that it looks at, and for no other one
with a document that matches. -/
theorem dataOf_found_iff (remoteKeys : Finset String) (readSince : Option (Finset String))
    (key : String) :
    dataOf (found (s.store.executeQuery remoteKeys readSince) key) =
        dataOf ((s.store.getDocument key).bind Document.matched) ↔
      (((s.store.getDocument key).bind Document.matched).isSome →
        s.store.Reads remoteKeys readSince key) := by
  have hfound : ∀ d, found (s.store.executeQuery remoteKeys readSince) key = some d ↔
      s.store.Reads remoteKeys readSince key ∧
        (s.store.getDocument key).bind Document.matched = some d := fun d => found_executeQuery_iff
  generalize (s.store.getDocument key).bind Document.matched = document at hfound
  cases document with
  | none =>
    have hnone : found (s.store.executeQuery remoteKeys readSince) key = none :=
      Option.eq_none_iff_forall_not_mem.mpr fun d hd => by cases ((hfound d).mp hd).2
    rw [hnone]
    exact iff_of_true rfl fun h => by cases h
  | some d =>
    constructor
    · intro h _
      obtain ⟨d', hd', -⟩ := Option.map_eq_some_iff.mp h
      exact ((hfound d').mp hd').1
    · exact fun h => congrArg dataOf ((hfound d).mpr ⟨h rfl, rfl⟩)

/-- A step that emits nothing keeps the view in step unless the query misses a document. -/
theorem inSync_silent_iff (h : InSync s) (ht : step s a = some t) (ha : emitted s.store a = none) :
    InSync t ↔ Covering s a := by
  cases a with
  | addSnapshotListener remoteKeys readSince =>
    obtain ⟨manager, hmanager, rfl⟩ := Option.map_eq_some_iff.mp ht
    rcases view_addQueryListener hmanager with ⟨hsome, hview⟩ | ⟨hnone, w, hw, hfind⟩
    · exact iff_of_true (fun v hv => h v (hview ▸ hv)) fun hnone => absurd hnone hsome
    · have hsync : InSync ⟨s.store, manager⟩ ↔ ∀ key, dataOf (w.documentSet.find? key) =
          dataOf ((s.store.getDocument key).bind Document.matched) :=
        ⟨fun hsync => hsync w hw, fun hkeys v hv => by
          cases (Option.mem_def.mp hv).symm.trans hw
          exact hkeys⟩
      rw [hsync]
      refine Iff.trans (forall_congr' fun key => ?_) ⟨fun hcovers _ => hcovers, fun hc => hc hnone⟩
      rw [hfind]
      exact dataOf_found_iff remoteKeys readSince key
  | handleOnlineStateChange | handleRejectedListen | handleCredentialChange | writeMutations
  | handleSuccessfulWrite | handleRejectedWrite | applyRemoteEvent =>
    obtain ⟨hstore, hview⟩ := view_silent ht ha
    refine iff_of_true (fun w hw key => ?_) trivial
    rw [hstore]
    rcases hview w hw with ⟨v, hv, hdocuments⟩ | ⟨remoteKeys, readSince, heq, -⟩
    · rw [hdocuments]
      exact h v hv key
    · cases heq

theorem emit_of_step (ht : step s a = some t) {r : LocalStore × MaybeDocumentMap}
    (hr : emitted s.store a = some r) : ∃ targetChange, s.emit targetChange r = some t := by
  cases a with
  | addSnapshotListener | handleOnlineStateChange | handleRejectedListen => cases hr
  | handleCredentialChange user =>
    obtain ⟨hne, -⟩ := Option.ite_none_left_eq_some.mp hr
    rw [step, if_neg hne, hr] at ht
    exact ⟨none, ht⟩
  | applyRemoteEvent updates targetChange =>
    rw [step, hr] at ht
    exact ⟨targetChange, ht⟩
  | writeMutations | handleSuccessfulWrite | handleRejectedWrite =>
    rw [step, hr] at ht
    exact ⟨none, ht⟩

theorem covering_of_emitted {r : LocalStore × MaybeDocumentMap} (hr : emitted s.store a = some r) :
    Covering s a := by
  cases a with
  | addSnapshotListener => cases hr
  | handleOnlineStateChange | handleRejectedListen | handleCredentialChange | writeMutations
  | handleSuccessfulWrite | handleRejectedWrite | applyRemoteEvent => trivial

/-- The view stays in step with what is emitted unless it waits for one of the documents. -/
theorem inSync_emit_iff (h : InSync s) {r : LocalStore × MaybeDocumentMap} (hr : Emits s.store r)
    {targetChange : Option TargetChange} (ht : s.emit targetChange r = some t) :
    InSync t ↔ ∀ v ∈ s.manager.view, ∀ e ∈ r.2.entries, ¬ Waits v e.1 e.2 := by
  obtain ⟨manager, hmanager, rfl⟩ := Option.map_eq_some_iff.mp ht
  cases hview : s.manager.view with
  | none =>
    simp only [State.emitNewSnapshots, hview, Option.some.injEq] at hmanager
    refine iff_of_true (fun w hw => ?_) (fun v hv => by cases hv)
    rw [← hmanager, hview] at hw
    cases hw
  | some v =>
    obtain ⟨w, hw, hfind⟩ := view_emitNewSnapshots hmanager hview
    have hlookup := lookup_iff_mem r.2.distinct
    constructor
    · rintro hsync _ ⟨⟩ e he
      rw [← dataOf_updated_iff]
      have hkey := hsync w hw e.1
      rw [hfind, (hlookup e.1 e.2).mpr he, Option.elim_some] at hkey
      rw [hkey, hr.emitted e he]
    · intro hnot u hu key
      cases (Option.mem_def.mp hu).symm.trans hw
      rw [hfind]
      cases hentry : r.2.entries.lookup key with
      | none =>
        have hfresh : key ∉ r.2.entries.map Prod.fst := by
          intro hmem
          obtain ⟨e, he, rfl⟩ := List.mem_map.mp hmem
          cases hentry.symm.trans ((hlookup e.1 e.2).mpr he)
        rw [Option.elim_none, hr.others key hfresh]
        exact h v hview key
      | some maybe =>
        have hmem := (hlookup key maybe).mp hentry
        have hemitted : maybe = r.1.getDocument key := hr.emitted (key, maybe) hmem
        rw [Option.elim_some, (dataOf_updated_iff key maybe).mpr (hnot v rfl (key, maybe) hmem),
          hemitted]

theorem inSync_step_iff (h : InSync s) (ht : step s a = some t) :
    InSync t ↔ NotWaiting s a ∧ Covering s a := by
  cases hr : emitted s.store a with
  | none =>
    rw [inSync_silent_iff h ht hr]
    refine (and_iff_right fun r hmem => ?_).symm
    rw [hr] at hmem
    cases hmem
  | some r =>
    obtain ⟨targetChange, hemit⟩ := emit_of_step ht hr
    rw [inSync_emit_iff h (emits_emitted hr) hemit, NotWaiting, hr,
      and_iff_left (covering_of_emitted hr)]
    exact ⟨fun hnot r' hr' => (by cases hr'; exact hnot), fun hnot => hnot r rfl⟩

end Steps

/-- Over a run the view shows every document that matches in the store, as long as no local
write is taken back over one of the same document that is acknowledged, and no listen starts from
a previous result that misses a document. -/
theorem views_in_sync {s : State} {as : List Action} (hrun : run system as = some s) :
    Throughout system InSync system.init as ↔
      StepsMeet system (fun s a => NotWaiting s a ∧ Covering s a) system.init as := by
  refine throughout_iff_stepsMeet (I := fun _ => True) (fun _ _ _ _ _ => trivial) ?_ trivial ?_ hrun
  · exact fun s a t _ h (ht : step s a = some t) => inSync_step_iff h ht
  · exact fun v hv => (by cases hv)

def text (text : String) : ObjectValue where
  fields := [("text", .string text), ("timestamp", .timestamp 1)]
  sorted := (by decide : ["text", "timestamp"].Pairwise (· < ·))
  stamped _ := rfl

/-- A document is written twice; the first write is acknowledged and the second rejected. -/
def takenBack : List Action :=
  [.addSnapshotListener ∅ none, .writeMutations ⟨"chip", text "Hi"⟩, .writeMutations ⟨"chip", text "Hey"⟩,
    .handleSuccessfulWrite 1, .handleRejectedWrite]

def outdated : State := (run system takenBack).get (by decide)

theorem views_in_sync_takenBack :
    (outdated.store.getDocument "chip").map Document.value = some (text "Hi") ∧
      ¬ StepsMeet system (fun s a => NotWaiting s a ∧ Covering s a) system.init takenBack := by
  have hrun : run system takenBack = some outdated := (Option.some_get _).symm
  refine ⟨by decide, fun h => ?_⟩
  have hsync : InSync outdated := ((views_in_sync hrun).mpr h).last hrun
  exact absurd (hsync (outdated.manager.view.get (by decide)) (Option.some_get _).symm "chip") (by decide)

section FreshKeys

/-- The batches that a run writes. -/
def written : List Action → List MutationBatch :=
  List.filterMap fun
    | .writeMutations b => some b
    | _ => none

theorem mem_written_iff {as : List Action} {b : MutationBatch} :
    b ∈ written as ↔ .writeMutations b ∈ as := by
  unfold written
  rw [List.mem_filterMap]
  constructor
  · rintro ⟨a, ha, hb⟩
    cases a with
    | writeMutations b' =>
      cases hb
      exact ha
    | addSnapshotListener | handleSuccessfulWrite | handleRejectedWrite | applyRemoteEvent
    | handleCredentialChange | handleOnlineStateChange | handleRejectedListen => cases hb
  · exact fun h => ⟨_, h, rfl⟩

variable (value : String → ObjectValue)

/-- What is not synced has the one value that is ever written under its key. -/
def Unsynced (key : String) (d : Document) : Prop := d.documentState ≠ .synced → d.value = value key

def CachedOnce (documents : WriteLog.Table String MaybeDocument) : Prop :=
  ∀ key d, (documents.lookup key).bind (MaybeDocument.asDocument key) = some d → Unsynced value key d

structure StoredOnce (s : LocalStore) : Prop where
  queued : ∀ user, ∀ b ∈ s.mutationQueues user, b.value = value b.key
  cached : CachedOnce value s.remoteDocuments

structure WrittenOnce (s : State) : Prop where
  store : StoredOnce value s.store
  view : ∀ v ∈ s.manager.view, ∀ key d, v.documentSet.find? key = some d → Unsynced value key d.1

variable {value} {s : LocalStore}

theorem unsynced_getDocument (h : StoredOnce value s) {key : String} {d : Document}
    (hd : s.getDocument key = some d) : Unsynced value key d := by
  have hfold : ∀ (batches : List MutationBatch) (base : Option MaybeDocument),
      (∀ b ∈ batches, b.value = value b.key) →
      (∀ d, base.bind (MaybeDocument.asDocument key) = some d → Unsynced value key d) →
      ∀ d, (batches.foldl (MutationBatch.applyToLocalDocument key) base).bind
        (MaybeDocument.asDocument key) = some d → Unsynced value key d := by
    intro batches
    induction batches with
    | nil => exact fun base _ hbase => hbase
    | cons b batches ih =>
      intro base hbatches hbase
      refine ih _ (fun b' hb' => hbatches b' (List.mem_cons_of_mem b hb')) fun d hd => ?_
      unfold MutationBatch.applyToLocalDocument at hd
      split at hd
      · rename_i hkey
        cases hd
        exact fun _ => hkey ▸ hbatches b List.mem_cons_self
      · exact hbase d hd
  exact hfold s.mutationQueue _ (h.queued s.user) (h.cached key) d hd

theorem matched_eq_some {d : Document} {m : MatchedDocument} (h : d.matched = some m) : m.1 = d := by
  unfold Document.matched at h
  split at h
  · cases h
    rfl
  · cases h

theorem unsynced_matched (h : StoredOnce value s) {key : String} {d : MatchedDocument}
    (hd : (s.getDocument key).bind Document.matched = some d) : Unsynced value key d.1 := by
  obtain ⟨d', hd', hmatched⟩ := Option.bind_eq_some_iff.mp hd
  rw [matched_eq_some hmatched]
  exact unsynced_getDocument h hd'

theorem storedOnce_setQueue (h : StoredOnce value s) {batches : List MutationBatch}
    (hbatches : ∀ b ∈ batches, b.value = value b.key) : StoredOnce value (s.setQueue batches) := by
  refine ⟨fun user b hb => ?_, h.cached⟩
  unfold LocalStore.setQueue at hb
  by_cases huser : user = s.user
  · simp only [if_pos huser] at hb
    exact hbatches b hb
  · simp only [if_neg huser] at hb
    exact h.queued user b hb

theorem storedOnce_applyBatchResult (h : StoredOnce value s) {b : MutationBatch}
    (hb : b.value = value b.key) (ackVersion : Nat) :
    StoredOnce value (s.applyBatchResult b ackVersion) := by
  unfold LocalStore.applyBatchResult
  split
  · refine ⟨h.queued, fun key d hd => ?_⟩
    by_cases hkey : key = b.key
    · subst hkey
      rw [AList.lookup_insert] at hd
      cases hd
      exact fun _ => hb
    · rw [AList.lookup_insert_ne hkey] at hd
      exact h.cached key d hd
  · exact h

theorem cachedOnce_cacheUpdate {documents : WriteLog.Table String MaybeDocument}
    (h : CachedOnce value documents) {update : String × MaybeDocument}
    (hsynced : update.2.hasPendingWrites = false) :
    CachedOnce value (LocalStore.cacheUpdate documents update) := by
  intro key d hd
  rw [lookup_cacheUpdate] at hd
  by_cases hkey : key = update.1
  · rw [if_pos hkey] at hd
    split at hd
    · cases hd
    · cases hdoc : update.2 with
      | document data version documentState =>
        rw [hdoc] at hd hsynced
        cases hd
        exact fun hne => absurd hsynced (by simpa [MaybeDocument.hasPendingWrites] using hne)
      | noDocument =>
        rw [hdoc] at hd
        cases hd
  · rw [if_neg hkey] at hd
    exact h key d hd

theorem storedOnce_emitted (h : StoredOnce value s) {a : Action}
    (ha : ∀ b, a = .writeMutations b → b.value = value b.key) {r : LocalStore × MaybeDocumentMap}
    (hr : emitted s a = some r) : StoredOnce value r.1 := by
  cases a with
  | writeMutations b =>
    cases hr
    refine storedOnce_setQueue h fun b' hb' => ?_
    rcases List.mem_append.mp hb' with hb' | hb'
    · exact h.queued s.user b' hb'
    · rw [List.mem_singleton.mp hb']
      exact ha b rfl
  | handleSuccessfulWrite ackVersion =>
    simp only [emitted, LocalStore.acknowledgeBatch] at hr
    split at hr
    · cases hr
    · rename_i b batches hqueue
      cases hr
      have hbatches : ∀ b' ∈ b :: batches, b'.value = value b'.key := by
        rw [← hqueue]
        exact h.queued s.user
      exact storedOnce_setQueue (storedOnce_applyBatchResult h (hbatches b List.mem_cons_self) ackVersion)
        fun b' hb' => hbatches b' (List.mem_cons_of_mem b hb')
  | handleRejectedWrite =>
    simp only [emitted, LocalStore.rejectBatch] at hr
    split at hr
    · cases hr
    · rename_i b batches hqueue
      cases hr
      refine storedOnce_setQueue h fun b' hb' => h.queued s.user b' ?_
      rw [show s.mutationQueues s.user = b :: batches from hqueue]
      exact List.mem_cons_of_mem b hb'
  | applyRemoteEvent updates targetChange =>
    cases hr
    refine ⟨h.queued, ?_⟩
    exact List.foldlRecOn (motive := CachedOnce value) (updates.entries.filter s.changesCache)
      LocalStore.cacheUpdate h.cached fun documents hdocuments update hupdate =>
        cachedOnce_cacheUpdate hdocuments (updates.synced update (List.mem_filter.mp hupdate).1)
  | handleCredentialChange user =>
    obtain ⟨-, hr⟩ := Option.ite_none_left_eq_some.mp hr
    cases hr
    exact ⟨h.queued, h.cached⟩
  | addSnapshotListener | handleOnlineStateChange | handleRejectedListen => cases hr

theorem writtenOnce_step {s t : State} {a : Action} (h : WrittenOnce value s)
    (ha : ∀ b, a = .writeMutations b → b.value = value b.key) (ht : step s a = some t) :
    WrittenOnce value t := by
  cases hr : emitted s.store a with
  | some r =>
    obtain ⟨targetChange, hemit⟩ := emit_of_step ht hr
    obtain ⟨manager, hmanager, rfl⟩ := Option.map_eq_some_iff.mp hemit
    have hstore := storedOnce_emitted h.store ha hr
    refine ⟨hstore, fun w hw key d hd => ?_⟩
    cases hview : s.manager.view with
    | none =>
      simp only [State.emitNewSnapshots, hview, Option.some.injEq] at hmanager
      rw [← hmanager, hview] at hw
      cases hw
    | some v =>
      obtain ⟨w', hw', hfind⟩ := view_emitNewSnapshots hmanager hview
      cases (Option.mem_def.mp hw).symm.trans hw'
      rw [hfind] at hd
      cases hentry : r.2.entries.lookup key with
      | none =>
        rw [hentry] at hd
        exact h.view v hview key d hd
      | some maybe =>
        have hmem := (lookup_iff_mem r.2.distinct key maybe).mp hentry
        have hemitted : maybe = r.1.getDocument key := (emits_emitted hr).emitted (key, maybe) hmem
        rw [hentry, Option.elim_some, View.updated] at hd
        split at hd
        · rw [hemitted] at hd
          exact unsynced_matched hstore hd
        · exact h.view v hview key d hd
  | none =>
    obtain ⟨hstore, hview⟩ := view_silent ht hr
    refine ⟨hstore ▸ h.store, fun w hw key d hd => ?_⟩
    rcases hview w hw with ⟨v, hv, hdocuments⟩ | ⟨remoteKeys, readSince, -, hfind⟩
    · rw [hdocuments] at hd
      exact h.view v hv key d hd
    · rw [hfind] at hd
      exact unsynced_matched h.store (found_executeQuery_iff.mp hd).2

/-- Where the view holds a local write and the store an acknowledged one, it is the same write. -/
theorem notWaiting_of_writtenOnce {s : State} {a : Action} (h : WrittenOnce value s)
    (ha : ∀ b, a = .writeMutations b → b.value = value b.key) : NotWaiting s a := by
  rintro r hr v hv e he ⟨oldDoc, newDoc, hold, hnew, hdata, hlocal, hcommitted, -⟩
  rw [(emits_emitted hr).emitted e he] at hnew
  apply hdata
  have holdValue := h.view v hv e.1 oldDoc hold (by rw [hlocal]; simp)
  have hnewValue := unsynced_matched (storedOnce_emitted h.store ha hr) hnew (by rw [hcommitted]; simp)
  rw [Document.data, holdValue, Document.data, hnewValue]

/-- Keys that are never reused have one value each. -/
theorem exists_value {batches : List MutationBatch} (h : (batches.map MutationBatch.key).Nodup) :
    ∃ value : String → ObjectValue, ∀ b ∈ batches, b.value = value b.key := by
  have hkeys : ((batches.map fun b => (b.key, b.value)).map Prod.fst).Nodup := by
    rwa [List.map_map]
  refine ⟨fun key => ((batches.map fun b => (b.key, b.value)).lookup key).getD .empty, fun b hb => ?_⟩
  have hlookup := (lookup_iff_mem hkeys b.key b.value).mpr (List.mem_map.mpr ⟨b, hb, rfl⟩)
  simp only [hlookup, Option.getD_some]

theorem inSync_run {s : State} {as : List Action} (hrun : run system as = some s)
    (hfresh : ((written as).map MutationBatch.key).Nodup)
    (hcovering : StepsMeet system Covering system.init as) : InSync s := by
  obtain ⟨value, hvalue⟩ := exists_value hfresh
  have hwrites : ∀ a ∈ as, ∀ b, a = .writeMutations b → b.value = value b.key := by
    rintro a ha b rfl
    exact hvalue b (mem_written_iff.mpr ha)
  refine (invariant_of_stepsMeet (I := fun s => InSync s ∧ WrittenOnce value s) ?_ ?_
    (stepsMeet_and (stepsMeet_of_forall (S := system) hwrites _) hcovering) hrun).1
  · rintro s a t ⟨hsync, hwritten⟩ ⟨ha, hcovers⟩ ht
    have hnot := notWaiting_of_writtenOnce hwritten ha
    exact ⟨(inSync_step_iff hsync ht).mpr ⟨hnot, hcovers⟩, writtenOnce_step hwritten ha ht⟩
  · refine ⟨fun v hv => (by cases hv), ⟨fun user b hb => (by cases hb), fun key d hd => ?_⟩,
      fun v hv => (by cases hv)⟩
    cases hd

end FreshKeys

/-- The listeners see nothing of the store but what `QueryListeners` has. -/
theorem run_manager {s : State} {as : List Action} (hrun : run system as = some s) :
    ∃ bs, run QueryListeners.system bs = some s.manager := by
  refine run_simulates (f := State.manager) rfl ?_ hrun
  intro s a t ht
  cases hr : emitted s.store a with
  | some r =>
    obtain ⟨targetChange, hemit⟩ := emit_of_step ht hr
    obtain ⟨manager, hmanager, rfl⟩ := Option.map_eq_some_iff.mp hemit
    exact .inr ⟨.emitNewSnapshots r.2 targetChange, hmanager⟩
  | none =>
    cases a with
    | addSnapshotListener remoteKeys readSince =>
      obtain ⟨manager, hmanager, rfl⟩ := Option.map_eq_some_iff.mp ht
      exact .inr ⟨.addQueryListener (s.store.executeQuery remoteKeys readSince) remoteKeys, hmanager⟩
    | handleOnlineStateChange onlineState =>
      obtain ⟨manager, hmanager, rfl⟩ := Option.map_eq_some_iff.mp ht
      exact .inr ⟨.handleOnlineStateChange onlineState, hmanager⟩
    | handleRejectedListen =>
      cases ht
      exact .inr ⟨.onError, rfl⟩
    | handleCredentialChange user =>
      simp only [system, step, hr, Option.bind_none] at ht
      split at ht
      · cases ht
        exact .inl rfl
      · cases ht
    | writeMutations | handleSuccessfulWrite | handleRejectedWrite | applyRemoteEvent =>
      simp only [system, step, hr, Option.bind_none, reduceCtorEq] at ht

theorem mem_result_iff_dataOf (documents : DocumentSet) (q : QueryDocument) :
    q ∈ (result documents).documents ↔ dataOf (documents.find? q.documentID) = some q.data := by
  rw [mem_result_iff, dataOf, Option.map_eq_some_iff]
  constructor
  · rintro ⟨d, hd, rfl⟩
    exact ⟨d, hd, rfl⟩
  · rintro ⟨d, hd, hdata⟩
    have hkey : d.1.key = q.documentID := Table.key_of_find? hd
    refine ⟨d, hd, ?_⟩
    rw [Document.queryDocument, hkey, hdata]

/-- Where each write makes a document of its own, as `addDocument` does, and no listen starts from
a previous result that misses a document, a listener that has been given an event shows just what
the store has for the documents that match. -/
theorem added_documents_shown {s : State} {as : List Action} (hrun : run system as = some s)
    (hfresh : ((written as).map MutationBatch.key).Nodup)
    (hcovering : StepsMeet system Covering system.init as) {l : QueryListener}
    (hl : l ∈ s.manager.listeners) (hraised : l.raisedInitialEvent) (q : QueryDocument) :
    q ∈ (lastResult l.events).documents ↔
      ∃ d, s.store.getDocument q.documentID = some d ∧ d.matched.isSome ∧ d.data = q.data := by
  obtain ⟨bs, hmanager⟩ := run_manager hrun
  obtain ⟨v, hv, hserved⟩ := served_run hmanager l hl
  rw [hserved.raised hraised, mem_result_iff_dataOf, inSync_run hrun hfresh hcovering v hv, dataOf,
    Option.map_eq_some_iff]
  constructor
  · rintro ⟨m, hm, hdata⟩
    obtain ⟨d, hd, hmatched⟩ := Option.bind_eq_some_iff.mp hm
    refine ⟨d, hd, Option.isSome_iff_exists.mpr ⟨m, hmatched⟩, ?_⟩
    rwa [← (matched_eq_some hmatched)]
  · rintro ⟨d, hd, hmatched, hdata⟩
    obtain ⟨m, hm⟩ := Option.isSome_iff_exists.mp hmatched
    refine ⟨m, Option.bind_eq_some_iff.mpr ⟨d, hd, hm⟩, ?_⟩
    rwa [matched_eq_some hm]

/-- The collection is scanned, as long as its target has no snapshot without limbo documents. -/
def Action.Scans : Action → Prop
  | .addSnapshotListener _ readSince => readSince = none
  | _ => True

instance : ∀ a : Action, Decidable a.Scans
  | .addSnapshotListener _ readSince => inferInstanceAs (Decidable (readSince = none))
  | .writeMutations _ | .handleSuccessfulWrite _ | .handleRejectedWrite | .applyRemoteEvent ..
  | .handleCredentialChange _ | .handleOnlineStateChange _ | .handleRejectedListen => isTrue trivial

theorem covering_of_scans {a : Action} (ha : a.Scans) (s : State) : Covering s a := by
  cases a with
  | addSnapshotListener remoteKeys readSince =>
    cases ha
    intro _ key _ keys hkeys
    cases hkeys
  | handleOnlineStateChange | handleRejectedListen | handleCredentialChange | writeMutations
  | handleSuccessfulWrite | handleRejectedWrite | applyRemoteEvent => trivial

def stored (key : String) (value : ObjectValue) (version : Nat) : DocumentUpdates where
  entries := [(key, .document value version .synced)]
  distinct := List.nodup_singleton _
  synced e h := by
    rw [List.mem_singleton.mp h]
    rfl

/-- A message of Ann's is acknowledged and comes back, and one comes from Bob. -/
def conversation : List Action :=
  [.handleCredentialChange (some "ann"), .addSnapshotListener ∅ none, .writeMutations ⟨"m1", text "Hi"⟩,
    .handleSuccessfulWrite 1,
    .applyRemoteEvent (stored "m1" (text "Hi") 1) (some ⟨{"m1"}, ∅, ∅, true⟩),
    .applyRemoteEvent (stored "m2" (text "Hey") 2) (some ⟨{"m2"}, ∅, ∅, true⟩)]

def conversed : State := (run system conversation).get (by decide)

theorem added_documents_shown_conversation :
    (⟨"m1", (text "Hi").fields⟩ : QueryDocument) ∈
      (lastResult (conversed.manager.listeners.head (by decide)).events).documents ∧
    (⟨"m2", (text "Hi").fields⟩ : QueryDocument) ∉
      (lastResult (conversed.manager.listeners.head (by decide)).events).documents := by
  have hrun : run system conversation = some conversed := (Option.some_get _).symm
  have hscans : StepsMeet system (fun _ a => a.Scans) system.init conversation := by decide
  have hshown := added_documents_shown hrun (by decide)
    (hscans.mono fun s a ha => covering_of_scans ha s) (List.head_mem (l := conversed.manager.listeners) (by decide)) (by decide)
  constructor
  · exact (hshown _).mpr ⟨⟨"m1", text "Hi", .synced⟩, by decide, by decide, rfl⟩
  · rintro hmem
    obtain ⟨d, hd, -, hdata⟩ := (hshown _).mp hmem
    cases (show conversed.store.getDocument "m2" = some ⟨"m2", text "Hey", .synced⟩ by decide).symm.trans hd
    exact absurd hdata (by decide)

end ChipChat.LocalStores
