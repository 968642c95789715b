import ChipChat.LocalStores

/-!
# What a query finds in the local store

A scan of the collection finds the local view of every document that matches. A query that
starts from the previous result of its target looks at the remote keys, at what was read
since and at what is in the queue.
-/

namespace ChipChat.LocalStores

open DocumentViews

set_option autoImplicit false

theorem lookup_iff_mem {β : Type} {l : List (String × β)} (h : (l.map Prod.fst).Nodup) (key : String)
    (x : β) : l.lookup key = some x ↔ (key, x) ∈ l := by
  induction l with
  | nil => simp
  | cons e l ih =>
    obtain ⟨k, y⟩ := e
    obtain ⟨hfresh, h⟩ := List.nodup_cons.mp h
    rw [List.mem_cons, Prod.mk.injEq]
    by_cases hk : key = k
    · subst hk
      rw [List.lookup_cons_self, Option.some.injEq]
      constructor
      · exact fun heq => .inl ⟨rfl, heq.symm⟩
      · rintro (⟨-, heq⟩ | hmem)
        · exact heq.symm
        · exact absurd (List.mem_map_of_mem hmem) hfresh
    · rw [List.lookup_cons, beq_eq_false_iff_ne.mpr hk]
      simp only [ih h, hk, false_and, false_or]

theorem lookup_eq_none {β : Type} {l : List (String × β)} {key : String} (h : key ∉ l.map Prod.fst) :
    l.lookup key = none :=
  List.lookup_eq_none_iff.mpr fun e he =>
    bne_iff_ne.mpr fun heq => h (List.mem_map.mpr ⟨e, he, heq.symm⟩)

section Stores
variable {s : LocalStore}

theorem foldl_applyToLocalDocument_of_not_mem {key : String} {batches : List MutationBatch}
    (h : key ∉ batches.map MutationBatch.key) (base : Option MaybeDocument) :
    batches.foldl (MutationBatch.applyToLocalDocument key) base = base := by
  induction batches generalizing base with
  | nil => rfl
  | cons b batches ih =>
    obtain ⟨hne, h⟩ := not_or.mp (fun hmem => h (List.mem_cons.mpr hmem))
    rw [List.foldl_cons, MutationBatch.applyToLocalDocument, if_neg fun heq => hne heq.symm]
    exact ih h base

/-- Only whether there is a document counts of what the writes are applied to. -/
theorem foldl_applyToLocalDocument_congr {key : String} (batches : List MutationBatch)
    {base base' : Option MaybeDocument}
    (h : base.bind (MaybeDocument.asDocument key) = base'.bind (MaybeDocument.asDocument key)) :
    (batches.foldl (MutationBatch.applyToLocalDocument key) base).bind (MaybeDocument.asDocument key) =
      (batches.foldl (MutationBatch.applyToLocalDocument key) base').bind
        (MaybeDocument.asDocument key) := by
  induction batches generalizing base base' with
  | nil => exact h
  | cons b batches ih =>
    apply ih
    unfold MutationBatch.applyToLocalDocument
    split
    · rfl
    · exact h

theorem mem_getDocuments {keys : List String} {e : String × Option Document}
    (h : e ∈ (s.getDocuments keys).entries) : e.2 = s.getDocument e.1 := by
  obtain ⟨base, hbase, rfl⟩ := List.mem_map.mp h
  obtain ⟨key, -, rfl⟩ := List.mem_map.mp hbase
  rfl

theorem mem_entries_getDocuments {keys : List String} {key : String} (h : key ∈ keys) :
    (key, s.getDocument key) ∈ (s.getDocuments keys).entries :=
  List.mem_map.mpr ⟨(key, s.remoteDocuments.lookup key),
    List.mem_map.mpr ⟨key, List.mem_dedup.mpr h, rfl⟩, rfl⟩

theorem keys_getDocuments (keys : List String) :
    (s.getDocuments keys).entries.map Prod.fst = keys.dedup := by
  simp [LocalStore.getDocuments, LocalStore.getLocalViewOfDocuments, Function.comp_def]

end Stores

/-- The document of a key among those a query returns, if it matches. -/
def found (documents : MaybeDocumentMap) (key : String) : Option MatchedDocument :=
  (documents.entries.lookup key).bind (·.bind Document.matched)

theorem found_applyQuery (documents : MaybeDocumentMap) (key : String) :
    found (applyQuery documents) key = found documents key := by
  apply Option.ext
  intro d
  simp only [found, Option.bind_eq_some_iff]
  constructor
  · rintro ⟨maybe, hmaybe, hd⟩
    have hmem := (lookup_iff_mem (applyQuery documents).distinct key maybe).mp hmaybe
    exact ⟨maybe, (lookup_iff_mem documents.distinct _ _).mpr (List.mem_filter.mp hmem).1, hd⟩
  · rintro ⟨maybe, hmaybe, d', hd', hmatched⟩
    refine ⟨maybe, (lookup_iff_mem (applyQuery documents).distinct key maybe).mpr ?_, d', hd', hmatched⟩
    refine List.mem_filter.mpr ⟨(lookup_iff_mem documents.distinct key maybe).mp hmaybe, ?_⟩
    exact Option.isSome_iff_exists.mpr ⟨d, Option.bind_eq_some_iff.mpr ⟨d', hd', hmatched⟩⟩

theorem found_insertAll (documents others : MaybeDocumentMap) (key : String) :
    found (documents.insertAll others) key =
      if key ∈ others.entries.map Prod.fst then found others key else found documents key := by
  unfold found MaybeDocumentMap.insertAll
  rw [List.lookup_append]
  split
  · rename_i hkey
    obtain ⟨⟨k, maybe⟩, he, rfl⟩ := List.mem_map.mp hkey
    rw [(lookup_iff_mem others.distinct k maybe).mpr he, Option.some_or]
  · rename_i hkey
    rw [lookup_eq_none hkey, Option.none_or]
    refine congrArg (Option.bind · _) (Option.ext fun maybe => ?_)
    rw [lookup_iff_mem ((List.filter_sublist.map Prod.fst).nodup documents.distinct),
      lookup_iff_mem documents.distinct, List.mem_filter]
    exact and_iff_left (decide_eq_true hkey)

/-- Whether the query looks at the document of the key. -/
def LocalStore.Reads (s : LocalStore) (remoteKeys : Finset String)
    (readSince : Option (Finset String)) (key : String) : Prop :=
  ∀ keys ∈ readSince, key ∈ remoteKeys ∨ key ∈ keys ∨ key ∈ s.mutationQueue.map MutationBatch.key

section Queries
variable {s : LocalStore}

theorem lookup_mutatedDocuments (readSince : Option (Finset String)) (key : String) :
    (s.mutatedDocuments readSince).lookup key =
      s.applyLocalMutations key ((s.getMatching readSince).lookup key) := by
  unfold LocalStore.mutatedDocuments LocalStore.applyLocalMutations
  generalize s.getMatching readSince = results
  generalize s.mutationQueue = batches
  induction batches generalizing results with
  | nil => rfl
  | cons b batches ih =>
    rw [List.foldl_cons, List.foldl_cons, ih]
    congr 1
    unfold MutationBatch.applyToLocalDocument MutationBatch.applyToResults
    by_cases hkey : b.key = key
    · rw [if_pos hkey, hkey, AList.lookup_insert]
    · rw [if_neg hkey, AList.lookup_insert_ne (Ne.symm hkey)]

theorem found_getDocumentsMatchingQuery (readSince : Option (Finset String)) (key : String) :
    found (s.getDocumentsMatchingQuery readSince) key =
      (s.localView key ((s.getMatching readSince).lookup key)).bind Document.matched := by
  rw [LocalStore.getDocumentsMatchingQuery, found_applyQuery, LocalStore.localView,
    ← lookup_mutatedDocuments]
  apply Option.ext
  intro d
  simp only [found, Option.bind_eq_some_iff]
  constructor
  · rintro ⟨maybe, hmaybe, d', hd', hmatched⟩
    obtain ⟨⟨k, x⟩, hx, heq⟩ := List.mem_map.mp ((lookup_iff_mem (by
      rw [List.map_map]
      exact WriteLog.pairs_keys_nodup _) key maybe).mp hmaybe)
    obtain ⟨rfl, rfl⟩ := Prod.mk.inj heq
    exact ⟨d', ⟨x, (WriteLog.mem_pairs_iff _ _ _).mp hx, hd'⟩, hmatched⟩
  · rintro ⟨d', ⟨x, hx, hd'⟩, hmatched⟩
    refine ⟨MaybeDocument.asDocument key x, (lookup_iff_mem (by
      rw [List.map_map]
      exact WriteLog.pairs_keys_nodup _) _ _).mpr ?_, d', hd', hmatched⟩
    exact List.mem_map.mpr ⟨(key, x), (WriteLog.mem_pairs_iff _ _ _).mpr hx, rfl⟩

/-- Once a write has been applied it makes no difference to what. -/
theorem localView_of_queued {key : String} (h : key ∈ s.mutationQueue.map MutationBatch.key)
    (base base' : Option MaybeDocument) : s.localView key base = s.localView key base' := by
  unfold LocalStore.localView LocalStore.applyLocalMutations
  revert h
  generalize s.mutationQueue = batches
  induction batches generalizing base base' with
  | nil => exact fun h => absurd h List.not_mem_nil
  | cons b batches ih =>
    intro h
    rw [List.foldl_cons, List.foldl_cons]
    by_cases hkey : b.key = key
    · apply foldl_applyToLocalDocument_congr
      rw [MutationBatch.applyToLocalDocument, MutationBatch.applyToLocalDocument, if_pos hkey, if_pos hkey]
      rfl
    · exact ih _ _ ((List.mem_cons.mp h).resolve_left fun heq => hkey heq.symm)

theorem localView_of_not_queued {key : String} (h : key ∉ s.mutationQueue.map MutationBatch.key)
    (base : Option MaybeDocument) : s.localView key base = base.bind (MaybeDocument.asDocument key) :=
  congrArg (Option.bind · _) (foldl_applyToLocalDocument_of_not_mem h base)

theorem found_scan (key : String) :
    found (s.getDocumentsMatchingQuery none) key = (s.getDocument key).bind Document.matched := by
  rw [found_getDocumentsMatchingQuery, LocalStore.getDocument]
  by_cases hqueued : key ∈ s.mutationQueue.map MutationBatch.key
  · rw [localView_of_queued hqueued]
  · rw [localView_of_not_queued hqueued, localView_of_not_queued hqueued, LocalStore.getMatching,
      WriteLog.lookup_replay_filter]
    cases s.remoteDocuments.lookup key with
    | none => rfl
    | some x =>
      rw [Option.bind_some, Option.filter_some]
      cases hmatched : (MaybeDocument.asDocument key x).bind Document.matched with
      | none => rfl
      | some d => exact hmatched

theorem found_readSince (keys : Finset String) (key : String) :
    found (s.getDocumentsMatchingQuery (some keys)) key =
      if key ∈ keys ∨ key ∈ s.mutationQueue.map MutationBatch.key then
        (s.getDocument key).bind Document.matched
      else none := by
  rw [found_getDocumentsMatchingQuery, LocalStore.getDocument]
  by_cases hqueued : key ∈ s.mutationQueue.map MutationBatch.key
  · rw [if_pos (Or.inr hqueued), localView_of_queued hqueued]
  · rw [localView_of_not_queued hqueued, localView_of_not_queued hqueued, LocalStore.getMatching,
      WriteLog.lookup_replay_filter]
    by_cases hkey : key ∈ keys
    · rw [if_pos (Or.inl hkey)]
      cases s.remoteDocuments.lookup key <;> simp [Option.filter, hkey]
    · rw [if_neg (not_or.mpr ⟨hkey, hqueued⟩)]
      cases s.remoteDocuments.lookup key <;> simp [Option.filter, hkey]

theorem found_getDocuments (keys : List String) (key : String) :
    found (s.getDocuments keys) key =
      if key ∈ keys then (s.getDocument key).bind Document.matched else none := by
  unfold found
  split
  · rename_i hkey
    rw [(lookup_iff_mem (s.getDocuments keys).distinct _ _).mpr (mem_entries_getDocuments hkey),
      Option.bind_some]
  · rename_i hkey
    rw [lookup_eq_none, Option.bind_none]
    rwa [keys_getDocuments, List.mem_dedup]

/-- The query finds the local views of the documents it looks at. -/
theorem found_executeQuery_iff {remoteKeys : Finset String} {readSince : Option (Finset String)}
    {key : String} {d : MatchedDocument} :
    found (s.executeQuery remoteKeys readSince) key = some d ↔
      s.Reads remoteKeys readSince key ∧ (s.getDocument key).bind Document.matched = some d := by
  cases readSince with
  | none =>
    rw [LocalStore.executeQuery, found_scan]
    exact (and_iff_right fun keys hkeys => by cases hkeys).symm
  | some keys =>
    have hreads : s.Reads remoteKeys (some keys) key ↔ key ∈ remoteKeys ∨ key ∈ keys ∨
        key ∈ s.mutationQueue.map MutationBatch.key :=
      ⟨fun h => h keys rfl, fun h _ heq => Option.some.inj heq ▸ h⟩
    rw [LocalStore.executeQuery, found_insertAll, hreads]
    split
    · rename_i hprevious
      have hkey : key ∈ remoteKeys := by
        have hmem := (List.filter_sublist.map Prod.fst).subset hprevious
        rwa [keys_getDocuments, List.mem_dedup, Finset.mem_sort] at hmem
      rw [found_applyQuery, found_getDocuments, if_pos ((Finset.mem_sort _).mpr hkey)]
      exact (and_iff_right (Or.inl hkey)).symm
    · rename_i hprevious
      rw [found_readSince]
      constructor
      · intro h
        obtain ⟨hread, h⟩ := Option.ite_none_right_eq_some.mp h
        exact ⟨Or.inr hread, h⟩
      · rintro ⟨hkey | hread, h⟩
        · -- the document matches, so it is among the previous results
          refine absurd (List.mem_map.mpr ⟨(key, s.getDocument key), ?_, rfl⟩) hprevious
          have hmem : (key, s.getDocument key) ∈ (s.getDocuments (remoteKeys.sort (· ≤ ·))).entries :=
            mem_entries_getDocuments ((Finset.mem_sort _).mpr hkey)
          exact List.mem_filter.mpr ⟨hmem, Option.isSome_iff_exists.mpr ⟨d, h⟩⟩
        · rw [if_pos hread, h]

end Queries

end ChipChat.LocalStores
