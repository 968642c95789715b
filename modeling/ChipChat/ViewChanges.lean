import ChipChat.DocumentViews

/-!
# What the changes of a view tell

Each change that a view collects tells how the document of its key was and is; sorted,
and with the metadata left out, the changes are those between two query results.
-/

namespace ChipChat.DocumentViews

open RankedTables

set_option autoImplicit false

/-- A change, or none, tells of the document before and after. -/
inductive Tells : Option MatchedDocument → Option MatchedDocument → Option DocumentViewChange → Prop
  | unchanged (d : Option MatchedDocument) : Tells d d none
  | added (d : MatchedDocument) : Tells none (some d) (some ⟨d, .added⟩)
  | removed (d : MatchedDocument) : Tells (some d) none (some ⟨d, .removed⟩)
  | modified (old d : MatchedDocument) (h : old.1.data ≠ d.1.data) :
      Tells (some old) (some d) (some ⟨d, .modified⟩)
  | metadata (old d : MatchedDocument) (h : old.1.data = d.1.data) :
      Tells (some old) (some d) (some ⟨d, .metadata⟩)

/-- What there is to tell is told the same way, but for the metadata. -/
theorem Tells.unique {old new : Option MatchedDocument} {change : Option DocumentViewChange}
    {c : DocumentViewChange} (h : Tells old new change) (hc : Tells old new (some c))
    (hmeta : c.type ≠ .metadata) : change = some c := by
  cases hc with
  | added => cases h; rfl
  | removed => cases h; rfl
  | modified o d hne =>
    cases h with
    | unchanged => exact absurd rfl hne
    | modified => rfl
    | metadata _ _ heq => exact absurd heq hne
  | metadata => exact absurd rfl hmeta

theorem Tells.eq_of_none {old new : Option MatchedDocument} (h : Tells old new none) : new = old := by
  cases h
  rfl

theorem Tells.type_added {new : Option MatchedDocument} {c : DocumentViewChange}
    (h : Tells none new (some c)) : c.type = .added := by
  cases h
  rfl

section Computing
variable {v : View}

theorem tells_documentChange (mutated : Bool) (old new : Option MatchedDocument) :
    Tells old (if (View.documentChange mutated old new).isSome then new else old)
      (View.documentChange mutated old new) := by
  cases old with
  | none =>
    cases new with
    | none => exact .unchanged none
    | some d => exact .added d
  | some o =>
    cases new with
    | none => exact .removed o
    | some d =>
      simp only [View.documentChange]
      split
      · rename_i hdata
        split
        · exact .unchanged _
        · exact .metadata o d hdata
      · rename_i hdata
        split
        · exact .unchanged _
        · exact .modified o d hdata

/-- The change that the document now given for a key makes. -/
def View.changeOf (v : View) (k : String) (maybe : Option Document) : Option DocumentViewChange :=
  View.documentChange (k ∈ v.mutatedKeys) (v.documentSet.find? k) (maybe.bind Document.matched)

/-- What the view then holds under the key. -/
def View.updated (v : View) (k : String) (maybe : Option Document) : Option MatchedDocument :=
  if (v.changeOf k maybe).isSome then maybe.bind Document.matched else v.documentSet.find? k

/-- What `ComputeDocumentChanges` has come to when it has been given documents for some keys. -/
structure Computed (v : View) (given : String → Option (Option Document)) (acc : ViewDocumentChanges) :
    Prop where
  documents : ∀ k, acc.documentSet.find? k = (given k).elim (v.documentSet.find? k) (v.updated k)
  changes : ∀ k, acc.changeSet.lookup k = (given k).bind (v.changeOf k)
  keyed : ∀ k d, given k = some (some d) → d.key = k

theorem Computed.tells {given : String → Option (Option Document)} {acc : ViewDocumentChanges}
    (h : Computed v given acc) (k : String) :
    Tells (v.documentSet.find? k) (acc.documentSet.find? k) (acc.changeSet.lookup k) := by
  rw [h.documents, h.changes]
  cases given k with
  | none => exact .unchanged _
  | some maybe => exact tells_documentChange _ _ _

theorem key_matched {d : Document} {m : MatchedDocument} (h : d.matched = some m) :
    documentRanking.key m = d.key := by
  unfold Document.matched at h
  split at h
  · cases h
    rfl
  · cases h

theorem key_bind_matched {k : String} {maybe : Option Document} (hkeyed : ∀ d ∈ maybe, d.key = k)
    {m : MatchedDocument} (hm : m ∈ maybe.bind Document.matched) : documentRanking.key m = k := by
  obtain ⟨d, hd, hmatched⟩ := Option.bind_eq_some_iff.mp hm
  rw [key_matched hmatched, hkeyed d hd]

theorem key_documentChange {mutated : Bool} {old new : Option MatchedDocument} {k : String}
    {c : DocumentViewChange} (hc : View.documentChange mutated old new = some c)
    (hold : ∀ d ∈ old, documentRanking.key d = k) (hnew : ∀ d ∈ new, documentRanking.key d = k) :
    c.key = k := by
  have htells := tells_documentChange mutated old new
  rw [hc, Option.isSome_some, if_pos rfl] at htells
  cases htells with
  | added d | modified _ d | metadata _ d => exact hnew d rfl
  | removed d => exact hold d rfl

theorem addChange_fresh {changes : DocumentViewChangeSet} {c : DocumentViewChange}
    (h : changes.lookup c.key = none) : changes.addChange c = some (changes.insert c.key c) := by
  rw [DocumentViewChangeSet.addChange, h]

@[simp] theorem apply_changeSet (acc : ViewDocumentChanges) (key : String)
    (newDoc : Option MatchedDocument) (changes : DocumentViewChangeSet) :
    (acc.apply key newDoc changes).changeSet = changes := by
  cases newDoc <;> rfl

theorem find?_apply (acc : ViewDocumentChanges) {key : String} {newDoc : Option MatchedDocument}
    (hkey : ∀ d ∈ newDoc, documentRanking.key d = key) (changes : DocumentViewChangeSet) (k : String) :
    (acc.apply key newDoc changes).documentSet.find? k =
      if k = key then newDoc else acc.documentSet.find? k := by
  cases newDoc with
  | none => exact Table.find?_erase _ _ _
  | some d =>
    rw [← hkey d rfl]
    exact Table.find?_insert _ _ _

theorem key_changeOf {k : String} {maybe : Option Document} (hkeyed : ∀ d ∈ maybe, d.key = k)
    {c : DocumentViewChange} (hc : v.changeOf k maybe = some c) : c.key = k := by
  apply key_documentChange hc
  · exact fun d hd => Table.key_of_find? hd
  · exact fun d hd => key_bind_matched hkeyed hd

theorem Computed.key_eq {given : String → Option (Option Document)} {acc : ViewDocumentChanges}
    (h : Computed v given acc) {k : String} {c : DocumentViewChange}
    (hc : acc.changeSet.lookup k = some c) : c.key = k := by
  rw [h.changes] at hc
  obtain ⟨maybe, hgiven, hc⟩ := Option.bind_eq_some_iff.mp hc
  apply key_changeOf ?_ hc
  rintro d rfl
  exact h.keyed k d hgiven

theorem computed_step {acc : ViewDocumentChanges} {key : String} {maybe : Option Document}
    {given : String → Option (Option Document)} (h : Computed v given acc) (hfresh : given key = none)
    (hkeyed : ∀ d ∈ maybe, d.key = key) :
    ∃ next, v.computeDocumentChange acc (key, maybe) = some next ∧
      Computed v (fun k => if k = key then some maybe else given k) next := by
  have hgiven : ∀ k d, (if k = key then some maybe else given k) = some (some d) → d.key = k := by
    intro k d hd
    by_cases hk : k = key
    · rw [if_pos hk] at hd
      rw [hk]
      exact hkeyed d (Option.some.inj hd)
    · rw [if_neg hk] at hd
      exact h.keyed k d hd
  have hstep : v.computeDocumentChange acc (key, maybe) = (v.changeOf key maybe).elim (some acc)
      fun change => (acc.changeSet.addChange change).map
        (acc.apply key (maybe.bind Document.matched)) := by
    simp only [View.computeDocumentChange, View.changeOf]
    cases View.documentChange _ _ _ <;> rfl
  rw [hstep]
  cases hchange : v.changeOf key maybe with
  | none =>
    refine ⟨acc, rfl, fun k => ?_, fun k => ?_, hgiven⟩
    · by_cases hk : k = key
      · rw [if_pos hk, hk, Option.elim_some, View.updated, hchange, h.documents, hfresh]
        rfl
      · rw [if_neg hk, h.documents]
    · by_cases hk : k = key
      · rw [if_pos hk, hk, Option.bind_some, hchange, h.changes, hfresh]
        rfl
      · rw [if_neg hk, h.changes]
  | some c =>
    have hck : c.key = key := key_changeOf hkeyed hchange
    have hlookup : acc.changeSet.lookup c.key = none := by
      rw [hck, h.changes, hfresh]
      rfl
    have hadd := addChange_fresh hlookup
    rw [hck] at hadd
    refine ⟨acc.apply key (maybe.bind Document.matched) (acc.changeSet.insert key c),
      by rw [Option.elim_some, hadd, Option.map_some], fun k => ?_, fun k => ?_, hgiven⟩
    · rw [find?_apply acc fun d hd => key_bind_matched hkeyed hd]
      by_cases hk : k = key
      · rw [if_pos hk, if_pos hk, hk, Option.elim_some, View.updated, hchange, Option.isSome_some,
          if_pos rfl]
      · rw [if_neg hk, if_neg hk, h.documents]
    · rw [apply_changeSet]
      by_cases hk : k = key
      · rw [hk, AList.lookup_insert, if_pos rfl, Option.bind_some, hchange]
      · rw [AList.lookup_insert_ne hk, if_neg hk, h.changes]

theorem computed_foldlM {entries : List (String × Option Document)} {acc : ViewDocumentChanges}
    {given : String → Option (Option Document)} (h : Computed v given acc)
    (hfresh : ∀ k ∈ entries.map Prod.fst, given k = none) (hdistinct : (entries.map Prod.fst).Nodup)
    (hkeyed : ∀ k d, (k, some d) ∈ entries → d.key = k) :
    ∃ c, entries.foldlM v.computeDocumentChange acc = some c ∧
      Computed v (fun k => (entries.lookup k).or (given k)) c := by
  induction entries generalizing acc given with
  | nil => exact ⟨acc, rfl, h⟩
  | cons entry entries ih =>
    obtain ⟨key, maybe⟩ := entry
    obtain ⟨hkey, hdistinct⟩ := List.nodup_cons.mp hdistinct
    have hmaybe : ∀ d ∈ maybe, d.key = key := by
      rintro d rfl
      exact hkeyed key d List.mem_cons_self
    obtain ⟨next, hnext, hcomputed⟩ := computed_step h (hfresh key List.mem_cons_self) hmaybe
    have hrest : ∀ k ∈ entries.map Prod.fst, (if k = key then some maybe else given k) = none := by
      intro k hk
      have hne : k ≠ key := by
        rintro rfl
        exact hkey hk
      rw [if_neg hne]
      exact hfresh k (List.mem_cons_of_mem _ hk)
    obtain ⟨c, hc, hend⟩ := ih hcomputed hrest hdistinct
      fun k d hd => hkeyed k d (List.mem_cons_of_mem _ hd)
    have hlookup : entries.lookup key = none := by
      rw [List.lookup_eq_none_iff]
      exact fun p hp => bne_iff_ne.mpr fun heq => hkey (List.mem_map.mpr ⟨p, hp, heq.symm⟩)
    have hgiven : (fun k => (((key, maybe) :: entries).lookup k).or (given k)) =
        fun k => (entries.lookup k).or (if k = key then some maybe else given k) := by
      funext k
      by_cases hk : k = key
      · rw [hk, List.lookup_cons_self, hlookup, if_pos rfl]
        rfl
      · rw [List.lookup_cons, beq_eq_false_iff_ne.mpr hk, if_neg hk]
    rw [hgiven]
    exact ⟨c, by rw [List.foldlM_cons, hnext]; exact hc, hend⟩

/-- `ComputeDocumentChanges` never fails. -/
theorem computed_documentChanges (v : View) (changes : MaybeDocumentMap) :
    ∃ c, v.computeDocumentChanges changes = some c ∧ Computed v (fun k => changes.entries.lookup k) c := by
  have hstart : Computed v (fun _ => none) ⟨v.documentSet, ∅, v.mutatedKeys⟩ :=
    ⟨fun _ => rfl, fun _ => rfl, fun k d hd => (by cases hd)⟩
  obtain ⟨c, hc, hcomputed⟩ := computed_foldlM hstart (fun _ _ => rfl) changes.distinct changes.keyed
  refine ⟨c, hc, ?_⟩
  simpa only [Option.or_none] using hcomputed

end Computing

/-- A sorted list of changes tells every difference between two sets of documents. -/
structure Accounts (old new : DocumentSet) (changes : List DocumentViewChange) : Prop where
  sorted : Sorted DocumentViewChange.rank changes
  distinct : (changes.map DocumentViewChange.key).Nodup
  told : ∀ c ∈ changes, Tells (old.find? c.key) (new.find? c.key) (some c)
  complete : ∀ k c, Tells (old.find? k) (new.find? k) (some c) → c.type ≠ .metadata → c ∈ changes

theorem key_eq_of_rank_eq {c c' : DocumentViewChange} (h : c.rank = c'.rank) : c.key = c'.key :=
  documentRanking.key_eq _ _ (congrArg (fun r => (ofLex r).2) h)

theorem accounts_sorted {v : View} {given : String → Option (Option Document)}
    {c : ViewDocumentChanges} (h : Computed v given c) :
    Accounts v.documentSet c.documentSet (sort DocumentViewChange.rank c.changeSet.getChanges) := by
  have hmem : ∀ x, x ∈ c.changeSet.getChanges ↔ c.changeSet.lookup x.key = some x := by
    intro x
    unfold DocumentViewChangeSet.getChanges
    constructor
    · intro hx
      obtain ⟨⟨k, y⟩, hky, rfl⟩ := List.mem_map.mp hx
      have hlookup := (WriteLog.mem_pairs_iff _ k y).mp hky
      rwa [h.key_eq hlookup]
    · exact fun hx => List.mem_map.mpr ⟨(x.key, x), (WriteLog.mem_pairs_iff _ _ _).mpr hx, rfl⟩
  have hkeys : (c.changeSet.getChanges.map DocumentViewChange.key).Nodup := by
    have heq : c.changeSet.getChanges.map DocumentViewChange.key =
        (WriteLog.pairs c.changeSet).map Prod.fst := by
      unfold DocumentViewChangeSet.getChanges
      rw [List.map_map]
      apply List.map_congr_left
      rintro ⟨k, x⟩ hx
      exact h.key_eq ((WriteLog.mem_pairs_iff _ _ _).mp hx)
    rw [heq]
    exact WriteLog.pairs_keys_nodup _
  have hranks : (c.changeSet.getChanges.map DocumentViewChange.rank).Nodup := by
    apply List.Nodup.map_on ?_ hkeys.of_map
    exact fun x hx y hy hrank => List.inj_on_of_nodup_map hkeys hx hy (key_eq_of_rank_eq hrank)
  refine ⟨sorted_sort hranks, ?_, ?_, ?_⟩
  · exact ((List.perm_insertionSort _ _).map _).nodup_iff.mpr hkeys
  · intro x hx
    have htold := h.tells x.key
    rwa [(hmem x).mp ((mem_sort _ x).mp hx)] at htold
  · intro k x hx hmeta
    have hlookup := (h.tells k).unique hx hmeta
    refine (mem_sort _ x).mpr ((hmem x).mpr ?_)
    rwa [h.key_eq hlookup]

theorem rank_lt_iff {c c' : DocumentViewChange} :
    c.rank < c'.rank ↔ c.type.position < c'.type.position ∨
      c.type.position = c'.type.position ∧
        documentRanking.rank c.document < documentRanking.rank c'.document :=
  Prod.Lex.toLex_lt_toLex

theorem sorted_ofType (type : ChangeType) {documents : List MatchedDocument}
    (h : Sorted documentRanking.rank documents) :
    Sorted DocumentViewChange.rank (documents.map (⟨·, type⟩)) := by
  apply List.Pairwise.map _ _ h
  exact fun d e hde => rank_lt_iff.mpr (.inr ⟨rfl, hde⟩)

theorem accounts_initial (documents : DocumentSet) :
    Accounts .empty documents (documents.items.map fun d => ⟨d, .added⟩) := by
  refine ⟨?_, ?_, ?_, ?_⟩
  · exact sorted_ofType .added documents.ordered
  · rw [List.map_map]
    exact documents.distinct
  · intro c hc
    obtain ⟨d, hd, rfl⟩ := List.mem_map.mp hc
    have hfind : documents.find? d.1.key = some d := (Table.mem_iff documents d).mp hd
    rw [Table.find?_empty, DocumentViewChange.key, hfind]
    exact .added d
  · intro k c hc hmeta
    rw [Table.find?_empty] at hc
    generalize hfind : documents.find? k = new at hc
    cases hc with
    | added d => exact List.mem_map.mpr ⟨d, ((Table.find?_eq_some_iff _ _ _).mp hfind).1, rfl⟩

section Public
variable {old new : DocumentSet} {changes : List DocumentViewChange}

/-- The changes that are not of metadata, as they follow from the two sets. -/
def differences (old new : DocumentSet) : List DocumentViewChange :=
  (old.items.filter fun d => decide (new.find? d.1.key = none)).map (⟨·, .removed⟩) ++
    (new.items.filter fun d => decide (old.find? d.1.key = none)).map (⟨·, .added⟩) ++
    (new.items.filter fun d => (old.find? d.1.key).any fun o => decide (o.1.data ≠ d.1.data)).map
      (⟨·, .modified⟩)

theorem sorted_differences (old new : DocumentSet) : Sorted DocumentViewChange.rank (differences old new) := by
  unfold differences Sorted
  refine List.pairwise_append.mpr ⟨List.pairwise_append.mpr
    ⟨sorted_ofType .removed (old.ordered.filter _), sorted_ofType .added (new.ordered.filter _), ?_⟩,
    sorted_ofType .modified (new.ordered.filter _), ?_⟩
  · intro c hc c' hc'
    obtain ⟨d, -, rfl⟩ := List.mem_map.mp hc
    obtain ⟨d', -, rfl⟩ := List.mem_map.mp hc'
    exact rank_lt_iff.mpr (.inl Nat.zero_lt_one)
  · intro c hc c' hc'
    obtain ⟨d', -, rfl⟩ := List.mem_map.mp hc'
    rcases List.mem_append.mp hc with hc | hc
    · obtain ⟨d, -, rfl⟩ := List.mem_map.mp hc
      exact rank_lt_iff.mpr (.inl Nat.zero_lt_two)
    · obtain ⟨d, -, rfl⟩ := List.mem_map.mp hc
      exact rank_lt_iff.mpr (.inl Nat.one_lt_two)

theorem mem_differences_iff (c : DocumentViewChange) :
    c ∈ differences old new ↔
      Tells (old.find? c.key) (new.find? c.key) (some c) ∧ c.type ≠ .metadata := by
  obtain ⟨d, type⟩ := c
  have hold : d ∈ old.items ↔ old.find? d.1.key = some d := Table.mem_iff old d
  have hnew : d ∈ new.items ↔ new.find? d.1.key = some d := Table.mem_iff new d
  simp only [differences, List.mem_append, List.mem_map, List.mem_filter, decide_eq_true_eq,
    DocumentViewChange.mk.injEq, DocumentViewChange.key, Option.any_eq_true]
  constructor
  · rintro ((⟨e, ⟨he, hnone⟩, rfl, rfl⟩ | ⟨e, ⟨he, hnone⟩, rfl, rfl⟩) | ⟨e, ⟨he, o, ho, hdata⟩, rfl, rfl⟩)
    · rw [hold.mp he, hnone]
      exact ⟨.removed e, by simp⟩
    · rw [hnew.mp he, hnone]
      exact ⟨.added e, by simp⟩
    · rw [hnew.mp he, ho]
      exact ⟨.modified o e hdata, by simp⟩
  · rintro ⟨htells, hmeta⟩
    generalize hbefore : old.find? d.1.key = before at htells hold
    generalize hafter : new.find? d.1.key = after at htells hnew
    cases htells with
    | removed => exact .inl (.inl ⟨d, ⟨hold.mpr rfl, hafter⟩, rfl, rfl⟩)
    | added => exact .inl (.inr ⟨d, ⟨hnew.mpr rfl, hbefore⟩, rfl, rfl⟩)
    | modified o _ hdata => exact .inr ⟨d, ⟨hnew.mpr rfl, o, hbefore, hdata⟩, rfl, rfl⟩
    | metadata => exact absurd rfl hmeta

theorem Accounts.eq_differences (h : Accounts old new changes) :
    (changes.filter fun c => decide (c.type ≠ .metadata)) = differences old new := by
  refine (h.sorted.filter _).eq_of_mem_iff (sorted_differences old new) fun c => ?_
  rw [List.mem_filter, decide_eq_true_eq, mem_differences_iff]
  exact ⟨fun hc => ⟨h.told c hc.1, hc.2⟩, fun hc => ⟨h.complete c.key c hc.1 hc.2, hc.2⟩⟩

theorem documentIDs_result (documents : DocumentSet) :
    documentIDs (result documents).documents = documents.items.map documentRanking.key := by
  rw [documentIDs, result, List.map_map]
  rfl

theorem not_mem_documentIDs_iff (documents : DocumentSet) (k : String) :
    k ∉ documentIDs (result documents).documents ↔ documents.find? k = none := by
  rw [documentIDs_result, Table.find?_eq_none_iff]
  simp

theorem mem_result_iff (documents : DocumentSet) (q : QueryDocument) :
    q ∈ (result documents).documents ↔
      ∃ d, documents.find? q.documentID = some d ∧ d.1.queryDocument = q := by
  rw [result, List.mem_map]
  constructor
  · rintro ⟨d, hd, rfl⟩
    exact ⟨d, (Table.mem_iff documents d).mp hd, rfl⟩
  · rintro ⟨d, hd, heq⟩
    exact ⟨d, ((Table.find?_eq_some_iff _ _ _).mp hd).1, heq⟩

theorem modified_iff (old : DocumentSet) (d : MatchedDocument) :
    (d.1.key ∈ documentIDs (result old).documents ∧ d.1.queryDocument ∉ (result old).documents) ↔
      ∃ o, old.find? d.1.key = some o ∧ o.1.data ≠ d.1.data := by
  rw [mem_result_iff, ← not_not (a := d.1.key ∈ _), not_mem_documentIDs_iff]
  cases hold : old.find? d.1.key with
  | none => simp
  | some o =>
    have hkey : o.1.key = d.1.key := Table.key_of_find? hold
    simp [Document.queryDocument, hold, hkey]

/-- What is told of two sets is what changes between them as query results. -/
theorem map_differences (old new : DocumentSet) :
    (differences old new).map DocumentViewChange.documentChange =
      documentChanges (result old).documents (result new).documents := by
  have hkind : ∀ (type : ChangeType) (documents : DocumentSet) (p : MatchedDocument → Bool)
      (q : QueryDocument → Bool), (∀ d ∈ documents.items, q d.1.queryDocument = p d) →
      ((documents.items.filter p).map (DocumentViewChange.mk · type)).map
        DocumentViewChange.documentChange =
      ((result documents).documents.filter q).map (DocumentChange.mk type.documentChangeType) := by
    intro type documents p q hpq
    rw [result, List.filter_map, List.map_map, List.map_map]
    exact congrArg _ (List.filter_congr fun d hd => (hpq d hd).symm)
  unfold differences documentChanges
  rw [List.map_append, List.map_append]
  refine congrArg₂ _ (congrArg₂ _ (hkind .removed old _ _ ?_) (hkind .added new _ _ ?_))
    (hkind .modified new _ _ ?_)
  · exact fun d _ => decide_eq_decide.mpr (not_mem_documentIDs_iff new d.1.key)
  · exact fun d _ => decide_eq_decide.mpr (not_mem_documentIDs_iff old d.1.key)
  · intro d hd
    rw [Bool.eq_iff_iff, decide_eq_true_eq, Option.any_eq_true]
    simp only [decide_eq_true_eq]
    exact modified_iff old d

theorem Accounts.changes_eq (h : Accounts old new changes) :
    (changes.filter fun c => decide (c.type ≠ .metadata)).map DocumentViewChange.documentChange =
      documentChanges (result old).documents (result new).documents := by
  rw [h.eq_differences, map_differences]

/-- From no documents on there is nothing but additions to tell. -/
theorem Accounts.type_added (h : Accounts old new changes) (hempty : old.items = [])
    {c : DocumentViewChange} (hc : c ∈ changes) : c.type = .added := by
  have htells := h.told c hc
  have hnone : old.find? c.key = none := by
    rw [Table.find?_eq_none_iff, hempty]
    exact fun d hd => by cases hd
  rw [hnone] at htells
  exact htells.type_added

theorem forEachAddition_eq {last : Option MatchedDocument} (hsorted : Sorted DocumentViewChange.rank changes)
    (hadded : ∀ c ∈ changes, c.type = .added)
    (hlast : ∀ d ∈ last, ∀ c ∈ changes, documentRanking.rank d < documentRanking.rank c.document) :
    ViewSnapshot.forEachAddition last changes = some (changes.map DocumentViewChange.documentChange) := by
  induction changes generalizing last with
  | nil => rfl
  | cons c changes ih =>
    obtain ⟨hc, hsorted⟩ := List.pairwise_cons.mp hsorted
    have hnext : ∀ d ∈ some c.document, ∀ c' ∈ changes,
        documentRanking.rank d < documentRanking.rank c'.document := by
      intro d hd c' hc'
      rw [← Option.mem_some.mp hd]
      rcases rank_lt_iff.mp (hc c' hc') with hlt | ⟨-, hlt⟩
      · rw [hadded c List.mem_cons_self, hadded c' (List.mem_cons_of_mem c hc')] at hlt
        exact absurd hlt (lt_irrefl _)
      · exact hlt
    rw [ViewSnapshot.forEachAddition, if_pos,
      ih hsorted (fun c' hc' => hadded c' (List.mem_cons_of_mem c hc')) hnext]
    · rfl
    · exact ⟨hadded c List.mem_cons_self, fun d hd => hlast d hd c List.mem_cons_self⟩

theorem find?_track_of_ne (tracker : DocumentSet) {c : DocumentViewChange} {k : String} (hne : k ≠ c.key) :
    (ViewSnapshot.track tracker c).find? k = tracker.find? k := by
  have herase := Table.find?_erase tracker c.key k
  have hinsert := fun t : DocumentSet => Table.find?_insert t c.document k
  rw [if_neg hne] at herase
  unfold ViewSnapshot.track
  split <;> split <;> simp only [hinsert, herase, ite_eq_right_iff] <;> exact fun heq => absurd heq hne

theorem forEachTracked_eq {tracker : DocumentSet} (hdistinct : (changes.map DocumentViewChange.key).Nodup)
    (hfound : ∀ c ∈ changes, c.type ≠ .added → tracker.find? c.key ≠ none) :
    ViewSnapshot.forEachTracked tracker changes = some
      ((changes.filter fun c => decide (c.type ≠ .metadata)).map DocumentViewChange.documentChange) := by
  induction changes generalizing tracker with
  | nil => rfl
  | cons c changes ih =>
    obtain ⟨hfresh, hdistinct⟩ := List.nodup_cons.mp hdistinct
    rw [ViewSnapshot.forEachTracked]
    by_cases hmeta : c.type = .metadata
    · rw [if_pos hmeta, List.filter_cons_of_neg (by simp [hmeta])]
      exact ih hdistinct fun c' hc' => hfound c' (List.mem_cons_of_mem c hc')
    · rw [if_neg hmeta, List.filter_cons_of_pos (by simp [hmeta]), if_neg, ih hdistinct]
      · rfl
      · intro c' hc' htype
        rw [find?_track_of_ne tracker fun heq => hfresh (heq ▸ List.mem_map_of_mem hc')]
        exact hfound c' (List.mem_cons_of_mem c hc') htype
      · exact fun h => hfound c List.mem_cons_self h.1 h.2

/-- `ForEachChange` meets its assertions, and calls back with the changes between the two
results. -/
theorem forEachChange_eq {n : ViewSnapshot} (h : Accounts n.oldDocuments n.documents n.documentChanges) :
    n.forEachChange =
      some (documentChanges (result n.oldDocuments).documents (result n.documents).documents) := by
  rw [← h.changes_eq, ViewSnapshot.forEachChange]
  split
  · rename_i hempty
    rw [forEachAddition_eq h.sorted (fun c hc => h.type_added hempty hc) fun d hd => by cases hd]
    rw [List.filter_eq_self.mpr]
    intro c hc
    rw [h.type_added hempty hc]
    rfl
  · apply forEachTracked_eq h.distinct
    intro c hc htype hnone
    have htells := h.told c hc
    rw [hnone] at htells
    exact htype htells.type_added

end Public

section Applying
variable {v : View}

/-- What a snapshot says of the view before and after. -/
structure Reports (old new : View) (n : ViewSnapshot) : Prop where
  documents : n.documents = new.documentSet
  oldDocuments : n.oldDocuments = old.documentSet
  accounts : Accounts n.oldDocuments n.documents n.documentChanges
  changed : n.documentChanges ≠ [] ∨ n.syncStateChanged
  fromCache : n.fromCache = decide (new.syncState = .local)

/-- Neither the backend nor a local write stands behind this document of the view. -/
def View.Unconfirmed (v : View) (key : String) : Prop :=
  ∃ d, v.documentSet.find? key = some d ∧ key ∉ v.syncedDocuments ∧ ¬ d.1.hasLocalMutations

structure Sound (v : View) : Prop where
  known : v.syncState ≠ .none
  limbo : v.current → ∀ key, key ∈ v.limboDocuments ↔ v.Unconfirmed key
  synced : v.syncState = .synced ↔ v.current ∧ ∀ key, ¬ v.Unconfirmed key

/-- What becomes of a view: without a snapshot nothing has changed. -/
structure Applied (old new : View) (change : ViewChange) : Prop where
  sound : Sound new
  silent : change.snapshot = none →
    new.documentSet = old.documentSet ∧ new.syncState = old.syncState
  reported : ∀ n ∈ change.snapshot, Reports old new n

/-- The backend only modifies documents it has added. -/
def View.Permits (v : View) (targetChange : Option TargetChange) : Prop :=
  ∀ change ∈ targetChange, change.modifiedDocuments ⊆ v.syncedDocuments ∪ change.addedDocuments

theorem applyTargetChange_isSome_iff (v : View) (targetChange : Option TargetChange) :
    (v.applyTargetChange targetChange).isSome ↔ v.Permits targetChange := by
  cases targetChange with
  | none => simp [View.applyTargetChange, View.Permits]
  | some change =>
    simp only [View.applyTargetChange, View.Permits, Option.mem_some, forall_eq']
    split <;> simp [*]

theorem applyTargetChange_documentSet {v w : View} {targetChange : Option TargetChange}
    (h : v.applyTargetChange targetChange = some w) : w.documentSet = v.documentSet := by
  cases targetChange with
  | none => cases h; rfl
  | some change =>
    simp only [View.applyTargetChange, Option.ite_none_right_eq_some] at h
    obtain ⟨-, h⟩ := h
    cases h
    rfl

theorem updateLimboDocuments_documentSet (v : View) :
    v.updateLimboDocuments.1.documentSet = v.documentSet := by
  unfold View.updateLimboDocuments
  split <;> rfl

theorem shouldBeInLimbo_iff (v : View) (key : String) : v.shouldBeInLimbo key ↔ v.Unconfirmed key := by
  unfold View.shouldBeInLimbo View.Unconfirmed
  cases v.documentSet.find? key <;> simp

theorem unconfirmed_updateLimboDocuments (v : View) (key : String) :
    v.updateLimboDocuments.1.Unconfirmed key ↔ v.Unconfirmed key := by
  unfold View.updateLimboDocuments
  split <;> exact Iff.rfl

/-- Limbo is recomputed whenever the view is current. -/
theorem mem_updateLimboDocuments {v : View} (hcurrent : v.updateLimboDocuments.1.current) (key : String) :
    key ∈ v.updateLimboDocuments.1.limboDocuments ↔ v.updateLimboDocuments.1.Unconfirmed key := by
  rw [unconfirmed_updateLimboDocuments, ← shouldBeInLimbo_iff]
  unfold View.updateLimboDocuments at *
  by_cases hv : v.current
  · rw [if_pos hv, List.mem_toFinset, List.mem_filter, and_iff_right_iff_imp]
    intro hlimbo
    obtain ⟨d, hd, -⟩ := (shouldBeInLimbo_iff v key).mp hlimbo
    exact List.mem_map.mpr ⟨d, (Table.find?_eq_some_iff _ _ _).mp hd⟩
  · rw [if_neg hv] at hcurrent
    exact absurd hcurrent hv

theorem documentSet_eq_of_silent {given : String → Option (Option Document)}
    {c : ViewDocumentChanges} (h : Computed v given c)
    (hsilent : sort DocumentViewChange.rank c.changeSet.getChanges = []) :
    c.documentSet = v.documentSet := by
  have hnone : ∀ k, c.changeSet.lookup k = none := by
    intro k
    by_contra hsome
    obtain ⟨x, hx⟩ := Option.ne_none_iff_exists'.mp hsome
    have hmem : x ∈ sort DocumentViewChange.rank c.changeSet.getChanges := by
      apply (mem_sort _ x).mpr
      exact List.mem_map.mpr ⟨(k, x), (WriteLog.mem_pairs_iff _ _ _).mpr hx, rfl⟩
    rw [hsilent] at hmem
    cases hmem
  have hitems : c.documentSet.items = v.documentSet.items := by
    apply Table.items_eq
    intro k
    have htold := h.tells k
    rw [hnone k] at htold
    exact htold.eq_of_none
  cases hc : c.documentSet
  cases hv : v.documentSet
  simpa [hc, hv] using hitems

theorem newSyncState_ne_none (v : View) : v.newSyncState ≠ .none := by
  unfold View.newSyncState
  split <;> simp

theorem newSyncState_eq_synced_iff (v : View) :
    v.newSyncState = .synced ↔ v.limboDocuments = ∅ ∧ v.current := by
  unfold View.newSyncState
  split <;> simp [*]

theorem applied_applyChanges {given : String → Option (Option Document)} {c : ViewDocumentChanges}
    (h : Computed v given c) {targetChange : Option TargetChange} {next : View} {change : ViewChange}
    (happly : v.applyChanges c targetChange = some (next, change)) : Applied v next change := by
  obtain ⟨applied, happlied, hnext⟩ := Option.map_eq_some_iff.mp happly
  have hdocuments : applied.updateLimboDocuments.1.documentSet = c.documentSet :=
    (updateLimboDocuments_documentSet applied).trans (applyTargetChange_documentSet happlied)
  obtain ⟨rfl, rfl⟩ := Prod.mk.inj hnext
  refine ⟨⟨newSyncState_ne_none _, fun hcurrent => mem_updateLimboDocuments hcurrent, ?_⟩, ?_, ?_⟩
  · refine (newSyncState_eq_synced_iff _).trans ⟨?_, ?_⟩
    · rintro ⟨hlimbo, hcurrent⟩
      refine ⟨hcurrent, fun key hkey => ?_⟩
      have hmem := (mem_updateLimboDocuments hcurrent key).mpr hkey
      rw [hlimbo] at hmem
      exact Finset.notMem_empty key hmem
    · rintro ⟨hcurrent, hconfirmed⟩
      refine ⟨Finset.eq_empty_iff_forall_notMem.mpr fun key hmem => hconfirmed key ?_, hcurrent⟩
      exact (mem_updateLimboDocuments hcurrent key).mp hmem
  · intro hnone
    simp only [ite_eq_left_iff, reduceCtorEq, imp_false, not_not] at hnone
    exact ⟨hdocuments.trans (documentSet_eq_of_silent h hnone.1), by simpa using hnone.2⟩
  · intro n hn
    obtain ⟨hchanged, hn⟩ := Option.ite_none_left_eq_some.mp hn
    cases hn
    refine ⟨hdocuments.symm, rfl, accounts_sorted h, ?_, rfl⟩
    by_contra hnot
    rw [not_or, ne_eq, not_not] at hnot
    exact hchanged hnot

theorem applyChanges_isSome_iff (c : ViewDocumentChanges) (targetChange : Option TargetChange) :
    (v.applyChanges c targetChange).isSome ↔ v.Permits targetChange := by
  rw [View.applyChanges, Option.isSome_map, applyTargetChange_isSome_iff]
  rfl

/-- Going offline leaves the documents as they are and puts none into limbo. -/
theorem applyOnlineStateChange_eq (hv : Sound v) (onlineState : OnlineState) :
    ∃ next change, v.applyOnlineStateChange onlineState = some (next, change) ∧
      Applied v next change ∧ change.limboChanges = ⟨∅, ∅⟩ := by
  unfold View.applyOnlineStateChange
  split
  · have hcomputed : Computed { v with current := false } (fun _ => none)
        ⟨v.documentSet, ∅, v.mutatedKeys⟩ :=
      ⟨fun _ => rfl, fun _ => rfl, fun k d hd => (by cases hd)⟩
    have hsome := (applyChanges_isSome_iff (v := { v with current := false })
      ⟨v.documentSet, ∅, v.mutatedKeys⟩ none).mpr fun change h => by cases h
    obtain ⟨⟨next, change⟩, happly⟩ := Option.isSome_iff_exists.mp hsome
    have happlied := applied_applyChanges hcomputed happly
    refine ⟨next, change, happly, ⟨happlied.sound, happlied.silent, ?_⟩, ?_⟩
    · intro n hn
      have hreports := happlied.reported n hn
      exact ⟨hreports.documents, hreports.oldDocuments, hreports.accounts, hreports.changed,
        hreports.fromCache⟩
    · simp only [View.applyChanges, View.applyTargetChange, Option.map_some, Option.some.injEq] at happly
      exact congrArg (fun r => r.2.limboChanges) happly.symm
  · exact ⟨v, ⟨none, ∅, ∅⟩, rfl, ⟨hv, fun _ => ⟨rfl, rfl⟩, fun n hn => by cases hn⟩, rfl⟩

end Applying

end ChipChat.DocumentViews
