import ChipChat.Firestore
import Mathlib.Data.List.Sort
import Mathlib.Data.String.Basic

/-!
# Results of a query ordered by timestamp

A result lists its documents by timestamp, equal timestamps by identifier. The
changes between two results account for every identifier; when nothing is
removed or modified they account for the documents themselves.
-/

namespace ChipChat

set_option autoImplicit false

def QueryDocument.timestamp (d : QueryDocument) : Timestamp :=
  (d.data.asTimestamp "timestamp").getD 0

def QueryDocument.Precedes (d e : QueryDocument) : Prop :=
  d.timestamp < e.timestamp ∨ d.timestamp = e.timestamp ∧ d.documentID < e.documentID

instance (d e : QueryDocument) : Decidable (d.Precedes e) := inferInstanceAs (Decidable (_ ∨ _))

theorem precedes_asymm {d e : QueryDocument} (h : d.Precedes e) : ¬ e.Precedes d := by
  rintro (hlt | ⟨heq, hid⟩)
  · rcases h with h | ⟨h, -⟩
    · exact lt_asymm hlt h
    · exact hlt.ne' h
  · rcases h with h | ⟨-, h⟩
    · exact h.ne' heq
    · exact lt_asymm h hid

/-- What `order(by: "timestamp")` returns: a document without the field is not in the result. -/
structure QueryResult where
  documents : List QueryDocument
  stamped : ∀ d ∈ documents, (d.data.asTimestamp "timestamp").isSome
  ordered : documents.Pairwise QueryDocument.Precedes
  distinct : (documentIDs documents).Nodup

namespace QueryResult

def empty : QueryResult := ⟨[], by simp, by simp, by simp [documentIDs]⟩

variable (old new : QueryResult)

def removed : List QueryDocument := removedDocuments old.documents new.documents
def added : List QueryDocument := addedDocuments old.documents new.documents
def modified : List QueryDocument := modifiedDocuments old.documents new.documents

theorem eq_of_documentID_eq {r : QueryResult} {d e : QueryDocument} (hd : d ∈ r.documents)
    (he : e ∈ r.documents) (h : d.documentID = e.documentID) : d = e :=
  List.inj_on_of_nodup_map r.distinct hd he h

/-- An identifier leaves the result by a removal and enters it by an addition. -/
theorem documentIDs_perm :
    (documentIDs new.documents ++ documentIDs (old.removed new)).Perm
      (documentIDs old.documents ++ documentIDs (old.added new)) := by
  have sub : ∀ (l : List QueryDocument) (p : QueryDocument → Bool),
      (documentIDs l).Nodup → (documentIDs (l.filter p)).Nodup := by
    intro l p h
    exact (List.filter_sublist.map QueryDocument.documentID).nodup h
  apply (List.perm_ext_iff_of_nodup ?_ ?_).mpr
  · intro x
    simp only [removed, added, removedDocuments, addedDocuments, documentIDs, List.mem_append,
      List.mem_map, List.mem_filter, decide_eq_true_eq]
    constructor
    · rintro (⟨d, hd, rfl⟩ | ⟨d, ⟨hd, -⟩, rfl⟩)
      · by_cases h : ∃ e ∈ old.documents, e.documentID = d.documentID
        · exact Or.inl h
        · exact Or.inr ⟨d, ⟨hd, h⟩, rfl⟩
      · exact Or.inl ⟨d, hd, rfl⟩
    · rintro (⟨d, hd, rfl⟩ | ⟨d, ⟨hd, -⟩, rfl⟩)
      · by_cases h : ∃ e ∈ new.documents, e.documentID = d.documentID
        · exact Or.inl h
        · exact Or.inr ⟨d, ⟨hd, h⟩, rfl⟩
      · exact Or.inl ⟨d, hd, rfl⟩
  · refine List.nodup_append.mpr ⟨new.distinct, sub _ _ old.distinct, ?_⟩
    rintro x hx y hy rfl
    obtain ⟨d, hd, rfl⟩ := List.mem_map.mp hy
    exact of_decide_eq_true (List.mem_filter.mp hd).2 hx
  · refine List.nodup_append.mpr ⟨old.distinct, sub _ _ new.distinct, ?_⟩
    rintro x hx y hy rfl
    obtain ⟨d, hd, rfl⟩ := List.mem_map.mp hy
    exact of_decide_eq_true (List.mem_filter.mp hd).2 hx

/-- Nothing is removed and nothing is modified. -/
def Grows : Prop := old.removed new = [] ∧ old.modified new = []

instance : Decidable (old.Grows new) := inferInstanceAs (Decidable (_ ∧ _))

variable {old new}

theorem mem_documentChanges_iff {change : DocumentChange} :
    change ∈ documentChanges old.documents new.documents ↔
      (change.type = .removed ∧ change.document ∈ old.removed new) ∨
      (change.type = .added ∧ change.document ∈ old.added new) ∨
      (change.type = .modified ∧ change.document ∈ old.modified new) := by
  obtain ⟨type, d⟩ := change
  simp only [documentChanges, List.mem_append, List.mem_map, DocumentChange.mk.injEq,
    QueryResult.removed, QueryResult.added, QueryResult.modified]
  constructor
  · rintro ((⟨d, hd, rfl, rfl⟩ | ⟨d, hd, rfl, rfl⟩) | ⟨d, hd, rfl, rfl⟩)
    · exact Or.inl ⟨rfl, hd⟩
    · exact Or.inr (Or.inl ⟨rfl, hd⟩)
    · exact Or.inr (Or.inr ⟨rfl, hd⟩)
  · rintro (⟨rfl, hd⟩ | ⟨rfl, hd⟩ | ⟨rfl, hd⟩)
    · exact Or.inl (Or.inl ⟨d, hd, rfl, rfl⟩)
    · exact Or.inl (Or.inr ⟨d, hd, rfl, rfl⟩)
    · exact Or.inr ⟨d, hd, rfl, rfl⟩

/-- A document of the new result was there before or is carried by a change. -/
theorem mem_old_or_changed (old : QueryResult) {new : QueryResult} {d : QueryDocument}
    (hd : d ∈ new.documents) :
    d ∈ old.documents ∨
      ∃ change ∈ documentChanges old.documents new.documents, change.document = d := by
  by_cases hid : d.documentID ∈ documentIDs old.documents
  · by_cases hold : d ∈ old.documents
    · exact Or.inl hold
    · exact Or.inr ⟨⟨.modified, d⟩, mem_documentChanges_iff.mpr (Or.inr (Or.inr
        ⟨rfl, List.mem_filter.mpr ⟨hd, decide_eq_true ⟨hid, hold⟩⟩⟩)), rfl⟩
  · exact Or.inr ⟨⟨.added, d⟩, mem_documentChanges_iff.mpr (Or.inr (Or.inl
      ⟨rfl, List.mem_filter.mpr ⟨hd, decide_eq_true hid⟩⟩)), rfl⟩

theorem change_mem {change : DocumentChange}
    (h : change ∈ documentChanges old.documents new.documents) :
    change.document ∈ old.documents ∨ change.document ∈ new.documents := by
  rcases mem_documentChanges_iff.mp h with ⟨-, h⟩ | ⟨-, h⟩ | ⟨-, h⟩
  · exact Or.inl (List.mem_filter.mp h).1
  · exact Or.inr (List.mem_filter.mp h).1
  · exact Or.inr (List.mem_filter.mp h).1

theorem Grows.mem_old (h : old.Grows new) {d : QueryDocument} (hd : d ∈ new.documents)
    (hid : d.documentID ∈ documentIDs old.documents) : d ∈ old.documents := by
  by_contra hnot
  have hm : d ∈ old.modified new := List.mem_filter.mpr ⟨hd, decide_eq_true ⟨hid, hnot⟩⟩
  rw [h.2] at hm
  cases hm

theorem Grows.mem_new (h : old.Grows new) {d : QueryDocument} (hd : d ∈ old.documents) :
    d ∈ new.documents := by
  have hid : d.documentID ∈ documentIDs new.documents := by
    by_contra hnot
    have hm : d ∈ old.removed new := List.mem_filter.mpr ⟨hd, decide_eq_true hnot⟩
    rw [h.1] at hm
    cases hm
  obtain ⟨e, he, heq⟩ := List.mem_map.mp hid
  have heold := h.mem_old he (heq ▸ List.mem_map.mpr ⟨d, hd, rfl⟩)
  rwa [eq_of_documentID_eq hd heold heq.symm]

theorem Grows.perm (h : old.Grows new) : new.documents.Perm (old.documents ++ old.added new) := by
  have hdisjoint : (old.documents ++ old.added new).Nodup := by
    refine List.nodup_append.mpr ⟨old.distinct.of_map, new.distinct.of_map.filter _, ?_⟩
    rintro d hd e he rfl
    exact of_decide_eq_true (List.mem_filter.mp he).2 (List.mem_map.mpr ⟨d, hd, rfl⟩)
  apply (List.perm_ext_iff_of_nodup new.distinct.of_map hdisjoint).mpr
  intro d
  rw [List.mem_append]
  constructor
  · intro hd
    by_cases hid : d.documentID ∈ documentIDs old.documents
    · exact Or.inl (h.mem_old hd hid)
    · exact Or.inr (List.mem_filter.mpr ⟨hd, decide_eq_true hid⟩)
  · rintro (hd | hd)
    · exact h.mem_new hd
    · exact (List.mem_filter.mp hd).1

/-- Additions behind everything already there are appended. -/
theorem Grows.eq_append (h : old.Grows new)
    (behind : ∀ d ∈ old.documents, ∀ e ∈ old.added new, d.Precedes e) :
    new.documents = old.documents ++ old.added new := by
  have hsorted : (old.documents ++ old.added new).Pairwise QueryDocument.Precedes :=
    List.pairwise_append.mpr ⟨old.ordered, new.ordered.filter _, behind⟩
  exact h.perm.eq_of_pairwise (fun d e _ _ hde hed => absurd hed (precedes_asymm hde))
    new.ordered hsorted

end QueryResult

end ChipChat
