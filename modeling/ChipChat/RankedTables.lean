import Mathlib.Data.List.Sort

/-!
# Tables in the order of a rank

A table lists its items by a rank that determines their keys, no key twice. It is known
by what it holds under each key, and a list sorted by rank is known by its members.
-/

namespace RankedTables

set_option autoImplicit false

universe u v w

structure Ranking (α : Type u) (κ : Type v) (ρ : Type w) [LinearOrder ρ] where
  key : α → κ
  rank : α → ρ
  key_eq : ∀ a b, rank a = rank b → key a = key b

section Sorting
variable {α : Type u} {ρ : Type w} [LinearOrder ρ] (rank : α → ρ)

def Sorted (l : List α) : Prop := l.Pairwise fun a b => rank a < rank b

def sort (l : List α) : List α := l.insertionSort fun a b => rank a ≤ rank b

variable {rank}

theorem Sorted.filter {l : List α} (h : Sorted rank l) (p : α → Bool) : Sorted rank (l.filter p) :=
  List.Pairwise.filter p h

theorem mem_sort (l : List α) (a : α) : a ∈ sort rank l ↔ a ∈ l := List.mem_insertionSort _

theorem sorted_sort {l : List α} (h : (l.map rank).Nodup) : Sorted rank (sort rank l) := by
  have htotal : Std.Total fun a b : α => rank a ≤ rank b := ⟨fun a b => le_total (rank a) (rank b)⟩
  have htrans : IsTrans α fun a b => rank a ≤ rank b := ⟨fun a b c => le_trans⟩
  have hle : (sort rank l).Pairwise fun a b => rank a ≤ rank b := List.pairwise_insertionSort _ l
  have hne : (sort rank l).Pairwise fun a b => rank a ≠ rank b := by
    apply List.pairwise_map.mp
    exact (((List.perm_insertionSort _ l).map rank).nodup_iff).mpr h
  exact (hle.and hne).imp fun hab => lt_of_le_of_ne hab.1 hab.2

theorem Sorted.eq_of_mem_iff {l m : List α} (hl : Sorted rank l) (hm : Sorted rank m)
    (h : ∀ a, a ∈ l ↔ a ∈ m) : l = m := by
  have hirrefl : Std.Irrefl fun a b : α => rank a < rank b := ⟨fun a => lt_irrefl (rank a)⟩
  have hantisymm : Std.Antisymm fun a b : α => rank a < rank b :=
    ⟨fun a b hab hba => absurd hba (lt_asymm hab)⟩
  exact List.Pairwise.eq_of_mem_iff hl hm h

end Sorting

variable {α : Type u} {κ : Type v} {ρ : Type w} [LinearOrder ρ]

structure Table (R : Ranking α κ ρ) where
  items : List α
  ordered : Sorted R.rank items
  distinct : (items.map R.key).Nodup

namespace Table

variable {R : Ranking α κ ρ}

def empty : Table R := ⟨[], List.Pairwise.nil, List.nodup_nil⟩

variable [DecidableEq κ]

def find? (t : Table R) (k : κ) : Option α := t.items.find? fun a => decide (R.key a = k)

def erase (t : Table R) (k : κ) : Table R where
  items := t.items.filter fun a => decide (R.key a ≠ k)
  ordered := t.ordered.filter _
  distinct := (List.filter_sublist.map R.key).nodup t.distinct

theorem key_of_find? {t : Table R} {k : κ} {a : α} (h : t.find? k = some a) : R.key a = k := by
  unfold find? at h
  simpa using List.find?_some h

theorem find?_eq_some_iff (t : Table R) (k : κ) (a : α) :
    t.find? k = some a ↔ a ∈ t.items ∧ R.key a = k := by
  constructor
  · exact fun h => ⟨List.mem_of_find?_eq_some h, key_of_find? h⟩
  · rintro ⟨ha, rfl⟩
    cases hb : t.find? (R.key a) with
    | none => exact absurd (decide_eq_true rfl) (List.find?_eq_none.mp hb a ha)
    | some b =>
      have hmem : b ∈ t.items := List.mem_of_find?_eq_some hb
      rw [List.inj_on_of_nodup_map t.distinct hmem ha (key_of_find? hb)]

theorem find?_eq_none_iff (t : Table R) (k : κ) : t.find? k = none ↔ ∀ a ∈ t.items, R.key a ≠ k := by
  unfold find?
  simp

theorem mem_iff (t : Table R) (a : α) : a ∈ t.items ↔ t.find? (R.key a) = some a := by
  rw [find?_eq_some_iff]
  exact (and_iff_left rfl).symm

@[simp] theorem find?_empty (k : κ) : (empty : Table R).find? k = none := rfl

theorem find?_erase (t : Table R) (k k' : κ) :
    (t.erase k).find? k' = if k' = k then none else t.find? k' := by
  apply Option.ext
  intro a
  rw [find?_eq_some_iff, erase, List.mem_filter, decide_eq_true_eq]
  split
  · subst_vars
    simp only [reduceCtorEq, iff_false, not_and]
    exact fun h hkey => h.2 hkey
  · rename_i hne
    rw [find?_eq_some_iff]
    constructor
    · exact fun h => ⟨h.1.1, h.2⟩
    · exact fun h => ⟨⟨h.1, fun hkey => hne (h.2.symm.trans hkey)⟩, h.2⟩

theorem rank_ne_of_mem_erase {t : Table R} {a b : α} (h : b ∈ (t.erase (R.key a)).items) :
    R.rank b ≠ R.rank a := by
  intro heq
  exact of_decide_eq_true (List.mem_filter.mp h).2 (R.key_eq b a heq)

/-- What was held under the key gives way to the item. -/
def insert (t : Table R) (a : α) : Table R where
  items := ((t.erase (R.key a)).items.filter fun b => decide (R.rank b < R.rank a)) ++
    a :: (t.erase (R.key a)).items.filter fun b => decide (R.rank a < R.rank b)
  ordered := by
    refine List.pairwise_append.mpr ⟨(t.erase (R.key a)).ordered.filter _,
      List.pairwise_cons.mpr ⟨?_, (t.erase (R.key a)).ordered.filter _⟩, ?_⟩
    · exact fun b hb => of_decide_eq_true (List.mem_filter.mp hb).2
    · intro b hb c hc
      have hba : R.rank b < R.rank a := of_decide_eq_true (List.mem_filter.mp hb).2
      rcases List.mem_cons.mp hc with rfl | hc
      · exact hba
      · exact hba.trans (of_decide_eq_true (List.mem_filter.mp hc).2)
  distinct := by
    have hkeys : ∀ b ∈ (t.erase (R.key a)).items, R.key b ≠ R.key a :=
      fun b hb => of_decide_eq_true (List.mem_filter.mp hb).2
    rw [List.map_append, List.map_cons]
    refine List.nodup_append.mpr ⟨?_, List.nodup_cons.mpr ⟨?_, ?_⟩, ?_⟩
    · exact (List.filter_sublist.map R.key).nodup (t.erase (R.key a)).distinct
    · intro h
      obtain ⟨b, hb, hkey⟩ := List.mem_map.mp h
      exact hkeys b (List.mem_filter.mp hb).1 hkey
    · exact (List.filter_sublist.map R.key).nodup (t.erase (R.key a)).distinct
    · rintro x hx y hy rfl
      obtain ⟨b, hb, rfl⟩ := List.mem_map.mp hx
      obtain ⟨hb, hba⟩ := List.mem_filter.mp hb
      rcases List.mem_cons.mp hy with hkey | hy
      · exact hkeys b hb hkey
      · obtain ⟨c, hc, hkey⟩ := List.mem_map.mp hy
        obtain ⟨hc, hac⟩ := List.mem_filter.mp hc
        have hcb := List.inj_on_of_nodup_map (t.erase (R.key a)).distinct hc hb hkey
        rw [hcb] at hac
        exact lt_asymm (of_decide_eq_true hba) (of_decide_eq_true hac)

theorem mem_insert (t : Table R) (a b : α) :
    b ∈ (t.insert a).items ↔ b = a ∨ b ∈ (t.erase (R.key a)).items := by
  simp only [insert, List.mem_append, List.mem_cons, List.mem_filter, decide_eq_true_eq]
  constructor
  · rintro (h | h | h)
    · exact .inr h.1
    · exact .inl h
    · exact .inr h.1
  · rintro (h | h)
    · exact .inr (.inl h)
    · rcases lt_or_gt_of_ne (rank_ne_of_mem_erase h) with hlt | hgt
      · exact .inl ⟨h, hlt⟩
      · exact .inr (.inr ⟨h, hgt⟩)

theorem find?_insert (t : Table R) (a : α) (k : κ) :
    (t.insert a).find? k = if k = R.key a then some a else t.find? k := by
  apply Option.ext
  intro b
  rw [find?_eq_some_iff, mem_insert]
  split
  · subst_vars
    rw [Option.some.injEq]
    constructor
    · rintro ⟨rfl | hb, hkey⟩
      · rfl
      · exact absurd hkey (of_decide_eq_true (List.mem_filter.mp hb).2)
    · rintro rfl
      exact ⟨.inl rfl, rfl⟩
  · rename_i hne
    have herase := find?_erase t (R.key a) k
    rw [if_neg hne] at herase
    rw [← herase, find?_eq_some_iff]
    constructor
    · rintro ⟨rfl | hb, hkey⟩
      · exact absurd hkey.symm hne
      · exact ⟨hb, hkey⟩
    · exact fun h => ⟨.inr h.1, h.2⟩

/-- A table is known by what its keys hold. -/
theorem items_eq {t t' : Table R} (h : ∀ k, t.find? k = t'.find? k) : t.items = t'.items :=
  t.ordered.eq_of_mem_iff t'.ordered fun a => by rw [mem_iff, mem_iff, h]

end Table

end RankedTables
