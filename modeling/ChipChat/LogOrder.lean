import Mathlib.Data.List.Nodup
import Mathlib.Data.List.Induction

/-!
# Positions in a log

`Before l x y` says that `x` occurs in the log `l` ahead of `y`. Filtering keeps it,
and over a log without repetitions it is a strict order with the last entry on top.
-/

namespace LogOrder

set_option autoImplicit false

universe u
variable {α : Type u} {l : List α} {x y z : α}

def Before (l : List α) (x y : α) : Prop := [x, y].Sublist l

instance [DecidableEq α] (l : List α) (x y : α) : Decidable (Before l x y) :=
  inferInstanceAs (Decidable ([x, y].Sublist l))

theorem before_cons_iff (l : List α) (x y z : α) :
    Before (z :: l) x y ↔ Before l x y ∨ (x = z ∧ y ∈ l) := by
  unfold Before
  rw [List.sublist_cons_iff]
  constructor
  · rintro (h | ⟨r, hr, h⟩)
    · exact Or.inl h
    · obtain ⟨rfl, rfl⟩ := List.cons.inj hr
      exact Or.inr ⟨rfl, List.singleton_sublist.mp h⟩
  · rintro (h | ⟨rfl, h⟩)
    · exact Or.inl h
    · exact Or.inr ⟨[y], rfl, List.singleton_sublist.mpr h⟩

theorem Before.mem_left (h : Before l x y) : x ∈ l := h.subset List.mem_cons_self

theorem Before.mem_right (h : Before l x y) : y ∈ l := h.subset (by simp)

theorem Before.of_filter {p : α → Bool} (h : Before (l.filter p) x y) : Before l x y :=
  h.trans List.filter_sublist

theorem Before.filter {p : α → Bool} (h : Before l x y) (hx : p x) (hy : p y) :
    Before (l.filter p) x y := by
  simpa [Before, hx, hy] using List.Sublist.filter p h

theorem Before.asymm (hl : l.Nodup) (h : Before l x y) : ¬ Before l y x := by
  induction l with
  | nil => exact absurd h.mem_left List.not_mem_nil
  | cons z l ih =>
    obtain ⟨hz, hl⟩ := List.nodup_cons.mp hl
    intro h'
    rcases (before_cons_iff l x y z).mp h with hb | ⟨hxz, hy⟩
    · rcases (before_cons_iff l y x z).mp h' with hb' | ⟨hyz, _⟩
      · exact ih hl hb hb'
      · exact hz (hyz ▸ hb.mem_right)
    · rcases (before_cons_iff l y x z).mp h' with hb' | ⟨hyz, _⟩
      · exact hz (hxz ▸ hb'.mem_right)
      · exact hz (hyz ▸ hy)

theorem Before.trans (hl : l.Nodup) (hxy : Before l x y) (hyz : Before l y z) :
    Before l x z := by
  induction l with
  | nil => exact absurd hxy.mem_left List.not_mem_nil
  | cons w l ih =>
    obtain ⟨hw, hl⟩ := List.nodup_cons.mp hl
    have hyl : y ∈ l := by
      rcases (before_cons_iff l x y w).mp hxy with h | ⟨_, h⟩
      · exact h.mem_right
      · exact h
    have hyzl : Before l y z := by
      rcases (before_cons_iff l y z w).mp hyz with h | ⟨hyw, _⟩
      · exact h
      · exact absurd (hyw ▸ hyl) hw
    rcases (before_cons_iff l x y w).mp hxy with h | ⟨hxw, _⟩
    · exact (before_cons_iff l x z w).mpr (Or.inl (ih hl h hyzl))
    · exact (before_cons_iff l x z w).mpr (Or.inr ⟨hxw, hyzl.mem_right⟩)

/-- The last entry comes after every other one. -/
theorem before_last (h : l.getLast? = some y) (hx : x ∈ l) (hne : x ≠ y) : Before l x y := by
  obtain ⟨front, rfl⟩ := List.getLast?_eq_some_iff.mp h
  rcases List.mem_append.mp hx with hx | hx
  · exact (List.singleton_sublist.mpr hx).append (List.Sublist.refl [y])
  · exact absurd (List.mem_singleton.mp hx) hne

end LogOrder
