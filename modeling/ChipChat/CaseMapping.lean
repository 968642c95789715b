import Mathlib.Data.List.Infix

/-!
# Ignoring case

A mapping sends each letter to some letters that it leaves alone. A word occurs in
another when case is ignored if it does once both are mapped; mapping only the first
finds the places where the second is mapped already.
-/

namespace CaseMapping

set_option autoImplicit false

universe u

structure Mapping (α : Type u) where
  image : α → List α
  stable : ∀ x, ∀ y ∈ image x, image y = [y]
  nonempty : ∀ x, image x ≠ []

variable {α : Type u} (m : Mapping α)

def Mapping.apply (l : List α) : List α := l.flatMap m.image

/-- `part` is found in `whole`; nothing is found where the part is empty. -/
def Found (part whole : List α) : Prop := part ≠ [] ∧ part <:+: whole

instance [DecidableEq α] (part whole : List α) : Decidable (Found part whole) :=
  inferInstanceAs (Decidable (_ ∧ _))

@[simp] theorem apply_apply (l : List α) : m.apply (m.apply l) = m.apply l := by
  have hfixed : ∀ y ∈ m.apply l, m.image y = [y] := by
    intro y hy
    obtain ⟨x, -, hx⟩ := List.mem_flatMap.mp hy
    exact m.stable x y hx
  rw [Mapping.apply, List.flatMap_congr hfixed, List.flatMap_singleton']

theorem infix_apply {part whole : List α} (h : part <:+: whole) : m.apply part <:+: m.apply whole :=
  h.flatMap m.image

/-- A part of a word occurs in it when case is ignored. -/
theorem found_apply_of_infix {part whole : List α} (hne : part ≠ []) (h : part <:+: whole) :
    Found (m.apply part) (m.apply whole) := by
  refine ⟨?_, infix_apply m h⟩
  intro hnil
  obtain ⟨x, hx⟩ := List.exists_mem_of_ne_nil part hne
  exact m.nonempty x (List.flatMap_eq_nil_iff.mp hnil x hx)

/-- What a mapped word finds in a word as it stands, it also finds when case is ignored. -/
theorem found_apply {part whole : List α} (h : Found (m.apply part) whole) :
    Found (m.apply part) (m.apply whole) := by
  refine ⟨h.1, ?_⟩
  rw [← apply_apply m part]
  exact infix_apply m h.2

/-- A mapped word is found in a word as it stands exactly at parts that are mapped already. -/
theorem found_apply_iff (part whole : List α) :
    Found (m.apply part) whole ↔ ∃ written, Found written whole ∧ m.apply written = written ∧
      m.apply written = m.apply part := by
  constructor
  · exact fun h => ⟨m.apply part, h, apply_apply m part, apply_apply m part⟩
  · rintro ⟨written, hfound, hfixed, hsame⟩
    rw [← hsame, hfixed]
    exact hfound

end CaseMapping
