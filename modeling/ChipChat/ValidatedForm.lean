import Mathlib.Logic.Function.Basic

/-!
# Forms behind a button

Each edit of a field is copied into a model, and the button is enabled when the model
finds itself valid. The model knows nothing of a field before its first edit, when the
field itself is blank.
-/

namespace ValidatedForm

set_option autoImplicit false

universe u v w

/-- A model of the fields `φ` with texts in `τ`, valid when no text is missing or blank. -/
structure Model (φ : Type u) (μ : Type v) (τ : Type w) where
  blank : τ
  empty : μ
  assign : μ → φ → τ → μ
  text : μ → φ → Option τ
  isValid : μ → Bool
  text_empty : ∀ f, text empty f = none
  text_assign : ∀ m f s, text (assign m f s) f = some s
  text_assign_of_ne : ∀ m {f g} s, g ≠ f → text (assign m f s) g = text m g
  isValid_iff : ∀ m, isValid m ↔ ∀ f, ∃ s ∈ text m f, s ≠ blank

structure Form (φ : Type u) (μ : Type v) (τ : Type w) where
  texts : φ → τ
  model : μ
  isEnabled : Bool

section Edits
variable {φ : Type u} {μ : Type v} {τ : Type w} (M : Model φ μ τ)

def Form.initial : Form φ μ τ := ⟨fun _ => M.blank, M.empty, false⟩

def Form.edit [DecidableEq φ] (s : Form φ μ τ) (f : φ) (text : τ) : Form φ μ τ where
  texts := Function.update s.texts f text
  model := M.assign s.model f text
  isEnabled := M.isValid (M.assign s.model f text)

/-- The model has followed the fields, and the button the model. -/
structure WellFormed (s : Form φ μ τ) : Prop where
  followed : ∀ f, (M.text s.model f).getD M.blank = s.texts f
  enabled : s.isEnabled ↔ ∀ f, s.texts f ≠ M.blank

variable {M}

theorem isValid_iff_texts {s : Form φ μ τ}
    (h : ∀ f, (M.text s.model f).getD M.blank = s.texts f) :
    M.isValid s.model ↔ ∀ f, s.texts f ≠ M.blank := by
  rw [M.isValid_iff]
  apply forall_congr'
  intro f
  rw [← h f]
  cases M.text s.model f with
  | none => simp
  | some text => simp

theorem wellFormed_initial [Nonempty φ] : WellFormed M (Form.initial M) := by
  constructor
  · intro f
    rw [Form.initial, M.text_empty]
    rfl
  · refine iff_of_false (by simp [Form.initial]) ?_
    intro h
    exact h (Classical.arbitrary φ) rfl

theorem WellFormed.edit [DecidableEq φ] {s : Form φ μ τ} (h : WellFormed M s) (f : φ) (text : τ) :
    WellFormed M (s.edit M f text) := by
  have hfollowed : ∀ g, (M.text (s.edit M f text).model g).getD M.blank =
      (s.edit M f text).texts g := by
    intro g
    by_cases hgf : g = f
    · subst hgf
      simp [Form.edit, M.text_assign]
    · simp [Form.edit, M.text_assign_of_ne _ _ hgf, Function.update_of_ne hgf, h.followed g]
  exact ⟨hfollowed, isValid_iff_texts hfollowed⟩

end Edits

end ValidatedForm
