import ChipChat.SearchCase
import ChipChat.ValidatedForm

/-!
# The forms of `LoginController` and `RegistrationController`

Both hand each change of a text field to their view model and enable their button when
it is valid. The registration form also needs a picture: without one a tap of its button
does nothing.
-/

namespace ChipChat.AuthForms

open LabelledSystem ValidatedForm

set_option autoImplicit false

/-- `text?.isEmpty == false` -/
def filled (text : Option String) : Bool := text.map String.isEmpty == some false

theorem filled_iff (text : Option String) : filled text ↔ ∃ s ∈ text, s ≠ "" := by
  cases text with
  | none => simp [filled]
  | some s => simp [filled]

structure LoginViewModel where
  email : Option String
  password : Option String
  deriving DecidableEq, Repr

def LoginViewModel.formIsValid (m : LoginViewModel) : Bool := filled m.email && filled m.password

inductive LoginTextField where
  | email
  | password
  deriving DecidableEq, Inhabited, Repr

/-- What `textDidChange` of `LoginController` assigns. -/
def LoginViewModel.textDidChange (m : LoginViewModel) (sender : LoginTextField) (text : String) :
    LoginViewModel :=
  if sender = .email then { m with email := some text } else { m with password := some text }

def LoginViewModel.text (m : LoginViewModel) : LoginTextField → Option String
  | .email => m.email
  | .password => m.password

def loginViewModel : Model LoginTextField LoginViewModel String where
  blank := ""
  empty := ⟨none, none⟩
  assign := LoginViewModel.textDidChange
  text := LoginViewModel.text
  isValid := LoginViewModel.formIsValid
  text_empty f := by cases f <;> rfl
  text_assign m f s := by cases f <;> rfl
  text_assign_of_ne m f g s h := by
    cases f <;> cases g <;> first | rfl | exact absurd rfl h
  isValid_iff m := by
    rw [LoginViewModel.formIsValid, Bool.and_eq_true, filled_iff, filled_iff]
    constructor
    · rintro ⟨hemail, hpassword⟩ f
      cases f with
      | email => exact hemail
      | password => exact hpassword
    · exact fun h => ⟨h .email, h .password⟩

structure RegistrationViewModel where
  email : Option String
  password : Option String
  username : Option String
  fullname : Option String
  deriving DecidableEq, Repr

def RegistrationViewModel.formIsValid (m : RegistrationViewModel) : Bool :=
  filled m.email && filled m.password && filled m.username && filled m.fullname

inductive RegistrationTextField where
  | email
  | fullname
  | username
  | password
  deriving DecidableEq, Inhabited, Repr

/-- What `textDidChange` of `RegistrationController` assigns. -/
def RegistrationViewModel.textDidChange (m : RegistrationViewModel)
    (sender : RegistrationTextField) (text : String) : RegistrationViewModel :=
  if sender = .email then { m with email := some text }
  else if sender = .fullname then { m with fullname := some text }
  else if sender = .username then { m with username := some text }
  else { m with password := some text }

def RegistrationViewModel.text (m : RegistrationViewModel) : RegistrationTextField → Option String
  | .email => m.email
  | .fullname => m.fullname
  | .username => m.username
  | .password => m.password

def registrationViewModel : Model RegistrationTextField RegistrationViewModel String where
  blank := ""
  empty := ⟨none, none, none, none⟩
  assign := RegistrationViewModel.textDidChange
  text := RegistrationViewModel.text
  isValid := RegistrationViewModel.formIsValid
  text_empty f := by cases f <;> rfl
  text_assign m f s := by cases f <;> rfl
  text_assign_of_ne m f g s h := by
    cases f <;> cases g <;> first | rfl | exact absurd rfl h
  isValid_iff m := by
    simp only [RegistrationViewModel.formIsValid, Bool.and_eq_true, filled_iff]
    constructor
    · rintro ⟨⟨⟨hemail, hpassword⟩, husername⟩, hfullname⟩ f
      cases f with
      | email => exact hemail
      | fullname => exact hfullname
      | username => exact husername
      | password => exact hpassword
    · exact fun h => ⟨⟨⟨h .email, h .password⟩, h .username⟩, h .fullname⟩

/-! ## The login form -/

/-- `calls` are the arguments of the calls of `logUserIn`. -/
structure LoginController where
  form : Form LoginTextField LoginViewModel String
  calls : List (String × String)

inductive LoginAction where
  | textDidChange (sender : LoginTextField) (text : String)
  | handleLoginPressed

def LoginController.handleLoginPressed (s : LoginController) : LoginController :=
  { s with calls := s.calls ++ [(s.form.texts .email, s.form.texts .password)] }

/-- A button that is not enabled cannot be tapped. -/
def loginStep (s : LoginController) : LoginAction → Option LoginController
  | .textDidChange sender text => some { s with form := s.form.edit loginViewModel sender text }
  | .handleLoginPressed => if s.form.isEnabled then some s.handleLoginPressed else none

def loginSystem : System LoginController LoginAction := ⟨⟨.initial loginViewModel, []⟩, loginStep⟩

structure LoginFilled (s : LoginController) : Prop where
  form : WellFormed loginViewModel s.form
  calls : ∀ c ∈ s.calls, c.1 ≠ "" ∧ c.2 ≠ ""

theorem loginFilled_step {s t : LoginController} {a : LoginAction} (h : LoginFilled s)
    (ht : loginStep s a = some t) : LoginFilled t := by
  cases a with
  | textDidChange sender text =>
    cases ht
    exact ⟨h.form.edit sender text, h.calls⟩
  | handleLoginPressed =>
    obtain ⟨henabled, ht⟩ := Option.ite_none_right_eq_some.mp ht
    cases ht
    have htexts := h.form.enabled.mp henabled
    refine ⟨h.form, fun c hc => ?_⟩
    rcases List.mem_append.mp hc with hc | hc
    · exact h.calls c hc
    · rw [List.mem_singleton.mp hc]
      exact ⟨htexts .email, htexts .password⟩

/-- The login button is enabled exactly when both fields are filled in, and every call of
`logUserIn` has both. -/
theorem login_filled {s : LoginController} {as : List LoginAction}
    (hrun : run loginSystem as = some s) :
    (s.form.isEnabled ↔ s.form.texts .email ≠ "" ∧ s.form.texts .password ≠ "") ∧
      ∀ c ∈ s.calls, c.1 ≠ "" ∧ c.2 ≠ "" := by
  have h : LoginFilled s := by
    refine invariant (I := LoginFilled) ⟨wellFormed_initial, fun c hc => by cases hc⟩ ?_ hrun
    exact fun s a t hs (ht : loginStep s a = some t) => loginFilled_step hs ht
  refine ⟨?_, h.calls⟩
  rw [h.form.enabled]
  constructor
  · exact fun htexts => ⟨htexts .email, htexts .password⟩
  · rintro ⟨hemail, hpassword⟩ f
    cases f with
    | email => exact hemail
    | password => exact hpassword

end ChipChat.AuthForms
