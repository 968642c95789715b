import ChipChat.AuthForms
import ChipChat.RegisteredProfiles

/-!
# From the registration form to the search

Any number of `RegistrationController`s are filled in and tapped while the calls of
`createUser` that they have made go on. What the form guarantees is followed through the
users documents and `fetchUsers` to the search of the user picker.
-/

namespace ChipChat.SignUps

open AuthForms LabelledSystem NewMessage ValidatedForm

set_option autoImplicit false

variable {χ : Type}

structure RegistrationController where
  form : Form RegistrationTextField RegistrationViewModel String
  profileImage : Option UIImage

structure State where
  controllers : List RegistrationController
  backend : Registration.State

inductive Action where
  | viewDidLoad
  | textDidChange (k : Nat) (sender : RegistrationTextField) (text : String)
  | didFinishPicking (k : Nat) (image : Option UIImage)
  | handleSignUpPressed (k : Nat) (filename : String)
  | callback (a : Registration.Action)

namespace RegistrationController

def initial : RegistrationController := ⟨.initial registrationViewModel, none⟩

def textDidChange (c : RegistrationController) (sender : RegistrationTextField) (text : String) :
    RegistrationController :=
  { c with form := c.form.edit registrationViewModel sender text }

def didFinishPicking (c : RegistrationController) (image : Option UIImage) : RegistrationController :=
  { c with profileImage := image }

/-- The form as `handleSignUpPressed` reads it, if it has a picture. -/
def filledIn (c : RegistrationController) : Option RegistrationForm :=
  c.profileImage.map fun profileImage =>
    { profileImage := profileImage
      email := c.form.texts .email
      password := c.form.texts .password
      fullname := c.form.texts .fullname
      username := c.form.texts .username }

end RegistrationController

/-- Calls of `createUser` are only made by `handleSignUpPressed`. -/
def isCallback : Registration.Action → Bool
  | .createUser .. => false
  | .putData .. | .downloadURL .. | .createAccount .. | .setData .. => true

section System
variable (v : CharacterView χ)

def State.handleSignUpPressed (s : State) (c : RegistrationController) (filename : String) :
    Option State :=
  match c.filledIn with
  | none => some s
  | some form =>
      (Registration.step s.backend (.createUser (form.credentials v) filename)).map fun backend =>
        { s with backend := backend }

def step (s : State) : Action → Option State
  | .viewDidLoad => some { s with controllers := s.controllers ++ [.initial] }
  | .textDidChange k sender text =>
      s.controllers[k]?.map fun c =>
        { s with controllers := s.controllers.set k (c.textDidChange sender text) }
  | .didFinishPicking k image =>
      s.controllers[k]?.map fun c =>
        { s with controllers := s.controllers.set k (c.didFinishPicking image) }
  | .handleSignUpPressed k filename =>
      match s.controllers[k]? with
      | none => none
      | some c => if c.form.isEnabled then s.handleSignUpPressed v c filename else none
  | .callback a =>
      if isCallback a then
        (Registration.step s.backend a).map fun backend => { s with backend := backend }
      else none

def system : System State Action := ⟨⟨[], Registration.initial⟩, step v⟩

end System

/-- The uids Auth gives contain no slash. -/
def Action.PlainUID : Action → Prop
  | .callback a => a.PlainUID
  | _ => True

instance : ∀ a : Action, Decidable a.PlainUID
  | .callback a => inferInstanceAs (Decidable a.PlainUID)
  | .viewDidLoad | .textDidChange .. | .didFinishPicking .. | .handleSignUpPressed .. =>
    isTrue trivial

/-- No field of the form is empty. -/
structure Complete (form : RegistrationForm) : Prop where
  email : form.email ≠ ""
  password : form.password ≠ ""
  fullname : form.fullname ≠ ""
  username : form.username ≠ ""

/-- The forms keep up with their fields, and the backend with the calls. -/
structure FromForms (s : State) : Prop where
  forms : ∀ c ∈ s.controllers, WellFormed registrationViewModel c.form
  backend : Registration.Consistent s.backend

/-- In the run the enabled button of the controller `k` was tapped, and `form` is what the
controller held. -/
def Tapped (v : CharacterView χ) (as : List Action) (k : Nat) (form : RegistrationForm)
    (filename : String) : Prop :=
  ∃ before after t c, as = before ++ .handleSignUpPressed k filename :: after ∧
    run (system v) before = some t ∧ t.controllers[k]? = some c ∧ c.form.isEnabled ∧
    c.filledIn = some form

/-- A callback leaves the credentials and the filenames of the calls as they are. -/
theorem calls_callback {s t : Registration.State} {a : Registration.Action}
    (ha : isCallback a) (ht : Registration.step s a = some t) :
    ∀ c ∈ t.calls, ∃ d ∈ s.calls, c.credentials = d.credentials ∧ c.filename = d.filename := by
  have hset : ∀ {i : Nat} {d : Registration.Call} {p : Progress}, s.calls[i]? = some d →
      ∀ c ∈ s.calls.set i (d.follow p),
        ∃ d ∈ s.calls, c.credentials = d.credentials ∧ c.filename = d.filename := by
    intro i d p hd c hc
    rcases List.mem_or_eq_of_mem_set hc with hc | rfl
    · exact ⟨c, hc, rfl, rfl⟩
    · exact ⟨d, List.mem_of_getElem? hd, rfl, rfl⟩
  cases Registration.step_change ht with
  | started => cases ha
  | put _ _ _ _ hd | downloaded _ _ _ hd | wrote _ _ _ _ _ hd | answered _ _ _ _ _ _ hd =>
    exact hset hd

section Steps
variable {v : CharacterView χ} {s t : State}

theorem handleSignUpPressed_cases {c : RegistrationController} {filename : String}
    (ht : s.handleSignUpPressed v c filename = some t) :
    (c.filledIn = none ∧ t = s) ∨
    ∃ form backend, c.filledIn = some form ∧ t = { s with backend := backend } ∧
      Registration.step s.backend (.createUser (form.credentials v) filename) = some backend := by
  unfold State.handleSignUpPressed at ht
  cases hform : c.filledIn with
  | none =>
    rw [hform] at ht
    exact Or.inl ⟨rfl, (Option.some.inj ht).symm⟩
  | some form =>
    rw [hform] at ht
    obtain ⟨backend, hstep, rfl⟩ := Option.map_eq_some_iff.mp ht
    exact Or.inr ⟨form, backend, rfl, rfl, hstep⟩

/-- What a step can do to the controllers and to the backend. -/
inductive Change (v : CharacterView χ) (s : State) : Action → State → Prop where
  | loaded : Change v s .viewDidLoad { s with controllers := s.controllers ++ [.initial] }
  | edited (k : Nat) (sender : RegistrationTextField) (text : String) (c : RegistrationController)
      (hc : s.controllers[k]? = some c) : Change v s (.textDidChange k sender text)
        { s with controllers := s.controllers.set k (c.textDidChange sender text) }
  | picked (k : Nat) (image : Option UIImage) (c : RegistrationController)
      (hc : s.controllers[k]? = some c) : Change v s (.didFinishPicking k image)
        { s with controllers := s.controllers.set k (c.didFinishPicking image) }
  | ignored (k : Nat) (filename : String) : Change v s (.handleSignUpPressed k filename) s
  | called (k : Nat) (filename : String) (c : RegistrationController) (form : RegistrationForm)
      (backend : Registration.State) (hc : s.controllers[k]? = some c)
      (henabled : c.form.isEnabled) (hform : c.filledIn = some form)
      (hstep : Registration.step s.backend (.createUser (form.credentials v) filename) =
        some backend) :
      Change v s (.handleSignUpPressed k filename) { s with backend := backend }
  | callback (a : Registration.Action) (backend : Registration.State) (ha : isCallback a)
      (hstep : Registration.step s.backend a = some backend) :
      Change v s (.callback a) { s with backend := backend }

theorem step_change {a : Action} (ht : step v s a = some t) : Change v s a t := by
  cases a with
  | viewDidLoad =>
    cases ht
    exact .loaded
  | textDidChange k sender text =>
    obtain ⟨c, hc, rfl⟩ := Option.map_eq_some_iff.mp ht
    exact .edited k sender text c hc
  | didFinishPicking k image =>
    obtain ⟨c, hc, rfl⟩ := Option.map_eq_some_iff.mp ht
    exact .picked k image c hc
  | handleSignUpPressed k filename =>
    cases hc : s.controllers[k]? with
    | none => simp [step, hc] at ht
    | some c =>
      simp only [step, hc] at ht
      obtain ⟨henabled, ht⟩ := Option.ite_none_right_eq_some.mp ht
      rcases handleSignUpPressed_cases ht with ⟨-, rfl⟩ | ⟨form, backend, hform, rfl, hstep⟩
      · exact .ignored k filename
      · exact .called k filename c form backend hc henabled hform hstep
  | callback a =>
    obtain ⟨hcallback, ht⟩ := Option.ite_none_right_eq_some.mp ht
    obtain ⟨backend, hstep, rfl⟩ := Option.map_eq_some_iff.mp ht
    exact .callback a backend hcallback hstep

theorem FromForms.set (h : FromForms s) {k : Nat} {c : RegistrationController}
    (hc : WellFormed registrationViewModel c.form) :
    FromForms { s with controllers := s.controllers.set k c } := by
  refine ⟨fun d hd => ?_, h.backend⟩
  rcases List.mem_or_eq_of_mem_set hd with hd | rfl
  · exact h.forms d hd
  · exact hc

theorem fromForms_step {a : Action} (h : FromForms s) (ha : a.PlainUID)
    (ht : step v s a = some t) : FromForms t := by
  cases step_change ht with
  | loaded =>
    refine ⟨fun c hc => ?_, h.backend⟩
    rcases List.mem_append.mp hc with hc | hc
    · exact h.forms c hc
    · rw [List.mem_singleton.mp hc]
      exact wellFormed_initial
  | edited k sender text c hc => exact h.set ((h.forms c (List.mem_of_getElem? hc)).edit sender text)
  | picked k image c hc => exact h.set (h.forms c (List.mem_of_getElem? hc))
  | ignored => exact h
  | called k filename c form backend hc henabled hform hstep =>
    exact ⟨h.forms, Registration.consistent_step
      (a := .createUser (form.credentials v) filename) h.backend trivial hstep⟩
  | callback a backend hcallback hstep =>
    exact ⟨h.forms, Registration.consistent_step h.backend ha hstep⟩

/-- A call of `createUser` was there before, or is the call of a tap. -/
theorem calls_step {a : Action} (ht : step v s a = some t) :
    ∀ call ∈ t.backend.calls,
      (∃ d ∈ s.backend.calls, call.credentials = d.credentials ∧ call.filename = d.filename) ∨
      ∃ k c form, a = .handleSignUpPressed k call.filename ∧ s.controllers[k]? = some c ∧
        c.form.isEnabled ∧ c.filledIn = some form ∧ call.credentials = form.credentials v := by
  intro call hcall
  cases step_change ht with
  | loaded | edited | picked | ignored => exact Or.inl ⟨call, hcall, rfl, rfl⟩
  | called k filename c form backend hc henabled hform hstep =>
    obtain ⟨-, hbackend⟩ := Option.ite_none_left_eq_some.mp hstep
    cases hbackend
    rcases List.mem_append.mp hcall with hcall | hcall
    · exact Or.inl ⟨call, hcall, rfl, rfl⟩
    · rw [List.mem_singleton.mp hcall]
      exact Or.inr ⟨k, c, form, rfl, hc, henabled, hform, rfl⟩
  | callback a backend hcallback hstep => exact Or.inl (calls_callback hcallback hstep call hcall)

/-- A picture of a controller was chosen for it. -/
theorem picked_step {a : Action} (ht : step v s a = some t) {k : Nat} {c : RegistrationController}
    (hc : t.controllers[k]? = some c) {image : UIImage} (himage : c.profileImage = some image) :
    (∃ d, s.controllers[k]? = some d ∧ d.profileImage = some image) ∨
      a = .didFinishPicking k (some image) := by
  have kept : ∀ {j : Nat} {d e : RegistrationController}, s.controllers[j]? = some d →
      (s.controllers.set j e)[k]? = some c → (j ≠ k ∧ s.controllers[k]? = some c) ∨
        (j = k ∧ c = e) := by
    intro j d e hd hset
    rw [List.getElem?_set] at hset
    split at hset
    · rename_i hjk
      split at hset
      · exact Or.inr ⟨hjk, (Option.some.inj hset).symm⟩
      · cases hset
    · rename_i hjk
      exact Or.inl ⟨hjk, hset⟩
  cases step_change ht with
  | loaded =>
    rw [List.getElem?_append] at hc
    split at hc
    · exact Or.inl ⟨c, hc, himage⟩
    · rw [List.getElem?_singleton] at hc
      split at hc
      · obtain rfl := Option.some.inj hc
        cases himage
      · cases hc
  | edited j sender text d hd =>
    rcases kept hd hc with ⟨-, hold⟩ | ⟨rfl, rfl⟩
    · exact Or.inl ⟨c, hold, himage⟩
    · exact Or.inl ⟨d, hd, himage⟩
  | picked j image' d hd =>
    rcases kept hd hc with ⟨-, hold⟩ | ⟨rfl, rfl⟩
    · exact Or.inl ⟨c, hold, himage⟩
    · exact Or.inr (congrArg _ himage)
  | ignored | called | callback => exact Or.inl ⟨c, hc, himage⟩

end Steps

section Runs
variable {v : CharacterView χ} {s : State} {as : List Action}

theorem fromForms_run (hrun : run (system v) as = some s) (hplain : ∀ a ∈ as, a.PlainUID) :
    FromForms s := by
  refine invariant_of_stepsMeet (I := FromForms) ?_ ?_ (stepsMeet_of_forall hplain _) hrun
  · exact fun s a t h ha (ht : step v s a = some t) => fromForms_step h ha ht
  · exact ⟨fun c hc => (by cases hc), Registration.consistent_init⟩

/-- Every call of `createUser` is the call of a tap. -/
theorem calls_run (hrun : run (system v) as = some s) :
    ∀ call ∈ s.backend.calls, ∃ k form, Tapped v as k form call.filename ∧
      call.credentials = form.credentials v := by
  induction as using List.reverseRecOn generalizing s with
  | nil =>
    cases hrun
    exact fun call hcall => by cases hcall
  | append_singleton as a ih =>
    obtain ⟨t, ht, hs⟩ := (run_snoc_iff (system v) s as a).mp hrun
    intro call hcall
    rcases calls_step hs call hcall with
      ⟨d, hd, hcredentials, hfilename⟩ | ⟨k, c, form, rfl, hc, henabled, hform, hcredentials⟩
    · obtain ⟨k, form, ⟨before, after, u, c, has, htapped⟩, hmade⟩ := ih ht d hd
      refine ⟨k, form, ⟨before, after ++ [a], u, c, ?_, htapped⟩, hcredentials.trans hmade⟩
      rw [hfilename, has, List.append_assoc, List.cons_append]
    · exact ⟨k, form, ⟨as, [], t, c, rfl, ht, hc, henabled, hform⟩, hcredentials⟩

theorem picked_run (hrun : run (system v) as = some s) {k : Nat} {c : RegistrationController}
    (hc : s.controllers[k]? = some c) {image : UIImage} (himage : c.profileImage = some image) :
    .didFinishPicking k (some image) ∈ as := by
  induction as using List.reverseRecOn generalizing s c with
  | nil =>
    cases hrun
    cases hc
  | append_singleton as a ih =>
    obtain ⟨t, ht, hs⟩ := (run_snoc_iff (system v) s as a).mp hrun
    rcases picked_step hs hc himage with ⟨d, hd, hold⟩ | rfl
    · exact List.mem_append_left _ (ih ht hd hold)
    · exact List.mem_append_right _ (List.mem_singleton.mpr rfl)

/-- The form that is read behind an enabled button is complete. -/
theorem complete_filledIn {c : RegistrationController}
    (hc : WellFormed registrationViewModel c.form) (henabled : c.form.isEnabled)
    {form : RegistrationForm} (hform : c.filledIn = some form) : Complete form := by
  have htexts := hc.enabled.mp henabled
  obtain ⟨image, -, rfl⟩ := Option.map_eq_some_iff.mp hform
  exact ⟨htexts .email, htexts .password, htexts .fullname, htexts .username⟩

theorem Tapped.complete (hplain : ∀ a ∈ as, a.PlainUID) {k : Nat} {form : RegistrationForm}
    {filename : String} (h : Tapped v as k form filename) : Complete form := by
  obtain ⟨before, after, t, c, rfl, ht, hc, henabled, hform⟩ := h
  have hforms := fromForms_run ht fun a ha => hplain a (List.mem_append_left _ ha)
  exact complete_filledIn (hforms.forms c (List.mem_of_getElem? hc)) henabled hform

theorem Tapped.picked {k : Nat} {form : RegistrationForm} {filename : String}
    (h : Tapped v as k form filename) : .didFinishPicking k (some form.profileImage) ∈ as := by
  obtain ⟨before, after, t, c, rfl, ht, hc, henabled, hform⟩ := h
  obtain ⟨image, himage, rfl⟩ := Option.map_eq_some_iff.mp hform
  exact List.mem_append_left _ (picked_run ht hc himage)

end Runs

/-- The account of the user belongs to a call of `createUser` that a tap made, with the form
as its controller `k` held it then: complete, with the picture that was chosen. -/
structure RegisteredWith (v : CharacterView χ) (as : List Action) (s : State) (user : User)
    (k : Nat) (form : RegistrationForm) : Prop where
  call : ∃ c a, Registration.Wrote s.backend c a ∧ a.uid = user.uid ∧
    Tapped v as k form c.filename ∧ c.credentials = form.credentials v
  complete : Complete form
  picked : .didFinishPicking k (some form.profileImage) ∈ as
  email : user.email = form.email
  fullname : user.fullname = form.fullname
  username : user.username = v.lowercased form.username

/-- A part of the username as it was typed is found in the username as it is stored. -/
theorem satisfies_typed [DecidableEq χ] (v : CharacterView χ) {user : User} {typed text : String}
    (husername : user.username = v.lowercased typed) (hne : text ≠ "")
    (hpart : v.characters text <:+: v.characters typed) : satisfies v text user := by
  rw [satisfies, Bool.or_eq_true]
  left
  rw [husername, contains_iff, v.characters_lowercased, v.characters_lowercased]
  exact CaseMapping.found_apply_of_infix v.mapping (characters_ne_nil v hne) hpart

/-- Whatever forms were filled in and tapped, and however their calls have gone: a user that
`fetchUsers` hands over is somebody else, registered with a form that was complete when its
button was tapped, and the search finds them by every part of the username in the letters it
was typed with. -/
theorem registered_users_found [DecidableEq χ] {v : CharacterView χ} {s : State}
    {as : List Action} (hrun : run (system v) as = some s) (hplain : ∀ a ∈ as, a.PlainUID)
    {u : String} (hu : u ≠ "" ∧ '/' ∉ u.toList) {snapshot : List (ResourcePath × Dictionary)}
    (hsnapshot : snapshot.Perm (s.backend.users.inCollection collectionUsers)) {users : List User}
    (husers : Service.fetchUsersCallback (some u) (some (snapshot.map Prod.snd)) = some users) :
    ∀ user ∈ users, user.uid ≠ u ∧ ∃ k form, RegisteredWith v as s user k form ∧
      ∀ picker : NewMessage.State, user ∈ picker.users → picker.text ≠ "" →
        v.characters picker.text <:+: v.characters form.username →
        user ∈ (picker.updateSearchResults v).filteredUsers := by
  have h := fromForms_run hrun hplain
  have hdocuments := Registration.lookup_of_snapshot hsnapshot
  have hpaths := Registration.snapshot_paths_nodup hsnapshot
  have hlist := Registration.fetchUsersCallback_snapshot h.backend hdocuments hpaths hu
  intro user huser
  refine ⟨Registration.fetchUsersCallback_other h.backend hdocuments hpaths hu husers user huser, ?_⟩
  rw [hlist] at husers
  obtain rfl := Option.some.inj husers
  obtain ⟨e, he, rfl⟩ := List.mem_map.mp huser
  obtain ⟨c, a, url, hwrote, -, hdata⟩ :=
    Registration.wrote_of_document h.backend (hdocuments e (List.mem_filter.mp he).1)
  obtain ⟨k, form, htapped, hform⟩ := calls_run hrun c (List.mem_of_getElem? hwrote.call)
  rw [hdata, Registration.ofDictionary_userData]
  refine ⟨k, form, ⟨⟨c, a, hwrote, rfl, htapped, hform⟩, htapped.complete hplain, htapped.picked,
    ?_, ?_, ?_⟩, ?_⟩
  · rw [hform]
    rfl
  · rw [hform]
    rfl
  · rw [hform]
    rfl
  · intro picker hpicker hne hpart
    refine (mem_updateSearchResults v hpicker).mpr (satisfies_typed v ?_ hne hpart)
    rw [hform]
    rfl

/-- Ann fills in the form with the username AnnLee, and her call succeeds. -/
def annsSignUp : List Action :=
  [.viewDidLoad, .textDidChange 0 .fullname "Ann Lee", .textDidChange 0 .email "ann@mail",
   .textDidChange 0 .username "AnnLee", .textDidChange 0 .password "secret",
   .handleSignUpPressed 0 "f", .didFinishPicking 0 (some ⟨some [1]⟩), .handleSignUpPressed 0 "f",
   .callback (.putData 0 none), .callback (.downloadURL 0 (some "url")),
   .callback (.createAccount 0 (some "u1") (some "u1") none), .callback (.setData 0 none)]

def signedUp : State := (run (system asciiView) annsSignUp).get (by decide)

/-- Bob finds Ann's profile in his list. -/
theorem registered_users_found_ann :
    ∃ users : List User, users.map User.username = ["annlee"] ∧ ∀ user ∈ users, user.uid ≠ "u2" :=
  ⟨_, rfl, fun user huser => (registered_users_found (s := signedUp) (u := "u2")
    (Option.some_get _).symm (by decide : ∀ a ∈ annsSignUp, a.PlainUID) (by decide)
    (List.Perm.refl _) rfl user huser).1⟩

end ChipChat.SignUps
