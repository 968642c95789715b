import ChipChat.AuthService
import ChipChat.LabelledSystem

/-!
# The screens of one app process

`ConversationsController` presents the other screens or pushes a chat. Nothing is
presented over a screen; what is presented from behind a chat is forwarded to the
navigation controller, which presents it over the chat. What a controller dismisses goes
away with all that is over it. The user acts on what is visible, and pending logins and
registrations return at any time, also after their screens are gone. `sent` pairs
each upload made from a chat with the query the chat listens to.
-/

namespace ChipChat.Screens

open LabelledSystem

set_option autoImplicit false

/-- A presented screen: `login` with the registration form pushed or not, `profile` with the
logout alert up or not. -/
inductive Screen where
  | login (registering : Bool)
  | profile (alert : Bool)
  | newMessage
  deriving DecidableEq, Repr

def Screen.isLogin : Screen → Bool
  | .login _ => true
  | _ => false

/-- A pushed `ChatController`, with the query its `viewDidLoad` started to listen to. -/
structure Chat where
  user : User
  query : Option CollectionReference
  deriving DecidableEq, Repr

/-- `queued` counts the blocks of `presentLoginScreen` on the main queue. -/
structure State where
  currentUser : Option String
  queued : Nat
  presented : Option Screen
  chat : Option Chat
  listeners : List CollectionReference
  logins : Nat
  registrations : List (RegistrationCredentials × Stage)
  sent : List (Option CollectionReference × Write)

namespace State

/-- Login is what is presented. -/
def atLogin (s : State) : Bool := s.presented.any Screen.isLogin

/-- The view of `ConversationsController` is visible. -/
def Uncovered (s : State) : Prop := s.presented = none ∧ s.chat = none

instance (s : State) : Decidable s.Uncovered := inferInstanceAs (Decidable (_ ∧ _))

def present (s : State) (screen : Screen) : State := { s with presented := some screen }

def dismiss (s : State) : State := { s with presented := none }

def fetchConversations (s : State) : State :=
  { s with listeners := s.listeners ++ (Service.fetchConversations s.currentUser).toList }

/-- `presentLoginScreen` only puts a block on the main queue. -/
def presentLoginScreen (s : State) : State := { s with queued := s.queued + 1 }

/-- The block: it finds another screen presented, or presents a new `LoginController`. -/
def presentLogin (s : State) : State :=
  { s with
    queued := s.queued - 1
    presented := if s.presented = none then some (.login false) else s.presented }

def authenticateUser (s : State) : State :=
  if s.currentUser = none then s.presentLoginScreen else s

def showChatController (s : State) (user : User) : State :=
  { s with chat := some ⟨user, Service.fetchMessages s.currentUser user⟩ }

/-- `inputView(_:wantsToSend:)` of the chat; the call makes its first write, or none. -/
def wantsToSend (s : State) (c : Chat) (message : String) (date : Timestamp) : State :=
  { s with
    sent := s.sent ++ (Service.uploadMessage s.sent.length 0 s.currentUser message c.user date).toList.map
      fun w => (c.query, w) }

/-- `logout()`, where `signOut` throws or not. -/
def logout (s : State) (thrown : Bool) : State :=
  if thrown then s else { s with currentUser := none }.presentLoginScreen

def authenticationComplete (s : State) : State := s.dismiss.fetchConversations

/-- The completion `LoginController` passes to `logUserIn`, which holds it weakly. -/
def loginReturned (s : State) (result : Except BackendError String) (alive : Bool) : State :=
  let s := { s with logins := s.logins - 1 }
  match result with
  | .error _ => s
  | .ok uid =>
      let s := { s with currentUser := some uid }
      if alive then s.authenticationComplete else s

/-- The completion `RegistrationController` passes to `createUser`, which holds it strongly. -/
def registrationEnded (s : State) (exit : Exit) : State :=
  match exit.report with
  | some none => s.authenticationComplete
  | some (some _) | none => s

def registrationAt (s : State) (i : Nat) (credentials : RegistrationCredentials) :
    Progress → State
  | .waiting stage => { s with registrations := s.registrations.set i (credentials, stage) }
  | .ended exit => { s with registrations := s.registrations.eraseIdx i }.registrationEnded exit

def handleSignUpPressed (s : State) (credentials : RegistrationCredentials) : State :=
  match AuthService.createUser credentials with
  | .waiting stage => { s with registrations := s.registrations ++ [(credentials, stage)] }
  | .ended exit => s.registrationEnded exit

end State

/-- What `viewDidLoad` of the root controller leaves. -/
def launched (currentUser : Option String) : State :=
  (State.authenticateUser ⟨currentUser, 0, none, none, [], 0, [], []⟩).fetchConversations

inductive Action where
  | presentLogin
  | showProfile
  | showNewMessage
  | selectRow (user : User)
  | selectUser (user : User)
  | handleDismiss
  | back
  | wantsToSend (message : String) (date : Timestamp)
  | dismissController
  | handleLogout
  | cancel
  | logout (thrown : Bool)
  | handleShowSignUp
  | handleShowLogin
  | handleLoginPressed
  | loginReturned (result : Except BackendError String) (alive : Bool)
  | handleSignUpPressed (credentials : RegistrationCredentials)
  | putData (i : Nat) (error : Option BackendError)
  | downloadURL (i : Nat) (url : Option String)
  | createAccount (i : Nat) (result : Option String) (error : Option BackendError)
  | setData (i : Nat) (error : Option BackendError)
  deriving DecidableEq

def step (s : State) : Action → Option State
  | .presentLogin => if 0 < s.queued then some s.presentLogin else none
  | .showProfile => if s.Uncovered then some (s.present (.profile false)) else none
  | .showNewMessage => if s.Uncovered then some (s.present .newMessage) else none
  | .selectRow user => if s.Uncovered then some (s.showChatController user) else none
  | .selectUser user =>
      if s.presented = some .newMessage then some (s.dismiss.showChatController user) else none
  | .handleDismiss => if s.presented = some .newMessage then some s.dismiss else none
  | .back => if s.presented = none then some { s with chat := none } else none
  | .wantsToSend message date =>
      match s.chat with
      | none => none
      | some c => if s.presented = none then some (s.wantsToSend c message date) else none
  | .dismissController => if s.presented = some (.profile false) then some s.dismiss else none
  | .handleLogout =>
      if s.presented = some (.profile false) then some (s.present (.profile true)) else none
  | .cancel => if s.presented = some (.profile true) then some (s.present (.profile false)) else none
  -- the alert's handler dismisses the profile and logs out once it is gone
  | .logout thrown =>
      if s.presented = some (.profile true) then some (s.dismiss.logout thrown) else none
  | .handleShowSignUp =>
      if s.presented = some (.login false) then some (s.present (.login true)) else none
  | .handleShowLogin =>
      if s.presented = some (.login true) then some (s.present (.login false)) else none
  | .handleLoginPressed =>
      if s.presented = some (.login false) then some { s with logins := s.logins + 1 } else none
  | .loginReturned result alive =>
      if 0 < s.logins then some (s.loginReturned result alive) else none
  | .handleSignUpPressed credentials =>
      if s.presented = some (.login true) then some (s.handleSignUpPressed credentials) else none
  | .putData i error =>
      match s.registrations[i]? with
      | some (credentials, .puttingData _) =>
          some (s.registrationAt i credentials (AuthService.putDataCallback error))
      | _ => none
  | .downloadURL i url =>
      match s.registrations[i]? with
      | some (credentials, .fetchingURL) =>
          some (s.registrationAt i credentials (AuthService.downloadURLCallback url))
      | _ => none
  -- creating an account signs it in
  | .createAccount i result error =>
      match s.registrations[i]? with
      | some (credentials, .creatingAccount profileImageURL) =>
          some ({ s with currentUser := result.or s.currentUser }.registrationAt i credentials
            (AuthService.createAccountCallback credentials profileImageURL result error))
      | _ => none
  | .setData i error =>
      match s.registrations[i]? with
      | some (credentials, .writingUser _ _) =>
          some (s.registrationAt i credentials (AuthService.setDataCallback error))
      | _ => none

/-- The process is launched with the account `Auth` still knows, if any. -/
def system (currentUser : Option String) : System State Action := ⟨launched currentUser, step⟩

/-- Other calls pending, and otherwise the same. -/
def State.pending (s : State) (logins : Nat) (registrations : List (RegistrationCredentials × Stage)) :
    State :=
  { s with logins := logins, registrations := registrations }

/-- The account an action signs in. -/
def Action.signsIn : Action → Option String
  | .loginReturned (.ok uid) _ => some uid
  | .createAccount _ result _ => result
  | _ => none

/-- The action ends in `authenticationComplete`. -/
def Action.completes : Action → Bool
  | .loginReturned (.ok _) true => true
  | .setData _ none => true
  | _ => false

/-- The action is one of the user's, on what is visible. -/
def Action.Visible (a : Action) : Prop :=
  a ≠ .presentLogin ∧ a.signsIn = none ∧ a.completes = false

theorem registrationAt_eq (s : State) (i : Nat) (credentials : RegistrationCredentials)
    (p : Progress) : ∃ registrations, s.registrationAt i credentials p =
      if p = .ended (.userWritten none)
      then (s.pending s.logins registrations).authenticationComplete
      else s.pending s.logins registrations := by
  cases p with
  | waiting stage => exact ⟨_, rfl⟩
  | ended exit =>
    refine ⟨s.registrations.eraseIdx i, ?_⟩
    cases exit with
    | userWritten error => cases error <;> rfl
    | notEncoded | uploadFailed | noURL | accountRefused | noResult => rfl

theorem handleSignUpPressed_eq (s : State) (credentials : RegistrationCredentials) :
    ∃ registrations, s.handleSignUpPressed credentials = s.pending s.logins registrations := by
  unfold State.handleSignUpPressed AuthService.createUser
  cases credentials.profileImage.jpegData with
  | none => exact ⟨s.registrations, rfl⟩
  | some imageData => exact ⟨_, rfl⟩

/-- Everything one step can do. -/
inductive Change (s : State) (a : Action) : State → Prop where
  | loginDue (ha : a = .presentLogin) (hs : 0 < s.queued) : Change s a s.presentLogin
  | presented (screen : Screen) (ha : a.Visible) (hs : s.Uncovered)
      (hscreen : screen.isLogin = false) : Change s a (s.present screen)
  | replaced (screen screen' : Screen) (ha : a.Visible) (hs : s.presented = some screen)
      (hscreen : screen'.isLogin = screen.isLogin) : Change s a (s.present screen')
  | dismissed (screen : Screen) (ha : a.Visible) (hs : s.presented = some screen)
      (hscreen : screen.isLogin = false) : Change s a s.dismiss
  | loggedOut (screen : Screen) (ha : a.Visible) (hs : s.presented = some screen)
      (hscreen : screen.isLogin = false) : Change s a (s.dismiss.logout false)
  | pushed (user : User) (ha : a.Visible)
      (hs : s.Uncovered ∨ s.presented = some .newMessage) :
      Change s a (s.dismiss.showChatController user)
  | popped (ha : a.Visible) (hs : s.presented = none) : Change s a { s with chat := none }
  | uploaded (c : Chat) (message : String) (date : Timestamp) (ha : a.Visible)
      (hs : s.chat = some c) : Change s a (s.wantsToSend c message date)
  | returned (logins : Nat) (registrations : List (RegistrationCredentials × Stage))
      (ha : a ≠ .presentLogin) (hc : a.completes = false) :
      Change s a { s.pending logins registrations with currentUser := a.signsIn.or s.currentUser }
  | completed (logins : Nat) (registrations : List (RegistrationCredentials × Stage))
      (ha : a ≠ .presentLogin) (hc : a.completes = true) :
      Change s a (State.authenticationComplete
        { s.pending logins registrations with currentUser := a.signsIn.or s.currentUser })

theorem change_registrationAt (s : State) {a : Action} (ha : a ≠ .presentLogin) (i : Nat)
    (credentials : RegistrationCredentials) (p : Progress)
    (hp : a.completes = decide (p = .ended (.userWritten none))) :
    Change s a ({ s with currentUser := a.signsIn.or s.currentUser }.registrationAt i
      credentials p) := by
  obtain ⟨registrations, h⟩ :=
    registrationAt_eq { s with currentUser := a.signsIn.or s.currentUser } i credentials p
  rw [h]
  split_ifs with hended
  · exact .completed _ _ ha (by simpa [hended] using hp)
  · exact .returned _ _ ha (by simpa [hended] using hp)

theorem step_change {s t : State} {a : Action} (h : step s a = some t) : Change s a t := by
  cases a with
  | presentLogin =>
    obtain ⟨hs, ht⟩ := Option.ite_none_right_eq_some.mp h
    cases ht
    exact .loginDue rfl hs
  | showProfile =>
    obtain ⟨hs, ht⟩ := Option.ite_none_right_eq_some.mp h
    cases ht
    exact .presented _ ⟨by simp, rfl, rfl⟩ hs rfl
  | showNewMessage =>
    obtain ⟨hs, ht⟩ := Option.ite_none_right_eq_some.mp h
    cases ht
    exact .presented _ ⟨by simp, rfl, rfl⟩ hs rfl
  | selectRow user =>
    obtain ⟨hs, ht⟩ := Option.ite_none_right_eq_some.mp h
    cases ht
    have hdismiss : s.dismiss = s := by rw [State.dismiss, ← hs.1]
    simpa only [hdismiss] using
      Change.pushed (a := .selectRow user) user ⟨by simp, rfl, rfl⟩ (Or.inl hs)
  | selectUser user =>
    obtain ⟨hs, ht⟩ := Option.ite_none_right_eq_some.mp h
    cases ht
    exact .pushed user ⟨by simp, rfl, rfl⟩ (.inr hs)
  | handleDismiss =>
    obtain ⟨hs, ht⟩ := Option.ite_none_right_eq_some.mp h
    cases ht
    exact .dismissed _ ⟨by simp, rfl, rfl⟩ hs rfl
  | back =>
    obtain ⟨hs, ht⟩ := Option.ite_none_right_eq_some.mp h
    cases ht
    exact .popped ⟨by simp, rfl, rfl⟩ hs
  | wantsToSend message date =>
    cases hc : s.chat with
    | none => simp [step, hc] at h
    | some c =>
      simp only [step, hc] at h
      obtain ⟨-, ht⟩ := Option.ite_none_right_eq_some.mp h
      cases ht
      exact .uploaded c message date ⟨by simp, rfl, rfl⟩ hc
  | dismissController =>
    obtain ⟨hs, ht⟩ := Option.ite_none_right_eq_some.mp h
    cases ht
    exact .dismissed _ ⟨by simp, rfl, rfl⟩ hs rfl
  | handleLogout =>
    obtain ⟨hs, ht⟩ := Option.ite_none_right_eq_some.mp h
    cases ht
    exact .replaced _ _ ⟨by simp, rfl, rfl⟩ hs rfl
  | cancel =>
    obtain ⟨hs, ht⟩ := Option.ite_none_right_eq_some.mp h
    cases ht
    exact .replaced _ _ ⟨by simp, rfl, rfl⟩ hs rfl
  | logout thrown =>
    obtain ⟨hs, ht⟩ := Option.ite_none_right_eq_some.mp h
    cases ht
    cases thrown with
    | false => exact .loggedOut _ ⟨by simp, rfl, rfl⟩ hs rfl
    | true => exact .dismissed _ ⟨by simp, rfl, rfl⟩ hs rfl
  | handleShowSignUp =>
    obtain ⟨hs, ht⟩ := Option.ite_none_right_eq_some.mp h
    cases ht
    exact .replaced _ _ ⟨by simp, rfl, rfl⟩ hs rfl
  | handleShowLogin =>
    obtain ⟨hs, ht⟩ := Option.ite_none_right_eq_some.mp h
    cases ht
    exact .replaced _ _ ⟨by simp, rfl, rfl⟩ hs rfl
  | handleLoginPressed =>
    obtain ⟨-, ht⟩ := Option.ite_none_right_eq_some.mp h
    cases ht
    exact .returned (s := s) (a := .handleLoginPressed) (s.logins + 1) s.registrations (by simp) rfl
  | loginReturned result alive =>
    obtain ⟨-, ht⟩ := Option.ite_none_right_eq_some.mp h
    cases ht
    match result, alive with
    | .error error, alive =>
      exact .returned (s := s) (a := .loginReturned (.error error) alive) (s.logins - 1)
        s.registrations (by simp) rfl
    | .ok uid, false =>
      exact .returned (a := .loginReturned (.ok uid) false) _ s.registrations (by simp) rfl
    | .ok uid, true =>
      exact .completed (a := .loginReturned (.ok uid) true) _ s.registrations (by simp) rfl
  | handleSignUpPressed credentials =>
    obtain ⟨-, ht⟩ := Option.ite_none_right_eq_some.mp h
    cases ht
    obtain ⟨registrations, h'⟩ := handleSignUpPressed_eq s credentials
    rw [h']
    exact .returned s.logins registrations (by simp) rfl
  | putData i error =>
    simp only [step] at h
    split at h
    · cases h
      exact change_registrationAt s (by simp) i _ _ (by cases error <;> rfl)
    · cases h
  | downloadURL i url =>
    simp only [step] at h
    split at h
    · cases h
      exact change_registrationAt s (by simp) i _ _ (by cases url <;> rfl)
    · cases h
  | createAccount i result error =>
    simp only [step] at h
    split at h
    · cases h
      exact change_registrationAt s (by simp) i _ _ (by cases error <;> cases result <;> rfl)
    · cases h
  | setData i error =>
    simp only [step] at h
    split at h
    · cases h
      exact change_registrationAt s (by simp) i _ _ (by cases error <;> rfl)
    · cases h

end ChipChat.Screens
