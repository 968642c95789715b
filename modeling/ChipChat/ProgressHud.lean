import ChipChat.AuthService
import ChipChat.LabelledSystem

/-!
# The shared progress HUD

All view controllers show and hide one HUD. A load is listed as pending from its
call until the backend operations it started have returned; a load of conversations
until the first snapshot or error of its listener and the lookups of that snapshot.
Lookups of later snapshots hide the HUD as well, and are counted apart.
-/

namespace ChipChat.ProgressHud

open LabelledSystem

set_option autoImplicit false

/-- What a pending load waits for. `lookups n` is one lookup and `n` more. -/
inductive Load where
  | firstSnapshot
  | lookups (more : Nat)
  | users
  | profile
  | login
  | registration (credentials : RegistrationCredentials) (stage : Stage)
  deriving DecidableEq, Repr

structure State where
  hud : Bool
  currentUser : Option String
  pending : List Load
  listeners : Nat
  laterLookups : Nat
  deriving DecidableEq, Repr

def initial : State := ⟨false, none, [], 0, 0⟩

namespace State

def showProgressHud (s : State) (visible : Bool) : State := { s with hud := visible }

def started (s : State) (load : Load) : State := { s with pending := s.pending ++ [load] }

def returned (s : State) (i : Nat) : State := { s with pending := s.pending.eraseIdx i }

/-- `ConversationsController.fetchConversations` -/
def fetchConversations (s : State) : State :=
  -- shown ahead of the guard in `Service`, which may return at once
  let s := s.showProgressHud true
  match Service.fetchConversations s.currentUser with
  | none => s
  | some _ => s.started .firstSnapshot

def firstSnapshot (s : State) (i : Nat) (changes : List DocumentChange) : State :=
  match changes with
  | [] => { s.returned i with listeners := s.listeners + 1 }
  | _ :: changes =>
      { s with pending := s.pending.set i (.lookups changes.length), listeners := s.listeners + 1 }

/-- A `fetchUser` returns; its completion hides the HUD. -/
def userReturned (s : State) (data : Option Dictionary) : State :=
  match Service.fetchUserCallback data with
  | none => s
  | some _ => s.showProgressHud false

def lookupReturned (s : State) (i more : Nat) (data : Option Dictionary) : State :=
  match more with
  | 0 => (s.returned i).userReturned data
  | more + 1 => { s with pending := s.pending.set i (.lookups more) }.userReturned data

def laterSnapshot (s : State) (changes : List DocumentChange) : State :=
  { s with laterLookups := s.laterLookups + changes.length }

def laterLookupReturned (s : State) (data : Option Dictionary) : State :=
  { s with laterLookups := s.laterLookups - 1 }.userReturned data

/-- `NewMessageController.fetchUsers` -/
def fetchUsers (s : State) : State := (s.showProgressHud true).started .users

/-- The controller is held weakly: once it is gone the completion does nothing. -/
def usersReturned (s : State) (i : Nat) (snapshot : Option (List Dictionary)) (alive : Bool) :
    State :=
  match Service.fetchUsersCallback s.currentUser snapshot with
  | none => s.returned i
  | some _ => if alive then (s.returned i).showProgressHud false else s.returned i

/-- `ProfileController.fetchUser` -/
def fetchUser (s : State) : State :=
  match s.currentUser with
  | none => s
  | some _ => (s.showProgressHud true).started .profile

def profileReturned (s : State) (i : Nat) (data : Option Dictionary) : State :=
  (s.returned i).userReturned data

/-- `LoginController.handleLoginPressed` -/
def handleLoginPressed (s : State) : State := (s.showProgressHud true).started .login

/-- A signed-in account is `Auth`'s doing; hiding and reloading are the controller's, while it lives. -/
def loginReturned (s : State) (i : Nat) (result : Except BackendError String) (alive : Bool) :
    State :=
  match result with
  | .error _ => if alive then (s.returned i).showProgressHud false else s.returned i
  | .ok uid =>
      let s := { s.returned i with currentUser := some uid }
      if alive then (s.showProgressHud false).fetchConversations else s

/-- The completion `RegistrationController` passes to `createUser`, if the exit calls it. -/
def registrationEnded (s : State) (exit : Exit) : State :=
  match exit.report with
  | none => s
  | some (some _) => s.showProgressHud false
  | some none => (s.showProgressHud false).fetchConversations

def registrationAt (s : State) (credentials : RegistrationCredentials) : Progress → State
  | .waiting stage => s.started (.registration credentials stage)
  | .ended exit => s.registrationEnded exit

/-- `RegistrationController.handleSignUpPressed`, past its guards. -/
def handleSignUpPressed (s : State) (credentials : RegistrationCredentials) : State :=
  (s.showProgressHud true).registrationAt credentials (AuthService.createUser credentials)

/-- Creating an account signs it in. -/
def accountReturned (s : State) (i : Nat) (credentials : RegistrationCredentials)
    (profileImageURL : String) (result : Option String) (error : Option BackendError) : State :=
  { s.returned i with currentUser := result.or s.currentUser }.registrationAt credentials
    (AuthService.createAccountCallback credentials profileImageURL result error)

end State

inductive Action where
  | fetchConversations
  | firstSnapshot (i : Nat) (changes : List DocumentChange)
  | listenerFailed (i : Nat)
  | lookupReturned (i : Nat) (data : Option Dictionary)
  | laterSnapshot (changes : List DocumentChange)
  | laterLookupReturned (data : Option Dictionary)
  | fetchUsers
  | usersReturned (i : Nat) (snapshot : Option (List Dictionary)) (alive : Bool)
  | fetchUser
  | profileReturned (i : Nat) (data : Option Dictionary)
  | handleLoginPressed
  | loginReturned (i : Nat) (result : Except BackendError String) (alive : Bool)
  | handleSignUpPressed (credentials : RegistrationCredentials)
  | putDataReturned (i : Nat) (error : Option BackendError)
  | urlReturned (i : Nat) (url : Option String)
  | accountReturned (i : Nat) (result : Option String) (error : Option BackendError)
  | setDataReturned (i : Nat) (error : Option BackendError)
  | signOut

def step (s : State) : Action → Option State
  | .fetchConversations => some s.fetchConversations
  | .firstSnapshot i changes =>
      if s.pending[i]? = some .firstSnapshot then some (s.firstSnapshot i changes) else none
  | .listenerFailed i => if s.pending[i]? = some .firstSnapshot then some (s.returned i) else none
  | .lookupReturned i data =>
      match s.pending[i]? with
      | some (.lookups more) => some (s.lookupReturned i more data)
      | _ => none
  | .laterSnapshot changes => if 0 < s.listeners then some (s.laterSnapshot changes) else none
  | .laterLookupReturned data =>
      if 0 < s.laterLookups then some (s.laterLookupReturned data) else none
  | .fetchUsers => some s.fetchUsers
  | .usersReturned i snapshot alive =>
      if s.pending[i]? = some .users then some (s.usersReturned i snapshot alive) else none
  | .fetchUser => some s.fetchUser
  | .profileReturned i data =>
      if s.pending[i]? = some .profile then some (s.profileReturned i data) else none
  | .handleLoginPressed => some s.handleLoginPressed
  | .loginReturned i result alive =>
      if s.pending[i]? = some .login then some (s.loginReturned i result alive) else none
  | .handleSignUpPressed credentials => some (s.handleSignUpPressed credentials)
  | .putDataReturned i error =>
      match s.pending[i]? with
      | some (.registration credentials (.puttingData _)) =>
          some ((s.returned i).registrationAt credentials (AuthService.putDataCallback error))
      | _ => none
  | .urlReturned i url =>
      match s.pending[i]? with
      | some (.registration credentials .fetchingURL) =>
          some ((s.returned i).registrationAt credentials (AuthService.downloadURLCallback url))
      | _ => none
  | .accountReturned i result error =>
      match s.pending[i]? with
      | some (.registration credentials (.creatingAccount profileImageURL)) =>
          some (s.accountReturned i credentials profileImageURL result error)
      | _ => none
  | .setDataReturned i error =>
      match s.pending[i]? with
      | some (.registration credentials (.writingUser _ _)) =>
          some ((s.returned i).registrationAt credentials (AuthService.setDataCallback error))
      | _ => none
  | .signOut => some { s with currentUser := none }

def system : System State Action := ⟨initial, step⟩

def Truthful (s : State) : Prop := s.hud = true ↔ s.pending ≠ []

instance (s : State) : Decidable (Truthful s) := inferInstanceAs (Decidable (_ ↔ _))

section Effects
variable {s : State} {i : Nat}

theorem truthful_shown : Truthful (s.showProgressHud true) ↔ s.pending ≠ [] := by
  simp [Truthful, State.showProgressHud]

theorem truthful_hidden : Truthful (s.showProgressHud false) ↔ s.pending = [] := by
  simp [Truthful, State.showProgressHud]

theorem truthful_started (load : Load) : Truthful ((s.showProgressHud true).started load) := by
  simp [Truthful, State.showProgressHud, State.started]

theorem pending_returned (hi : i < s.pending.length) :
    (s.returned i).pending = [] ↔ s.pending.length = 1 := by
  rw [State.returned, ← List.length_eq_zero_iff, List.length_eraseIdx_of_lt hi]
  omega

/-- A load that ends without a word leaves the HUD to the others. -/
theorem truthful_returned (h : Truthful s) (hi : i < s.pending.length) :
    Truthful (s.returned i) ↔ s.pending.length ≠ 1 := by
  have hpending : s.pending ≠ [] := by
    intro hnil
    simp [hnil] at hi
  have hhud : (s.returned i).hud = true := h.mpr hpending
  rw [Truthful, hhud, ne_eq, pending_returned hi]
  simp

/-- A load that ends by hiding the HUD hides it for the others too. -/
theorem truthful_returned_hidden (hi : i < s.pending.length) :
    Truthful ((s.returned i).showProgressHud false) ↔ s.pending.length = 1 :=
  truthful_hidden.trans (pending_returned hi)

theorem truthful_set (load : Load) :
    Truthful { s with pending := s.pending.set i load } ↔ Truthful s := by
  simp [Truthful]

theorem truthful_fetchConversations :
    Truthful s.fetchConversations ↔ (s.currentUser = none → s.pending ≠ []) := by
  obtain ⟨hud, currentUser, pending, listeners, laterLookups⟩ := s
  cases currentUser with
  | none => exact truthful_shown.trans ⟨fun h _ => h, fun h => h rfl⟩
  | some uid => exact iff_of_true (truthful_started _) (by simp)

theorem truthful_userReturned (s : State) (data : Option Dictionary) :
    Truthful (s.userReturned data) ↔ if data = none then Truthful s else s.pending = [] := by
  cases data with
  | none => simp [State.userReturned, Service.fetchUserCallback]
  | some d => simpa [State.userReturned, Service.fetchUserCallback] using truthful_hidden

end Effects

/-- What keeps the HUD truthful. A load that ends by its completion, which hides the
HUD, has to be the only one pending; one that ends without it, or that starts no
backend operation, must not be the only one. A login or registration that succeeds shows
the HUD again with `fetchConversations`, which is all that counts of its completion. -/
def HudKept (s : State) : Action → Prop
  | .fetchConversations => s.currentUser = none → s.pending ≠ []
  | .firstSnapshot _ changes => changes = [] → s.pending.length ≠ 1
  | .listenerFailed _ => s.pending.length ≠ 1
  | .lookupReturned i data =>
      if data = none then s.pending[i]? = some (.lookups 0) → s.pending.length ≠ 1
      else s.pending[i]? = some (.lookups 0) ∧ s.pending.length = 1
  | .laterLookupReturned data => data ≠ none → s.pending = []
  | .usersReturned _ snapshot alive =>
      if snapshot ≠ none ∧ alive then s.pending.length = 1 else s.pending.length ≠ 1
  | .profileReturned _ data =>
      if data = none then s.pending.length ≠ 1 else s.pending.length = 1
  | .loginReturned _ (.error _) alive =>
      if alive then s.pending.length = 1 else s.pending.length ≠ 1
  | .loginReturned _ (.ok _) alive => alive = false → s.pending.length ≠ 1
  | .handleSignUpPressed credentials => credentials.profileImage.jpegData = none → s.pending ≠ []
  | .putDataReturned _ error => error ≠ none → s.pending.length = 1
  | .urlReturned _ url => url = none → s.pending.length ≠ 1
  | .accountReturned _ result error =>
      if error ≠ none then s.pending.length = 1 else result = none → s.pending.length ≠ 1
  | .setDataReturned _ error =>
      if error ≠ none then s.pending.length = 1 else s.currentUser = none → s.pending.length ≠ 1
  | .laterSnapshot _ | .fetchUsers | .fetchUser | .handleLoginPressed | .signOut => True

instance (s : State) (a : Action) : Decidable (HudKept s a) := by
  unfold HudKept
  split <;> infer_instance

section Registration
variable {s : State} {i : Nat}

/-- A registration that goes on is pending as before. -/
theorem truthful_registrationAt_waiting (h : Truthful s) (hi : i < s.pending.length)
    (credentials : RegistrationCredentials) (stage : Stage) :
    Truthful ((s.returned i).registrationAt credentials (.waiting stage)) := by
  have hpending : s.pending ≠ [] := by
    intro hnil
    simp [hnil] at hi
  have hhud : s.hud = true := h.mpr hpending
  simp [Truthful, State.registrationAt, State.started, State.returned, hhud]

theorem truthful_registrationAt_ended (h : Truthful s) (hi : i < s.pending.length)
    (credentials : RegistrationCredentials) (exit : Exit) :
    Truthful ((s.returned i).registrationAt credentials (.ended exit)) ↔
      match exit.report with
      | none => s.pending.length ≠ 1
      | some (some _) => s.pending.length = 1
      | some none => s.currentUser = none → s.pending.length ≠ 1 := by
  simp only [State.registrationAt, State.registrationEnded]
  split
  · exact truthful_returned h hi
  · exact truthful_returned_hidden hi
  · refine truthful_fetchConversations.trans (imp_congr_right fun _ => ?_)
    exact (pending_returned hi).not

end Registration

end ChipChat.ProgressHud
