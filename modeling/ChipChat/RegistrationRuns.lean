import ChipChat.AuthService
import ChipChat.LabelledSystem

/-!
# Runs of `createUser` calls

Any number of calls run concurrently; every backend operation ends as the action
says. Auth refuses an e-mail that already has an account and never gives a uid twice; it
may report an error for an account it has created. The call keeps its filename, an
account its creator, and `written` which call wrote a users document.
-/

namespace ChipChat.Registration

open LabelledSystem

set_option autoImplicit false

structure Call where
  credentials : RegistrationCredentials
  filename : String
  progress : Progress
  reports : List (Option BackendError)
  deriving DecidableEq, Repr

/-- The account a call created, by the position of the call. -/
structure Account where
  creator : Nat
  email : String
  uid : String
  deriving DecidableEq, Repr

structure State where
  calls : List Call
  images : List (String × List UInt8)
  accounts : List Account
  users : Documents
  written : List (ResourcePath × Nat)

def initial : State := ⟨[], [], [], ∅, []⟩

inductive Action where
  | createUser (credentials : RegistrationCredentials) (filename : String)
  | putData (i : Nat) (error : Option BackendError)
  | downloadURL (i : Nat) (url : Option String)
  | createAccount (i : Nat) (created result : Option String) (error : Option BackendError)
  | setData (i : Nat) (error : Option BackendError)
  deriving DecidableEq

/-- The call goes on as its callback decided, and `completion` is called at the exits that do. -/
def Call.follow (c : Call) (p : Progress) : Call :=
  { c with
    progress := p
    reports := c.reports ++
      match p with
      | .waiting _ => []
      | .ended exit => exit.report.toList }

namespace State

def start (s : State) (credentials : RegistrationCredentials) (filename : String) : State :=
  let c : Call := ⟨credentials, filename, .ended .notEncoded, []⟩
  { s with calls := s.calls ++ [c.follow (AuthService.createUser credentials)] }

def follow (s : State) (i : Nat) (c : Call) (p : Progress) : State :=
  { s with calls := s.calls.set i (c.follow p) }

def putData (s : State) (i : Nat) (c : Call) (imageData : List UInt8)
    (error : Option BackendError) : State :=
  { s.follow i c (AuthService.putDataCallback error) with
    images := if error = none
      then s.images ++ [(AuthService.profileImagePath c.filename, imageData)] else s.images }

def downloadURL (s : State) (i : Nat) (c : Call) (url : Option String) : State :=
  s.follow i c (AuthService.downloadURLCallback url)

def createAccount (s : State) (i : Nat) (c : Call) (profileImageURL : String)
    (created result : Option String) (error : Option BackendError) : State :=
  { s.follow i c
      (AuthService.createAccountCallback c.credentials profileImageURL result error) with
    accounts := s.accounts ++ (created.map (Account.mk i c.credentials.email)).toList }

def setData (s : State) (i : Nat) (c : Call) (uid : String) (data : Dictionary)
    (error : Option BackendError) : State :=
  { s.follow i c (AuthService.setDataCallback error) with
    users := if error = none
      then s.users.insert (AuthService.userReference uid).path data else s.users
    written := if error = none
      then s.written ++ [((AuthService.userReference uid).path, i)] else s.written }

end State

/-- What Auth may do and answer. It creates an account only for an e-mail without one, with
a new uid. The account it reports is the one it created; after an error nothing is
reported, although the account stays if a step after the sign-up is what failed. -/
structure AuthAnswer (accounts : List Account) (email : String) (created result : Option String)
    (error : Option BackendError) : Prop where
  refused : error ≠ none → result = none
  reported : ∀ uid ∈ result, created = some uid
  fresh : ∀ uid ∈ created, uid ≠ "" ∧ uid ∉ accounts.map Account.uid ∧
    email ∉ accounts.map Account.email

theorem authAnswer_iff (accounts : List Account) (email : String) (created result : Option String)
    (error : Option BackendError) :
    AuthAnswer accounts email created result error ↔
      (error ≠ none → result = none) ∧ (∀ uid ∈ result, created = some uid) ∧
        ∀ uid ∈ created, uid ≠ "" ∧ uid ∉ accounts.map Account.uid ∧
          email ∉ accounts.map Account.email :=
  ⟨fun h => ⟨h.1, h.2, h.3⟩, fun h => ⟨h.1, h.2.1, h.2.2⟩⟩

instance (accounts : List Account) (email : String) (created result : Option String)
    (error : Option BackendError) : Decidable (AuthAnswer accounts email created result error) :=
  decidable_of_iff' _ (authAnswer_iff accounts email created result error)

def step (s : State) : Action → Option State
  | .createUser credentials filename =>
      if filename ∈ s.calls.map Call.filename then none
      else some (s.start credentials filename)
  | .putData i error =>
      match s.calls[i]? with
      | none => none
      | some c =>
        match c.progress with
        | .waiting (.puttingData imageData) => some (s.putData i c imageData error)
        | _ => none
  | .downloadURL i url =>
      match s.calls[i]? with
      | none => none
      | some c =>
        match c.progress with
        | .waiting .fetchingURL => some (s.downloadURL i c url)
        | _ => none
  | .createAccount i created result error =>
      match s.calls[i]? with
      | none => none
      | some c =>
        match c.progress with
        | .waiting (.creatingAccount profileImageURL) =>
            if AuthAnswer s.accounts c.credentials.email created result error
            then some (s.createAccount i c profileImageURL created result error) else none
        | _ => none
  | .setData i error =>
      match s.calls[i]? with
      | none => none
      | some c =>
        match c.progress with
        | .waiting (.writingUser uid data) => some (s.setData i c uid data error)
        | _ => none

def system : System State Action := ⟨initial, step⟩

/-- Everything one step can do. -/
inductive Change (s : State) : Action → State → Prop where
  | started (credentials : RegistrationCredentials) (filename : String)
      (hf : filename ∉ s.calls.map Call.filename) :
      Change s (.createUser credentials filename) (s.start credentials filename)
  | put (i : Nat) (c : Call) (imageData : List UInt8) (error : Option BackendError)
      (hc : s.calls[i]? = some c) (hp : c.progress = .waiting (.puttingData imageData)) :
      Change s (.putData i error) (s.putData i c imageData error)
  | downloaded (i : Nat) (c : Call) (url : Option String) (hc : s.calls[i]? = some c)
      (hp : c.progress = .waiting .fetchingURL) :
      Change s (.downloadURL i url) (s.downloadURL i c url)
  | answered (i : Nat) (c : Call) (profileImageURL : String) (created result : Option String)
      (error : Option BackendError) (hc : s.calls[i]? = some c)
      (hp : c.progress = .waiting (.creatingAccount profileImageURL))
      (hauth : AuthAnswer s.accounts c.credentials.email created result error) :
      Change s (.createAccount i created result error)
        (s.createAccount i c profileImageURL created result error)
  | wrote (i : Nat) (c : Call) (uid : String) (data : Dictionary) (error : Option BackendError)
      (hc : s.calls[i]? = some c) (hp : c.progress = .waiting (.writingUser uid data)) :
      Change s (.setData i error) (s.setData i c uid data error)

theorem step_change {s t : State} {a : Action} (h : step s a = some t) : Change s a t := by
  cases a with
  | createUser credentials filename =>
    simp only [step, Option.ite_none_left_eq_some, Option.some.injEq] at h
    exact h.2 ▸ .started credentials filename h.1
  | putData i error =>
    simp only [step] at h
    split at h
    · cases h
    · rename_i c hc
      split at h
      · rename_i imageData hp
        exact Option.some.inj h ▸ .put i c imageData error hc hp
      · cases h
  | downloadURL i url =>
    simp only [step] at h
    split at h
    · cases h
    · rename_i c hc
      split at h
      · rename_i hp
        exact Option.some.inj h ▸ .downloaded i c url hc hp
      · cases h
  | createAccount i created result error =>
    simp only [step] at h
    split at h
    · cases h
    · rename_i c hc
      split at h
      · rename_i profileImageURL hp
        simp only [Option.ite_none_right_eq_some, Option.some.injEq] at h
        exact h.2 ▸ .answered i c profileImageURL created result error hc hp h.1
      · cases h
  | setData i error =>
    simp only [step] at h
    split at h
    · cases h
    · rename_i c hc
      split at h
      · rename_i uid data hp
        exact Option.some.inj h ▸ .wrote i c uid data error hc hp
      · cases h

/-- The account an action makes Auth create, with the position of the call. -/
def Action.created : Action → Option (Nat × String)
  | .createAccount i created _ _ => created.map (Prod.mk i)
  | _ => none

/-- `accounts` lists the accounts Auth created in the run, each once and in order. -/
theorem accounts_step {s t : State} {a : Action} (h : step s a = some t) :
    (t.accounts.map fun e => (e.creator, e.uid)) =
      (s.accounts.map fun e => (e.creator, e.uid)) ++ a.created.toList := by
  cases step_change h with
  | answered i c profileImageURL created result error hc hp hauth =>
    cases created <;> simp [Action.created, State.createAccount]
  | started | put | downloaded | wrote =>
    simp [Action.created, State.start, State.putData, State.downloadURL, State.setData,
      State.follow]

theorem accounts_run {s : State} {as : List Action} (h : run system as = some s) :
    (s.accounts.map fun e => (e.creator, e.uid)) = as.filterMap Action.created := by
  induction as using List.reverseRecOn generalizing s with
  | nil =>
    cases h
    rfl
  | append_singleton as a ih =>
    obtain ⟨t, ht, hs⟩ := (run_snoc_iff system s as a).mp h
    rw [accounts_step hs, ih ht, List.filterMap_append]
    cases ha : a.created <;> simp [ha]

end ChipChat.Registration
