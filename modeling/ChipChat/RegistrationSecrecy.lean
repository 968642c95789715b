import ChipChat.RegistrationWrites

/-!
# What other accounts can read of a password

Hiding a password replaces it wherever the state holds it. Hiding commutes with
every step, so two runs that differ in the passwords only end in states that
differ in the hidden places only: the `password` field of the users documents is
one of them, the decoded users and the images are not.
-/

namespace ChipChat

set_option autoImplicit false

def Dictionary.hidePassword (d : Dictionary) : Dictionary :=
  d.map fun e => if e.1 = "password" then (e.1, .string "") else e

theorem lookup_hidePassword (d : Dictionary) {key : String} (h : key ≠ "password") :
    d.hidePassword.lookup key = d.lookup key := by
  induction d with
  | nil => rfl
  | cons e d ih =>
    obtain ⟨k, x⟩ := e
    by_cases hk : k = "password"
    · have hne : (key == k) = false := by simpa [hk] using h
      simp only [Dictionary.hidePassword, List.map_cons, hk, if_true, List.lookup_cons] at ih hne ⊢
      rw [hne]
      exact ih
    · simp only [Dictionary.hidePassword, List.map_cons, hk, if_false, List.lookup_cons] at ih ⊢
      split
      · rfl
      · exact ih

theorem asString_hidePassword (d : Dictionary) {key : String} (h : key ≠ "password") :
    d.hidePassword.asString key = d.asString key := by
  simp [Dictionary.asString, lookup_hidePassword d h]

@[simp] theorem ofDictionary_hidePassword (d : Dictionary) :
    User.ofDictionary d.hidePassword = User.ofDictionary d := by
  simp [User.ofDictionary, asString_hidePassword]

def RegistrationCredentials.hidePassword (c : RegistrationCredentials) : RegistrationCredentials :=
  { c with password := "" }

def Stage.hidePassword : Stage → Stage
  | .writingUser uid data => .writingUser uid data.hidePassword
  | stage => stage

def Progress.hidePassword : Progress → Progress
  | .waiting stage => .waiting stage.hidePassword
  | .ended exit => .ended exit

end ChipChat

namespace ChipChat.Registration

open LabelledSystem

set_option autoImplicit false

def Call.hidePassword (c : Call) : Call :=
  { c with
    credentials := c.credentials.hidePassword
    progress := c.progress.hidePassword }

def State.hidePasswords (s : State) : State :=
  { s with
    calls := s.calls.map Call.hidePassword
    users := WriteLog.mapValues Dictionary.hidePassword s.users }

def Action.hidePassword : Action → Action
  | .createUser credentials filename => .createUser credentials.hidePassword filename
  | a => a

@[simp] theorem userData_hidePassword (c : RegistrationCredentials) (url uid : String) :
    AuthService.userData c.hidePassword url uid = (AuthService.userData c url uid).hidePassword :=
  rfl

theorem createUser_hidePassword (c : RegistrationCredentials) :
    AuthService.createUser c.hidePassword = (AuthService.createUser c).hidePassword := by
  simp only [AuthService.createUser, RegistrationCredentials.hidePassword]
  split <;> rfl

theorem putDataCallback_hidePassword (error : Option BackendError) :
    (AuthService.putDataCallback error).hidePassword = AuthService.putDataCallback error := by
  cases error <;> rfl

theorem downloadURLCallback_hidePassword (url : Option String) :
    (AuthService.downloadURLCallback url).hidePassword = AuthService.downloadURLCallback url := by
  cases url <;> rfl

theorem createAccountCallback_hidePassword (c : RegistrationCredentials) (profileImageURL : String)
    (result : Option String) (error : Option BackendError) :
    AuthService.createAccountCallback c.hidePassword profileImageURL result error =
      (AuthService.createAccountCallback c profileImageURL result error).hidePassword := by
  cases error <;> cases result <;> rfl

theorem follow_hidePassword (c : Call) (p : Progress) :
    (c.follow p).hidePassword = c.hidePassword.follow p.hidePassword := by
  cases p <;> rfl

@[simp] theorem filename_hidePassword (c : Call) : c.hidePassword.filename = c.filename := rfl

theorem calls_hidePasswords (s : State) (i : Nat) (c : Call) (p : Progress) :
    (s.calls.set i (c.follow p)).map Call.hidePassword =
      (s.calls.map Call.hidePassword).set i (c.hidePassword.follow p.hidePassword) := by
  rw [List.map_set, follow_hidePassword]

section Steps
variable (s : State) (i : Nat) (c : Call)

theorem hidePasswords_start (credentials : RegistrationCredentials) (filename : String) :
    (s.start credentials filename).hidePasswords =
      s.hidePasswords.start credentials.hidePassword filename := by
  simp only [State.start, State.hidePasswords, List.map_append, List.map_singleton,
    follow_hidePassword, createUser_hidePassword]
  rfl

theorem hidePasswords_putData (imageData : List UInt8) (error : Option BackendError) :
    (s.putData i c imageData error).hidePasswords =
      s.hidePasswords.putData i c.hidePassword imageData error := by
  simp only [State.putData, State.follow, State.hidePasswords, calls_hidePasswords,
    putDataCallback_hidePassword, filename_hidePassword]

theorem hidePasswords_downloadURL (url : Option String) :
    (s.downloadURL i c url).hidePasswords = s.hidePasswords.downloadURL i c.hidePassword url := by
  simp only [State.downloadURL, State.follow, State.hidePasswords, calls_hidePasswords,
    downloadURLCallback_hidePassword]

theorem hidePasswords_createAccount (profileImageURL : String) (created result : Option String)
    (error : Option BackendError) :
    (s.createAccount i c profileImageURL created result error).hidePasswords =
      s.hidePasswords.createAccount i c.hidePassword profileImageURL created result error := by
  simp only [State.createAccount, State.follow, State.hidePasswords, calls_hidePasswords,
    ← createAccountCallback_hidePassword]
  rfl

theorem hidePasswords_setData (uid : String) (data : Dictionary) (error : Option BackendError) :
    (s.setData i c uid data error).hidePasswords =
      s.hidePasswords.setData i c.hidePassword uid data.hidePassword error := by
  have hcallback : (AuthService.setDataCallback error).hidePassword =
      AuthService.setDataCallback error := rfl
  simp only [State.setData, State.follow, State.hidePasswords, calls_hidePasswords, hcallback]
  split
  · rw [WriteLog.mapValues_insert]
  · rfl

end Steps

theorem step_hidePassword (s : State) (a : Action) :
    step s.hidePasswords a.hidePassword = (step s a).map State.hidePasswords := by
  have hcall : ∀ i : Nat, s.hidePasswords.calls[i]? = (s.calls[i]?).map Call.hidePassword := by
    simp [State.hidePasswords]
  cases a with
  | createUser credentials filename =>
    have hnames : s.hidePasswords.calls.map Call.filename = s.calls.map Call.filename := by
      simp [State.hidePasswords]
    simp only [Action.hidePassword, step, hnames]
    split
    · rfl
    · rw [Option.map_some, hidePasswords_start]
  | putData i error =>
    simp only [Action.hidePassword, step, hcall]
    rcases s.calls[i]? with _ | ⟨credentials, filename, (imageData | _ | url | ⟨uid, data⟩) | exit,
      reports⟩ <;> try rfl
    exact congrArg some (hidePasswords_putData s i _ imageData error).symm
  | downloadURL i url =>
    simp only [Action.hidePassword, step, hcall]
    rcases s.calls[i]? with _ | ⟨credentials, filename, (imageData | _ | url' | ⟨uid, data⟩) | exit,
      reports⟩ <;> try rfl
    exact congrArg some (hidePasswords_downloadURL s i _ url).symm
  | createAccount i created result error =>
    simp only [Action.hidePassword, step, hcall]
    rcases s.calls[i]? with _ | ⟨credentials, filename, (imageData | _ | url | ⟨uid, data⟩) | exit,
      reports⟩ <;> try rfl
    by_cases hauth : AuthAnswer s.accounts credentials.email created result error
    · refine (if_pos hauth).trans ?_
      simp only [if_pos hauth, Option.map_some, hidePasswords_createAccount]
    · refine (if_neg hauth).trans ?_
      simp only [if_neg hauth, Option.map_none]
  | setData i error =>
    simp only [Action.hidePassword, step, hcall]
    rcases s.calls[i]? with _ | ⟨credentials, filename, (imageData | _ | url | ⟨uid, data⟩) | exit,
      reports⟩ <;> try rfl
    exact congrArg some (hidePasswords_setData s i _ uid data error).symm

/-- A users document carries the password typed in the call that wrote it. -/
theorem password_of_document {s : State} (h : WritesKept s) {path : ResourcePath}
    {data : Dictionary} (hdata : s.users.lookup path = some data) :
    ∃ i c, WrittenBy s path i ∧ s.calls[i]? = some c ∧
      data.asString "password" = some c.credentials.password := by
  obtain ⟨i, c, url, uid, hby, hc, -, rfl⟩ := h.documents path data hdata
  exact ⟨i, c, hby, hc, rfl⟩

/-- What two states whose passwords are hidden alike have in common. -/
theorem hidePasswords_eq {s t : State} (h : t.hidePasswords = s.hidePasswords) :
    t.images = s.images ∧ ∀ path, (t.users.lookup path).map Dictionary.hidePassword =
      (s.users.lookup path).map Dictionary.hidePassword := by
  simp only [State.hidePasswords, State.mk.injEq] at h
  obtain ⟨-, himages, -, husers, -⟩ := h
  refine ⟨himages, ?_⟩
  intro path
  rw [← WriteLog.lookup_mapValues, ← WriteLog.lookup_mapValues, husers]

/-- The data a query of the collection returns, in whichever order it visits the paths. -/
def readUsers (users : Documents) (paths : List ResourcePath) : List Dictionary :=
  paths.filterMap users.lookup

theorem map_ofDictionary_readUsers (users : Documents) (paths : List ResourcePath) :
    (readUsers users paths).map User.ofDictionary =
      paths.filterMap fun path => ((users.lookup path).map Dictionary.hidePassword).map
        User.ofDictionary := by
  simp [readUsers, List.map_filterMap, Function.comp_def]

theorem fetchUsersCallback_eq {users users' : Documents}
    (h : ∀ path, (users'.lookup path).map Dictionary.hidePassword =
      (users.lookup path).map Dictionary.hidePassword)
    (currentUser : Option String) (paths : List ResourcePath) :
    Service.fetchUsersCallback currentUser (some (readUsers users' paths)) =
      Service.fetchUsersCallback currentUser (some (readUsers users paths)) := by
  simp only [Service.fetchUsersCallback, Option.map_some, map_ofDictionary_readUsers, h]

theorem fetchUserCallback_eq {users users' : Documents}
    (h : ∀ path, (users'.lookup path).map Dictionary.hidePassword =
      (users.lookup path).map Dictionary.hidePassword) (uid : String) :
    Service.fetchUserCallback (users'.lookup (Service.fetchUserReference uid).path) =
      Service.fetchUserCallback (users.lookup (Service.fetchUserReference uid).path) := by
  have huser := congrArg (Option.map User.ofDictionary) (h (Service.fetchUserReference uid).path)
  simpa [Service.fetchUserCallback, Function.comp_def] using huser

/-- One registration that succeeds, with the password given. -/
def registering (password : String) : List Action :=
  [.createUser ⟨"ann@mail", password, "Ann", "ann", ⟨some [1]⟩⟩ "f", .putData 0 none,
   .downloadURL 0 (some "url"), .createAccount 0 (some "u1") (some "u1") none,
   .setData 0 none]

def registeredWithSecret : State := (run system (registering "secret")).get (by decide)
def registeredWithHidden : State := (run system (registering "hidden")).get (by decide)

theorem not_passwordFree :
    ¬ ∀ as bs s t, as.map Action.hidePassword = bs.map Action.hidePassword →
      run system as = some s → run system bs = some t →
      t.images = s.images ∧ ∀ path, t.users.lookup path = s.users.lookup path := by
  intro h
  have hsame := h (registering "secret") (registering "hidden") registeredWithSecret
    registeredWithHidden (by decide) (Option.some_get _).symm (Option.some_get _).symm
  exact absurd (hsame.2 [.name "users", .name "u1"]) (by decide)

theorem registration_secrecy {s : State} {as bs : List Action} (hrun : run system as = some s)
    (hsame : as.map Action.hidePassword = bs.map Action.hidePassword) :
    ∃ t, run system bs = some t ∧
      t.images = s.images ∧
      (∀ path, (t.users.lookup path).map Dictionary.hidePassword =
        (s.users.lookup path).map Dictionary.hidePassword) ∧
      (∀ path data, t.users.lookup path = some data →
        ∃ i c, WrittenBy t path i ∧ t.calls[i]? = some c ∧
          data.asString "password" = some c.credentials.password) ∧
      (∀ currentUser paths,
        Service.fetchUsersCallback currentUser (some (readUsers t.users paths)) =
          Service.fetchUsersCallback currentUser (some (readUsers s.users paths))) ∧
      ∀ uid, Service.fetchUserCallback (t.users.lookup (Service.fetchUserReference uid).path) =
        Service.fetchUserCallback (s.users.lookup (Service.fetchUserReference uid).path) := by
  have hmap := run_map_eq (S := system) (T := system) step_hidePassword hsame
  rw [hrun, Option.map_some] at hmap
  obtain ⟨t, ht, hidden⟩ := Option.map_eq_some_iff.mp hmap.symm
  obtain ⟨himages, husers⟩ := hidePasswords_eq hidden
  refine ⟨t, ht, himages, husers, ?_, ?_, ?_⟩
  · exact fun path data hdata => password_of_document (writesKept_run ht) hdata
  · exact fetchUsersCallback_eq husers
  · exact fetchUserCallback_eq husers

theorem registration_secrecy_ann :
    ∃ t, run system (registering "hidden") = some t ∧ t.images = registeredWithSecret.images := by
  obtain ⟨t, ht, himages, -⟩ := registration_secrecy (Option.some_get _).symm
    (by decide : (registering "secret").map Action.hidePassword =
      (registering "hidden").map Action.hidePassword)
  exact ⟨t, ht, himages⟩

end ChipChat.Registration
