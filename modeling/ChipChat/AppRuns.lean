import ChipChat.AuthService
import ChipChat.LabelledSystem

/-!
# Many devices over one database

`written` lists every write `createUser` and `uploadMessage` have issued. What a
query, a listener or a lookup returns is one of them, stored, still on its way or
rejected later. The state also records the strings passed to `document(_:)` and
`collection(_:)` and the dictionaries given to the decoders.
-/

namespace ChipChat.App

open LabelledSystem

set_option autoImplicit false

/-- One process of the app. `users` are the users a chat can be opened with. -/
structure Device where
  currentUser : Option String
  users : List User
  fetches : Nat
  lookups : List DocumentReference
  recents : List CollectionReference
  threads : List CollectionReference
  uploads : List Send
  registrations : List (RegistrationCredentials × Stage)

def Device.launched (currentUser : Option String) : Device := ⟨currentUser, [], 0, [], [], [], [], []⟩

structure State where
  devices : List Device
  written : List (ResourcePath × Dictionary)
  passed : List String
  decodedUsers : List Dictionary
  decodedMessages : List Dictionary

def initial : State := ⟨[], [], [], [], []⟩

inductive DeviceAction where
  | signIn (uid : String)
  | signOut
  | terminate
  | createUser (credentials : RegistrationCredentials)
  | putData (i : Nat) (error : Option BackendError)
  | downloadURL (i : Nat) (url : Option String)
  | createAccount (i : Nat) (result : Option String) (error : Option BackendError)
  | setData (i : Nat) (error : Option BackendError)
  | fetchUsers
  | usersReturned (snapshot : Option (List Dictionary))
  | fetchUser
  | userReturned (j : Nat) (data : Option Dictionary)
  | fetchConversations
  | conversationsChanged (i : Nat) (now : Timestamp) (change : DocumentChange)
  | fetchMessages (user : User)
  | messagesChanged (i : Nat) (change : DocumentChange)
  | uploadMessage (number : Nat) (message : String) (user : User) (date : Timestamp)
  | uploadReturned (j : Nat) (outcome : Outcome)

inductive Action where
  | launch
  | on (k : Nat) (a : DeviceAction)

namespace State

def onDevice (s : State) (k : Nat) (d : Device) : State := { s with devices := s.devices.set k d }

def passing (s : State) (arguments : List Argument) : State :=
  { s with passed := s.passed ++ passedStrings arguments }

def write (s : State) (r : DocumentReference) (data : Dictionary) : State :=
  { s.passing r.arguments with written := s.written ++ [(r.path, data)] }

def writeAll (s : State) (writes : List Write) : State :=
  writes.foldl (fun s w => s.write (w.send.reference w.part) w.send.data) s

def decodingUsers (s : State) (dictionaries : List Dictionary) : State :=
  { s with decodedUsers := s.decodedUsers ++ dictionaries }

def decodingMessages (s : State) (dictionaries : List Dictionary) : State :=
  { s with decodedMessages := s.decodedMessages ++ dictionaries }

/-- Some document of the collection has been written with this data. -/
def Visible (s : State) (c : CollectionReference) (data : Dictionary) : Prop :=
  ∃ e ∈ s.written, e.1 ≠ [] ∧ e.1.dropLast = c.path ∧ e.2 = data

instance (s : State) (c : CollectionReference) (data : Dictionary) : Decidable (s.Visible c data) :=
  inferInstanceAs (Decidable (∃ e ∈ s.written, _))

variable (s : State) (k : Nat) (d : Device)

/-- `Service.fetchUser(withUID:)` -/
def lookUp (uid : String) : State :=
  (s.passing (Service.fetchUserReference uid).arguments).onDevice k
    { d with lookups := d.lookups ++ [Service.fetchUserReference uid] }

def listenToRecents (query : CollectionReference) : State :=
  (s.passing query.arguments).onDevice k { d with recents := d.recents ++ [query] }

def listenToThread (query : CollectionReference) : State :=
  (s.passing query.arguments).onDevice k { d with threads := d.threads ++ [query] }

def upload (w : Write) : State :=
  (s.write (w.send.reference w.part) w.send.data).onDevice k
    { d with uploads := d.uploads ++ [w.send] }

def uploadReturned (j : Nat) (w : Send) (outcome : Outcome) : State :=
  (s.writeAll (Service.uploadMessageCallback w outcome)).onDevice k
    { d with uploads := d.uploads.eraseIdx j }

/-- The registration goes on; the users document is written as soon as the account exists. -/
def registration (i : Nat) (credentials : RegistrationCredentials) : Progress → State
  | .waiting (.writingUser uid data) =>
      (s.write (AuthService.userReference uid) data).onDevice k
        { d with registrations := d.registrations.set i (credentials, .writingUser uid data) }
  | .waiting stage =>
      s.onDevice k { d with registrations := d.registrations.set i (credentials, stage) }
  | .ended _ => s.onDevice k { d with registrations := d.registrations.eraseIdx i }

end State

/-- What a device does, or what is returned to it. -/
def deviceStep (s : State) (k : Nat) (d : Device) : DeviceAction → Option State
  | .signIn uid => if uid ≠ "" then some (s.onDevice k { d with currentUser := some uid }) else none
  | .signOut => some (s.onDevice k { d with currentUser := none })
  -- `Auth` keeps the account; callbacks, lookups and listeners are lost with the process
  | .terminate => some (s.onDevice k (.launched d.currentUser))
  | .createUser credentials =>
      match AuthService.createUser credentials with
      | .ended _ => some s
      | .waiting stage =>
          some (s.onDevice k { d with registrations := d.registrations ++ [(credentials, stage)] })
  | .putData i error =>
      match d.registrations[i]? with
      | some (credentials, .puttingData _) =>
          some (s.registration k d i credentials (AuthService.putDataCallback error))
      | _ => none
  | .downloadURL i url =>
      match d.registrations[i]? with
      | some (credentials, .fetchingURL) =>
          some (s.registration k d i credentials (AuthService.downloadURLCallback url))
      | _ => none
  | .createAccount i result error =>
      match d.registrations[i]? with
      | some (credentials, .creatingAccount profileImageURL) =>
          if ∀ uid ∈ result, uid ≠ "" then
            some (s.registration k { d with currentUser := result.or d.currentUser } i credentials
              (AuthService.createAccountCallback credentials profileImageURL result error))
          else none
      | _ => none
  | .setData i error =>
      match d.registrations[i]? with
      | some (credentials, .writingUser _ _) =>
          some (s.registration k d i credentials (AuthService.setDataCallback error))
      | _ => none
  | .fetchUsers =>
      some ((s.passing collectionUsers.arguments).onDevice k { d with fetches := d.fetches + 1 })
  | .usersReturned snapshot =>
      if 0 < d.fetches ∧ ∀ data ∈ snapshot.getD [], s.Visible collectionUsers data then
        some ((s.decodingUsers (snapshot.getD [])).onDevice k
          { d with
            fetches := d.fetches - 1
            users := d.users ++ (Service.fetchUsersCallback d.currentUser snapshot).getD [] })
      else none
  | .fetchUser =>
      match d.currentUser with
      | none => some s
      | some uid => some (s.lookUp k d uid)
  | .userReturned j data =>
      match d.lookups[j]? with
      | none => none
      | some r =>
        if ∀ x ∈ data, (r.path, x) ∈ s.written then
          some ((s.decodingUsers data.toList).onDevice k
            { d with
              lookups := d.lookups.eraseIdx j
              users := d.users ++ (Service.fetchUserCallback data).toList })
        else none
  | .fetchConversations =>
      match Service.fetchConversations d.currentUser with
      | none => some s
      | some query => some (s.listenToRecents k d query)
  | .conversationsChanged i now change =>
      match d.recents[i]? with
      | none => none
      | some query =>
        if s.Visible query change.document.data then
          some ((s.decodingMessages [change.document.data]).lookUp k d
            (Service.fetchConversationsChange d.currentUser now change).chatPartnerID)
        else none
  | .fetchMessages user =>
      if user ∈ d.users then
        match Service.fetchMessages d.currentUser user with
        | none => some s
        | some query => some (s.listenToThread k d query)
      else none
  | .messagesChanged i change =>
      match d.threads[i]? with
      | none => none
      | some query =>
        if s.Visible query change.document.data then
          some (if change.type = .added then s.decodingMessages [change.document.data] else s)
        else none
  | .uploadMessage number message user date =>
      if user ∈ d.users then
        match Service.uploadMessage number k d.currentUser message user date with
        | none => some s
        | some w => some (s.upload k d w)
      else none
  | .uploadReturned j outcome =>
      match d.uploads[j]? with
      | none => none
      | some w => some (s.uploadReturned k d j w outcome)

def step (s : State) : Action → Option State
  | .launch => some { s with devices := s.devices ++ [.launched none] }
  | .on k a =>
      match s.devices[k]? with
      | none => none
      | some d => deviceStep s k d a

def system : System State Action := ⟨initial, step⟩

end ChipChat.App
