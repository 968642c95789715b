import ChipChat.ConversationQuery
import ChipChat.UserList
import ChipChat.UserSearch

/-!
# Accounts, chats and sends of one app process

The process has one conversation list, which stays when accounts change, at most one
user picker and at most one open chat. Both lists open chats; `uploadMessage` is
called for the user of the open chat, whoever is signed in by then.
-/

namespace ChipChat.ChatPartners

open LabelledSystem

set_option autoImplicit false

variable {χ : Type} [DecidableEq χ]

/-- `calls` are the calls of `uploadMessage`, each with the account signed in when it was
made; `sends` is what this and other processes have stored. -/
structure State where
  registration : Registration.State
  list : ConversationList.State
  picker : Option NewMessage.State
  chat : Option User
  calls : List (Option String × User)
  sends : List Send

def initial : State := ⟨Registration.initial, ConversationList.initial, none, none, [], []⟩

/-- Registrations take place here or in another process, as do sends. -/
inductive Action where
  | register (here : Bool) (a : Registration.Action)
  | conversations (a : ConversationList.Action)
  | elsewhere (send : Send)
  | showNewMessage
  | search (a : NewMessage.Action)
  | usersReturned (snapshot : List (ResourcePath × Dictionary))
  | handleDismiss
  | selectRow (i : Nat)
  | selectUser (i : Nat)
  | back
  | send (message : String) (date : Timestamp)

/-- The account that is reported to a registration, which Auth has signed in. -/
def signedIn : Registration.Action → Option String
  | .createAccount _ _ result _ => result
  | _ => none

/-- Accounts exist, listeners deliver what was sent, and lookups return users documents
or nothing. -/
def Permitted (s : State) : ConversationList.Action → Prop
  | .signIn uid => uid ∈ s.registration.accounts.map Registration.Account.uid
  | .snapshot _ _ result => ∀ d ∈ result.documents, ∃ w ∈ s.sends, d.data = w.data
  | .lookupReturned j data _ => ∀ l ∈ s.list.lookups[j]?, data = none ∨
      data = s.registration.users.lookup
        (Service.fetchUserReference l.message.chatPartnerID).path
  | _ => True

instance (s : State) : ∀ a, Decidable (Permitted s a)
  | .signIn uid =>
      inferInstanceAs (Decidable (uid ∈ s.registration.accounts.map Registration.Account.uid))
  | .snapshot _ _ result =>
      inferInstanceAs (Decidable (∀ d ∈ result.documents, ∃ w ∈ s.sends, d.data = w.data))
  | .lookupReturned j data _ =>
      inferInstanceAs (Decidable (∀ l ∈ s.list.lookups[j]?, data = none ∨
        data = s.registration.users.lookup
          (Service.fetchUserReference l.message.chatPartnerID).path))
  | .signOut | .fetchConversations | .failed _ => isTrue trivial

/-- The users document found for an account is its own, so the list never refuses it. -/
theorem uid_of_lookup {s : State} (h : Registration.Consistent s.registration) {partner : String}
    (hpartner : partner ∈ s.registration.accounts.map Registration.Account.uid) {data : Dictionary}
    (hdata : s.registration.users.lookup (Service.fetchUserReference partner).path = some data) :
    (User.ofDictionary data).uid = partner := by
  obtain ⟨a, ha, rfl⟩ := List.mem_map.mp hpartner
  exact (Registration.uid_eq_iff h hdata (h.plain a ha)).mpr rfl

/-- Documents of the users collection, each once. -/
def UsersSnapshot (s : State) (snapshot : List (ResourcePath × Dictionary)) : Prop :=
  (snapshot.map Prod.fst).Nodup ∧ ∀ e ∈ snapshot, s.registration.users.lookup e.1 = some e.2

instance (s : State) (snapshot : List (ResourcePath × Dictionary)) :
    Decidable (UsersSnapshot s snapshot) :=
  inferInstanceAs (Decidable (_ ∧ _))

namespace State

def register (s : State) (here : Bool) (a : Registration.Action)
    (registration : Registration.State) : State :=
  { s with
    registration := registration
    list :=
      if here then { s.list with currentUser := (signedIn a).or s.list.currentUser } else s.list }

def send (s : State) (message : String) (date : Timestamp) (user : User) : State :=
  { s with
    calls := s.calls ++ [(s.list.currentUser, user)]
    sends := s.sends ++ ((Service.uploadMessage s.calls.length 0 s.list.currentUser message user
      date).map Write.send).toList }

end State

def step (v : CharacterView χ) (s : State) : Action → Option State
  | .register here a => (Registration.step s.registration a).map (s.register here a)
  | .conversations a =>
      if Permitted s a then (ConversationList.step s.list a).map fun list => { s with list := list }
      else none
  | .elsewhere w => some { s with sends := s.sends ++ [w] }
  | .showNewMessage => some { s with picker := some NewMessage.initial }
  | .search (.usersReturned _) => none
  | .search a =>
      (s.picker.bind fun picker => NewMessage.step v picker a).map fun picker =>
        { s with picker := some picker }
  | .usersReturned snapshot =>
      if UsersSnapshot s snapshot then
        (s.picker.bind fun picker =>
          (Service.fetchUsersCallback s.list.currentUser (some (snapshot.map Prod.snd))).bind
            fun users => NewMessage.step v picker (.usersReturned users)).map fun picker =>
              { s with picker := some picker }
      else none
  | .handleDismiss => some { s with picker := none }
  | .selectRow i => s.list.conversations[i]?.map fun c => { s with chat := some c.user }
  | .selectUser i =>
      (s.picker.bind fun picker => picker.rows[i]?).map fun user =>
        { s with picker := none, chat := some user }
  | .back => some { s with chat := none }
  | .send message date => s.chat.map (s.send message date)

def system (v : CharacterView χ) : System State Action := ⟨initial, step v⟩

/-- Auth gives uids without a slash. -/
def Action.PlainUID : Action → Prop
  | .register _ a => a.PlainUID
  | _ => True

instance : ∀ a : Action, Decidable a.PlainUID
  | .register _ a => inferInstanceAs (Decidable a.PlainUID)
  | .conversations _ | .elsewhere _ | .showNewMessage | .search _ | .usersReturned _
  | .handleDismiss | .selectRow _ | .selectUser _ | .back | .send .. => isTrue trivial

/-- Nothing on screen or on its way to the list is about `u`. -/
structure Unnamed (s : State) (u : String) : Prop where
  rows : ∀ c ∈ s.list.conversations, c.user.uid ≠ u
  lookups : ∀ l ∈ s.list.lookups, l.message.chatPartnerID ≠ u
  picker : ∀ picker ∈ s.picker, ∀ user ∈ picker.users ++ picker.filteredUsers, user.uid ≠ u
  chat : ∀ user ∈ s.chat, user.uid ≠ u

instance (s : State) (u : String) : Decidable (Unnamed s u) :=
  decidable_of_iff
    ((∀ c ∈ s.list.conversations, c.user.uid ≠ u) ∧
      (∀ l ∈ s.list.lookups, l.message.chatPartnerID ≠ u) ∧
      (∀ picker ∈ s.picker, ∀ user ∈ picker.users ++ picker.filteredUsers, user.uid ≠ u) ∧
      ∀ user ∈ s.chat, user.uid ≠ u)
    ⟨fun h => ⟨h.1, h.2.1, h.2.2.1, h.2.2.2⟩, fun h => ⟨h.rows, h.lookups, h.picker, h.chat⟩⟩

/-- An account signs in only where nothing is about it, and the messages that come from
elsewhere are between two accounts. -/
def AccountsApart (s : State) : Action → Prop
  | .register true a => ∀ u ∈ signedIn a, Unnamed s u
  | .conversations (.signIn u) => Unnamed s u
  | .elsewhere w => w.currentUID ≠ w.user.uid
  | _ => True

instance (s : State) : ∀ a, Decidable (AccountsApart s a)
  | .register true a => inferInstanceAs (Decidable (∀ u ∈ signedIn a, Unnamed s u))
  | .register false _ => isTrue trivial
  | .conversations (.signIn u) => inferInstanceAs (Decidable (Unnamed s u))
  | .conversations .signOut | .conversations .fetchConversations | .conversations (.snapshot ..)
  | .conversations (.failed _) | .conversations (.lookupReturned ..) => isTrue trivial
  | .elsewhere w => inferInstanceAs (Decidable (w.currentUID ≠ w.user.uid))
  | .showNewMessage | .search _ | .usersReturned _ | .handleDismiss | .selectRow _
  | .selectUser _ | .back | .send .. => isTrue trivial

/-- A message between two accounts never has the account it is decoded for as its partner. -/
theorem chatPartnerID_ne {w : Send} (hw : w.currentUID ≠ w.user.uid) (u : String)
    (now : Timestamp) : (Message.ofDictionary (some u) now w.data).chatPartnerID ≠ u := by
  rw [ofDictionary_data, Message.chatPartnerID]
  by_cases hown : w.currentUID = u
  · subst hown
    simpa using Ne.symm hw
  · simp [hown]

end ChipChat.ChatPartners
