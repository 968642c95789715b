import ChipChat.Model

/-!
# The functions of `Service`

Each asynchronous function is split where it waits: a first part that ends when
the backend operation is issued, and one definition for each callback. Values a
closure captures are fields of a record.
-/

namespace ChipChat

set_option autoImplicit false

def collectionMessages : CollectionReference := firestoreCollection "messages"
def collectionUsers : CollectionReference := firestoreCollection "users"

/-- `messages/{uid}/{other}`, the thread of `uid` with `other`. -/
def threadCollection (uid other : String) : CollectionReference :=
  (collectionMessages.document uid).collection other

def recentMessages (uid : String) : CollectionReference :=
  (collectionMessages.document uid).collection "recent-messages"

/-- One call of `uploadMessage` past its guard: what its closures capture. The
call's number and client only tell calls apart. -/
structure Send where
  number : Nat
  client : Nat
  currentUID : String
  user : User
  message : String
  date : Timestamp
  deriving DecidableEq, Repr

/-- The timestamp the documents of the call carry. -/
def Send.timestamp (s : Send) : Timestamp := s.date.truncate

theorem Send.timestamp_le {m n : Send} (h : m.date ≤ n.date) : m.timestamp ≤ n.timestamp :=
  Timestamp.truncate_mono h

/-- The dictionary of the call, as its four writes store it. -/
def Send.data (s : Send) : Dictionary :=
  parsedSetData
    [("fromID", .string s.currentUID),
     ("toID", .string s.user.uid),
     ("text", .string s.message),
     ("timestamp", .timestamp s.date)]

theorem Send.data_eq (s : Send) :
    s.data =
      [("fromID", .string s.currentUID),
       ("toID", .string s.user.uid),
       ("text", .string s.message),
       ("timestamp", .timestamp s.timestamp)] :=
  rfl

/-- The decoder undoes the dictionary a call wrote, up to the precision of the timestamp. -/
theorem ofDictionary_data (s : Send) (currentUser : Option String) (now : Timestamp) :
    Message.ofDictionary currentUser now s.data =
      ⟨s.message, s.user.uid, s.currentUID, s.timestamp,
        decide (some s.currentUID = currentUser)⟩ :=
  rfl

/-- The four writes of a call, in the order of the source. -/
inductive Part where
  | ownThread
  | partnerThread
  | ownRecent
  | partnerRecent
  deriving DecidableEq, Repr

def Send.reference (s : Send) : Part → DocumentReference
  | .ownThread => (threadCollection s.currentUID s.user.uid).documentWithAutoID (2 * s.number)
  | .partnerThread =>
      (threadCollection s.user.uid s.currentUID).documentWithAutoID (2 * s.number + 1)
  | .ownRecent => (recentMessages s.currentUID).document s.user.uid
  | .partnerRecent => (recentMessages s.user.uid).document s.currentUID

structure Write where
  send : Send
  part : Part
  deriving DecidableEq, Repr

def Write.path (w : Write) : ResourcePath := (w.send.reference w.part).path

/-- The key and the value with which the write reaches the database. -/
def Write.entry (w : Write) : ResourcePath × Dictionary := (w.path, w.send.data)

namespace Service

/-- `uploadMessage` up to its return: the first `addDocument`, if anybody is signed in. -/
def uploadMessage (number client : Nat) (currentUser : Option String) (message : String)
    (user : User) (date : Timestamp) : Option Write :=
  currentUser.map fun currentUID => ⟨⟨number, client, currentUID, user, message, date⟩, .ownThread⟩

/-- The callback of the first `addDocument`; the error it is given is not looked at. -/
def uploadMessageCallback (s : Send) (_ : Outcome) : List Write :=
  [⟨s, .partnerThread⟩, ⟨s, .ownRecent⟩, ⟨s, .partnerRecent⟩]

/-- The callback of `fetchUsers`; `none` is a missing snapshot, or no call of `completion`. -/
def fetchUsersCallback (currentUser : Option String) (snapshot : Option (List Dictionary)) :
    Option (List User) :=
  snapshot.map fun documents =>
    let users := documents.map User.ofDictionary
    match users.findIdx? (fun user => decide (some user.uid = currentUser)) with
    | some index => users.eraseIdx index
    | none => users

def fetchUserReference (uid : String) : DocumentReference := collectionUsers.document uid

/-- The callback of `fetchUser`; without data there is no call of `completion`. -/
def fetchUserCallback (data : Option Dictionary) : Option User :=
  data.map User.ofDictionary

/-- The query of `fetchMessages`, if anybody is signed in. -/
def fetchMessages (currentUser : Option String) (user : User) : Option CollectionReference :=
  currentUser.map fun currentUID => threadCollection currentUID user.uid

/-- One change of a snapshot in the listener of `fetchMessages`: the array it
accumulates, and the array handed to `completion` if it is called. -/
def fetchMessagesChange (currentUser : Option String) (now : Timestamp)
    (messages : List Message) (change : DocumentChange) : List Message × Option (List Message) :=
  if change.type = .added then
    let messages := messages ++ [Message.ofDictionary currentUser now change.document.data]
    (messages, some messages)
  else
    (messages, none)

/-- The query of `fetchConversations`, if anybody is signed in. -/
def fetchConversations (currentUser : Option String) : Option CollectionReference :=
  currentUser.map recentMessages

/-- What one change of a snapshot makes the listener of `fetchConversations` do:
it decodes the document, whatever the kind of the change, and looks up the partner. -/
def fetchConversationsChange (currentUser : Option String) (now : Timestamp)
    (change : DocumentChange) : Message :=
  Message.ofDictionary currentUser now change.document.data

/-- The completion of the lookup: the array grows, and all of it is handed on. -/
def fetchConversationsLookup (conversations : List Conversation) (message : Message)
    (user : User) : List Conversation :=
  conversations ++ [⟨user, message⟩]

end Service

end ChipChat
