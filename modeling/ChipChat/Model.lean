import ChipChat.Firestore

/-! The decoders of the data model. What `Auth.auth().currentUser?.uid` and
`Date()` return at the moment of the call is passed to them. -/

namespace ChipChat

set_option autoImplicit false

structure User where
  email : String
  fullname : String
  username : String
  uid : String
  profileImageURL : String
  deriving DecidableEq, Repr

/-- `User.init(dictionary:)` -/
def User.ofDictionary (dictionary : Dictionary) : User where
  email := (dictionary.asString "email").getD ""
  fullname := (dictionary.asString "fullname").getD ""
  username := (dictionary.asString "username").getD ""
  uid := (dictionary.asString "uid").getD ""
  profileImageURL := (dictionary.asString "profileImageURL").getD ""

structure Message where
  text : String
  toID : String
  fromID : String
  timestamp : Timestamp
  isFromCurrentUser : Bool
  deriving DecidableEq, Repr

/-- `Message.init(dictionary:)` -/
def Message.ofDictionary (currentUser : Option String) (now : Timestamp)
    (dictionary : Dictionary) : Message where
  text := (dictionary.asString "text").getD ""
  toID := (dictionary.asString "toID").getD ""
  fromID := (dictionary.asString "fromID").getD ""
  timestamp := (dictionary.asTimestamp "timestamp").getD now
  isFromCurrentUser := decide (some ((dictionary.asString "fromID").getD "") = currentUser)

def Message.chatPartnerID (m : Message) : String :=
  if m.isFromCurrentUser then m.toID else m.fromID

structure Conversation where
  user : User
  message : Message
  deriving DecidableEq, Repr

end ChipChat
