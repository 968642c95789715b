import ChipChat.Service

/-!
# `AuthService.createUser`

The call uploads the profile image, fetches its URL, creates the account and
writes the user's document, one callback after the other. Each callback either
issues the next operation, or calls `completion`, or returns without a word.
-/

namespace ChipChat

set_option autoImplicit false

/-- An image, as far as the call sees it: the result of `jpegData(compressionQuality:)`. -/
structure UIImage where
  jpegData : Option (List UInt8)
  deriving DecidableEq, Repr

structure BackendError where
  localizedDescription : String
  deriving DecidableEq, Repr

structure RegistrationCredentials where
  email : String
  password : String
  fullname : String
  username : String
  profileImage : UIImage
  deriving DecidableEq, Repr

/-- The operation a call of `createUser` is waiting for. -/
inductive Stage where
  | puttingData (imageData : List UInt8)
  | fetchingURL
  | creatingAccount (profileImageURL : String)
  | writingUser (uid : String) (data : Dictionary)
  deriving DecidableEq, Repr

/-- The places where a call of `createUser` ends. -/
inductive Exit where
  | notEncoded
  | uploadFailed (error : BackendError)
  | noURL
  | accountRefused (error : BackendError)
  | noResult
  | userWritten (error : Option BackendError)
  deriving DecidableEq, Repr

/-- What `completion` is given at an exit, if it is called there. -/
def Exit.report : Exit → Option (Option BackendError)
  | .uploadFailed error => some (some error)
  | .accountRefused error => some (some error)
  | .userWritten error => some error
  | .notEncoded | .noURL | .noResult => none

inductive Progress where
  | waiting (stage : Stage)
  | ended (exit : Exit)
  deriving DecidableEq, Repr

namespace AuthService

def profileImagePath (filename : String) : String := "/profile_image/" ++ filename

def userReference (uid : String) : DocumentReference := collectionUsers.document uid

def userData (credentials : RegistrationCredentials) (profileImageURL uid : String) : Dictionary :=
  [("profileImageURL", .string profileImageURL),
   ("email", .string credentials.email),
   ("password", .string credentials.password),
   ("username", .string credentials.username),
   ("uid", .string uid),
   ("fullname", .string credentials.fullname)]

def createUser (credentials : RegistrationCredentials) : Progress :=
  match credentials.profileImage.jpegData with
  | none => .ended .notEncoded
  | some imageData => .waiting (.puttingData imageData)

def putDataCallback (error : Option BackendError) : Progress :=
  match error with
  | some error => .ended (.uploadFailed error)
  | none => .waiting .fetchingURL

def downloadURLCallback (url : Option String) : Progress :=
  match url with
  | none => .ended .noURL
  | some profileImageURL => .waiting (.creatingAccount profileImageURL)

def createAccountCallback (credentials : RegistrationCredentials) (profileImageURL : String)
    (result : Option String) (error : Option BackendError) : Progress :=
  match error with
  | some error => .ended (.accountRefused error)
  | none =>
    match result with
    | none => .ended .noResult
    | some uid => .waiting (.writingUser uid (userData credentials profileImageURL uid))

def setDataCallback (error : Option BackendError) : Progress := .ended (.userWritten error)

end AuthService

end ChipChat
