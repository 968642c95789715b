import ChipChat.WriteLog

/-!
# Documents, references and query snapshots of Firestore

A reference keeps the strings it was built from; its resource path is what they
split into at the slashes, empty segments skipped. Two references denote the same
location exactly when their paths agree.
-/

namespace ChipChat

set_option autoImplicit false

/-- An instant in nanoseconds, as the sender's own clock gives it. -/
abbrev Timestamp := Int

/-- `TimestampInternal::Truncate`: whole microseconds, as the backend keeps them. -/
def Timestamp.truncate (t : Timestamp) : Timestamp := t / 1000 * 1000

theorem Timestamp.truncate_mono {t u : Timestamp} (h : t ≤ u) : t.truncate ≤ u.truncate :=
  Int.mul_le_mul_of_nonneg_right (Int.ediv_le_ediv (by decide) h) (by decide)

inductive FieldValue where
  | string (s : String)
  | timestamp (t : Timestamp)
  deriving DecidableEq, Repr

/-- A `[String : Any]` dictionary literal. -/
abbrev Dictionary := List (String × FieldValue)

/-- `parseScalarValue` of the user data converter. -/
def parseScalarValue : FieldValue → FieldValue
  | .string s => .string s
  | .timestamp t => .timestamp t.truncate

/-- `parsedSetData`: what `addDocument` and `setData` store of the dictionary they are
given. Dictionaries of strings are stored as they are. -/
def parsedSetData (d : Dictionary) : Dictionary := d.map fun e => (e.1, parseScalarValue e.2)

/-- `dictionary[key] as? String` -/
def Dictionary.asString (d : Dictionary) (key : String) : Option String :=
  match d.lookup key with
  | some (.string s) => some s
  | _ => none

/-- `dictionary[key] as? Timestamp` -/
def Dictionary.asTimestamp (d : Dictionary) (key : String) : Option Timestamp :=
  match d.lookup key with
  | some (.timestamp t) => some t
  | _ => none

/-- One segment of a resource path: a name, or an identifier made by `addDocument`. -/
inductive Segment where
  | name (s : String)
  | autoID (n : Nat)
  deriving DecidableEq, Repr

abbrev ResourcePath := List Segment

/-- `ResourcePath::FromString` -/
def pathSegments (s : String) : List String :=
  ((s.toList.splitOn '/').filter (· ≠ [])).map String.ofList

inductive Argument where
  | passed (s : String)
  | autoID (n : Nat)
  deriving DecidableEq, Repr

def Argument.segments : Argument → ResourcePath
  | .passed s => (pathSegments s).map .name
  | .autoID n => [.autoID n]

/-- The strings a reference passed to `collection(_:)` and `document(_:)`. -/
def passedStrings (arguments : List Argument) : List String :=
  arguments.filterMap fun
    | .passed s => some s
    | .autoID _ => none

structure CollectionReference where
  arguments : List Argument
  deriving DecidableEq, Repr

structure DocumentReference where
  arguments : List Argument
  deriving DecidableEq, Repr

def firestoreCollection (path : String) : CollectionReference := ⟨[.passed path]⟩

namespace CollectionReference

def document (c : CollectionReference) (path : String) : DocumentReference :=
  ⟨c.arguments ++ [.passed path]⟩

/-- The reference `addDocument` writes to; `n` stands for its fresh identifier. -/
def documentWithAutoID (c : CollectionReference) (n : Nat) : DocumentReference :=
  ⟨c.arguments ++ [.autoID n]⟩

def path (c : CollectionReference) : ResourcePath := c.arguments.flatMap Argument.segments

end CollectionReference

namespace DocumentReference

def collection (d : DocumentReference) (path : String) : CollectionReference :=
  ⟨d.arguments ++ [.passed path]⟩

def path (d : DocumentReference) : ResourcePath := d.arguments.flatMap Argument.segments

end DocumentReference

@[simp] theorem path_document (c : CollectionReference) (s : String) :
    (c.document s).path = c.path ++ (pathSegments s).map .name := by
  simp [CollectionReference.document, DocumentReference.path, CollectionReference.path,
    Argument.segments]

@[simp] theorem path_documentWithAutoID (c : CollectionReference) (n : Nat) :
    (c.documentWithAutoID n).path = c.path ++ [.autoID n] := by
  simp [CollectionReference.documentWithAutoID, DocumentReference.path, CollectionReference.path,
    Argument.segments]

@[simp] theorem path_collection (d : DocumentReference) (s : String) :
    (d.collection s).path = d.path ++ (pathSegments s).map .name := by
  simp [DocumentReference.collection, DocumentReference.path, CollectionReference.path,
    Argument.segments]

@[simp] theorem path_firestoreCollection (s : String) :
    (firestoreCollection s).path = (pathSegments s).map .name := by
  simp [firestoreCollection, CollectionReference.path, Argument.segments]

/-- A string without slashes is a segment of its own. -/
theorem pathSegments_eq_self {s : String} (hne : s ≠ "") (hslash : '/' ∉ s.toList) :
    pathSegments s = [s] := by
  have hl : s.toList ≠ [] := by simpa using hne
  simp [pathSegments, List.splitOn_eq_singleton hslash, hl]

abbrev Documents := WriteLog.Table ResourcePath Dictionary

/-- The documents directly in a collection, with their paths. -/
def Documents.inCollection (docs : Documents) (c : CollectionReference) :
    List (ResourcePath × Dictionary) :=
  (WriteLog.pairs docs).filter fun e => decide (e.1 ≠ [] ∧ e.1.dropLast = c.path)

/-- What the callback of a write reports: no error, or an error. -/
inductive Outcome where
  | stored
  | rejected
  deriving DecidableEq, Repr

structure QueryDocument where
  documentID : String
  data : Dictionary
  deriving DecidableEq, Repr

inductive DocumentChangeType where
  | added
  | modified
  | removed
  deriving DecidableEq, Repr

structure DocumentChange where
  type : DocumentChangeType
  document : QueryDocument
  deriving DecidableEq, Repr

def documentIDs (docs : List QueryDocument) : List String := docs.map QueryDocument.documentID

def removedDocuments (old new : List QueryDocument) : List QueryDocument :=
  old.filter fun d => decide (d.documentID ∉ documentIDs new)

def addedDocuments (old new : List QueryDocument) : List QueryDocument :=
  new.filter fun d => decide (d.documentID ∉ documentIDs old)

def modifiedDocuments (old new : List QueryDocument) : List QueryDocument :=
  new.filter fun d => decide (d.documentID ∈ documentIDs old ∧ d ∉ old)

/-- `View::ComputeDocumentChanges` as `ApplyChanges` sorts it: removals, then
additions, then modifications, each in query order. -/
def documentChanges (old new : List QueryDocument) : List DocumentChange :=
  (removedDocuments old new).map (DocumentChange.mk .removed) ++
    (addedDocuments old new).map (DocumentChange.mk .added) ++
    (modifiedDocuments old new).map (DocumentChange.mk .modified)

end ChipChat
