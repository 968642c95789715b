import Mathlib
import ChipChat.CaseMapping
import ChipChat.LabelledSystem
import ChipChat.Service

/-!
# Searching the user picker

`NewMessageController` filters its users each time the search field changes; the rows
of the search are the list that was filtered last. The users arrive once, some time
after the controller has appeared, and nothing filters them then.
-/

namespace ChipChat

set_option autoImplicit false

/-- How Swift reads a string: `Character` by `Character`, where characters that are
canonically equivalent are equal. `lowercased()` maps each character by itself. -/
structure CharacterView (χ : Type) where
  characters : String → List χ
  lowercased : String → String
  mapping : CaseMapping.Mapping χ
  characters_eq_nil : ∀ s, characters s = [] ↔ s = ""
  characters_lowercased : ∀ s, characters (lowercased s) = mapping.apply (characters s)

/-- `StringProtocol.contains(_:)` of Foundation, which compares whole characters and does
not find the empty string. -/
def contains {χ : Type} [DecidableEq χ] (v : CharacterView χ) (s other : String) : Bool :=
  decide (CaseMapping.Found (v.characters other) (v.characters s))

theorem contains_iff {χ : Type} [DecidableEq χ] (v : CharacterView χ) (s other : String) :
    contains v s other ↔ CaseMapping.Found (v.characters other) (v.characters s) := by
  simp [contains]

/-- In a string of ASCII letters each letter is a character. -/
def asciiView : CharacterView Char where
  characters := String.toList
  lowercased s := String.ofList (s.toList.flatMap fun c => [c.toLower])
  mapping := ⟨fun c => [c.toLower], by simp, by simp⟩
  characters_eq_nil := by simp
  characters_lowercased s := by simp [CaseMapping.Mapping.apply]

end ChipChat

namespace ChipChat.NewMessage

open LabelledSystem

set_option autoImplicit false

variable {χ : Type} [DecidableEq χ]

/-- `loading` until the completion of `fetchUsers` is called. -/
structure State where
  users : List User
  filteredUsers : List User
  isActive : Bool
  text : String
  loading : Bool
  deriving DecidableEq, Repr

/-- `viewDidLoad` has called `fetchUsers`. -/
def initial : State := ⟨[], [], false, "", true⟩

inductive Action where
  | usersReturned (users : List User)
  | activate
  | leave
  | edit (text : String)

/-- The predicate of the filter, on the search text as it was typed. -/
def satisfies (v : CharacterView χ) (text : String) (user : User) : Bool :=
  contains v user.username (v.lowercased text) || contains v user.fullname (v.lowercased text)

namespace State

def inSearchMode (s : State) : Bool := s.isActive && !s.text.isEmpty

/-- The rows the data source shows, and from which a row is selected. -/
def rows (s : State) : List User := if s.inSearchMode then s.filteredUsers else s.users

def updateSearchResults (v : CharacterView χ) (s : State) : State :=
  { s with filteredUsers := s.users.filter (satisfies v s.text) }

end State

/-- The search controller calls for an update when the search field gets the focus, loses
it or changes; leaving the search empties the field. -/
def step (v : CharacterView χ) (s : State) : Action → Option State
  | .usersReturned users =>
      if s.loading then some { s with users := users, loading := false } else none
  | .activate => some (State.updateSearchResults v { s with isActive := true })
  | .leave => some (State.updateSearchResults v { s with isActive := false, text := "" })
  | .edit text => some (State.updateSearchResults v { s with text := text })

def system (v : CharacterView χ) : System State Action := ⟨initial, step v⟩

/-- The search shows the current users that satisfy the predicate for the current text. -/
def ShowsMatches (v : CharacterView χ) (s : State) : Prop :=
  s.inSearchMode → s.rows = s.users.filter (satisfies v s.text)

/-- The users arrive outside a search, or none of them belongs in it. -/
def ReturnsOutsideSearch (v : CharacterView χ) (s : State) : Action → Prop
  | .usersReturned users => s.inSearchMode → ∀ user ∈ users, ¬ satisfies v s.text user
  | _ => True

instance (v : CharacterView χ) (s : State) : ∀ a, Decidable (ReturnsOutsideSearch v s a)
  | .usersReturned users =>
      inferInstanceAs (Decidable (s.inSearchMode → ∀ user ∈ users, ¬ satisfies v s.text user))
  | .activate | .leave | .edit _ => isTrue trivial

theorem rows_of_search {s : State} (h : s.inSearchMode = true) : s.rows = s.filteredUsers :=
  if_pos h

theorem mem_of_rows {s : State} {user : User} (h : user ∈ s.rows) :
    user ∈ s.users ++ s.filteredUsers := by
  rw [State.rows] at h
  split at h
  · exact List.mem_append_right _ h
  · exact List.mem_append_left _ h

section Steps
variable {v : CharacterView χ} {s t : State} {a : Action}

theorem step_cases (h : step v s a = some t) :
    (∃ users, a = .usersReturned users ∧ s.loading = true ∧
      t = { s with users := users, loading := false }) ∨
    ((∀ users, a ≠ .usersReturned users) ∧ ∃ isActive text,
      t = State.updateSearchResults v { s with isActive := isActive, text := text }) := by
  cases a with
  | usersReturned users =>
    simp only [step, Option.ite_none_right_eq_some, Option.some.injEq] at h
    exact Or.inl ⟨users, rfl, h.1, h.2.symm⟩
  | activate => exact Or.inr ⟨by simp, true, s.text, (Option.some.inj h).symm⟩
  | leave => exact Or.inr ⟨by simp, false, "", (Option.some.inj h).symm⟩
  | edit text => exact Or.inr ⟨by simp, s.isActive, text, (Option.some.inj h).symm⟩

/-- Nothing is shown before the users have arrived. -/
structure Awaiting (s : State) : Prop where
  users : s.loading = true → s.users = []
  filteredUsers : s.loading = true → s.filteredUsers = []

theorem awaiting_step (h : Awaiting s) (ht : step v s a = some t) : Awaiting t := by
  rcases step_cases ht with ⟨users, -, -, rfl⟩ | ⟨-, isActive, text, rfl⟩
  · constructor <;> simp
  · refine ⟨h.users, ?_⟩
    intro hloading
    simp [State.updateSearchResults, h.users hloading]

theorem showsMatches_updateSearchResults (v : CharacterView χ) (s : State) :
    ShowsMatches v (s.updateSearchResults v) := by
  intro hsearch
  rw [rows_of_search hsearch]
  rfl

theorem showsMatches_step (h : Awaiting s) (ht : step v s a = some t) :
    ShowsMatches v t ↔ ReturnsOutsideSearch v s a := by
  rcases step_cases ht with ⟨users, rfl, hloading, rfl⟩ | ⟨hother, isActive, text, rfl⟩
  · refine forall_congr' ?_
    intro hsearch
    rw [rows_of_search hsearch]
    -- the rows of the search are still those filtered from no users
    simp only [h.filteredUsers hloading]
    rw [eq_comm, List.filter_eq_nil_iff]
  · refine iff_of_true (showsMatches_updateSearchResults v _) ?_
    cases a with
    | usersReturned users => exact absurd rfl (hother users)
    | activate => trivial
    | leave => trivial
    | edit text => trivial

end Steps

def ann : User := ⟨"ann@mail", "Ann", "ann", "u1", "url"⟩

/-- The search is under way when the users arrive. -/
def searchFirst : List Action := [.activate, .edit "an", .usersReturned [ann]]

theorem not_showsMatches :
    ¬ ∀ (v : CharacterView Char) as s, run (system v) as = some s → ShowsMatches v s := by
  intro h
  have hshows := h asciiView searchFirst _ rfl (by decide)
  exact absurd hshows (by decide)

theorem search_results {v : CharacterView χ} {s : State} {as : List Action}
    (hrun : run (system v) as = some s) :
    Throughout (system v) (ShowsMatches v) initial as ↔
      StepsMeet (system v) (ReturnsOutsideSearch v) initial as := by
  apply throughout_iff_stepsMeet (I := Awaiting)
  · exact fun s a t hs ht => awaiting_step hs ht
  · exact fun s a t hs _ ht => showsMatches_step hs ht
  · exact ⟨fun _ => rfl, fun _ => rfl⟩
  · exact fun hsearch => by cases hsearch
  · exact hrun

/-- The users arrive while the search field is still empty. -/
def searchAfter : List Action := [.activate, .usersReturned [ann], .edit "an", .leave]

theorem search_results_after :
    Throughout (system asciiView) (ShowsMatches asciiView) initial searchAfter :=
  (search_results (s := (run (system asciiView) searchAfter).get (by decide))
    (Option.some_get _).symm).mpr (by decide)

end ChipChat.NewMessage
