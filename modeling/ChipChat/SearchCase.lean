import ChipChat.AuthService
import ChipChat.UserSearch

/-!
# Letter case in the search

Registration lowercases the username but not the full name; the search lowercases its
text and compares it with both as they are stored. A full name is found by the text
only where it is written in lowercase itself.
-/

namespace ChipChat.NewMessage

set_option autoImplicit false

variable {χ : Type}

/-- The fields of `RegistrationController`, as they were filled in. -/
structure RegistrationForm where
  profileImage : UIImage
  email : String
  password : String
  fullname : String
  username : String

/-- The credentials `handleSignUpPressed` registers with. -/
def RegistrationForm.credentials (v : CharacterView χ) (form : RegistrationForm) :
    RegistrationCredentials where
  email := form.email
  password := form.password
  fullname := form.fullname
  username := v.lowercased form.username
  profileImage := form.profileImage

/-- What the users document of a registration decodes to. -/
def IsRegistered (v : CharacterView χ) (user : User) : Prop :=
  ∃ form : RegistrationForm, ∃ url uid,
    user = User.ofDictionary (AuthService.userData (form.credentials v) url uid)

theorem IsRegistered.characters_username {v : CharacterView χ} {user : User} (h : IsRegistered v user) :
    v.mapping.apply (v.characters user.username) = v.characters user.username := by
  obtain ⟨form, url, uid, rfl⟩ := h
  have husername : (User.ofDictionary (AuthService.userData (form.credentials v) url uid)).username =
      v.lowercased form.username := by
    simp [User.ofDictionary, AuthService.userData, Dictionary.asString, List.lookup_cons,
      RegistrationForm.credentials]
  rw [husername, v.characters_lowercased, CaseMapping.apply_apply]

theorem characters_ne_nil (v : CharacterView χ) {text : String} (hne : text ≠ "") : v.characters text ≠ [] :=
  fun h => hne ((v.characters_eq_nil text).mp h)

variable [DecidableEq χ]

def occursIgnoringCase (v : CharacterView χ) (text s : String) : Bool :=
  contains v (v.lowercased s) (v.lowercased text)

/-- The search keeps the users in whose names the text occurs when case is ignored, so
also a user whose full name it is a part of. -/
structure IgnoresCase (v : CharacterView χ) (s : State) : Prop where
  kept : ∀ user ∈ s.users, user ∈ (s.updateSearchResults v).filteredUsers ↔
    occursIgnoringCase v s.text user.username ∨ occursIgnoringCase v s.text user.fullname
  displayed : ∀ user ∈ s.users, s.text ≠ "" →
    v.characters s.text <:+: v.characters user.fullname →
      user ∈ (s.updateSearchResults v).filteredUsers

/-- The text occurs in the username, or not in the full name, or there in lowercase. -/
def LowercaseWhereFound (v : CharacterView χ) (text : String) (user : User) : Prop :=
  occursIgnoringCase v text user.username ∨ ¬ occursIgnoringCase v text user.fullname ∨
    ∃ written, CaseMapping.Found written (v.characters user.fullname) ∧
      v.mapping.apply written = written ∧
      v.mapping.apply written = v.mapping.apply (v.characters text)

section Matching
variable (v : CharacterView χ)

theorem occursIgnoringCase_iff (text s : String) :
    occursIgnoringCase v text s ↔
      CaseMapping.Found (v.mapping.apply (v.characters text))
        (v.mapping.apply (v.characters s)) := by
  rw [occursIgnoringCase, contains_iff, v.characters_lowercased, v.characters_lowercased]

theorem contains_lowercased_iff (s text : String) :
    contains v s (v.lowercased text) ↔ ∃ written, CaseMapping.Found written (v.characters s) ∧
      v.mapping.apply written = written ∧
      v.mapping.apply written = v.mapping.apply (v.characters text) := by
  rw [contains_iff, v.characters_lowercased, CaseMapping.found_apply_iff]

theorem occursIgnoringCase_of_contains {s text : String} (h : contains v s (v.lowercased text)) :
    occursIgnoringCase v text s := by
  rw [contains_iff, v.characters_lowercased] at h
  rw [occursIgnoringCase_iff]
  exact CaseMapping.found_apply v.mapping h

theorem occursIgnoringCase_of_part {s text : String} (hne : text ≠ "")
    (hpart : v.characters text <:+: v.characters s) : occursIgnoringCase v text s := by
  rw [occursIgnoringCase_iff]
  exact CaseMapping.found_apply_of_infix v.mapping (characters_ne_nil v hne) hpart

theorem satisfies_iff {user : User} (h : IsRegistered v user) (text : String) :
    satisfies v text user ↔
      occursIgnoringCase v text user.username ∨ contains v user.fullname (v.lowercased text) := by
  rw [satisfies, Bool.or_eq_true, occursIgnoringCase_iff, h.characters_username, contains_iff,
    v.characters_lowercased]

/-- The search is right about a user exactly when the text is found in lowercase. -/
theorem keeps_iff {user : User} (h : IsRegistered v user) (text : String) :
    (satisfies v text user ↔
      occursIgnoringCase v text user.username ∨ occursIgnoringCase v text user.fullname) ↔
      LowercaseWhereFound v text user := by
  rw [satisfies_iff v h, LowercaseWhereFound, ← contains_lowercased_iff]
  by_cases husername : occursIgnoringCase v text user.username
  · simp [husername]
  · simp only [husername, Bool.false_eq_true, false_or]
    constructor
    · intro hiff
      by_cases hfullname : occursIgnoringCase v text user.fullname
      · exact Or.inr (hiff.mpr hfullname)
      · exact Or.inl hfullname
    · rintro (hfullname | hcontains)
      · exact iff_of_false (fun hcontains => hfullname (occursIgnoringCase_of_contains v hcontains))
          hfullname
      · exact iff_of_true hcontains (occursIgnoringCase_of_contains v hcontains)

theorem mem_updateSearchResults {s : State} {user : User} (huser : user ∈ s.users) :
    user ∈ (s.updateSearchResults v).filteredUsers ↔ satisfies v s.text user := by
  simp [State.updateSearchResults, huser]

end Matching

/-- A user called Ann Lee, with the username al. -/
def annLee : RegistrationForm := ⟨⟨none⟩, "", "", "Ann Lee", "AL"⟩

def annLeeUser : User :=
  User.ofDictionary (AuthService.userData (annLee.credentials asciiView) "" "u1")

def searching (text : String) : State := ⟨[annLeeUser], [], true, text, false⟩

theorem isRegistered_searching (text : String) :
    ∀ user ∈ (searching text).users, IsRegistered asciiView user := by
  intro user huser
  rw [List.mem_singleton.mp huser]
  exact ⟨annLee, "", "u1", rfl⟩

theorem not_ignoresCase :
    ¬ ∀ (v : CharacterView Char) s, (∀ user ∈ s.users, IsRegistered v user) → IgnoresCase v s := by
  intro h
  have hdisplayed := (h asciiView (searching "Ann Lee") (isRegistered_searching _)).displayed
    annLeeUser (List.mem_singleton.mpr rfl) (by decide) (by decide)
  exact absurd hdisplayed (by decide)

theorem search_case {v : CharacterView χ} {s : State}
    (hregistered : ∀ user ∈ s.users, IsRegistered v user) :
    IgnoresCase v s ↔ ∀ user ∈ s.users, LowercaseWhereFound v s.text user := by
  constructor
  · intro h user huser
    rw [← keeps_iff v (hregistered user huser), ← mem_updateSearchResults v huser]
    exact h.kept user huser
  · intro h
    have hkept : ∀ user ∈ s.users, user ∈ (s.updateSearchResults v).filteredUsers ↔
        occursIgnoringCase v s.text user.username ∨ occursIgnoringCase v s.text user.fullname := by
      intro user huser
      rw [mem_updateSearchResults v huser, keeps_iff v (hregistered user huser)]
      exact h user huser
    refine ⟨hkept, ?_⟩
    intro user huser hne hpart
    exact (hkept user huser).mpr (Or.inr (occursIgnoringCase_of_part v hne hpart))

theorem search_case_al : IgnoresCase asciiView (searching "AL") := by
  refine (search_case (isRegistered_searching _)).mpr ?_
  intro user huser
  rw [List.mem_singleton.mp huser]
  exact Or.inl (by decide)

end ChipChat.NewMessage
