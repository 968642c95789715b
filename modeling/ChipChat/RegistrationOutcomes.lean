import ChipChat.RegistrationInvariant
import ChipChat.RegistrationWrites

/-! What a finished call of `createUser` has left behind, and what it reported.
Nothing is undone: a late failure keeps what the earlier stages stored. -/

namespace ChipChat.Registration

open LabelledSystem

set_option autoImplicit false

def LeavesImage (s : State) (c : Call) : Prop :=
  AuthService.profileImagePath c.filename ∈ s.images.map Prod.fst

def LeavesAccount (s : State) (i : Nat) : Prop := ∃ a ∈ s.accounts, a.creator = i

/-- A document that the call wrote stands in the users collection. -/
def LeavesUser (s : State) (i : Nat) : Prop :=
  ∃ path, (s.users.lookup path).isSome ∧ WrittenBy s path i

/-- Image, account and users document all exist, the document with the account's uid. -/
def Complete (s : State) (i : Nat) (c : Call) : Prop :=
  LeavesImage s c ∧ ∃ a ∈ s.accounts, a.creator = i ∧ a.email = c.credentials.email ∧
    ∃ d, s.users.lookup (AuthService.userReference a.uid).path = some d ∧
      d.asString "uid" = some a.uid

def AllOrNothing (s : State) (i : Nat) (c : Call) : Prop :=
  (c.reports = [none] ∧ Complete s i c) ∨
    (∃ e, c.reports = [some e]) ∧ ¬ LeavesImage s c ∧ ¬ LeavesAccount s i ∧ ¬ LeavesUser s i

def annCredentials : RegistrationCredentials :=
  ⟨"ann@mail", "secret", "Ann", "ann", ⟨some [1]⟩⟩

/-- The users write is refused after the account has been created. -/
def refusedWrite : List Action :=
  [.createUser annCredentials "f", .putData 0 none, .downloadURL 0 (some "url"),
   .createAccount 0 (some "u1") (some "u1") none, .setData 0 (some ⟨"denied"⟩)]

def refused : State := (run system refusedWrite).get (by decide)

/-- An account is there for the call exactly when Auth has created one in the run. -/
theorem leavesAccount_iff {s : State} {as : List Action} (hrun : run system as = some s) (i : Nat) :
    LeavesAccount s i ↔
      ∃ uid result error, Action.createAccount i (some uid) result error ∈ as := by
  have haccounts := accounts_run hrun
  constructor
  · rintro ⟨a, ha, rfl⟩
    have hmem : (a.creator, a.uid) ∈ as.filterMap Action.created := by
      rw [← haccounts]
      exact List.mem_map.mpr ⟨a, ha, rfl⟩
    obtain ⟨x, hx, hcreated⟩ := List.mem_filterMap.mp hmem
    cases x with
    | createAccount j created result error =>
      obtain ⟨uid, rfl, heq⟩ := Option.map_eq_some_iff.mp hcreated
      cases heq
      exact ⟨a.uid, result, error, hx⟩
    | createUser | putData | downloadURL | setData => cases hcreated
  · rintro ⟨uid, result, error, hx⟩
    have hmem : (i, uid) ∈ as.filterMap Action.created := List.mem_filterMap.mpr ⟨_, hx, rfl⟩
    rw [← haccounts] at hmem
    obtain ⟨a, ha, heq⟩ := List.mem_map.mp hmem
    exact ⟨a, ha, congrArg Prod.fst heq⟩

/-- Only a call whose write was stored has written a users document. -/
theorem not_leavesUser {s : State} (h : WritesKept s) {i : Nat} {c : Call}
    (hc : s.calls[i]? = some c) (hend : c.progress ≠ .ended (.userWritten none)) :
    ¬ LeavesUser s i := by
  rintro ⟨path, -, hby⟩
  obtain ⟨d, hd, hended⟩ := h.ended _ (WriteLog.lastAt_mem hby)
  obtain rfl := Option.some.inj (hc.symm.trans hd)
  exact hend hended

end ChipChat.Registration
