import ChipChat.ProgressHud

/-! Each step keeps the HUD truthful exactly when it meets the condition on how the
load it ends, or starts, treats the others; hence so do runs. -/

namespace ChipChat.ProgressHud

open LabelledSystem

set_option autoImplicit false

section Steps
variable {s : State} {i : Nat}

theorem lt_of_pending {load : Load} (h : s.pending[i]? = some load) : i < s.pending.length :=
  (List.getElem?_eq_some_iff.mp h).1

theorem truthful_firstSnapshot (h : Truthful s) (hi : i < s.pending.length)
    (changes : List DocumentChange) :
    Truthful (s.firstSnapshot i changes) ↔ (changes = [] → s.pending.length ≠ 1) := by
  cases changes with
  | nil => exact (truthful_returned h hi).trans ⟨fun hne _ => hne, fun hne => hne rfl⟩
  | cons change changes => exact iff_of_true ((truthful_set _).mpr h) (by simp)

theorem truthful_lookupReturned (h : Truthful s) {more : Nat}
    (hi : s.pending[i]? = some (.lookups more)) (data : Option Dictionary) :
    Truthful (s.lookupReturned i more data) ↔ HudKept s (.lookupReturned i data) := by
  have hlt := lt_of_pending hi
  cases more with
  | zero =>
    simp only [State.lookupReturned, truthful_userReturned, HudKept, hi, true_implies, true_and,
      truthful_returned h hlt, pending_returned hlt]
  | succ more =>
    -- the load itself is still pending, so a lookup that hides the HUD hides it too early
    have hne : s.pending.set i (.lookups more) ≠ [] := by
      intro hnil
      simp [List.set_eq_nil_iff] at hnil
      simp [hnil] at hlt
    simp only [State.lookupReturned, truthful_userReturned, HudKept, hi, truthful_set, hne]
    simp [h]

theorem truthful_usersReturned (h : Truthful s) (hi : i < s.pending.length)
    (snapshot : Option (List Dictionary)) (alive : Bool) :
    Truthful (s.usersReturned i snapshot alive) ↔ HudKept s (.usersReturned i snapshot alive) := by
  cases snapshot with
  | none => simpa [State.usersReturned, Service.fetchUsersCallback, HudKept] using
      truthful_returned h hi
  | some documents =>
    cases alive with
    | false => simpa [State.usersReturned, Service.fetchUsersCallback, HudKept] using
        truthful_returned h hi
    | true => simpa [State.usersReturned, Service.fetchUsersCallback, HudKept] using
        truthful_returned_hidden hi

theorem truthful_loginReturned (h : Truthful s) (hi : i < s.pending.length)
    (result : Except BackendError String) (alive : Bool) :
    Truthful (s.loginReturned i result alive) ↔ HudKept s (.loginReturned i result alive) := by
  cases result with
  | error e =>
    cases alive with
    | false => simpa [State.loginReturned, HudKept] using truthful_returned h hi
    | true => simpa [State.loginReturned, HudKept] using truthful_returned_hidden hi
  | ok uid =>
    cases alive with
    | false => simpa [State.loginReturned, HudKept, Truthful] using truthful_returned h hi
    | true =>
      have heq : s.loginReturned i (.ok uid) true = State.fetchConversations
          (State.showProgressHud { s.returned i with currentUser := some uid } false) := rfl
      rw [heq]
      exact iff_of_true (truthful_fetchConversations.mpr (by simp [State.showProgressHud]))
        (by simp [HudKept])

theorem truthful_handleSignUpPressed (credentials : RegistrationCredentials) :
    Truthful (s.handleSignUpPressed credentials) ↔ HudKept s (.handleSignUpPressed credentials) := by
  unfold State.handleSignUpPressed AuthService.createUser HudKept
  cases himage : credentials.profileImage.jpegData with
  | none => exact truthful_shown.trans ⟨fun h _ => h, fun h => h himage⟩
  | some imageData => exact iff_of_true (truthful_started _) (by simp [himage])

theorem truthful_putDataReturned (h : Truthful s) (hi : i < s.pending.length)
    (credentials : RegistrationCredentials) (error : Option BackendError) :
    Truthful ((s.returned i).registrationAt credentials (AuthService.putDataCallback error)) ↔
      HudKept s (.putDataReturned i error) := by
  cases error with
  | none => exact iff_of_true (truthful_registrationAt_waiting h hi credentials _) (by simp [HudKept])
  | some e =>
    refine (truthful_registrationAt_ended h hi credentials (.uploadFailed e)).trans ?_
    simp [HudKept, Exit.report]

theorem truthful_urlReturned (h : Truthful s) (hi : i < s.pending.length)
    (credentials : RegistrationCredentials) (url : Option String) :
    Truthful ((s.returned i).registrationAt credentials (AuthService.downloadURLCallback url)) ↔
      HudKept s (.urlReturned i url) := by
  cases url with
  | none =>
    refine (truthful_registrationAt_ended h hi credentials .noURL).trans ?_
    simp [HudKept, Exit.report]
  | some url => exact iff_of_true (truthful_registrationAt_waiting h hi credentials _) (by simp [HudKept])

theorem truthful_accountReturned (h : Truthful s) (hi : i < s.pending.length)
    (credentials : RegistrationCredentials) (profileImageURL : String) (result : Option String)
    (error : Option BackendError) :
    Truthful (s.accountReturned i credentials profileImageURL result error) ↔
      HudKept s (.accountReturned i result error) := by
  have hsame : Truthful { s with currentUser := result.or s.currentUser } := h
  cases error with
  | some e =>
    refine (truthful_registrationAt_ended hsame hi credentials (.accountRefused e)).trans ?_
    simp [HudKept, Exit.report]
  | none =>
    cases result with
    | none =>
      refine (truthful_registrationAt_ended hsame hi credentials .noResult).trans ?_
      simp [HudKept, Exit.report]
    | some uid =>
      exact iff_of_true (truthful_registrationAt_waiting hsame hi credentials _) (by simp [HudKept])

theorem truthful_setDataReturned (h : Truthful s) (hi : i < s.pending.length)
    (credentials : RegistrationCredentials) (error : Option BackendError) :
    Truthful ((s.returned i).registrationAt credentials (AuthService.setDataCallback error)) ↔
      HudKept s (.setDataReturned i error) := by
  refine (truthful_registrationAt_ended h hi credentials (.userWritten error)).trans ?_
  cases error <;> simp [HudKept, Exit.report]

end Steps

theorem truthful_step {s t : State} {a : Action} (h : Truthful s) (ht : step s a = some t) :
    Truthful t ↔ HudKept s a := by
  cases a with
  | fetchConversations =>
    obtain rfl := Option.some.inj ht
    exact truthful_fetchConversations
  | firstSnapshot i changes =>
    simp only [step, Option.ite_none_right_eq_some, Option.some.injEq] at ht
    obtain ⟨hi, rfl⟩ := ht
    exact truthful_firstSnapshot h (lt_of_pending hi) changes
  | listenerFailed i =>
    simp only [step, Option.ite_none_right_eq_some, Option.some.injEq] at ht
    obtain ⟨hi, rfl⟩ := ht
    exact truthful_returned h (lt_of_pending hi)
  | lookupReturned i data =>
    simp only [step] at ht
    split at ht
    · rename_i more hi
      obtain rfl := Option.some.inj ht
      exact truthful_lookupReturned h hi data
    · cases ht
  | laterSnapshot changes =>
    simp only [step, Option.ite_none_right_eq_some, Option.some.injEq] at ht
    obtain ⟨-, rfl⟩ := ht
    exact iff_of_true h trivial
  | laterLookupReturned data =>
    simp only [step, Option.ite_none_right_eq_some, Option.some.injEq] at ht
    obtain ⟨-, rfl⟩ := ht
    refine (truthful_userReturned _ data).trans ?_
    have hsame : Truthful { s with laterLookups := s.laterLookups - 1 } := h
    cases data <;> simp [HudKept, hsame]
  | fetchUsers =>
    obtain rfl := Option.some.inj ht
    exact iff_of_true (truthful_started _) trivial
  | usersReturned i snapshot alive =>
    simp only [step, Option.ite_none_right_eq_some, Option.some.injEq] at ht
    obtain ⟨hi, rfl⟩ := ht
    exact truthful_usersReturned h (lt_of_pending hi) snapshot alive
  | fetchUser =>
    obtain rfl := Option.some.inj ht
    refine iff_of_true ?_ trivial
    unfold State.fetchUser
    split
    · exact h
    · exact truthful_started _
  | profileReturned i data =>
    simp only [step, Option.ite_none_right_eq_some, Option.some.injEq] at ht
    obtain ⟨hi, rfl⟩ := ht
    refine (truthful_userReturned _ data).trans ?_
    simp only [HudKept, truthful_returned h (lt_of_pending hi), pending_returned (lt_of_pending hi)]
  | handleLoginPressed =>
    obtain rfl := Option.some.inj ht
    exact iff_of_true (truthful_started _) trivial
  | loginReturned i result alive =>
    simp only [step, Option.ite_none_right_eq_some, Option.some.injEq] at ht
    obtain ⟨hi, rfl⟩ := ht
    exact truthful_loginReturned h (lt_of_pending hi) result alive
  | handleSignUpPressed credentials =>
    obtain rfl := Option.some.inj ht
    exact truthful_handleSignUpPressed credentials
  | putDataReturned i error =>
    simp only [step] at ht
    split at ht
    · rename_i credentials imageData hi
      obtain rfl := Option.some.inj ht
      exact truthful_putDataReturned h (lt_of_pending hi) credentials error
    · cases ht
  | urlReturned i url =>
    simp only [step] at ht
    split at ht
    · rename_i credentials hi
      obtain rfl := Option.some.inj ht
      exact truthful_urlReturned h (lt_of_pending hi) credentials url
    · cases ht
  | accountReturned i result error =>
    simp only [step] at ht
    split at ht
    · rename_i credentials profileImageURL hi
      obtain rfl := Option.some.inj ht
      exact truthful_accountReturned h (lt_of_pending hi) credentials profileImageURL result error
    · cases ht
  | setDataReturned i error =>
    simp only [step] at ht
    split at ht
    · rename_i credentials uid data hi
      obtain rfl := Option.some.inj ht
      exact truthful_setDataReturned h (lt_of_pending hi) credentials error
    · cases ht
  | signOut =>
    obtain rfl := Option.some.inj ht
    exact iff_of_true h trivial

/-- The app is opened with nobody signed in. -/
def launched : State := initial.fetchConversations

theorem not_truthful : ¬ ∀ as s, run system as = some s → Truthful s := by
  intro h
  exact absurd (h [.fetchConversations] launched rfl) (by decide)

theorem hud_truthful {s : State} {as : List Action} (hrun : run system as = some s) :
    Throughout system Truthful system.init as ↔ StepsMeet system HudKept system.init as := by
  apply throughout_iff_stepsMeet (I := fun _ => True)
  · exact fun _ _ _ _ _ => trivial
  · exact fun s a t _ hs (ht : step s a = some t) => truthful_step hs ht
  · trivial
  · decide
  · exact hrun

/-- A login, and the load of the one conversation it starts. -/
def oneLoadAtATime : List Action :=
  [.handleLoginPressed, .loginReturned 0 (.ok "ann") true,
   .firstSnapshot 0 [⟨.added, ⟨"bob", []⟩⟩], .lookupReturned 0 (some [("uid", .string "bob")])]

def afterOneLoad : State := (run system oneLoadAtATime).get (by decide)

theorem hud_truthful_oneLoad : Throughout system Truthful system.init oneLoadAtATime :=
  (hud_truthful (s := afterOneLoad) (Option.some_get _).symm).mpr (by decide)

end ChipChat.ProgressHud
