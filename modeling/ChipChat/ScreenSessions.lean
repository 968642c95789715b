import ChipChat.Screens

/-!
# Screens and sessions

Nothing ties the screens to the account that is signed in: a login or a registration
may return after its screen is gone, and the block of `presentLoginScreen` may run when
another screen is presented. For each guarantee that the screens should give, the
steps that break it are singled out here.
-/

namespace ChipChat.Screens

open LabelledSystem

set_option autoImplicit false

/-- When nobody is signed in, the login screen is there or on its way. -/
def Guarded (s : State) : Prop := s.currentUser = none → 0 < s.queued ∨ s.atLogin

/-- While nobody is signed in, the last block that is queued finds nothing presented but a
login screen, and no registration completes unless a block is queued. -/
def GuardKept (s : State) (a : Action) : Prop :=
  s.currentUser = none →
    (a = .presentLogin → s.queued = 1 → s.presented = none ∨ s.atLogin) ∧
    (a.completes → a.signsIn = none → 0 < s.queued)

/-- Chats listen to, and write to, a thread of the account that is signed in. -/
structure OwnThreads (s : State) : Prop where
  listened : ∀ c ∈ s.chat, c.query = Service.fetchMessages s.currentUser c.user
  written : ∀ q w, (q, w) ∈ s.sent →
    q = some (threadCollection w.send.currentUID w.send.user.uid)

/-- Over a chat only the account that is signed in is signed in again. -/
def SessionKept (s : State) (a : Action) : Prop :=
  s.chat ≠ none → ∀ u ∈ a.signsIn, s.currentUser = some u

/-- Past the login screen the conversations of the account are listened to. -/
def Listening (s : State) : Prop :=
  ∀ u ∈ s.currentUser, s.atLogin ∨ recentMessages u ∈ s.listeners

/-- An account that is signed in with no call of `authenticationComplete` is at the login
screen, or its conversations are listened to already. -/
def ListeningKept (s : State) (a : Action) : Prop :=
  a.completes = false → ∀ u ∈ a.signsIn, s.atLogin ∨ recentMessages u ∈ s.listeners

instance (s : State) (a : Action) : Decidable (GuardKept s a) :=
  inferInstanceAs (Decidable (_ → _ ∧ _))

instance (s : State) (a : Action) : Decidable (SessionKept s a) :=
  inferInstanceAs (Decidable (_ → ∀ u ∈ a.signsIn, _))

instance (s : State) (a : Action) : Decidable (ListeningKept s a) :=
  inferInstanceAs (Decidable (_ → ∀ u ∈ a.signsIn, _))

/-- Over a chat nothing but a login screen is presented. -/
def Exclusive (s : State) : Prop :=
  ∀ screen ∈ s.presented, screen.isLogin = false → s.chat = none

theorem atLogin_of_presented {s : State} {screen : Screen} (hs : s.presented = some screen) :
    s.atLogin = screen.isLogin := by
  unfold State.atLogin
  rw [hs]
  rfl

theorem atLogin_of_none {s : State} (hs : s.presented = none) : s.atLogin = false := by
  unfold State.atLogin
  rw [hs]
  rfl

/-- Where a chat is pushed from, there is no login screen. -/
theorem atLogin_of_pushes {s : State} (hs : s.Uncovered ∨ s.presented = some .newMessage) :
    s.atLogin = false := by
  rcases hs with hs | hs
  · exact atLogin_of_none hs.1
  · exact atLogin_of_presented hs

theorem exclusive_step {s t : State} {a : Action} (h : Exclusive s) (ht : step s a = some t) :
    Exclusive t := by
  intro screen hscreen hother
  cases step_change ht with
  | loginDue =>
    by_cases hs : s.presented = none
    · simp only [State.presentLogin, if_pos hs, Option.mem_def, Option.some.injEq] at hscreen
      subst hscreen
      cases hother
    · simp only [State.presentLogin, if_neg hs] at hscreen
      exact h screen hscreen hother
  | presented _ ha hs => exact hs.2
  | replaced before after ha hs hsame =>
    obtain rfl := Option.some.inj hscreen
    exact h before hs (hsame ▸ hother)
  | dismissed | loggedOut | pushed | completed => cases hscreen
  | popped => rfl
  | uploaded | returned => exact h screen hscreen hother

/-! ## The login screen -/

theorem Guarded.congr {s t : State} (hs : Guarded s) (huser : t.currentUser = s.currentUser)
    (hqueued : t.queued = s.queued) (hlogin : t.atLogin = s.atLogin) : Guarded t := by
  unfold Guarded
  rw [huser, hqueued, hlogin]
  exact hs

/-- What the user does neither takes the login screen away nor runs a block. -/
theorem guardKept_of_visible {a : Action} (ha : a.Visible) (s : State) : GuardKept s a := by
  intro _
  refine ⟨fun h => absurd h ha.1, fun h => ?_⟩
  rw [ha.2.2] at h
  cases h

theorem guarded_presentLogin {s : State} (hqueued : 0 < s.queued) :
    Guarded s.presentLogin ↔ GuardKept s .presentLogin := by
  have hlogin : s.presentLogin.atLogin = true ↔ s.presented = none ∨ s.atLogin = true := by
    by_cases hu : s.presented = none
    · simp [State.presentLogin, State.atLogin, hu, Screen.isLogin]
    · simp [State.presentLogin, State.atLogin, hu]
  have hleft : s.presentLogin.queued = s.queued - 1 := rfl
  unfold Guarded GuardKept
  rw [hlogin, hleft]
  constructor
  · intro h hnone
    refine ⟨fun _ hlast => (h hnone).resolve_left (by omega), fun hc => by cases hc⟩
  · intro h hnone
    by_cases hlast : s.queued = 1
    · exact .inr ((h hnone).1 rfl hlast)
    · exact .inl (by omega)

theorem guarded_step {s t : State} {a : Action} (hs : Guarded s) (ht : step s a = some t) :
    Guarded t ↔ GuardKept s a := by
  cases step_change ht with
  | loginDue ha hqueued =>
    subst ha
    exact guarded_presentLogin hqueued
  | presented screen ha hu hscreen =>
    refine iff_of_true (hs.congr rfl rfl ?_) (guardKept_of_visible ha s)
    rw [atLogin_of_none hu.1]
    exact hscreen
  | replaced screen screen' ha hshown hscreen =>
    refine iff_of_true (hs.congr rfl rfl ?_) (guardKept_of_visible ha s)
    rw [atLogin_of_presented hshown]
    exact hscreen
  | dismissed screen ha hshown hscreen =>
    refine iff_of_true (hs.congr rfl rfl ?_) (guardKept_of_visible ha s)
    rw [atLogin_of_presented hshown, hscreen]
    rfl
  | loggedOut screen ha =>
    exact iff_of_true (fun _ => .inl (Nat.succ_pos _)) (guardKept_of_visible ha s)
  | pushed user ha hpush =>
    refine iff_of_true (hs.congr rfl rfl ?_) (guardKept_of_visible ha s)
    rw [atLogin_of_pushes hpush]
    rfl
  | popped ha | uploaded c message date ha =>
    exact iff_of_true hs (guardKept_of_visible ha s)
  | returned logins registrations ha hc =>
    refine iff_of_true ?_ fun _ => ⟨fun h => absurd h ha, fun h => by simp [hc] at h⟩
    intro hnone
    exact hs (Option.or_eq_none_iff.mp hnone).2
  | completed logins registrations ha hc =>
    have hqueued : ∀ u, (State.authenticationComplete
        { s.pending logins registrations with currentUser := u }).queued = s.queued := fun _ => rfl
    have hlogin : ∀ u, (State.authenticationComplete
        { s.pending logins registrations with currentUser := u }).atLogin = false := fun _ => rfl
    have huser : ∀ u, (State.authenticationComplete
        { s.pending logins registrations with currentUser := u }).currentUser = u := fun _ => rfl
    unfold Guarded GuardKept
    simp only [hqueued, hlogin, huser, Option.or_eq_none_iff, Bool.false_eq_true, or_false]
    constructor
    · intro h hnone
      exact ⟨fun hp => absurd hp ha, fun _ hsigns => h ⟨hsigns, hnone⟩⟩
    · intro h hnone
      exact (h hnone.2).2 hc hnone.1

/-- Ann logs in from the launch screen, then out over her profile. -/
def annsVisit : List Action :=
  [.presentLogin, .handleLoginPressed, .loginReturned (.ok "ann") true, .showProfile,
   .handleLogout, .logout false, .presentLogin]

def afterVisit : State := (run (system none) annsVisit).get (by decide)

theorem fetchMessages_eq_iff (q : Option String) (u : String) (user : User) :
    Service.fetchMessages q user = Service.fetchMessages (some u) user ↔ q = some u := by
  unfold Service.fetchMessages threadCollection
  cases q with
  | none => simp
  | some v => simp [collectionMessages, firestoreCollection, CollectionReference.document,
      DocumentReference.collection]

/-- A session may change under a chat, as long as the account does not. -/
theorem ownThreads_signedIn {s t : State} {a : Action} (hs : OwnThreads s)
    (huser : t.currentUser = a.signsIn.or s.currentUser) (hchat : t.chat = s.chat)
    (hsent : t.sent = s.sent) : OwnThreads t ↔ SessionKept s a := by
  constructor
  · intro ht hopen u hu
    obtain ⟨c, hc⟩ := Option.ne_none_iff_exists'.mp hopen
    have hafter := ht.listened c (hchat.trans hc)
    rw [huser, Option.mem_def.mp hu, Option.some_or, hs.listened c hc] at hafter
    exact (fetchMessages_eq_iff _ _ _).mp hafter
  · intro hkept
    refine ⟨fun c hc => ?_, fun q w hqw => hs.written q w (hsent ▸ hqw)⟩
    rw [hchat] at hc
    rw [hs.listened c hc, huser]
    cases hu : a.signsIn with
    | none => rfl
    | some u =>
      have hopen : s.chat ≠ none := by simp [Option.mem_def.mp hc]
      rw [hkept hopen u hu]
      rfl

theorem sessionKept_of_visible {a : Action} (ha : a.Visible) (s : State) : SessionKept s a := by
  intro _ u hu
  rw [ha.2.1] at hu
  cases hu

theorem ownThreads_wantsToSend {s : State} (hs : OwnThreads s) {c : Chat} (hc : s.chat = some c)
    (message : String) (date : Timestamp) : OwnThreads (s.wantsToSend c message date) := by
  refine ⟨hs.listened, ?_⟩
  intro q w hqw
  rcases List.mem_append.mp hqw with hqw | hqw
  · exact hs.written q w hqw
  · obtain ⟨w', hw', heq⟩ := List.mem_map.mp hqw
    obtain ⟨u, hu, rfl⟩ := Option.map_eq_some_iff.mp (Option.mem_toList.mp hw')
    cases heq
    rw [hs.listened c hc, hu]
    rfl

theorem ownThreads_step {s t : State} {a : Action} (h : Exclusive s) (hs : OwnThreads s)
    (ht : step s a = some t) : OwnThreads t ↔ SessionKept s a := by
  cases step_change ht with
  | loginDue ha =>
    subst ha
    exact iff_of_true ⟨hs.listened, hs.written⟩ fun _ u hu => by cases hu
  | presented screen ha | replaced screen screen' ha | dismissed screen ha =>
    exact iff_of_true ⟨hs.listened, hs.written⟩ (sessionKept_of_visible ha s)
  | loggedOut screen ha hshown hscreen =>
    have hnone : s.chat = none := h screen hshown hscreen
    refine iff_of_true ⟨fun c hc => ?_, hs.written⟩ (sessionKept_of_visible ha s)
    have hsame : (s.dismiss.logout false).chat = s.chat := rfl
    rw [hsame, hnone] at hc
    cases hc
  | pushed user ha =>
    refine iff_of_true ⟨fun c hc => ?_, hs.written⟩ (sessionKept_of_visible ha s)
    cases hc
    rfl
  | popped ha =>
    refine iff_of_true ⟨fun c hc => ?_, hs.written⟩ (sessionKept_of_visible ha s)
    cases hc
  | uploaded c message date ha hc =>
    exact iff_of_true (ownThreads_wantsToSend hs hc message date) (sessionKept_of_visible ha s)
  | returned | completed =>
    exact ownThreads_signedIn hs rfl rfl rfl

def bob : User := ⟨"", "", "", "bob", ""⟩

/-- Ann opens a chat and writes; a second login of hers returns, and she writes again. -/
def annsChat : List Action :=
  [.presentLogin, .handleLoginPressed, .handleLoginPressed, .loginReturned (.ok "ann") true,
   .selectRow bob, .wantsToSend "hi" 1, .loginReturned (.ok "ann") false, .wantsToSend "hm" 2]

def afterChat : State := (run (system none) annsChat).get (by decide)

theorem Listening.congr {s t : State} (hs : Listening s) (huser : t.currentUser = s.currentUser)
    (hlisteners : t.listeners = s.listeners) (hlogin : s.atLogin → t.atLogin) : Listening t := by
  intro u hu
  rw [huser] at hu
  rw [hlisteners]
  exact (hs u hu).imp_left hlogin

theorem listeningKept_of_signsIn {a : Action} (ha : a.signsIn = none) (s : State) :
    ListeningKept s a := by
  intro _ u hu
  rw [ha] at hu
  cases hu

/-- Signing in leaves the screens and the listeners as they are. -/
theorem listening_signedIn {s t : State} {a : Action} (hs : Listening s)
    (hc : a.completes = false) (huser : t.currentUser = a.signsIn.or s.currentUser)
    (hlisteners : t.listeners = s.listeners) (hlogin : t.atLogin = s.atLogin) :
    Listening t ↔ ListeningKept s a := by
  unfold Listening
  rw [huser, hlisteners, hlogin]
  constructor
  · intro ht _ u hu
    exact ht u (by rw [Option.mem_def.mp hu]; rfl)
  · intro hkept u hu
    cases hsigns : a.signsIn with
    | none =>
      rw [hsigns] at hu
      exact hs u hu
    | some v =>
      rw [hsigns] at hu
      exact hkept hc u (hsigns.trans hu)

theorem listening_authenticationComplete (s : State) : Listening s.authenticationComplete := by
  intro u hu
  have huser : s.currentUser = some u := hu
  refine .inr (List.mem_append.mpr (.inr ?_))
  simp [State.dismiss, Service.fetchConversations, huser]

theorem listening_step {s t : State} {a : Action} (hs : Listening s) (ht : step s a = some t) :
    Listening t ↔ ListeningKept s a := by
  cases step_change ht with
  | loginDue ha =>
    subst ha
    refine iff_of_true (hs.congr rfl rfl fun hl => ?_) (listeningKept_of_signsIn rfl s)
    by_cases hu : s.presented = none
    · simp [State.presentLogin, State.atLogin, hu, Screen.isLogin]
    · simpa [State.presentLogin, State.atLogin, hu] using hl
  | presented screen ha hu =>
    refine iff_of_true (hs.congr rfl rfl fun hl => ?_) (listeningKept_of_signsIn ha.2.1 s)
    rw [atLogin_of_none hu.1] at hl
    cases hl
  | replaced screen screen' ha hshown hscreen =>
    refine iff_of_true (hs.congr rfl rfl fun hl => ?_) (listeningKept_of_signsIn ha.2.1 s)
    rw [atLogin_of_presented hshown, ← hscreen] at hl
    exact hl
  | dismissed screen ha hshown hscreen =>
    refine iff_of_true (hs.congr rfl rfl fun hl => ?_) (listeningKept_of_signsIn ha.2.1 s)
    rw [atLogin_of_presented hshown, hscreen] at hl
    cases hl
  | loggedOut screen ha =>
    exact iff_of_true (fun u hu => by cases hu) (listeningKept_of_signsIn ha.2.1 s)
  | pushed user ha hpush =>
    refine iff_of_true (hs.congr rfl rfl fun hl => ?_) (listeningKept_of_signsIn ha.2.1 s)
    rw [atLogin_of_pushes hpush] at hl
    cases hl
  | popped ha | uploaded c message date ha =>
    exact iff_of_true hs (listeningKept_of_signsIn ha.2.1 s)
  | returned logins registrations ha hc =>
    exact listening_signedIn hs hc rfl rfl rfl
  | completed logins registrations ha hc =>
    refine iff_of_true (listening_authenticationComplete _) fun h => ?_
    rw [hc] at h
    cases h

/-- Past the login screen the conversations of the account that is signed in are listened
to, in every state of a run, exactly when an account that signs in without a call of
`authenticationComplete` does so at the login screen or had its listener before. -/
theorem conversations_listened {currentUser : Option String} {s : State} {as : List Action}
    (hrun : run (system currentUser) as = some s) :
    Throughout (system currentUser) Listening (launched currentUser) as ↔
      StepsMeet (system currentUser) ListeningKept (launched currentUser) as := by
  apply throughout_iff_stepsMeet (I := fun _ => True)
  · exact fun _ _ _ _ _ => trivial
  · exact fun s a t _ hs (ht : step s a = some t) => listening_step hs ht
  · trivial
  · cases currentUser with
    | none => exact fun u hu => by cases hu
    | some u =>
      intro v hv
      cases hv
      exact .inr (List.mem_singleton.mpr rfl)
  · exact hrun

/-- Ann registers: the account is signed in two callbacks before the registration completes. -/
def annsRegistration : List Action :=
  [.presentLogin, .handleShowSignUp, .handleSignUpPressed ⟨"a@b", "secret", "Ann", "ann", ⟨some [0]⟩⟩,
   .putData 0 none, .downloadURL 0 (some "url"), .createAccount 0 (some "ann") none,
   .setData 0 none]

def afterRegistration : State := (run (system none) annsRegistration).get (by decide)

theorem conversations_listened_registration :
    Throughout (system none) Listening (launched none) annsRegistration :=
  (conversations_listened (s := afterRegistration) (Option.some_get _).symm).mpr (by decide)

end ChipChat.Screens
