import ChipChat.ChatPartners

/-!
# Nobody chats with themselves

While an account is signed in nothing that can open a chat is about it: listeners
decode messages for the account they find signed in, and the picker drops it. Only
what an earlier session left behind can be about an account that signs in.
-/

namespace ChipChat.ChatPartners

open LabelledSystem

set_option autoImplicit false

variable {χ : Type} [DecidableEq χ]

/-- The array of every listener has been filed, and every result was sent by somebody. -/
structure Delivered (s : State) : Prop where
  arrays : ∀ r ∈ s.list.listeners, ∀ c ∈ r.conversations,
    (s.list.conversationsDictionary.lookup c.message.chatPartnerID).isSome
  results : ∀ r ∈ s.list.listeners, ∀ d ∈ r.result.documents, ∃ w ∈ s.sends, d.data = w.data

theorem Delivered.of_sends {s t : State} (h : Delivered s) (hlist : t.list = s.list)
    (hsends : ∀ w ∈ s.sends, w ∈ t.sends) : Delivered t := by
  constructor
  · rw [hlist]
    exact h.arrays
  · rw [hlist]
    intro r hr d hd
    obtain ⟨w, hw, hdata⟩ := h.results r hr d hd
    exact ⟨w, hsends w hw, hdata⟩

theorem Unnamed.of_eq {s t : State} {u : String} (h : Unnamed s u)
    (hrows : t.list.conversations = s.list.conversations)
    (hlookups : t.list.lookups = s.list.lookups) (hpicker : t.picker = s.picker)
    (hchat : t.chat = s.chat) : Unnamed t u := by
  constructor
  · exact hrows ▸ h.rows
  · exact hlookups ▸ h.lookups
  · exact hpicker ▸ h.picker
  · exact hchat ▸ h.chat

structure Apart (s : State) : Prop where
  consistent : Registration.Consistent s.registration
  account : ∀ u ∈ s.list.currentUser, u ∈ s.registration.accounts.map Registration.Account.uid
  filed : ConversationList.WellFiled s.list
  delivered : Delivered s
  unnamed : ∀ u ∈ s.list.currentUser, Unnamed s u
  sends : ∀ w ∈ s.sends, w.currentUID ≠ w.user.uid
  calls : ∀ call ∈ s.calls, call.1 ≠ some call.2.uid

theorem apart_init : Apart initial := by
  refine ⟨Registration.consistent_init, ?_, ConversationList.wellFiled_init, ?_, ?_, ?_, ?_⟩
  · exact fun u hu => by cases hu
  · constructor <;> simp [initial, ConversationList.initial]
  · exact fun u hu => by cases hu
  · simp [initial]
  · simp [initial]

section Lists
variable {s : State} (h : Apart s)
include h

/-- No row, and so no conversation of an array, has the current account as its partner. -/
theorem partner_ne_of_lookup {u : String} (hu : u ∈ s.list.currentUser) {partner : String}
    (hpartner : (s.list.conversationsDictionary.lookup partner).isSome) : partner ≠ u := by
  obtain ⟨c, hc⟩ := Option.isSome_iff_exists.mp hpartner
  have hrow := (ConversationList.mem_rows_iff h.filed c).mpr ⟨partner, hc⟩
  rw [h.filed.keys partner c hc, ← h.filed.users partner c hc]
  exact (h.unnamed u hu).rows c hrow

theorem unnamed_found {j : Nat} {l : ConversationList.Lookup} {r : ConversationList.Listener}
    {user : User} {rows : List Conversation} (hl : s.list.lookups[j]? = some l)
    (hr : s.list.listeners[l.listener]? = some r)
    (ha : ConversationList.Answer s.list l r user rows) {u : String} (hu : u ∈ s.list.currentUser) :
    ∀ c ∈ (s.list.found j l r user rows).conversations, c.user.uid ≠ u := by
  have hfiled := ConversationList.wellFiled_found h.filed (j := j) hr ha
  intro c hc
  obtain ⟨partner, hpartner⟩ := (ConversationList.mem_rows_iff hfiled c).mp hc
  rw [hfiled.users partner c hpartner, ← hfiled.keys partner c hpartner]
  simp only [ConversationList.State.found, ConversationList.lookup_refiled,
    Option.or_eq_some_iff] at hpartner
  rcases hpartner with hnew | ⟨-, hold⟩
  · obtain ⟨rfl, hmem⟩ := ConversationList.lastAt_filed hnew
    rcases List.mem_append.mp hmem with hmem | hmem
    · exact partner_ne_of_lookup h hu (h.delivered.arrays r (List.mem_of_getElem? hr) c hmem)
    · rw [List.mem_singleton.mp hmem]
      exact (h.unnamed u hu).lookups l (List.mem_of_getElem? hl)
  · exact partner_ne_of_lookup h hu (by rw [hold]; rfl)

theorem delivered_found {j : Nat} {l : ConversationList.Lookup} {r : ConversationList.Listener}
    {user : User} {rows : List Conversation} (hr : s.list.listeners[l.listener]? = some r) :
    Delivered { s with list := s.list.found j l r user rows } := by
  have hold : ∀ partner, (s.list.conversationsDictionary.lookup partner).isSome →
      ((s.list.found j l r user rows).conversationsDictionary.lookup partner).isSome := by
    intro partner hpartner
    simp [ConversationList.State.found, ConversationList.lookup_refiled, hpartner]
  have hhanded : ∀ c ∈ Service.fetchConversationsLookup r.conversations l.message user,
      ((s.list.found j l r user rows).conversationsDictionary.lookup
        c.message.chatPartnerID).isSome := by
    intro c hc
    rcases List.mem_append.mp hc with hc | hc
    · exact hold _ (h.delivered.arrays r (List.mem_of_getElem? hr) c hc)
    · simp only [ConversationList.State.found, ConversationList.lookup_refiled, Option.isSome_or,
        Bool.or_eq_true]
      refine Or.inl ((WriteLog.lastAt_isSome_iff _ _).mpr ?_)
      rw [List.mem_singleton.mp hc]
      simp [ConversationList.filed, Service.fetchConversationsLookup]
  constructor
  · intro q hq c hc
    rcases List.mem_or_eq_of_mem_set hq with hq | rfl
    · exact hold _ (h.delivered.arrays q hq c hc)
    · exact hhanded c hc
  · intro q hq d hd
    rcases List.mem_or_eq_of_mem_set hq with hq | rfl
    · exact h.delivered.results q hq d hd
    · exact h.delivered.results r (List.mem_of_getElem? hr) d hd

theorem delivered_snapshot {i : Nat} {r : ConversationList.Listener}
    (hr : s.list.listeners[i]? = some r) (now : Timestamp) {result : QueryResult}
    (hresult : ∀ d ∈ result.documents, ∃ w ∈ s.sends, d.data = w.data) :
    Delivered { s with list := s.list.snapshot i r now result } := by
  constructor
  · intro q hq c hc
    rcases List.mem_or_eq_of_mem_set hq with hq | rfl
    · exact h.delivered.arrays q hq c hc
    · exact h.delivered.arrays r (List.mem_of_getElem? hr) c hc
  · intro q hq d hd
    rcases List.mem_or_eq_of_mem_set hq with hq | rfl
    · exact h.delivered.results q hq d hd
    · exact hresult d hd

/-- A snapshot starts lookups of the partners of the account that is signed in. -/
theorem lookups_snapshot {i : Nat} {r : ConversationList.Listener}
    (hr : s.list.listeners[i]? = some r) {now : Timestamp} {result : QueryResult}
    (hresult : ∀ d ∈ result.documents, ∃ w ∈ s.sends, d.data = w.data) {u : String}
    (hu : s.list.currentUser = some u) :
    ∀ l ∈ (s.list.snapshot i r now result).lookups, l.message.chatPartnerID ≠ u := by
  intro l hl
  rcases List.mem_append.mp hl with hl | hl
  · exact (h.unnamed u hu).lookups l hl
  · obtain ⟨change, hchange, rfl⟩ := List.mem_map.mp hl
    obtain ⟨w, hw, hdata⟩ : ∃ w ∈ s.sends, change.document.data = w.data := by
      rcases QueryResult.change_mem hchange with hd | hd
      · exact h.delivered.results r (List.mem_of_getElem? hr) _ hd
      · exact hresult _ hd
    rw [Service.fetchConversationsChange, hu, hdata]
    exact chatPartnerID_ne (h.sends w hw) u now

/-- A step of the list that keeps the account and what is known of the listeners. -/
theorem apart_list {list : ConversationList.State}
    (hcurrent : ∀ u ∈ list.currentUser, u ∈ s.list.currentUser)
    (hfiled : ConversationList.WellFiled list) (hdelivered : Delivered { s with list := list })
    (hrows : ∀ u ∈ list.currentUser, ∀ c ∈ list.conversations, c.user.uid ≠ u)
    (hlookups : ∀ u ∈ list.currentUser, ∀ l ∈ list.lookups, l.message.chatPartnerID ≠ u) :
    Apart { s with list := list } := by
  refine ⟨h.consistent, ?_, hfiled, hdelivered, ?_, h.sends, h.calls⟩
  · exact fun u hu => h.account u (hcurrent u hu)
  · intro u hu
    have hunnamed := h.unnamed u (hcurrent u hu)
    exact ⟨hrows u hu, hlookups u hu, hunnamed.picker, hunnamed.chat⟩

theorem apart_conversations {a : ConversationList.Action} {list : ConversationList.State}
    (ha : Permitted s a) (hsignIn : AccountsApart s (.conversations a))
    (hlist : ConversationList.step s.list a = some list) : Apart { s with list := list } := by
  have hfiled := ConversationList.wellFiled_step h.filed hlist
  cases ConversationList.step_change hlist with
  | signedIn uid =>
    refine ⟨h.consistent, ?_, hfiled, ⟨h.delivered.arrays, h.delivered.results⟩, ?_, h.sends,
      h.calls⟩
    · rintro u hu
      obtain rfl := Option.some.inj hu
      exact ha
    · rintro u hu
      obtain rfl := Option.some.inj hu
      exact hsignIn.of_eq rfl rfl rfl rfl
  | signedOut =>
    exact apart_list h (fun u hu => by cases hu) hfiled
      ⟨h.delivered.arrays, h.delivered.results⟩ (fun u hu => by cases hu) (fun u hu => by cases hu)
  | listened uid hu =>
    refine apart_list h (fun u hu => hu) hfiled ?_ (fun u hu => (h.unnamed u hu).rows)
      fun u hu => (h.unnamed u hu).lookups
    constructor
    · intro q hq c hc
      rcases List.mem_append.mp hq with hq | hq
      · exact h.delivered.arrays q hq c hc
      · rw [List.mem_singleton.mp hq] at hc
        cases hc
    · intro q hq d hd
      rcases List.mem_append.mp hq with hq | hq
      · exact h.delivered.results q hq d hd
      · rw [List.mem_singleton.mp hq] at hd
        cases hd
  | nobody | failed => exact h
  | delivered i r now result hr =>
    exact apart_list h (fun u hu => hu) hfiled (delivered_snapshot h hr now ha)
      (fun u hu => (h.unnamed u hu).rows) fun u hu => lookups_snapshot h hr ha hu
  | notFound j l data rows hl hnone =>
    refine apart_list h (fun u hu => hu) hfiled ⟨h.delivered.arrays, h.delivered.results⟩
      (fun u hu => (h.unnamed u hu).rows) ?_
    exact fun u hu l hl => (h.unnamed u hu).lookups l (List.mem_of_mem_eraseIdx hl)
  | found j l r data user rows hl hsome hr hanswer =>
    refine apart_list h (fun u hu => hu) hfiled (delivered_found h hr)
      (fun u hu => unnamed_found h hl hr hanswer hu) ?_
    exact fun u hu l hl => (h.unnamed u hu).lookups l (List.mem_of_mem_eraseIdx hl)

end Lists

/-- Accounts stay, and the account a step signs in is one of them. -/
theorem accounts_step {s t : Registration.State} {a : Registration.Action}
    (ht : Registration.step s a = some t) :
    (∀ u ∈ s.accounts.map Registration.Account.uid, u ∈ t.accounts.map Registration.Account.uid) ∧
      ∀ u ∈ signedIn a, u ∈ t.accounts.map Registration.Account.uid := by
  cases Registration.step_change ht with
  | started | put | downloaded | wrote => exact ⟨fun u hu => hu, fun u hu => by cases hu⟩
  | answered i c profileImageURL created result error hc hp hauth =>
    simp only [Registration.State.createAccount, List.map_append]
    refine ⟨fun u hu => List.mem_append_left _ hu, ?_⟩
    intro u hu
    rw [hauth.reported u hu]
    exact List.mem_append_right _ (by simp)

/-- The search shows users of the picker only. -/
theorem users_search {v : CharacterView χ} {p q : NewMessage.State}
    {a : NewMessage.Action} (hother : ∀ users, a ≠ .usersReturned users)
    (hq : NewMessage.step v p a = some q) :
    ∀ user ∈ q.users ++ q.filteredUsers, user ∈ p.users ++ p.filteredUsers := by
  rcases NewMessage.step_cases hq with ⟨users, rfl, -, -⟩ | ⟨-, isActive, text, rfl⟩
  · exact absurd rfl (hother users)
  · intro user huser
    rcases List.mem_append.mp huser with huser | huser
    · exact List.mem_append_left _ huser
    · exact List.mem_append_left _ (List.mem_filter.mp huser).1

section Screens
variable {s : State} (h : Apart s)
include h

theorem apart_register {here : Bool} {a : Registration.Action} {registration : Registration.State}
    (hplain : a.PlainUID) (hsignIn : AccountsApart s (.register here a))
    (hstep : Registration.step s.registration a = some registration) :
    Apart (s.register here a registration) := by
  have hconsistent := Registration.consistent_step h.consistent hplain hstep
  obtain ⟨hkept, hnew⟩ := accounts_step hstep
  cases here with
  | false =>
    exact ⟨hconsistent, fun u hu => hkept u (h.account u hu), h.filed,
      ⟨h.delivered.arrays, h.delivered.results⟩,
      fun u hu => (h.unnamed u hu).of_eq rfl rfl rfl rfl, h.sends, h.calls⟩
  | true =>
    have hcurrent : ∀ u ∈ (signedIn a).or s.list.currentUser,
        u ∈ signedIn a ∨ u ∈ s.list.currentUser := by
      intro u hu
      rcases Option.or_eq_some_iff.mp hu with hu | ⟨-, hu⟩
      · exact Or.inl hu
      · exact Or.inr hu
    refine ⟨hconsistent, ?_, ⟨h.filed.rows, h.filed.keys, h.filed.users, h.filed.arrays⟩,
      ⟨h.delivered.arrays, h.delivered.results⟩, ?_, h.sends, h.calls⟩
    · intro u hu
      rcases hcurrent u hu with hu | hu
      · exact hnew u hu
      · exact hkept u (h.account u hu)
    · intro u hu
      have hunnamed : Unnamed s u := by
        rcases hcurrent u hu with hu | hu
        · exact hsignIn u hu
        · exact h.unnamed u hu
      exact hunnamed.of_eq rfl rfl rfl rfl

/-- A change of the picker and the chat, to ones that are not about the current account. -/
theorem apart_screens {picker : Option NewMessage.State} {chat : Option User}
    (hpicker : ∀ u ∈ s.list.currentUser, ∀ p ∈ picker, ∀ user ∈ p.users ++ p.filteredUsers,
      user.uid ≠ u)
    (hchat : ∀ u ∈ s.list.currentUser, ∀ user ∈ chat, user.uid ≠ u) :
    Apart { s with picker := picker, chat := chat } := by
  refine ⟨h.consistent, h.account, h.filed, ⟨h.delivered.arrays, h.delivered.results⟩, ?_, h.sends,
    h.calls⟩
  intro u hu
  have hunnamed := h.unnamed u hu
  exact ⟨hunnamed.rows, hunnamed.lookups, hpicker u hu, hchat u hu⟩

theorem users_returned {v : CharacterView χ} {p q : NewMessage.State}
    {snapshot : List (ResourcePath × Dictionary)} {users : List User}
    (hsnapshot : UsersSnapshot s snapshot) {u : String} (hu : u ∈ s.list.currentUser)
    (hp : ∀ user ∈ p.users ++ p.filteredUsers, user.uid ≠ u)
    (husers : Service.fetchUsersCallback s.list.currentUser (some (snapshot.map Prod.snd)) =
      some users) (hq : NewMessage.step v p (.usersReturned users) = some q) :
    ∀ user ∈ q.users ++ q.filteredUsers, user.uid ≠ u := by
  obtain ⟨a, ha, hau⟩ := List.mem_map.mp (h.account u hu)
  have hplain : u ≠ "" ∧ '/' ∉ u.toList := hau ▸ h.consistent.plain a ha
  rw [Option.mem_def.mp hu] at husers
  have hother := Registration.fetchUsersCallback_other h.consistent hsnapshot.2 hsnapshot.1 hplain
    husers
  rcases NewMessage.step_cases hq with ⟨users', heq, -, rfl⟩ | ⟨hne, -⟩
  · cases heq
    intro user huser
    rcases List.mem_append.mp huser with huser | huser
    · exact hother user huser
    · exact hp user (List.mem_append_right _ huser)
  · exact absurd rfl (hne users)

theorem apart_send (message : String) (date : Timestamp) {user : User} (hchat : s.chat = some user) :
    Apart (s.send message date user) := by
  have hother : ∀ u ∈ s.list.currentUser, user.uid ≠ u := fun u hu => (h.unnamed u hu).chat user hchat
  refine ⟨h.consistent, h.account, h.filed,
    h.delivered.of_sends rfl fun w hw => List.mem_append_left _ hw,
    fun u hu => (h.unnamed u hu).of_eq rfl rfl rfl rfl, ?_, ?_⟩
  · intro w hw
    rcases List.mem_append.mp hw with hw | hw
    · exact h.sends w hw
    · simp only [Service.uploadMessage, Option.map_map, Option.mem_toList, Option.map_eq_some_iff,
        Function.comp_apply] at hw
      obtain ⟨u, hu, rfl⟩ := hw
      exact Ne.symm (hother u hu)
  · intro call hcall
    rcases List.mem_append.mp hcall with hcall | hcall
    · exact h.calls call hcall
    · rw [List.mem_singleton.mp hcall]
      exact fun hself => hother user.uid hself rfl

theorem apart_elsewhere {w : Send} (hw : w.currentUID ≠ w.user.uid) :
    Apart { s with sends := s.sends ++ [w] } := by
  refine ⟨h.consistent, h.account, h.filed,
    h.delivered.of_sends rfl fun v hv => List.mem_append_left _ hv,
    fun u hu => (h.unnamed u hu).of_eq rfl rfl rfl rfl, ?_, h.calls⟩
  intro v hv
  rcases List.mem_append.mp hv with hv | hv
  · exact h.sends v hv
  · rw [List.mem_singleton.mp hv]
    exact hw

end Screens

theorem step_search {v : CharacterView χ} {s t : State} {a : NewMessage.Action}
    (ht : step v s (.search a) = some t) : (∀ users, a ≠ .usersReturned users) ∧
      ∃ p q, s.picker = some p ∧ NewMessage.step v p a = some q ∧
        t = { s with picker := some q } := by
  cases a with
  | usersReturned users => cases ht
  | activate | leave | edit text =>
    simp only [step, Option.map_eq_some_iff, Option.bind_eq_some_iff] at ht
    obtain ⟨q, ⟨p, hp, hq⟩, rfl⟩ := ht
    exact ⟨by simp, p, q, hp, hq, rfl⟩

theorem apart_step {v : CharacterView χ} {s t : State} {a : Action} (h : Apart s)
    (hplain : a.PlainUID) (hapart : AccountsApart s a) (ht : step v s a = some t) : Apart t := by
  have hpicker : ∀ u ∈ s.list.currentUser, ∀ p ∈ s.picker,
      ∀ user ∈ p.users ++ p.filteredUsers, user.uid ≠ u := fun u hu => (h.unnamed u hu).picker
  have hchat : ∀ u ∈ s.list.currentUser, ∀ user ∈ s.chat, user.uid ≠ u :=
    fun u hu => (h.unnamed u hu).chat
  cases a with
  | register here a =>
    obtain ⟨registration, hstep, rfl⟩ := Option.map_eq_some_iff.mp ht
    exact apart_register h hplain hapart hstep
  | conversations a =>
    simp only [step, Option.ite_none_right_eq_some, Option.map_eq_some_iff] at ht
    obtain ⟨hpermitted, list, hlist, rfl⟩ := ht
    exact apart_conversations h hpermitted hapart hlist
  | elsewhere w =>
    obtain rfl := Option.some.inj ht
    exact apart_elsewhere h hapart
  | showNewMessage =>
    obtain rfl := Option.some.inj ht
    refine apart_screens h ?_ hchat
    rintro u hu p hp user huser
    cases Option.mem_def.mp hp
    cases huser
  | search a =>
    obtain ⟨hother, p, q, hp, hq, rfl⟩ := step_search ht
    refine apart_screens h ?_ hchat
    rintro u hu q' hq' user huser
    cases Option.mem_def.mp hq'
    exact hpicker u hu p hp user (users_search hother hq user huser)
  | usersReturned snapshot =>
    simp only [step, Option.ite_none_right_eq_some, Option.map_eq_some_iff,
      Option.bind_eq_some_iff] at ht
    obtain ⟨hsnapshot, q, ⟨p, hp, users, husers, hq⟩, rfl⟩ := ht
    refine apart_screens h ?_ hchat
    rintro u hu q' hq'
    cases Option.mem_def.mp hq'
    exact users_returned h hsnapshot hu (hpicker u hu p hp) husers hq
  | handleDismiss =>
    obtain rfl := Option.some.inj ht
    exact apart_screens h (fun u hu p hp => by cases hp) hchat
  | selectRow i =>
    obtain ⟨c, hc, rfl⟩ := Option.map_eq_some_iff.mp ht
    refine apart_screens h hpicker ?_
    rintro u hu user huser
    cases Option.mem_def.mp huser
    exact (h.unnamed u hu).rows c (List.mem_of_getElem? hc)
  | selectUser i =>
    simp only [step, Option.map_eq_some_iff, Option.bind_eq_some_iff] at ht
    obtain ⟨user, ⟨p, hp, hrow⟩, rfl⟩ := ht
    refine apart_screens h (fun u hu p hp => by cases hp) ?_
    rintro u hu user' huser'
    cases Option.mem_def.mp huser'
    exact hpicker u hu p hp user (NewMessage.mem_of_rows (List.mem_of_getElem? hrow))
  | back =>
    obtain rfl := Option.some.inj ht
    exact apart_screens h hpicker (fun u hu user huser => by cases huser)
  | send message date =>
    obtain ⟨user, huser, rfl⟩ := Option.map_eq_some_iff.mp ht
    exact apart_send h message date huser

/-- No call of `uploadMessage` is made for the account that makes it. -/
def NobodySelfChats (s : State) : Prop :=
  (∀ call ∈ s.calls, call.1 ≠ some call.2.uid) ∧ ∀ w ∈ s.sends, w.currentUID ≠ w.user.uid

def bobCredentials : RegistrationCredentials := ⟨"bob@mail", "secret", "Bob", "bob", ⟨some [1]⟩⟩

/-- A registration that succeeds, as the `i`-th of the process. -/
def registering (i : Nat) (credentials : RegistrationCredentials) (filename uid : String) :
    List Action :=
  [.createUser credentials filename, .putData i none, .downloadURL i (some "url"),
   .createAccount i (some uid) (some uid) none, .setData i none].map (.register true)

def bobsUser : User := User.ofDictionary (AuthService.userData bobCredentials "url" "bob")

/-- Bob registers, then Ann. -/
def bobThenAnn : List Action :=
  registering 0 bobCredentials "f" "bob" ++ [.conversations .signOut] ++
    registering 1 Registration.annCredentials "g" "ann"

/-- From his phone Bob writes to Ann, who loads her list and leaves the device to him. -/
def bobComesBack : List Action :=
  bobThenAnn ++
    [.elsewhere ⟨0, 1, "bob", ⟨"", "", "", "ann", ""⟩, "hi", 1000⟩,
     .conversations .fetchConversations,
     .conversations (.snapshot 0 0 ConversationList.withBob),
     .conversations (.lookupReturned 0 (some (AuthService.userData bobCredentials "url" "bob"))
       [⟨bobsUser, Message.ofDictionary (some "ann") 0 ConversationList.fromBob.data⟩]),
     .conversations .signOut, .conversations (.signIn "bob"), .selectRow 0, .send "me" 2]

def afterBobComesBack : State := (run (system asciiView) bobComesBack).get (by decide)

theorem not_nobodySelfChats :
    ¬ ∀ (v : CharacterView Char) as s, run (system v) as = some s → (∀ a ∈ as, a.PlainUID) →
      (∀ w, .elsewhere w ∈ as → w.currentUID ≠ w.user.uid) → NobodySelfChats s := by
  intro h
  have helsewhere : ∀ w, .elsewhere w ∈ bobComesBack → w.currentUID ≠ w.user.uid := by
    intro w hw
    simp [bobComesBack, bobThenAnn, registering] at hw
    simp [hw]
  have hnobody := h asciiView bobComesBack afterBobComesBack (Option.some_get _).symm
    (by decide) helsewhere
  exact absurd (hnobody.1 (some "bob", bobsUser) (by decide)) (by decide)

theorem nobody_self_chats {v : CharacterView χ} {s : State} {as : List Action}
    (hrun : run (system v) as = some s) (hplain : ∀ a ∈ as, a.PlainUID)
    (hapart : StepsMeet (system v) AccountsApart initial as) : NobodySelfChats s := by
  have hboth := stepsMeet_and (stepsMeet_of_forall (S := system v) hplain initial) hapart
  have h : Apart s := by
    apply invariant_of_stepsMeet (S := system v) (I := Apart) ?_ apart_init hboth hrun
    exact fun s a t hs ha ht => apart_step hs ha.1 ha.2 ht
  exact ⟨h.calls, h.sends⟩

/-- Ann finds Bob in the picker. -/
def annWritesToBob : List Action :=
  bobThenAnn ++
    [.showNewMessage,
     .usersReturned
       [((AuthService.userReference "ann").path,
          AuthService.userData Registration.annCredentials "url" "ann"),
        ((AuthService.userReference "bob").path, AuthService.userData bobCredentials "url" "bob")],
     .selectUser 0, .send "hi" 0]

def afterAnnWrites : State := (run (system asciiView) annWritesToBob).get (by decide)

theorem nobody_self_chats_ann :
    afterAnnWrites.calls = [(some "ann", bobsUser)] ∧ NobodySelfChats afterAnnWrites :=
  ⟨by decide, nobody_self_chats (Option.some_get _).symm
    (by decide : ∀ a ∈ annWritesToBob, a.PlainUID) (by decide)⟩

end ChipChat.ChatPartners
