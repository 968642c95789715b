import ChipChat.AppRuns

/-!
# No empty path component

Every users document names its uid and every message names both participants,
in all that has been written; so do the values every device derives from them, and
so do the strings it builds references from.
-/

namespace ChipChat

set_option autoImplicit false

def Dictionary.Names (d : Dictionary) (key : String) : Prop :=
  ∃ value, d.asString key = some value ∧ value ≠ ""

theorem Dictionary.Names.getD_ne {d : Dictionary} {key : String} (h : d.Names key) :
    (d.asString key).getD "" ≠ "" := by
  obtain ⟨value, hvalue, hne⟩ := h
  rw [hvalue]
  exact hne

/-- Both participants of a message are named. -/
def Dictionary.NamesParticipants (d : Dictionary) : Prop := d.Names "fromID" ∧ d.Names "toID"

theorem chatPartnerID_ne {d : Dictionary} (h : d.NamesParticipants) (currentUser : Option String)
    (now : Timestamp) : (Message.ofDictionary currentUser now d).chatPartnerID ≠ "" := by
  unfold Message.chatPartnerID
  split
  · exact h.2.getD_ne
  · exact h.1.getD_ne

theorem fetchUsersCallback_uid {currentUser : Option String} {documents : List Dictionary}
    {users : List User} (h : Service.fetchUsersCallback currentUser (some documents) = some users)
    (hnames : ∀ d ∈ documents, d.Names "uid") : ∀ user ∈ users, user.uid ≠ "" := by
  have hall : ∀ user ∈ documents.map User.ofDictionary, user.uid ≠ "" := by
    intro user huser
    obtain ⟨d, hd, rfl⟩ := List.mem_map.mp huser
    exact (hnames d hd).getD_ne
  simp only [Service.fetchUsersCallback, Option.map_some, Option.some.injEq] at h
  split at h
  · intro user huser
    rw [← h] at huser
    exact hall user (List.mem_of_mem_eraseIdx huser)
  · exact h ▸ hall

/-- Paths start with the name of the root collection their reference was built from. -/
def UnderRoot (root : String) (path : ResourcePath) : Prop := path.head? = some (.name root)

theorem underRoot_threadCollection (a b : String) :
    UnderRoot "messages" (threadCollection a b).path := by
  have h : pathSegments "messages" = ["messages"] := by decide
  simp [UnderRoot, threadCollection, collectionMessages, h]

theorem underRoot_recentMessages (a : String) : UnderRoot "messages" (recentMessages a).path := by
  have h : pathSegments "messages" = ["messages"] := by decide
  simp [UnderRoot, recentMessages, collectionMessages, h]

theorem underRoot_users (uid : String) : UnderRoot "users" (collectionUsers.document uid).path := by
  have h : pathSegments "users" = ["users"] := by decide
  simp [UnderRoot, collectionUsers, h]

theorem underRoot_collectionUsers : UnderRoot "users" collectionUsers.path := by
  unfold UnderRoot
  decide

theorem UnderRoot.append {root : String} {path : ResourcePath} (h : UnderRoot root path)
    (more : ResourcePath) : UnderRoot root (path ++ more) := by
  cases path with
  | nil => cases h
  | cons segment path => exact h

theorem underRoot_reference (w : Send) (part : Part) :
    UnderRoot "messages" (w.reference part).path := by
  cases part with
  | ownThread =>
    rw [Send.reference, path_documentWithAutoID]
    exact (underRoot_threadCollection _ _).append _
  | partnerThread =>
    rw [Send.reference, path_documentWithAutoID]
    exact (underRoot_threadCollection _ _).append _
  | ownRecent =>
    rw [Send.reference, path_document]
    exact (underRoot_recentMessages _).append _
  | partnerRecent =>
    rw [Send.reference, path_document]
    exact (underRoot_recentMessages _).append _

theorem UnderRoot.of_dropLast {root : String} {path : ResourcePath} (h : UnderRoot root path.dropLast) :
    UnderRoot root path := by
  cases path with
  | nil => cases h
  | cons segment path =>
    cases path with
    | nil => cases h
    | cons next path => exact h

def Send.NonEmpty (w : Send) : Prop := w.currentUID ≠ "" ∧ w.user.uid ≠ ""

theorem Send.NonEmpty.names {w : Send} (h : w.NonEmpty) : w.data.NamesParticipants :=
  ⟨⟨w.currentUID, rfl, h.1⟩, ⟨w.user.uid, rfl, h.2⟩⟩

theorem Send.NonEmpty.passed {w : Send} (h : w.NonEmpty) (part : Part) :
    ∀ x ∈ passedStrings (w.reference part).arguments, x ≠ "" := by
  obtain ⟨hfrom, hto⟩ := h
  cases part <;>
    simp [passedStrings, Send.reference, threadCollection, recentMessages, collectionMessages,
      firestoreCollection, CollectionReference.document, DocumentReference.collection,
      CollectionReference.documentWithAutoID, hfrom, hto]

theorem passed_users {uid : String} (h : uid ≠ "") :
    ∀ x ∈ passedStrings (collectionUsers.document uid).arguments, x ≠ "" := by
  simp [passedStrings, collectionUsers, firestoreCollection, CollectionReference.document, h]

theorem passed_recentMessages {uid : String} (h : uid ≠ "") :
    ∀ x ∈ passedStrings (recentMessages uid).arguments, x ≠ "" := by
  simp [passedStrings, recentMessages, collectionMessages, firestoreCollection,
    CollectionReference.document, DocumentReference.collection, h]

theorem passed_threadCollection {a b : String} (ha : a ≠ "") (hb : b ≠ "") :
    ∀ x ∈ passedStrings (threadCollection a b).arguments, x ≠ "" := by
  simp [passedStrings, threadCollection, collectionMessages, firestoreCollection,
    CollectionReference.document, DocumentReference.collection, ha, hb]

end ChipChat

namespace ChipChat.App

open LabelledSystem

set_option autoImplicit false

structure DeviceNames (d : Device) : Prop where
  currentUser : ∀ uid, d.currentUser = some uid → uid ≠ ""
  users : ∀ user ∈ d.users, user.uid ≠ ""
  lookups : ∀ r ∈ d.lookups, UnderRoot "users" r.path
  recents : ∀ c ∈ d.recents, UnderRoot "messages" c.path
  threads : ∀ c ∈ d.threads, UnderRoot "messages" c.path
  uploads : ∀ w ∈ d.uploads, w.NonEmpty

structure AllNamed (s : State) : Prop where
  devices : ∀ d ∈ s.devices, DeviceNames d
  userDocuments : ∀ path data, (path, data) ∈ s.written → UnderRoot "users" path → data.Names "uid"
  messageDocuments : ∀ path data, (path, data) ∈ s.written → UnderRoot "messages" path →
    data.NamesParticipants
  passed : ∀ x ∈ s.passed, x ≠ ""
  decodedUsers : ∀ data ∈ s.decodedUsers, data.Names "uid"
  decodedMessages : ∀ data ∈ s.decodedMessages, data.NamesParticipants

theorem deviceNames_launched {currentUser : Option String}
    (h : ∀ uid, currentUser = some uid → uid ≠ "") : DeviceNames (.launched currentUser) := by
  constructor <;> simp [Device.launched]
  exact h

section Operations
variable {s : State} (h : AllNamed s)
include h

theorem AllNamed.onDevice (k : Nat) {d : Device} (hd : DeviceNames d) : AllNamed (s.onDevice k d) := by
  refine { h with devices := ?_ }
  intro d' hd'
  rcases List.mem_or_eq_of_mem_set hd' with hd' | rfl
  · exact h.devices d' hd'
  · exact hd

theorem AllNamed.passing {arguments : List Argument}
    (hpassed : ∀ x ∈ passedStrings arguments, x ≠ "") : AllNamed (s.passing arguments) := by
  refine { h with passed := ?_ }
  intro x hx
  rcases List.mem_append.mp hx with hx | hx
  · exact h.passed x hx
  · exact hpassed x hx

theorem AllNamed.write {r : DocumentReference} {data : Dictionary}
    (hpassed : ∀ x ∈ passedStrings r.arguments, x ≠ "")
    (huser : UnderRoot "users" r.path → data.Names "uid")
    (hmessage : UnderRoot "messages" r.path → data.NamesParticipants) :
    AllNamed (s.write r data) := by
  refine { h.passing hpassed with userDocuments := ?_, messageDocuments := ?_ }
  · intro path d hmem
    rcases List.mem_append.mp hmem with hmem | hmem
    · exact h.userDocuments path d hmem
    · cases List.mem_singleton.mp hmem
      exact huser
  · intro path d hmem
    rcases List.mem_append.mp hmem with hmem | hmem
    · exact h.messageDocuments path d hmem
    · cases List.mem_singleton.mp hmem
      exact hmessage

theorem AllNamed.writeMessage {w : Send} (hw : w.NonEmpty) (part : Part) :
    AllNamed (s.write (w.reference part) w.data) := by
  refine h.write (hw.passed part) ?_ fun _ => hw.names
  intro huser
  rw [UnderRoot, underRoot_reference w part] at huser
  simp at huser

theorem AllNamed.decodingUsers {dictionaries : List Dictionary}
    (hnames : ∀ d ∈ dictionaries, d.Names "uid") : AllNamed (s.decodingUsers dictionaries) := by
  refine { h with decodedUsers := ?_ }
  intro d hd
  rcases List.mem_append.mp hd with hd | hd
  · exact h.decodedUsers d hd
  · exact hnames d hd

theorem AllNamed.decodingMessages {dictionaries : List Dictionary}
    (hnames : ∀ d ∈ dictionaries, d.NamesParticipants) :
    AllNamed (s.decodingMessages dictionaries) := by
  refine { h with decodedMessages := ?_ }
  intro d hd
  rcases List.mem_append.mp hd with hd | hd
  · exact h.decodedMessages d hd
  · exact hnames d hd

theorem AllNamed.visible_users {data : Dictionary} (hv : s.Visible collectionUsers data) :
    data.Names "uid" := by
  obtain ⟨⟨path, d⟩, hmem, -, hpath, rfl⟩ := hv
  refine h.userDocuments path d hmem (UnderRoot.of_dropLast ?_)
  rw [hpath]
  exact underRoot_collectionUsers

theorem AllNamed.visible_messages {c : CollectionReference} (hc : UnderRoot "messages" c.path)
    {data : Dictionary} (hv : s.Visible c data) : data.NamesParticipants := by
  obtain ⟨⟨path, d⟩, hmem, -, hpath, rfl⟩ := hv
  refine h.messageDocuments path d hmem (UnderRoot.of_dropLast ?_)
  rw [hpath]
  exact hc

theorem AllNamed.lookUp (k : Nat) {d : Device} (hd : DeviceNames d) {uid : String} (huid : uid ≠ "") :
    AllNamed (s.lookUp k d uid) := by
  refine (h.passing (passed_users huid)).onDevice k { hd with lookups := ?_ }
  intro r hr
  rcases List.mem_append.mp hr with hr | hr
  · exact hd.lookups r hr
  · rw [List.mem_singleton.mp hr]
    exact underRoot_users uid

theorem AllNamed.writeAll {writes : List Write} (hw : ∀ w ∈ writes, w.send.NonEmpty) :
    AllNamed (s.writeAll writes) := by
  induction writes generalizing s with
  | nil => exact h
  | cons w writes ih =>
    have hfirst := h.writeMessage (hw w List.mem_cons_self) w.part
    exact ih hfirst fun v hv => hw v (List.mem_cons_of_mem w hv)

end Operations

section Steps
variable {s : State} {k : Nat} {d : Device}

theorem allNamed_upload (h : AllNamed s) (hd : DeviceNames d) {w : Write} (hw : w.send.NonEmpty) :
    AllNamed (s.upload k d w) := by
  refine (h.writeMessage hw w.part).onDevice k { hd with uploads := ?_ }
  intro v hv
  rcases List.mem_append.mp hv with hv | hv
  · exact hd.uploads v hv
  · rw [List.mem_singleton.mp hv]
    exact hw

theorem allNamed_uploadReturned (h : AllNamed s) (hd : DeviceNames d) {j : Nat} {w : Send}
    (hw : d.uploads[j]? = some w) (outcome : Outcome) :
    AllNamed (s.uploadReturned k d j w outcome) := by
  have hne := hd.uploads w (List.mem_of_getElem? hw)
  refine (h.writeAll ?_).onDevice k
    { hd with uploads := fun v hv => hd.uploads v (List.mem_of_mem_eraseIdx hv) }
  intro v hv
  simp only [Service.uploadMessageCallback, List.mem_cons, List.not_mem_nil, or_false] at hv
  rcases hv with rfl | rfl | rfl <;> exact hne

/-- The stages before the users document touch neither the database nor any path. -/
theorem allNamed_registration (h : AllNamed s) (hd : DeviceNames d) (i : Nat)
    (credentials : RegistrationCredentials) {p : Progress}
    (hp : ∀ uid data, p = .waiting (.writingUser uid data) → uid ≠ "" ∧ data.Names "uid") :
    AllNamed (s.registration k d i credentials p) := by
  unfold State.registration
  split
  · rename_i uid data
    obtain ⟨huid, hdata⟩ := hp uid data rfl
    refine (h.write (passed_users huid) (fun _ => hdata) ?_).onDevice k { hd with }
    -- a users document is no message
    intro hmessage
    change UnderRoot "messages" (collectionUsers.document uid).path at hmessage
    rw [UnderRoot, underRoot_users uid] at hmessage
    simp at hmessage
  · exact h.onDevice k { hd with }
  · exact h.onDevice k { hd with }

theorem allNamed_createAccount (h : AllNamed s) (hd : DeviceNames d) (i : Nat)
    (credentials : RegistrationCredentials) (profileImageURL : String) {result : Option String}
    (hresult : ∀ uid ∈ result, uid ≠ "") (error : Option BackendError) :
    AllNamed (s.registration k { d with currentUser := result.or d.currentUser } i credentials
      (AuthService.createAccountCallback credentials profileImageURL result error)) := by
  have hsigned : DeviceNames { d with currentUser := result.or d.currentUser } := by
    refine { hd with currentUser := ?_ }
    intro uid huid
    rcases Option.or_eq_some_iff.mp huid with huid | ⟨-, huid⟩
    · exact hresult uid huid
    · exact hd.currentUser uid huid
  refine allNamed_registration h hsigned i credentials ?_
  intro uid data hp
  cases error <;> cases result <;> simp [AuthService.createAccountCallback] at hp
  rename_i created
  obtain ⟨rfl, rfl⟩ := hp
  exact ⟨hresult _ rfl, _, rfl, hresult _ rfl⟩

theorem allNamed_usersReturned (h : AllNamed s) (hd : DeviceNames d)
    {snapshot : Option (List Dictionary)}
    (hv : ∀ data ∈ snapshot.getD [], s.Visible collectionUsers data) :
    AllNamed ((s.decodingUsers (snapshot.getD [])).onDevice k
      { d with
        fetches := d.fetches - 1
        users := d.users ++ (Service.fetchUsersCallback d.currentUser snapshot).getD [] }) := by
  have hnames : ∀ data ∈ snapshot.getD [], data.Names "uid" :=
    fun data hdata => h.visible_users (hv data hdata)
  refine (h.decodingUsers hnames).onDevice k { hd with users := ?_ }
  intro user huser
  rcases List.mem_append.mp huser with huser | huser
  · exact hd.users user huser
  · cases snapshot with
    | none => cases huser
    | some documents =>
      cases hu : Service.fetchUsersCallback d.currentUser (some documents) with
      | none =>
        rw [hu] at huser
        cases huser
      | some users =>
        rw [hu] at huser
        exact fetchUsersCallback_uid hu hnames user huser

theorem allNamed_userReturned (h : AllNamed s) (hd : DeviceNames d) {j : Nat}
    {r : DocumentReference} (hr : d.lookups[j]? = some r) {data : Option Dictionary}
    (hv : ∀ x ∈ data, (r.path, x) ∈ s.written) :
    AllNamed ((s.decodingUsers data.toList).onDevice k
      { d with
        lookups := d.lookups.eraseIdx j
        users := d.users ++ (Service.fetchUserCallback data).toList }) := by
  have hroot := hd.lookups r (List.mem_of_getElem? hr)
  have hnames : ∀ x ∈ data, x.Names "uid" :=
    fun x hx => h.userDocuments r.path x (hv x hx) hroot
  refine (h.decodingUsers fun x hx => hnames x (Option.mem_toList.mp hx)).onDevice k
    { hd with users := ?_, lookups := ?_ }
  · intro user huser
    rcases List.mem_append.mp huser with huser | huser
    · exact hd.users user huser
    · cases data with
      | none => cases huser
      | some x =>
        rw [List.mem_singleton.mp huser]
        exact (hnames x rfl).getD_ne
  · exact fun r' hr' => hd.lookups r' (List.mem_of_mem_eraseIdx hr')

theorem allNamed_listenToRecents (h : AllNamed s) (hd : DeviceNames d) {query : CollectionReference}
    (hq : Service.fetchConversations d.currentUser = some query) :
    AllNamed (s.listenToRecents k d query) := by
  obtain ⟨uid, huid, rfl⟩ := Option.map_eq_some_iff.mp hq
  refine (h.passing (passed_recentMessages (hd.currentUser uid huid))).onDevice k
    { hd with recents := ?_ }
  intro c hc
  rcases List.mem_append.mp hc with hc | hc
  · exact hd.recents c hc
  · rw [List.mem_singleton.mp hc]
    exact underRoot_recentMessages uid

theorem allNamed_listenToThread (h : AllNamed s) (hd : DeviceNames d) {user : User}
    (huser : user ∈ d.users) {query : CollectionReference}
    (hq : Service.fetchMessages d.currentUser user = some query) :
    AllNamed (s.listenToThread k d query) := by
  obtain ⟨uid, huid, rfl⟩ := Option.map_eq_some_iff.mp hq
  refine (h.passing (passed_threadCollection (hd.currentUser uid huid)
    (hd.users user huser))).onDevice k { hd with threads := ?_ }
  intro c hc
  rcases List.mem_append.mp hc with hc | hc
  · exact hd.threads c hc
  · rw [List.mem_singleton.mp hc]
    exact underRoot_threadCollection uid user.uid

theorem allNamed_deviceStep {t : State} {a : DeviceAction} (h : AllNamed s) (hd : DeviceNames d)
    (ht : deviceStep s k d a = some t) : AllNamed t := by
  cases a with
  | signIn uid =>
    simp only [deviceStep, Option.ite_none_right_eq_some, Option.some.injEq] at ht
    obtain ⟨huid, rfl⟩ := ht
    refine h.onDevice k { hd with currentUser := ?_ }
    intro uid' heq
    exact Option.some.inj heq ▸ huid
  | signOut =>
    obtain rfl := Option.some.inj ht
    refine h.onDevice k { hd with currentUser := ?_ }
    intro uid heq
    cases heq
  | terminate =>
    obtain rfl := Option.some.inj ht
    exact h.onDevice k (deviceNames_launched hd.currentUser)
  | createUser credentials =>
    simp only [deviceStep] at ht
    split at ht
    · exact Option.some.inj ht ▸ h
    · obtain rfl := Option.some.inj ht
      exact h.onDevice k { hd with }
  | putData i error =>
    simp only [deviceStep] at ht
    split at ht
    · obtain rfl := Option.some.inj ht
      refine allNamed_registration h hd i _ ?_
      intro uid data hp
      cases error <;> simp [AuthService.putDataCallback] at hp
    · cases ht
  | downloadURL i url =>
    simp only [deviceStep] at ht
    split at ht
    · obtain rfl := Option.some.inj ht
      refine allNamed_registration h hd i _ ?_
      intro uid data hp
      cases url <;> simp [AuthService.downloadURLCallback] at hp
    · cases ht
  | createAccount i result error =>
    simp only [deviceStep] at ht
    split at ht
    · simp only [Option.ite_none_right_eq_some, Option.some.injEq] at ht
      obtain ⟨hresult, rfl⟩ := ht
      exact allNamed_createAccount h hd i _ _ hresult error
    · cases ht
  | setData i error =>
    simp only [deviceStep] at ht
    split at ht
    · obtain rfl := Option.some.inj ht
      refine allNamed_registration h hd i _ ?_
      intro uid data hp
      simp [AuthService.setDataCallback] at hp
    · cases ht
  | fetchUsers =>
    obtain rfl := Option.some.inj ht
    exact (h.passing (by decide)).onDevice k { hd with }
  | usersReturned snapshot =>
    simp only [deviceStep, Option.ite_none_right_eq_some, Option.some.injEq] at ht
    obtain ⟨⟨-, hv⟩, rfl⟩ := ht
    exact allNamed_usersReturned h hd hv
  | fetchUser =>
    simp only [deviceStep] at ht
    split at ht
    · exact Option.some.inj ht ▸ h
    · rename_i uid huid
      obtain rfl := Option.some.inj ht
      exact h.lookUp k hd (hd.currentUser uid huid)
  | userReturned j data =>
    simp only [deviceStep] at ht
    split at ht
    · cases ht
    · rename_i r hr
      simp only [Option.ite_none_right_eq_some, Option.some.injEq] at ht
      obtain ⟨hv, rfl⟩ := ht
      exact allNamed_userReturned h hd hr hv
  | fetchConversations =>
    simp only [deviceStep] at ht
    split at ht
    · exact Option.some.inj ht ▸ h
    · rename_i query hq
      obtain rfl := Option.some.inj ht
      exact allNamed_listenToRecents h hd hq
  | conversationsChanged i now change =>
    simp only [deviceStep] at ht
    split at ht
    · cases ht
    · rename_i query hq
      simp only [Option.ite_none_right_eq_some, Option.some.injEq] at ht
      obtain ⟨hv, rfl⟩ := ht
      have hnames := h.visible_messages (hd.recents query (List.mem_of_getElem? hq)) hv
      have hdecoded : AllNamed (s.decodingMessages [change.document.data]) :=
        h.decodingMessages (by simpa using hnames)
      exact hdecoded.lookUp k hd (chatPartnerID_ne hnames _ _)
  | fetchMessages user =>
    simp only [deviceStep, Option.ite_none_right_eq_some] at ht
    obtain ⟨huser, ht⟩ := ht
    split at ht
    · exact Option.some.inj ht ▸ h
    · rename_i query hq
      obtain rfl := Option.some.inj ht
      exact allNamed_listenToThread h hd huser hq
  | messagesChanged i change =>
    simp only [deviceStep] at ht
    split at ht
    · cases ht
    · rename_i query hq
      simp only [Option.ite_none_right_eq_some, Option.some.injEq] at ht
      obtain ⟨hv, rfl⟩ := ht
      have hnames := h.visible_messages (hd.threads query (List.mem_of_getElem? hq)) hv
      split
      · exact h.decodingMessages (by simpa using hnames)
      · exact h
  | uploadMessage number message user date =>
    simp only [deviceStep, Option.ite_none_right_eq_some] at ht
    obtain ⟨huser, ht⟩ := ht
    split at ht
    · exact Option.some.inj ht ▸ h
    · rename_i w hw
      obtain rfl := Option.some.inj ht
      obtain ⟨uid, huid, rfl⟩ := Option.map_eq_some_iff.mp hw
      exact allNamed_upload h hd ⟨hd.currentUser uid huid, hd.users user huser⟩
  | uploadReturned j outcome =>
    simp only [deviceStep] at ht
    split at ht
    · cases ht
    · rename_i w hw
      obtain rfl := Option.some.inj ht
      exact allNamed_uploadReturned h hd hw outcome

end Steps

theorem allNamed_step {s t : State} {a : Action} (h : AllNamed s) (ht : step s a = some t) :
    AllNamed t := by
  cases a with
  | launch =>
    obtain rfl := Option.some.inj ht
    refine { h with devices := ?_ }
    intro d hd
    rcases List.mem_append.mp hd with hd | hd
    · exact h.devices d hd
    · rw [List.mem_singleton.mp hd]
      exact deviceNames_launched (by simp)
  | on k a =>
    simp only [step] at ht
    split at ht
    · cases ht
    · rename_i d hd
      exact allNamed_deviceStep h (h.devices d (List.mem_of_getElem? hd)) ht

theorem allNamed_init : AllNamed initial := by
  constructor <;> simp [initial]

theorem no_empty_component {s : State} {as : List Action} (hrun : run system as = some s) :
    (∀ x ∈ s.passed, x ≠ "") ∧ (∀ data ∈ s.decodedUsers, data.Names "uid") ∧
      ∀ data ∈ s.decodedMessages, data.NamesParticipants := by
  have h := invariant allNamed_init
    (fun s a t hs (ht : step s a = some t) => allNamed_step hs ht) hrun
  exact ⟨h.passed, h.decodedUsers, h.decodedMessages⟩

def registering (k : Nat) (credentials : RegistrationCredentials) (uid : String) : List Action :=
  [.launch, .on k (.createUser credentials), .on k (.putData 0 none),
   .on k (.downloadURL 0 (some "url")), .on k (.createAccount 0 (some uid) none)]

def ann : RegistrationCredentials := ⟨"ann@mail", "secret", "Ann", "ann", ⟨some [1]⟩⟩
def bob : RegistrationCredentials := ⟨"bob@mail", "hidden", "Bob", "bob", ⟨some [2]⟩⟩

/-- Bob finds Ann in the list of users and writes to her; she loads her conversations. -/
def firstMessage : List Action :=
  registering 0 ann "u1" ++ registering 1 bob "u2" ++
  [.on 1 .fetchUsers,
   .on 1 (.usersReturned (some [AuthService.userData ann "url" "u1",
     AuthService.userData bob "url" "u2"])),
   .on 1 (.uploadMessage 0 "hi" (User.ofDictionary (AuthService.userData ann "url" "u1")) 5),
   .on 1 (.uploadReturned 0 .stored),
   .on 0 .fetchConversations,
   .on 0 (.conversationsChanged 0 6 ⟨.added, ⟨"u2",
     (⟨0, 1, "u2", User.ofDictionary (AuthService.userData ann "url" "u1"), "hi", 5⟩ : Send).data⟩⟩),
   .on 0 (.userReturned 0 (some (AuthService.userData bob "url" "u2")))]

def afterFirstMessage : State := (run system firstMessage).get (by decide)

theorem no_empty_component_firstMessage :
    (∀ x ∈ afterFirstMessage.passed, x ≠ "") ∧ afterFirstMessage.passed.length = 24 :=
  ⟨(no_empty_component (s := afterFirstMessage) (Option.some_get _).symm).1, by decide⟩

end ChipChat.App
