import ChipChat.ChatSync

/-!
# What the chats show

A chat shows a copy once it was in a result delivered to it, and from then on. A
rejected copy leaves the results for good. One that is pending leaves them with the
account it was issued under and may come back, and is then listed once more.
-/

namespace ChipChat.ChatSync

open LabelledSystem Upload

set_option autoImplicit false

/-- Whoever uploads, is addressed or opens a chat has an account uid. -/
def Action.BetweenAccounts : Action → Prop
  | .upload a => a.BetweenAccounts
  | .fetchMessages _ currentUser user => (∀ uid ∈ currentUser, IsUID uid) ∧ IsUID user.uid
  | _ => True

instance : ∀ a : Action, Decidable a.BetweenAccounts
  | .upload a => inferInstanceAs (Decidable a.BetweenAccounts)
  | .fetchMessages _ currentUser user =>
      inferInstanceAs (Decidable ((∀ uid ∈ currentUser, IsUID uid) ∧ IsUID user.uid))
  | .handleCredentialChange .. | .receive .. | .view .. => isTrue trivial

/-- The message a copy is decoded to while `currentUser` is signed in. -/
def row (currentUser : Option String) (w : Write) : Message :=
  Message.ofDictionary currentUser w.send.date w.send.data

/-- The copy was issued on the chat's device, where the account it was issued under and another
one have been signed in. -/
def Chat.Displaced (c : Chat) (w : Write) : Prop :=
  c.Own w ∧ some w.send.currentUID ∈ c.accounts ∧ ∃ u ∈ c.accounts, u ≠ some w.send.currentUID

/-- The messages of the chat are the copies `shown`, each with the account it was decoded
for: copies in the thread that were delivered to the chat, of which those that are no
longer in its result have been rejected, or displaced by a change of the account. -/
structure Shown (name : Nat → String) (s : Upload.State) (c : Chat)
    (shown : List (Write × Option String)) : Prop where
  rows : c.view.messages.Perm (shown.map fun e => row e.2 e.1)
  issued : ∀ e ∈ shown, e.1 ∈ s.issued ∧ c.InQuery e.1
  origin : ∀ e ∈ shown, e.1 ∈ c.received ∨
    c.Own e.1 ∧ ((e.1, .stored) ∈ s.settled ∨ some e.1.send.currentUID ∈ c.accounts)
  result : ∀ d ∈ c.view.result.documents, ∃ e ∈ shown, e.1.document name = d
  withdrawn : ∀ e ∈ shown, e.1.document name ∉ c.view.result.documents →
    (e.1, .rejected) ∈ s.settled ∨ c.Displaced e.1
  listings : ∀ w, (shown.map Prod.fst).count w ≤ c.accounts.length
  -- one that was listed as often as it can be is in the result, or cannot enter it again
  spent : ∀ w, (shown.map Prod.fst).count w = c.accounts.length →
    (w, .rejected) ∈ s.settled ∨ Shows s c w ∧ w.document name ∈ c.view.result.documents

/-- The accounts a chat was shown its copies for are among those `A` allows. -/
structure Keeps (name : Nat → String) (A : String → Option String → Prop) (s : Upload.State)
    (c : Chat) : Prop where
  currentUID : IsUID c.currentUID
  partner : IsUID c.user.uid
  handed : c.view.messages = c.view.accumulated
  received : ∀ w ∈ c.received, (w, .stored) ∈ s.settled
  shown : ∃ shown, Shown name s c shown ∧ ∀ e ∈ shown, A c.currentUID e.2

section Documents
variable {name : Nat → String} {s : Upload.State} {c : Chat}

theorem issued_send (h : Accounting s) {w : Write} (hw : w ∈ s.issued) : w.send ∈ s.sends := by
  rcases (mem_issued_iff h w).mp hw with ⟨-, hsend⟩ | ⟨-, hcontinued⟩
  · exact hsend
  · exact continued_subset h hcontinued

theorem path_of_inThread {a b : String} (ha : IsUID a) (hb : IsUID b) {w : Write}
    (hc : IsUID w.send.currentUID) (hu : IsUID w.send.user.uid) (hw : inThread a b w.path) :
    awaited w ∧ ∃ n, w.path = (threadCollection a b).path ++ [.autoID n] := by
  have hpath := write_path hc hu
  have hmailbox := (inThread_iff_mailbox ha hb hc hu).mp hw
  refine ⟨hmailbox.1, ?_⟩
  rw [hpath, path_threadCollection ha hb]
  obtain ⟨n, p⟩ := w
  obtain ⟨haw, heq⟩ := hmailbox
  obtain ⟨rfl, rfl⟩ := Prod.mk.inj heq
  cases p
  · exact ⟨_, rfl⟩
  · exact ⟨_, rfl⟩
  · simp [awaited] at haw
  · simp [awaited] at haw

/-- The copies of a thread have documents of their own. -/
theorem document_injective (hname : Function.Injective name) (h : Accounting s)
    (hs : SendsBetweenAccounts s) (hc : IsUID c.currentUID) (hu : IsUID c.user.uid) {v w : Write}
    (hv : v ∈ s.issued ∧ c.InQuery v) (hw : w ∈ s.issued ∧ c.InQuery w)
    (heq : v.documentID name = w.documentID name) : v = w := by
  have hvacc := hs _ (issued_send h hv.1)
  have hwacc := hs _ (issued_send h hw.1)
  obtain ⟨haw, m, hm⟩ := path_of_inThread hc hu hvacc.1 hvacc.2 hv.2
  obtain ⟨-, n, hn⟩ := path_of_inThread hc hu hwacc.1 hwacc.2 hw.2
  simp only [Write.documentID, hm, hn, List.getLast?_concat] at heq
  obtain rfl := hname heq
  exact eq_of_path_eq h hs (issued_send h hv.1) (issued_send h hw.1) haw (hm.trans hn.symm)

theorem row_eq (currentUser : Option String) (now : Timestamp) (w : Write) :
    Message.ofDictionary currentUser now (w.document name).data = row currentUser w :=
  ChatView.ofDictionary_now (by simp [Write.document, Send.data_eq, Dictionary.asTimestamp,
    List.lookup_cons]) _ _ _

/-- Documents that are all documents of copies are those of a list of copies. -/
theorem exists_writes {P : Write → Prop} {docs : List QueryDocument}
    (h : ∀ d ∈ docs, ∃ w, P w ∧ w.document name = d) :
    ∃ ws : List Write, (∀ w ∈ ws, P w) ∧ ws.map (Write.document name) = docs := by
  induction docs with
  | nil => exact ⟨[], by simp, rfl⟩
  | cons d docs ih =>
    obtain ⟨w, hw, rfl⟩ := h d List.mem_cons_self
    obtain ⟨ws, hws, rfl⟩ := ih fun d hd => h d (List.mem_cons_of_mem _ hd)
    exact ⟨w :: ws, List.forall_mem_cons.mpr ⟨hw, hws⟩, rfl⟩

end Documents

section Snapshots
variable {name : Nat → String} {s : Upload.State} {c : Chat} {A : String → Option String → Prop}

section Delivered
variable {shown : List (Write × Option String)} {n : ChatView.Snapshot}

/-- The additions of a result are documents of copies the local view shows. -/
theorem added_writes (hn : IsView name s c n.result) :
    ∃ ws : List Write, (∀ w ∈ ws, w ∈ s.issued ∧ Shows s c w) ∧
      ws.map (Write.document name) = c.view.result.added n.result := by
  apply exists_writes
  intro d hd
  obtain ⟨w, hw, hshows, rfl⟩ := hn.1 d (List.mem_filter.mp hd).1
  exact ⟨w, ⟨hw, hshows⟩, rfl⟩

theorem not_rejected_of_shows (h : Accounting s)
    (hreceived : ∀ w ∈ c.received, (w, .stored) ∈ s.settled) {w : Write} (hshows : Shows s c w) :
    (w, .rejected) ∉ s.settled := by
  intro hrejected
  have hnot : (w, .stored) ∉ s.settled := fun hstored =>
    absurd (settled_unique h hstored hrejected) (by simp)
  rcases hshows.2 with hrec | ⟨-, hstored | ⟨-, hpending⟩⟩
  · exact hnot (hreceived w hrec)
  · exact hnot hstored
  · exact hpending hrejected

/-- A copy that is added has been listed less often than it can be. -/
theorem count_lt_of_added (h : Accounting s) (hshown : Shown name s c shown)
    (hreceived : ∀ w ∈ c.received, (w, .stored) ∈ s.settled) {w : Write} (hshows : Shows s c w)
    (hadded : w.document name ∈ c.view.result.added n.result) :
    (shown.map Prod.fst).count w < c.accounts.length := by
  refine lt_of_le_of_ne (hshown.listings w) fun hspent => ?_
  rcases hshown.spent w hspent with hrejected | ⟨-, hold⟩
  · exact not_rejected_of_shows h hreceived hshows hrejected
  · exact of_decide_eq_true (List.mem_filter.mp hadded).2 (List.mem_map.mpr ⟨_, hold, rfl⟩)

theorem shown_of_not_added (hname : Function.Injective name) (h : Accounting s)
    (hs : SendsBetweenAccounts s) (hc : IsUID c.currentUID) (hu : IsUID c.user.uid)
    (hshown : Shown name s c shown) (hn : IsView name s c n.result) {d : QueryDocument}
    (hd : d ∈ n.result.documents) (hadd : d ∉ c.view.result.added n.result) :
    ∃ e ∈ shown, e.1.document name = d := by
  -- its identifier is an old one, so it is the old document of the same copy
  have hid : d.documentID ∈ documentIDs c.view.result.documents := by
    by_contra hnot
    exact hadd (List.mem_filter.mpr ⟨hd, decide_eq_true hnot⟩)
  obtain ⟨d', hd', hsame⟩ := List.mem_map.mp hid
  obtain ⟨e, he, rfl⟩ := hshown.result d' hd'
  obtain ⟨w, hw, hshows, rfl⟩ := hn.1 d hd
  have heq := document_injective hname h hs hc hu (hshown.issued e he) ⟨hw, hshows.1⟩ hsame
  exact ⟨e, he, by rw [heq]⟩

theorem withdrawn_of_hidden (hshown : Shown name s c shown) (hn : IsView name s c n.result)
    {e : Write × Option String} (he : e ∈ shown) (hgone : e.1.document name ∉ n.result.documents) :
    (e.1, .rejected) ∈ s.settled ∨ c.Displaced e.1 := by
  obtain ⟨hissued, hquery⟩ := hshown.issued e he
  have hhidden : ¬ Shows s c e.1 := fun hshows => hgone (hn.2 e.1 hissued hshows)
  by_cases hrejected : (e.1, .rejected) ∈ s.settled
  · exact Or.inl hrejected
  · rcases hshown.origin e he with hrec | ⟨hown, hstored | haccount⟩
    · exact absurd ⟨hquery, Or.inl hrec⟩ hhidden
    · exact absurd ⟨hquery, Or.inr ⟨hown, Or.inl hstored⟩⟩ hhidden
    · -- it is pending, so its account is not the one that is signed in
      refine Or.inr ⟨hown, haccount, c.account, List.mem_cons_self, fun heq => ?_⟩
      exact hhidden ⟨hquery, Or.inr ⟨hown, Or.inr ⟨heq, hrejected⟩⟩⟩

theorem origin_of_shows {w : Write} (hshows : Shows s c w) : w ∈ c.received ∨
    c.Own w ∧ ((w, .stored) ∈ s.settled ∨ some w.send.currentUID ∈ c.accounts) := by
  refine hshows.2.imp_right fun hown => ⟨hown.1, hown.2.imp_right fun hpending => ?_⟩
  exact hpending.1 ▸ List.mem_cons_self

/-- A delivered result lists the copies it adds once more, and no other. -/
theorem listings_delivered (h : Accounting s) (hk : Keeps name A s c)
    (hshown : Shown name s c shown) (hn : IsView name s c n.result) {ws : List Write}
    (hws : ∀ w ∈ ws, w ∈ s.issued ∧ Shows s c w)
    (hdocs : ws.map (Write.document name) = c.view.result.added n.result) (w : Write) :
    (shown.map Prod.fst ++ ws).count w ≤ c.accounts.length ∧
      ((shown.map Prod.fst ++ ws).count w = c.accounts.length →
        (w, .rejected) ∈ s.settled ∨ Shows s c w ∧ w.document name ∈ n.result.documents) := by
  rw [List.count_append]
  have hnodup : ws.Nodup := by
    apply List.Nodup.of_map (Write.document name)
    rw [hdocs]
    exact n.result.distinct.of_map.filter _
  by_cases hw : w ∈ ws
  · rw [List.count_eq_one_of_mem hnodup hw]
    obtain ⟨hissued, hshows⟩ := hws w hw
    have hless := count_lt_of_added h hshown hk.received hshows
      (hdocs ▸ List.mem_map.mpr ⟨w, hw, rfl⟩)
    exact ⟨hless, fun _ => Or.inr ⟨hshows, hn.2 w hissued hshows⟩⟩
  · rw [List.count_eq_zero_of_not_mem hw, Nat.add_zero]
    refine ⟨hshown.listings w, fun hspent => ?_⟩
    have hmem : w ∈ shown.map Prod.fst := by
      apply List.count_pos_iff.mp
      rw [hspent]
      exact Nat.succ_pos _
    obtain ⟨e, he, rfl⟩ := List.mem_map.mp hmem
    exact (hshown.spent e.1 hspent).imp_right fun hshows =>
      ⟨hshows.1, hn.2 e.1 (hshown.issued e he).1 hshows.1⟩

/-- A result that shows the local view adds copies that are listed once more. -/
theorem shown_delivered (hname : Function.Injective name) (h : Accounting s)
    (hs : SendsBetweenAccounts s) (hk : Keeps name A s c) (hshown : Shown name s c shown)
    (hn : IsView name s c n.result) {ws : List Write} (hws : ∀ w ∈ ws, w ∈ s.issued ∧ Shows s c w)
    (hdocs : ws.map (Write.document name) = c.view.result.added n.result) :
    Shown name s { c with view := c.view.deliver n }
      (shown ++ ws.map fun w => (w, n.currentUser)) := by
  rw [ChatView.deliver_eq hk.handed n, ← hk.handed]
  have hfirst : (shown ++ ws.map fun w => (w, n.currentUser)).map Prod.fst =
      shown.map Prod.fst ++ ws := by
    simp [List.map_map, Function.comp_def]
  constructor
  case listings =>
    intro w
    rw [hfirst]
    exact (listings_delivered h hk hshown hn hws hdocs w).1
  case spent =>
    intro w hspent
    rw [hfirst] at hspent
    exact (listings_delivered h hk hshown hn hws hdocs w).2 hspent
  case rows =>
    rw [List.map_append, List.map_map]
    refine hshown.rows.append (List.Perm.of_eq ?_)
    rw [ChatView.addedMessages, ← hdocs, List.map_map]
    exact List.map_congr_left fun w _ => row_eq n.currentUser n.now w
  case issued =>
    intro e he
    rcases List.mem_append.mp he with he | he
    · exact hshown.issued e he
    · obtain ⟨w, hw, rfl⟩ := List.mem_map.mp he
      exact ⟨(hws w hw).1, (hws w hw).2.1⟩
  case origin =>
    intro e he
    rcases List.mem_append.mp he with he | he
    · exact hshown.origin e he
    · obtain ⟨w, hw, rfl⟩ := List.mem_map.mp he
      exact origin_of_shows (hws w hw).2
  case result =>
    intro d hd
    by_cases hadd : d ∈ c.view.result.added n.result
    · obtain ⟨w, hw, rfl⟩ := List.mem_map.mp (hdocs ▸ hadd)
      exact ⟨(w, n.currentUser), List.mem_append_right _ (List.mem_map.mpr ⟨w, hw, rfl⟩), rfl⟩
    · obtain ⟨e, he, hdoc⟩ :=
        shown_of_not_added hname h hs hk.currentUID hk.partner hshown hn hd hadd
      exact ⟨e, List.mem_append_left _ he, hdoc⟩
  case withdrawn =>
    intro e he hgone
    rcases List.mem_append.mp he with he | he
    · exact withdrawn_of_hidden hshown hn he hgone
    · obtain ⟨w, hw, rfl⟩ := List.mem_map.mp he
      exact absurd (hn.2 w (hws w hw).1 (hws w hw).2) hgone

theorem keeps_delivered (hname : Function.Injective name) (h : Accounting s)
    (hs : SendsBetweenAccounts s) (hk : Keeps name A s c) (hn : IsView name s c n.result)
    (hA : A c.currentUID n.currentUser) :
    Keeps name A s { c with view := c.view.deliver n } := by
  obtain ⟨shown, hshown, hallowed⟩ := hk.shown
  obtain ⟨ws, hws, hdocs⟩ := added_writes hn
  have hhanded : (c.view.deliver n).messages = (c.view.deliver n).accumulated := by
    rw [ChatView.deliver_eq hk.handed n]
  refine ⟨hk.currentUID, hk.partner, hhanded, hk.received, _,
    shown_delivered hname h hs hk hshown hn hws hdocs, ?_⟩
  intro e he
  rcases List.mem_append.mp he with he | he
  · exact hallowed e he
  · obtain ⟨w, -, rfl⟩ := List.mem_map.mp he
    exact hA

end Delivered

/-- The view of a chat is kept as uploads go on, up to rejected copies. -/
theorem Shows.mono {w : Write} (h : Shows s c w) {t : Upload.State}
    (hsettled : s.settled ⊆ t.settled) : (w, .rejected) ∈ t.settled ∨ Shows t c w := by
  by_cases hrejected : (w, .rejected) ∈ t.settled
  · exact Or.inl hrejected
  · refine Or.inr ⟨h.1, h.2.imp_right fun hown => ⟨hown.1, ?_⟩⟩
    exact hown.2.imp (fun hstored => hsettled hstored) fun hpending => ⟨hpending.1, hrejected⟩

/-- What is known of a chat stays known as uploads go on. -/
theorem Keeps.mono (hk : Keeps name A s c) {t : Upload.State} (hissued : s.issued ⊆ t.issued)
    (hsettled : s.settled ⊆ t.settled) : Keeps name A t c := by
  obtain ⟨shown, hshown, hallowed⟩ := hk.shown
  refine ⟨hk.currentUID, hk.partner, hk.handed, fun w hw => hsettled (hk.received w hw), shown, ?_,
    hallowed⟩
  refine ⟨hshown.rows, fun e he => ⟨hissued (hshown.issued e he).1, (hshown.issued e he).2⟩, ?_,
    hshown.result, fun e he hgone => (hshown.withdrawn e he hgone).imp_left fun h => hsettled h,
    hshown.listings, ?_⟩
  · intro e he
    exact (hshown.origin e he).imp_right fun hown =>
      ⟨hown.1, hown.2.imp_left fun hstored => hsettled hstored⟩
  · intro w hspent
    rcases hshown.spent w hspent with hrejected | ⟨hshows, hin⟩
    · exact Or.inl (hsettled hrejected)
    · exact (hshows.mono hsettled).imp_right fun hshows => ⟨hshows, hin⟩

theorem Keeps.receive (hk : Keeps name A s c) {w : Write} (hw : (w, .stored) ∈ s.settled) :
    Keeps name A s { c with received := c.received ++ [w] } := by
  obtain ⟨shown, hshown, hallowed⟩ := hk.shown
  refine ⟨hk.currentUID, hk.partner, hk.handed, ?_, shown, ?_, hallowed⟩
  · intro v hv
    rcases List.mem_append.mp hv with hv | hv
    · exact hk.received v hv
    · rwa [List.mem_singleton.mp hv]
  · refine ⟨hshown.rows, hshown.issued,
      fun e he => (hshown.origin e he).imp_left (List.mem_append_left _), hshown.result,
      hshown.withdrawn, hshown.listings, fun v hspent => ?_⟩
    exact (hshown.spent v hspent).imp_right fun hin =>
      ⟨⟨hin.1.1, hin.1.2.imp_left (List.mem_append_left _)⟩, hin.2⟩

/-- With another account a copy can be listed once more. -/
theorem Keeps.handleCredentialChange (hk : Keeps name A s c) (user : Option String) :
    Keeps name A s (c.handleCredentialChange user) := by
  unfold Chat.handleCredentialChange
  split
  · exact hk
  · obtain ⟨shown, hshown, hallowed⟩ := hk.shown
    refine ⟨hk.currentUID, hk.partner, hk.handed, hk.received, shown, ?_, hallowed⟩
    refine ⟨hshown.rows, hshown.issued, ?_, hshown.result, ?_, ?_, ?_⟩
    · intro e he
      exact (hshown.origin e he).imp_right fun hown =>
        ⟨hown.1, hown.2.imp_right (List.mem_cons_of_mem _)⟩
    · intro e he hgone
      refine (hshown.withdrawn e he hgone).imp_right ?_
      rintro ⟨hown, haccount, u, hu, hne⟩
      exact ⟨hown, List.mem_cons_of_mem _ haccount, u, List.mem_cons_of_mem _ hu, hne⟩
    · exact fun w => (hshown.listings w).trans (Nat.le_succ _)
    · intro w hspent
      exact absurd hspent (Nat.lt_succ_of_le (hshown.listings w)).ne

theorem keeps_opened (client : Nat) {currentUID : String} {user : User} (hc : IsUID currentUID)
    (hu : IsUID user.uid) : Keeps name A s (Chat.opened client currentUID user) := by
  refine ⟨hc, hu, rfl, fun w hw => absurd hw List.not_mem_nil, [], ?_,
    fun e he => absurd he List.not_mem_nil⟩
  constructor <;>
    simp [Chat.opened, Chat.accounts, ChatView.initial, QueryResult.empty]

end Snapshots

/-- The histories of the uploads are only appended to. -/
theorem histories_step {s t : Upload.State} {a : Upload.Action} (ht : Upload.step s a = some t) :
    s.issued ⊆ t.issued ∧ s.settled ⊆ t.settled := by
  cases Upload.step_change ht with
  | ignored | stopped => exact ⟨List.Subset.refl _, List.Subset.refl _⟩
  | begun | executed => exact ⟨List.subset_append_left _ _, List.Subset.refl _⟩
  | settled => exact ⟨List.Subset.refl _, List.subset_append_left _ _⟩

/-- The snapshot a step delivers reaches its chat under an account that `A` allows. -/
def Allowed (A : String → Option String → Prop) (s : State) : Action → Prop
  | .view i (.delivered n) => ∀ c ∈ s.chats[i]?, A c.currentUID n.currentUser
  | _ => True

instance (A : String → Option String → Prop) [∀ uid u, Decidable (A uid u)] (s : State) :
    ∀ a, Decidable (Allowed A s a)
  | .view i (.delivered n) =>
      inferInstanceAs (Decidable (∀ c ∈ s.chats[i]?, A c.currentUID n.currentUser))
  | .view _ .failed | .upload _ | .fetchMessages .. | .handleCredentialChange .. | .receive .. =>
      isTrue trivial

theorem allowed_true (s : State) (a : Action) : Allowed (fun _ _ => True) s a := by
  unfold Allowed
  split
  · exact fun _ _ => trivial
  · trivial

structure Synced (name : Nat → String) (A : String → Option String → Prop) (s : State) : Prop where
  accounting : Accounting s.uploads
  accounts : SendsBetweenAccounts s.uploads
  chats : ∀ c ∈ s.chats, Keeps name A s.uploads c

section Runs
variable {name : Nat → String} {A : String → Option String → Prop} {s t : State}

theorem synced_init : Synced name A initial :=
  ⟨accounting_init, fun _ hn => absurd hn List.not_mem_nil, fun _ hc => absurd hc List.not_mem_nil⟩

theorem synced_step (hname : Function.Injective name) {a : Action} (h : Synced name A s)
    (ha : a.BetweenAccounts) (hA : Allowed A s a) (ht : step name s a = some t) :
    Synced name A t := by
  have hset : ∀ {i : Nat} {c : Chat}, Keeps name A s.uploads c →
      ∀ d ∈ s.chats.set i c, Keeps name A s.uploads d := by
    intro i c hc d hd
    rcases List.mem_or_eq_of_mem_set hd with hd | rfl
    · exact h.chats d hd
    · exact hc
  cases step_change ht with
  | uploaded b uploads hb =>
    obtain ⟨hissued, hsettled⟩ := histories_step hb
    exact ⟨accounting_step h.accounting hb, sendsBetweenAccounts_step h.accounts ha hb,
      fun c hc => (h.chats c hc).mono hissued hsettled⟩
  | refused => exact h
  | opened client currentUID user =>
    refine ⟨h.accounting, h.accounts, ?_⟩
    intro d hd
    rcases List.mem_append.mp hd with hd | hd
    · exact h.chats d hd
    · rw [List.mem_singleton.mp hd]
      exact keeps_opened client (ha.1 currentUID rfl) ha.2
  | credential client user =>
    refine ⟨h.accounting, h.accounts, ?_⟩
    intro d hd
    obtain ⟨c, hc, rfl⟩ := List.mem_map.mp hd
    split
    · exact (h.chats c hc).handleCredentialChange user
    · exact h.chats c hc
  | received i w c hc hw =>
    exact ⟨h.accounting, h.accounts, hset ((h.chats c (List.mem_of_getElem? hc)).receive hw)⟩
  | viewed i b c view hc hdelivers hview =>
    refine ⟨h.accounting, h.accounts, hset ?_⟩
    have hk := h.chats c (List.mem_of_getElem? hc)
    cases b with
    | delivered n =>
      cases hview
      exact keeps_delivered hname h.accounting h.accounts hk hdelivers (hA c hc)
    | failed =>
      cases hview
      exact hk

theorem synced_run (hname : Function.Injective name) {as : List Action}
    (hrun : run (system name) as = some s) (has : ∀ x ∈ as, x.BetweenAccounts)
    (hA : StepsMeet (system name) (Allowed A) initial as) : Synced name A s := by
  have hbetween : StepsMeet (system name) (fun _ a => a.BetweenAccounts) initial as :=
    stepsMeet_of_forall has initial
  exact invariant_of_stepsMeet
    (fun s a t hs ha (ht : step name s a = some t) => synced_step hname hs ha.1 ha.2 ht)
    synced_init (stepsMeet_and hbetween hA) hrun

end Runs

/-- Identifiers for an example. -/
def marks (n : Nat) : String := String.ofList (List.replicate n 'x')

theorem marks_injective : Function.Injective marks := by
  intro m n h
  have hlist := String.ofList_inj.mp h
  simpa using congrArg List.length hlist

def annsMessage : Send := ⟨0, 0, "ann", account "bob", "hi", 10500⟩

/-- Ann's own message, before it is stored. -/
def echo : QueryResult :=
  ⟨[Write.document marks ⟨annsMessage, .ownThread⟩], by decide, by decide, by decide⟩

/-- Her message is rejected after the chat was shown it. -/
def rejectedMessage : List Action :=
  [.fetchMessages 0 (some "ann") (account "bob"),
   .upload (.uploadMessage 0 (some "ann") "hi" (account "bob") 10500),
   .view 0 (.delivered ⟨some "ann", 10, echo⟩),
   .upload (.settle ⟨annsMessage, .ownThread⟩ .rejected),
   .view 0 (.delivered ⟨some "ann", 11, .empty⟩)]

def afterRejection : State := (run (system marks) rejectedMessage).get (by decide)

def rejectedChat : Chat := afterRejection.chats.get ⟨0, by decide⟩

/-- Her pending message is listed again when she is back. -/
example : ((run (system marks) (rejectedMessage.take 3 ++
    [.handleCredentialChange 0 none, .view 0 (.delivered ⟨none, 11, .empty⟩),
     .handleCredentialChange 0 (some "ann"), .view 0 (.delivered ⟨some "ann", 12, echo⟩)])).map
    fun s => s.chats.map fun c => (c.view.messages.length, c.accounts)) =
      some [(2, [some "ann", none, some "ann"])] := by
  decide

end ChipChat.ChatSync
