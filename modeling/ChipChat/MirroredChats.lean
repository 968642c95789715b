import ChipChat.ChatRows

/-!
# The two ends of a conversation

Once nothing is outstanding and both listeners have caught up, the chats two accounts
that stayed signed in have with each other list the same messages, each on opposite sides.
-/

namespace ChipChat.ChatSync

open LabelledSystem Upload

set_option autoImplicit false

/-- The last result is of the local view, and the backend has nothing more to send. -/
def CaughtUp (name : Nat → String) (s : Upload.State) (c : Chat) : Prop :=
  IsView name s c c.view.result ∧
    ∀ w ∈ s.issued, c.InQuery w → (w, .stored) ∈ s.settled → w ∈ c.received ∨ c.Own w

instance (name : Nat → String) (s : Upload.State) (c : Chat) : Decidable (CaughtUp name s c) :=
  inferInstanceAs (Decidable (_ ∧ _))

/-- The message a call shows in a chat of `uid`. -/
def messageFor (uid : String) (n : Send) : Message :=
  ⟨n.message, n.user.uid, n.currentUID, n.timestamp, decide (n.currentUID = uid)⟩

def mirrored (m : Message) : Message := { m with isFromCurrentUser := !m.isFromCurrentUser }

/-- The account is signed in while a snapshot is decoded for its chat. -/
def Owner (uid : String) (currentUser : Option String) : Prop := currentUser = some uid

theorem row_owner (uid : String) (w : Write) : row (some uid) w = messageFor uid w.send :=
  decode_data uid w.send.date w.send

theorem mirrored_messageFor {a b : String} (hab : a ≠ b) {n : Send} (h : Between a b n) :
    mirrored (messageFor a n) = messageFor b n := by
  rcases h with ⟨hc, -⟩ | ⟨hc, -⟩
  · simp [mirrored, messageFor, hc, hab]
  · simp [mirrored, messageFor, hc, Ne.symm hab]

instance (uid : String) (currentUser : Option String) : Decidable (Owner uid currentUser) :=
  inferInstanceAs (Decidable (_ = _))

section CaughtUp
variable {name : Nat → String} {s : Upload.State} {c : Chat}

/-- Under one account no copy is listed twice. -/
theorem Shown.once {shown : List (Write × Option String)} (h : Shown name s c shown)
    (hstay : c.formerAccounts = []) : (shown.map Prod.fst).Nodup := by
  refine List.nodup_iff_count_le_one.mpr fun w => ?_
  have hlength : c.accounts.length = 1 := by rw [Chat.accounts, hstay, List.length_singleton]
  exact hlength ▸ h.listings w

/-- A chat that has caught up shows the copies in its mailbox and no other. -/
theorem shown_perm_box (hname : Function.Injective name) (h : Accounting s)
    (hs : SendsBetweenAccounts s) (hnodup : (posted s).Nodup) (hf : Faultless s) (hq : Quiescent s)
    (hc : IsUID c.currentUID) (hu : IsUID c.user.uid) {shown : List (Write × Option String)}
    (hshown : Shown name s c shown) (hstay : c.formerAccounts = []) (hcaught : CaughtUp name s c) :
    (shown.map Prod.fst).Perm (Mailboxes.box (posted s) (c.currentUID, c.user.uid)) := by
  apply (List.perm_ext_iff_of_nodup (hshown.once hstay) (Mailboxes.box_nodup hnodup _)).mpr
  intro w
  rw [Mailboxes.mem_box_iff, mem_posted_iff]
  have hquery : w ∈ s.issued → (c.InQuery w ↔ awaited w ∧ w.mailbox = (c.currentUID, c.user.uid)) := by
    intro hw
    have hacc := hs _ (issued_send h hw)
    exact inThread_iff_mailbox hc hu hacc.1 hacc.2
  constructor
  · intro hw
    obtain ⟨e, he, rfl⟩ := List.mem_map.mp hw
    obtain ⟨hissued, hin⟩ := hshown.issued e he
    obtain ⟨haw, hbox⟩ := (hquery hissued).mp hin
    obtain ⟨o, ho⟩ := settled_of_issued h hq hissued
    obtain rfl : o = .stored := hf.settled _ ho
    exact ⟨hbox, haw, ho⟩
  · rintro ⟨hbox, haw, hst⟩
    have hissued := settled_issued h hst
    have hin := (hquery hissued).mpr ⟨haw, hbox⟩
    have hshows : Shows s c w :=
      ⟨hin, (hcaught.2 w hissued hin hst).imp_right fun hown => ⟨hown, Or.inl hst⟩⟩
    obtain ⟨e, he, heq⟩ := hshown.result _ (hcaught.1.2 w hissued hshows)
    have hsame := document_injective hname h hs hc hu (hshown.issued e he) ⟨hissued, hin⟩
      (congrArg QueryDocument.documentID heq)
    exact List.mem_map.mpr ⟨e, he, hsame⟩

/-- It lists one message for each call between its two accounts. -/
theorem caughtUp_messages (hname : Function.Injective name) (h : Accounting s)
    (hs : SendsBetweenAccounts s) (hnodup : (posted s).Nodup) (hf : Faultless s) (hq : Quiescent s)
    (hk : Keeps name Owner s c) (hne : c.currentUID ≠ c.user.uid) (hstay : c.formerAccounts = [])
    (hcaught : CaughtUp name s c) :
    c.view.messages.Perm ((s.sends.filter fun n => decide (Between c.currentUID c.user.uid n)).map
      (messageFor c.currentUID)) := by
  obtain ⟨shown, hshown, howner⟩ := hk.shown
  have hbox := shown_perm_box hname h hs hnodup hf hq hk.currentUID hk.partner hshown hstay
    hcaught
  rw [box_posted h hs hk.currentUID hk.partner] at hbox
  have hcopies := hbox.trans (storedInThread_perm h hs hk.currentUID hk.partner hne)
  rw [delivered_of_quiescent h hf hq] at hcopies
  have hrows : shown.map (fun e => row e.2 e.1) =
      (shown.map Prod.fst).map fun w => messageFor c.currentUID w.send := by
    rw [List.map_map]
    apply List.map_congr_left
    intro e he
    rw [howner e he]
    exact row_owner c.currentUID e.1
  refine hshown.rows.trans ?_
  rw [hrows]
  refine (hcopies.map _).trans (List.Perm.of_eq ?_)
  rw [List.map_map]
  rfl

end CaughtUp

/-- After a run without failures in which snapshots are decoded for the account of their chat,
with nothing outstanding and both listeners caught up, each of two accounts that stayed signed
in sees one message for every call between them, and what is on one side of the chat for the one
is on the other side for the other. -/
theorem mirrored_chats {name : Nat → String} (hname : Function.Injective name) {s : State}
    {as : List Action} (hrun : run (system name) as = some s)
    (hacc : ∀ x ∈ as, x.BetweenAccounts) (hok : ∀ x ∈ as.filterMap Action.uploaded, x.Faultless)
    (hsame : StepsMeet (system name) (Allowed Owner) initial as) (hq : Quiescent s.uploads)
    {c d : Chat} (hc : c ∈ s.chats) (hd : d ∈ s.chats) (hcd : c.user.uid = d.currentUID)
    (hdc : d.user.uid = c.currentUID) (hne : c.currentUID ≠ d.currentUID)
    (hstay : c.formerAccounts = [] ∧ d.formerAccounts = [])
    (hcaught : CaughtUp name s.uploads c ∧ CaughtUp name s.uploads d) :
    c.view.messages.Perm ((s.uploads.sends.filter fun n =>
      decide (Between c.currentUID d.currentUID n)).map (messageFor c.currentUID)) ∧
    d.view.messages.Perm (c.view.messages.map mirrored) := by
  have h := synced_run hname hrun hacc hsame
  have hf := faultless_run (uploads_run hrun) hok
  have hnodup := posted_nodup (uploads_run hrun)
  have hcm := caughtUp_messages hname h.accounting h.accounts hnodup hf hq (h.chats c hc)
    (by rwa [hcd]) hstay.1 hcaught.1
  have hdm := caughtUp_messages hname h.accounting h.accounts hnodup hf hq (h.chats d hd)
    (by rw [hdc]; exact Ne.symm hne) hstay.2 hcaught.2
  rw [hcd] at hcm
  rw [hdc] at hdm
  refine ⟨hcm, hdm.trans ?_⟩
  refine List.Perm.trans (List.Perm.of_eq ?_) (hcm.map mirrored).symm
  have hboth : (s.uploads.sends.filter fun n => decide (Between d.currentUID c.currentUID n)) =
      s.uploads.sends.filter fun n => decide (Between c.currentUID d.currentUID n) :=
    List.filter_congr fun n _ => decide_eq_decide.mpr (between_comm _ _ n)
  rw [hboth, List.map_map]
  apply List.map_congr_left
  intro n hn
  exact (mirrored_messageFor hne (of_decide_eq_true (List.mem_filter.mp hn).2)).symm

def bobsMessage : Send := ⟨1, 1, "bob", account "ann", "yo", 11000⟩

def annsThread : QueryResult :=
  ⟨[Write.document marks ⟨annsMessage, .ownThread⟩,
    Write.document marks ⟨bobsMessage, .partnerThread⟩], by decide, by decide, by decide⟩

def bobsThread : QueryResult :=
  ⟨[Write.document marks ⟨annsMessage, .partnerThread⟩,
    Write.document marks ⟨bobsMessage, .ownThread⟩], by decide, by decide, by decide⟩

def exchange : List Action :=
  [.fetchMessages 0 (some "ann") (account "bob"), .fetchMessages 1 (some "bob") (account "ann")] ++
    (crossingSends.take 2).map .upload ++ [.view 0 (.delivered ⟨some "ann", 10, echo⟩)] ++
    (crossingSends.drop 2).map .upload ++
    [.receive 0 ⟨bobsMessage, .partnerThread⟩, .receive 1 ⟨annsMessage, .partnerThread⟩,
     .view 0 (.delivered ⟨some "ann", 12, annsThread⟩),
     .view 1 (.delivered ⟨some "bob", 12, bobsThread⟩)]

def exchanged : State := (run (system marks) exchange).get (by decide)

def annsChat : Chat := exchanged.chats.get ⟨0, by decide⟩

def bobsChat : Chat := exchanged.chats.get ⟨1, by decide⟩

theorem mirrored_chats_exchange :
    annsChat.view.messages.length = 2 ∧
      bobsChat.view.messages.Perm (annsChat.view.messages.map mirrored) :=
  ⟨by decide, (mirrored_chats marks_injective (Option.some_get _).symm
    (by decide : ∀ x ∈ exchange, x.BetweenAccounts) (by decide) (by decide)
    (by decide : Quiescent exchanged.uploads) (c := annsChat) (d := bobsChat)
    (List.get_mem _ _) (List.get_mem _ _) (by decide) (by decide) (by decide) (by decide)
    (by decide)).2⟩

end ChipChat.ChatSync
