import ChipChat.Mailboxes
import ChipChat.ThreadDelivery

/-!
# Threads as mailboxes

The thread of an account with another is a mailbox of the two. Firestore posts to it
the copies it stores; nothing else ever reaches the collection, and no copy is changed
or taken away again.
-/

namespace ChipChat

set_option autoImplicit false

/-- The owner of the thread a copy goes to, and the account the thread is with. -/
def Write.mailbox (w : Write) : String × String :=
  match w.part with
  | .ownThread | .ownRecent => (w.send.currentUID, w.send.user.uid)
  | .partnerThread | .partnerRecent => (w.send.user.uid, w.send.currentUID)

end ChipChat

namespace ChipChat.Upload

open LabelledSystem

set_option autoImplicit false

/-- The thread copies Firestore has stored, in the order in which it stored them. -/
def posted (s : State) : List ((String × String) × Write) :=
  (s.settled.filter fun e => decide (e.2 = .stored) && awaited e.1).map
    fun e => (e.1.mailbox, e.1)

theorem mem_posted_iff (s : State) (m : String × String) (w : Write) :
    (m, w) ∈ posted s ↔ w.mailbox = m ∧ awaited w ∧ (w, .stored) ∈ s.settled := by
  simp only [posted, List.mem_map, List.mem_filter, Bool.and_eq_true, decide_eq_true_eq,
    Prod.mk.injEq]
  constructor
  · rintro ⟨⟨w', o⟩, ⟨he, rfl, ha⟩, rfl, rfl⟩
    exact ⟨rfl, ha, he⟩
  · rintro ⟨rfl, ha, he⟩
    exact ⟨(w, .stored), ⟨he, rfl, ha⟩, rfl, rfl⟩

theorem posted_settle (s : State) (w : Write) (o : Outcome) :
    posted (s.settle w o) =
      posted s ++ if o = .stored ∧ awaited w then [(w.mailbox, w)] else [] := by
  simp only [posted, State.settle, List.filter_append, List.map_append]
  congr 1
  by_cases ho : o = .stored <;> by_cases ha : awaited w <;> simp [ho, ha]

/-- A step posts a stored copy, which was not posted before, or posts nothing. -/
theorem posted_step {s t : State} {a : Action} (h : Accounting s) (ht : step s a = some t) :
    posted t = posted s ∨ ∃ e, Mailboxes.system.step (posted s) e = some (posted t) := by
  cases step_change ht with
  | ignored | begun | executed | stopped => exact Or.inl rfl
  | settled w o hw =>
    rw [posted_settle]
    split
    · right
      refine ⟨(w.mailbox, w), Mailboxes.step_iff.mpr ⟨?_, rfl⟩⟩
      intro hposted
      -- a write in flight has not settled
      have hsettled := ((mem_posted_iff s w.mailbox w).mp hposted).2.2
      have hnodup := h.issued_perm.nodup_iff.mp (issued_nodup h)
      exact List.disjoint_of_nodup_append hnodup hw (List.mem_map.mpr ⟨_, hsettled, rfl⟩)
    · exact Or.inl (List.append_nil _)

/-- Uploads refine mailboxes. -/
theorem mailboxes_runFrom {s t : State} {bs : List Action} (h : Accounting s)
    (ht : runFrom system s bs = some t) :
    ∃ es, runFrom Mailboxes.system (posted s) es = some (posted t) :=
  runFrom_simulates (T := Mailboxes.system)
    (fun s a t hs (ht : step s a = some t) => accounting_step hs ht)
    (fun s a t hs (ht : step s a = some t) => posted_step hs ht) h ht

theorem mailboxes_of_run {s : State} {as : List Action} (h : run system as = some s) :
    ∃ es, run Mailboxes.system es = some (posted s) :=
  mailboxes_runFrom accounting_init h

theorem posted_nodup {s : State} {as : List Action} (h : run system as = some s) :
    (posted s).Nodup := by
  obtain ⟨es, hes⟩ := mailboxes_of_run h
  exact Mailboxes.nodup_run hes

theorem posted_prefix {s t : State} {bs : List Action} (h : Accounting s)
    (ht : runFrom system s bs = some t) : posted s <+: posted t := by
  obtain ⟨es, hes⟩ := mailboxes_runFrom h ht
  exact Mailboxes.prefix_runFrom hes

section Contents
variable {s : State} {a b : String}

theorem inThread_iff_mailbox (ha : IsUID a) (hb : IsUID b) {w : Write}
    (hc : IsUID w.send.currentUID) (hu : IsUID w.send.user.uid) :
    inThread a b w.path ↔ awaited w ∧ w.mailbox = (a, b) := by
  rw [inThread_write_iff ha hb hc hu]
  obtain ⟨n, p⟩ := w
  cases p <;> simp [awaited, Write.mailbox]

/-- What was stored in the thread was posted to its mailbox. -/
theorem box_posted (h : Accounting s) (hs : SendsBetweenAccounts s) (ha : IsUID a) (hb : IsUID b) :
    Mailboxes.box (posted s) (a, b) =
      (s.settled.filter fun e => decide (e.2 = .stored) && inThread a b e.1.path).map Prod.fst := by
  simp only [Mailboxes.box, posted, List.filter_map, List.filter_filter, List.map_map]
  refine congrArg₂ List.map rfl (List.filter_congr ?_)
  intro e he
  have hacc := hs _ (settled_send h he)
  have hiff := inThread_iff_mailbox ha hb hacc.1 hacc.2 (w := e.1)
  have hbool : (decide (e.1.mailbox = (a, b)) && awaited e.1) = inThread a b e.1.path := by
    rw [Bool.eq_iff_iff, hiff, Bool.and_eq_true, decide_eq_true_eq, and_comm]
  rw [← hbool]
  cases decide (e.2 = .stored) <;> simp

/-- The thread collection holds what its mailbox does. -/
theorem thread_perm_box (h : Accounting s) (hs : SendsBetweenAccounts s)
    (hnodup : (posted s).Nodup) (ha : IsUID a) (hb : IsUID b) :
    (s.documents.inCollection (threadCollection a b)).Perm
      ((Mailboxes.box (posted s) (a, b)).map Write.entry) := by
  have hfilter : (storedEntries s.settled).filter (fun e => inThread a b e.1) =
      (Mailboxes.box (posted s) (a, b)).map Write.entry := by
    rw [box_posted h hs ha hb, storedEntries, List.filter_map, List.filter_filter, List.map_map]
    refine congrArg₂ List.map rfl (List.filter_congr fun e _ => ?_)
    exact Bool.and_comm _ _
  have once : (((storedEntries s.settled).filter fun e => inThread a b e.1).map
      Prod.fst).Nodup := by
    rw [hfilter, List.map_map]
    apply (Mailboxes.box_nodup hnodup (a, b)).map_on
    intro v hv w hw heq
    obtain ⟨-, hav, hv⟩ := (mem_posted_iff s _ v).mp ((Mailboxes.mem_box_iff _ _ v).mp hv)
    obtain ⟨-, -, hw⟩ := (mem_posted_iff s _ w).mp ((Mailboxes.mem_box_iff _ _ w).mp hw)
    exact eq_of_path_eq h hs (settled_send h hv) (settled_send h hw) hav heq
  have hdocs := WriteLog.pairs_replay_perm (storedEntries s.settled) (inThread a b) once
  rw [← h.documents, hfilter] at hdocs
  exact hdocs

theorem box_call (h : Accounting s) {w : Write} (hw : w ∈ Mailboxes.box (posted s) (a, b)) :
    w.send ∈ s.sends ∧ Between a b w.send := by
  obtain ⟨hbox, haw, hst⟩ := (mem_posted_iff s _ w).mp ((Mailboxes.mem_box_iff _ _ w).mp hw)
  refine ⟨settled_send h hst, ?_⟩
  obtain ⟨n, p⟩ := w
  obtain ⟨rfl, rfl⟩ := Prod.mk.inj hbox
  cases p
  · exact Or.inl ⟨rfl, rfl⟩
  · exact Or.inr ⟨rfl, rfl⟩
  · simp [awaited] at haw
  · simp [awaited] at haw

end Contents

/-- Every run of uploads is a run of mailboxes: each thread collection holds what was posted
to its mailbox by calls between its two accounts, and keeps it in whatever follows. -/
theorem thread_mailboxes {s t : State} {as bs : List Action} (hs : run system as = some s)
    (ht : runFrom system s bs = some t) (hacc : ∀ x ∈ as ++ bs, x.BetweenAccounts) {a b : String}
    (ha : IsUID a) (hb : IsUID b) :
    (∃ es, run Mailboxes.system es = some (posted t)) ∧ posted s <+: posted t ∧
    (t.documents.inCollection (threadCollection a b)).Perm
      ((Mailboxes.box (posted t) (a, b)).map Write.entry) ∧
    s.documents.inCollection (threadCollection a b) ⊆
      t.documents.inCollection (threadCollection a b) ∧
    ∀ w ∈ Mailboxes.box (posted t) (a, b), w.send ∈ t.sends ∧ Between a b w.send := by
  have hst : run system (as ++ bs) = some t :=
    (runFrom_append_iff system system.init t as bs).mpr ⟨s, hs, ht⟩
  have h := accounting_run hs
  have hbetween := sendsBetweenAccounts_run hs fun x hx => hacc x (List.mem_append_left bs hx)
  have hthread := thread_perm_box (accounting_run hst) (sendsBetweenAccounts_run hst hacc)
    (posted_nodup hst) ha hb
  have hprefix := posted_prefix h ht
  refine ⟨mailboxes_of_run hst, hprefix, hthread, ?_, fun w hw => box_call (accounting_run hst) hw⟩
  intro e he
  have hold := (thread_perm_box h hbetween (posted_nodup hs) ha hb).mem_iff.mp he
  exact hthread.mem_iff.mpr
    (List.map_subset Write.entry (Mailboxes.box_prefix hprefix (a, b)).subset hold)

/-- The first half of the crossing calls, then the rest. -/
theorem thread_mailboxes_crossing :
    Mailboxes.box (posted crossed) ("ann", "bob") ≠ [] ∧
      ∀ w ∈ Mailboxes.box (posted crossed) ("ann", "bob"), Between "ann" "bob" w.send := by
  have hrun : run system (crossingSends.take 8 ++ crossingSends.drop 8) = some crossed := by
    rw [List.take_append_drop]
    exact (Option.some_get _).symm
  obtain ⟨s, hs, ht⟩ := (runFrom_append_iff system system.init crossed _ _).mp hrun
  have hmail := thread_mailboxes hs ht
    (by decide : ∀ x ∈ crossingSends.take 8 ++ crossingSends.drop 8, x.BetweenAccounts)
    (by decide : IsUID "ann") (by decide : IsUID "bob")
  exact ⟨by decide, fun w hw => (hmail.2.2.2.2 w hw).2⟩

end ChipChat.Upload
