import ChipChat.UploadThreads

/-! Delivery in runs where no write fails and no client stops: once nothing is
outstanding a thread holds one document for each call between its two accounts,
and either end decodes it to the call it came from. -/

namespace ChipChat.Upload

open LabelledSystem

set_option autoImplicit false

def Action.Faultless : Action → Prop
  | .settle _ o => o = .stored
  | .stop _ => False
  | _ => True

instance : ∀ a : Action, Decidable a.Faultless
  | .settle _ o => inferInstanceAs (Decidable (o = .stored))
  | .stop _ => isFalse id
  | .uploadMessage .. | .callback .. => isTrue trivial

structure Faultless (s : State) : Prop where
  settled : ∀ e ∈ s.settled, e.2 = .stored
  stopped : s.stopped = []

theorem faultless_step {s t : State} {a : Action} (h : Faultless s) (ha : a.Faultless)
    (ht : step s a = some t) : Faultless t := by
  cases step_change ht with
  | ignored => exact h
  | begun => exact ⟨h.settled, h.stopped⟩
  | settled w o hw =>
    refine ⟨?_, h.stopped⟩
    intro e he
    rcases List.mem_append.mp he with he | he
    · exact h.settled e he
    · obtain rfl := List.mem_singleton.mp he
      exact ha
  | executed => exact ⟨h.settled, h.stopped⟩
  | stopped => exact False.elim ha

theorem faultless_run {s : State} {as : List Action} (h : run system as = some s)
    (has : ∀ a ∈ as, a.Faultless) : Faultless s :=
  invariant_of_stepsMeet (fun s a t hs ha (ht : step s a = some t) => faultless_step hs ha ht)
    ⟨fun _ he => absurd he List.not_mem_nil, rfl⟩ (stepsMeet_of_forall has system.init) h

/-- Without failures every call runs to its end: all four writes are stored. -/
theorem stored_of_quiescent {s : State} (h : Accounting s) (hf : Faultless s) (hq : Quiescent s)
    {n : Send} (hn : n ∈ s.sends) (p : Part) : SettledAs s n p .stored := by
  have hcont : n ∈ continued s := continued_of_live h hq hn (by simp [hf.stopped])
  have hissued : (⟨n, p⟩ : Write) ∈ s.issued := by
    apply (mem_issued_iff h ⟨n, p⟩).mpr
    by_cases hp : p = .ownThread
    · exact Or.inl ⟨hp, hn⟩
    · exact Or.inr ⟨hp, hcont⟩
  obtain ⟨o, ho⟩ := settled_of_issued h hq hissued
  have hst := hf.settled _ ho
  simp only at hst
  subst hst
  exact ho

theorem delivered_of_quiescent {s : State} (h : Accounting s) (hf : Faultless s)
    (hq : Quiescent s) (a b : String) :
    delivered s a b = s.sends.filter fun n => decide (Between a b n) := by
  apply List.filter_congr
  intro n hn
  simp [stored_of_quiescent h hf hq hn]

theorem decode_data (a : String) (now : Timestamp) (n : Send) :
    Message.ofDictionary (some a) now n.data =
      ⟨n.message, n.user.uid, n.currentUID, n.timestamp, decide (n.currentUID = a)⟩ := by
  simp [ofDictionary_data]

theorem chatPartnerID_decode {a b : String} (hab : a ≠ b) {n : Send} (h : Between a b n)
    (now : Timestamp) : (Message.ofDictionary (some a) now n.data).chatPartnerID = b := by
  rw [decode_data]
  rcases h with ⟨hc, hu⟩ | ⟨hc, hu⟩
  · simp [Message.chatPartnerID, hc, hu]
  · simp [Message.chatPartnerID, hc, Ne.symm hab]

/-- What the chat of `a` with `b` decodes of a call between them, its timestamp being
the one `timestamp` gives it. -/
structure DecodesTo (timestamp : Send → Timestamp) (a b : String) (n : Send) (m : Message) :
    Prop where
  text : m.text = n.message
  fromID : m.fromID = n.currentUID
  toID : m.toID = n.user.uid
  timestamp : m.timestamp = timestamp n
  isFromCurrentUser : m.isFromCurrentUser = true ↔ n.currentUID = a
  chatPartnerID : m.chatPartnerID = b

/-- `messages/a/b` holds one document for each call between the two accounts and no
other, the thread on the other side holds the same data, and each document is decoded
to the call it came from. -/
structure ExactDelivery (timestamp : Send → Timestamp) (s : State) (a b : String) : Prop where
  documents : (s.documents.inCollection (threadCollection a b)).Perm
    ((s.sends.filter fun n => decide (Between a b n)).map fun n => (copyFor a n).entry)
  mirrored : (threadData s a b).Perm (threadData s b a)
  decoded : ∀ n ∈ s.sends, Between a b n → ∀ now,
    DecodesTo timestamp a b n (Message.ofDictionary (some a) now n.data)

/-- Two calls in opposite directions whose eight writes interleave. -/
def crossingSends : List Action :=
  let m : Send := ⟨0, 0, "ann", account "bob", "hi", 10500⟩
  let n : Send := ⟨1, 1, "bob", account "ann", "yo", 11000⟩
  [.uploadMessage 0 (some "ann") "hi" (account "bob") 10500,
   .uploadMessage 1 (some "bob") "yo" (account "ann") 11000,
   .settle ⟨n, .ownThread⟩ .stored, .settle ⟨m, .ownThread⟩ .stored,
   .callback ⟨m, .ownThread⟩ .stored, .callback ⟨n, .ownThread⟩ .stored,
   .settle ⟨m, .partnerThread⟩ .stored, .settle ⟨m, .ownRecent⟩ .stored,
   .settle ⟨n, .partnerThread⟩ .stored, .settle ⟨n, .ownRecent⟩ .stored,
   .settle ⟨m, .partnerRecent⟩ .stored, .settle ⟨n, .partnerRecent⟩ .stored,
   .callback ⟨m, .partnerThread⟩ .stored, .callback ⟨n, .partnerThread⟩ .stored]

def crossed : State := (run system crossingSends).get (by decide)

/-- Ann's clock stood between two microseconds. -/
theorem not_exactDelivery :
    ¬ ∀ as s, run system as = some s → (∀ x ∈ as, x.BetweenAccounts) →
      (∀ x ∈ as, x.Faultless) → Quiescent s →
      ∀ a b, IsUID a → IsUID b → a ≠ b → ExactDelivery Send.date s a b := by
  intro h
  have hcrossed := h crossingSends crossed (Option.some_get _).symm (by decide) (by decide)
    (by decide) "ann" "bob" (by decide) (by decide) (by decide)
  have hdate := (hcrossed.decoded ⟨0, 0, "ann", account "bob", "hi", 10500⟩ (by decide)
    (by decide) 0).timestamp
  exact absurd hdate (by decide)

theorem thread_isolation {s : State} {as : List Action} (hrun : run system as = some s)
    (hacc : ∀ x ∈ as, x.BetweenAccounts) (hok : ∀ x ∈ as, x.Faultless) (hq : Quiescent s)
    {a b : String} (ha : IsUID a) (hb : IsUID b) (hab : a ≠ b) :
    ExactDelivery Send.timestamp s a b := by
  have h := accounting_run hrun
  have hs := sendsBetweenAccounts_run hrun hacc
  have hf := faultless_run hrun hok
  have hthread := thread_perm h hs ha hb hab
  have hmirror := thread_perm h hs hb ha (Ne.symm hab)
  rw [delivered_of_quiescent h hf hq] at hthread hmirror
  refine ⟨hthread, ?_, ?_⟩
  · refine (hthread.map Prod.snd).trans (List.Perm.trans ?_ (hmirror.map Prod.snd).symm)
    have hsame : (s.sends.filter fun n => decide (Between a b n)) =
        s.sends.filter fun n => decide (Between b a n) :=
      List.filter_congr fun n _ => decide_eq_decide.mpr (between_comm a b n)
    rw [hsame, List.map_map, List.map_map]
    exact List.Perm.refl _
  · intro n hn hbt now
    have hpartner := chatPartnerID_decode hab hbt now
    rw [decode_data] at hpartner ⊢
    exact ⟨rfl, rfl, rfl, rfl, decide_eq_true_iff, hpartner⟩

theorem thread_isolation_crossing :
    crossed.sends.length = 2 ∧ ExactDelivery Send.timestamp crossed "ann" "bob" :=
  ⟨by decide, thread_isolation (Option.some_get _).symm
    (by decide : ∀ x ∈ crossingSends, x.BetweenAccounts) (by decide)
    (by decide : Quiescent crossed) (by decide : IsUID "ann") (by decide : IsUID "bob")
    (by decide)⟩

end ChipChat.Upload
