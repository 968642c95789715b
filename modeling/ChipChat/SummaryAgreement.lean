import ChipChat.SummaryOrder

/-! The two summaries of a conversation. Each is overwritten by both accounts, so
each ends with the last call of one of them; they agree exactly when the summary
writes of the two last calls were not interleaved. -/

namespace ChipChat.Upload

open LabelledSystem LogOrder

set_option autoImplicit false

def summaryReference (a b : String) : DocumentReference := (recentMessages a).document b

/-- What `messages/a/recent-messages/b` holds. -/
def summary (s : State) (a b : String) : Option Dictionary :=
  s.documents.lookup (summaryReference a b).path

/-- `n` is not older than any message of the thread. -/
def Greatest (s : State) (a b : String) (n : Send) : Prop :=
  ∀ d ∈ threadData s a b, ∀ t ∈ d.asTimestamp "timestamp", t ≤ n.timestamp

/-- Both summaries hold the same message, the greatest of the thread. -/
def SummariesAgree (s : State) (a b : String) : Prop :=
  summary s a b = summary s b a ∧
    ∀ n ∈ s.sends, summary s a b = some n.data → Greatest s a b n

theorem not_summariesAgree :
    ¬ ∀ (clientOf : String → Nat) as s, run system as = some s →
      (∀ x ∈ as, x.BetweenAccounts) → (∀ x ∈ as, x.Faultless) →
      (∀ x ∈ as, x.FromClient clientOf) → StepsMeet system InOrder initial as →
      Quiescent s → (s.sends.map Send.timestamp).Nodup →
      ∀ a b, IsUID a → IsUID b → a ≠ b → SummariesAgree s a b := by
  intro h
  have hcrossed := h (fun uid => if uid = "ann" then 0 else 1) crossingSends crossed
    (Option.some_get _).symm (by decide) (by decide) (by decide) (by decide) (by decide)
    (by decide) "ann" "bob" (by decide) (by decide) (by decide)
  exact absurd hcrossed.1 (by decide)

section Last
variable {clientOf : String → Nat} {s : State} {a b : String}

theorem path_summaryReference (ha : IsUID a) (hb : IsUID b) :
    (summaryReference a b).path =
      [.name "messages", .name a, .name "recent-messages", .name b] := by
  simp [summaryReference, path_recentMessages ha, pathSegments_eq_self hb.1 hb.2]

theorem path_eq_summary_iff (ha : IsUID a) (hb : IsUID b) {w : Write}
    (hc : IsUID w.send.currentUID) (hu : IsUID w.send.user.uid) :
    w.path = (summaryReference a b).path ↔
      (w.part = .ownRecent ∧ w.send.currentUID = a ∧ w.send.user.uid = b) ∨
      (w.part = .partnerRecent ∧ w.send.currentUID = b ∧ w.send.user.uid = a) := by
  rw [write_path hc hu, path_summaryReference ha hb]
  obtain ⟨n, p⟩ := w
  cases p
  · simp
  · simp
  · simp
  · simp [and_comm]

def atSummary (a b : String) (w : Write) : Bool := decide (w.path = (summaryReference a b).path)

/-- The write applied last to `messages/a/recent-messages/b`. -/
def lastSummary (s : State) (a b : String) : Option Write :=
  ((applied s).filter (atSummary a b)).getLast?

theorem summary_eq_lastSummary (h : Accounting s) (hf : Faultless s) :
    summary s a b = (lastSummary s a b).map fun w => w.send.data := by
  have hentries : storedEntries s.settled = (applied s).map Write.entry := by
    unfold storedEntries applied
    rw [List.filter_eq_self.mpr fun e he => decide_eq_true (hf.settled e he), List.map_map]
    rfl
  rw [summary, h.documents, WriteLog.lookup_replay, hentries, WriteLog.lastAt, List.filter_map,
    List.getLast?_map, Option.map_map]
  rfl

theorem getLast?_filter_of_last {α : Type} {l : List α} {p : α → Bool} {x : α}
    (h : l.getLast? = some x) (hp : p x) : (l.filter p).getLast? = some x := by
  obtain ⟨front, rfl⟩ := List.getLast?_eq_some_iff.mp h
  simp [List.filter_append, hp]

/-- Restricted to one kind, the writes to a summary are those of the calls one way. -/
theorem atSummary_calls (h : Accounting s) (hs : SendsBetweenAccounts s)
    (ho : Ordered clientOf s) (hq : Quiescent s) (ha : IsUID a) (hb : IsUID b)
    {p : Part} {x y : String}
    (hp : (p = .ownRecent ∧ x = a ∧ y = b) ∨ (p = .partnerRecent ∧ x = b ∧ y = a)) :
    ((applied s).filter (atSummary a b)).filter (fun w => decide (w.part = p)) =
      (callsTo s x y).map (Write.mk · p) := by
  rw [← applied_calls h ho hq x y (hp.imp And.left And.left), List.filter_filter]
  apply List.filter_congr
  intro w hw
  obtain ⟨e, he, rfl⟩ := List.mem_map.mp hw
  have hacc := hs _ (settled_send h he)
  have hiff := path_eq_summary_iff ha hb hacc.1 hacc.2
  simp only [atSummary, hiff, ← Bool.decide_and]
  apply decide_eq_decide.mpr
  rcases hp with ⟨rfl, rfl, rfl⟩ | ⟨rfl, rfl, rfl⟩
  · constructor
    · rintro ⟨hpart, h | h⟩
      · exact ⟨hpart, h.2⟩
      · exact absurd (hpart.symm.trans h.1) (by simp)
    · exact fun h => ⟨h.1, Or.inl h⟩
  · constructor
    · rintro ⟨hpart, h | h⟩
      · exact absurd (hpart.symm.trans h.1) (by simp)
      · exact ⟨hpart, h.2⟩
    · exact fun h => ⟨h.1, Or.inr h⟩

/-- Whatever was applied last to the summary is a last call, one way or the other. -/
theorem lastSummary_cases (h : Accounting s) (hs : SendsBetweenAccounts s)
    (ho : Ordered clientOf s) (hq : Quiescent s) (ha : IsUID a) (hb : IsUID b) {w : Write}
    (hw : lastSummary s a b = some w) :
    (w.part = .ownRecent ∧ lastCall s a b = some w.send) ∨
    (w.part = .partnerRecent ∧ lastCall s b a = some w.send) := by
  have hmem := List.mem_filter.mp (List.mem_of_getLast? hw)
  obtain ⟨e, he, rfl⟩ := List.mem_map.mp hmem.1
  have hacc := hs _ (settled_send h he)
  have hpath := (path_eq_summary_iff ha hb hacc.1 hacc.2).mp (of_decide_eq_true hmem.2)
  have last : ∀ p x y, e.1.part = p →
      ((p = .ownRecent ∧ x = a ∧ y = b) ∨ (p = .partnerRecent ∧ x = b ∧ y = a)) →
      lastCall s x y = some e.1.send := by
    intro p x y hpart hp
    have hl := getLast?_filter_of_last (p := fun w => decide (w.part = p)) hw
      (decide_eq_true hpart)
    rw [atSummary_calls h hs ho hq ha hb hp, List.getLast?_map] at hl
    obtain ⟨n, hn, heq⟩ := Option.map_eq_some_iff.mp hl
    rw [lastCall, hn, ← heq]
  rcases hpath with ⟨hpart, _⟩ | ⟨hpart, _⟩
  · exact Or.inl ⟨hpart, last _ a b hpart (Or.inl ⟨rfl, rfl, rfl⟩)⟩
  · exact Or.inr ⟨hpart, last _ b a hpart (Or.inr ⟨rfl, rfl, rfl⟩)⟩

theorem mem_atSummary (h : Accounting s) (hs : SendsBetweenAccounts s)
    (ho : Ordered clientOf s) (hq : Quiescent s) (ha : IsUID a) (hb : IsUID b)
    {p : Part} {x y : String}
    (hp : (p = .ownRecent ∧ x = a ∧ y = b) ∨ (p = .partnerRecent ∧ x = b ∧ y = a)) {n : Send}
    (hn : n ∈ callsTo s x y) : (⟨n, p⟩ : Write) ∈ (applied s).filter (atSummary a b) := by
  have hm : (⟨n, p⟩ : Write) ∈ (callsTo s x y).map (Write.mk · p) :=
    List.mem_map.mpr ⟨n, hn, rfl⟩
  rw [← atSummary_calls h hs ho hq ha hb hp] at hm
  exact (List.mem_filter.mp hm).1

/-- Of two calls in opposite directions `n` overwrote the last summary `m` wrote. A call
writes its own summary first, so both summary writes of `m` came before both of `n`. -/
def SummariesBefore (s : State) (m n : Send) : Prop :=
  Before (applied s) ⟨m, .partnerRecent⟩ ⟨n, .ownRecent⟩

instance (s : State) (m n : Send) : Decidable (SummariesBefore s m n) :=
  inferInstanceAs (Decidable (Before _ _ _))

theorem lastSummary_of_both (h : Accounting s) (hs : SendsBetweenAccounts s)
    (ho : Ordered clientOf s) (hq : Quiescent s) (ha : IsUID a) (hb : IsUID b) {m n : Send}
    (hm : lastCall s a b = some m) (hn : lastCall s b a = some n) :
    lastSummary s a b =
      some (if SummariesBefore s n m then ⟨m, .ownRecent⟩ else ⟨n, .partnerRecent⟩) := by
  have hown := mem_atSummary h hs ho hq ha hb (Or.inl ⟨rfl, rfl, rfl⟩) (List.mem_of_getLast? hm)
  have hpartner :=
    mem_atSummary h hs ho hq ha hb (Or.inr ⟨rfl, rfl, rfl⟩) (List.mem_of_getLast? hn)
  have hnodup := (settled_nodup h).filter (atSummary a b)
  cases hw : lastSummary s a b with
  | none => simp [List.getLast?_eq_none_iff.mp hw] at hown
  | some w =>
    -- one of the two writes is the last of all, and the other was applied before it
    rcases lastSummary_cases h hs ho hq ha hb hw with ⟨hp, hl⟩ | ⟨hp, hl⟩
    · obtain ⟨k, p⟩ := w
      obtain rfl : p = .ownRecent := hp
      obtain rfl : m = k := Option.some.inj (hm.symm.trans hl)
      have hbefore : SummariesBefore s n m := (before_last hw hpartner (by simp)).of_filter
      rw [if_pos hbefore]
    · obtain ⟨k, p⟩ := w
      obtain rfl : p = .partnerRecent := hp
      obtain rfl : n = k := Option.some.inj (hn.symm.trans hl)
      have hafter := before_last hw hown (by simp)
      have hnot : ¬ SummariesBefore s n m := fun hb =>
        (hb.asymm (settled_nodup h)) hafter.of_filter
      rw [if_neg hnot]

theorem summariesBefore_asymm (h : Accounting s) (ho : Ordered clientOf s) (hq : Quiescent s)
    {m n : Send} (hm : m ∈ continued s) (hn : n ∈ continued s) (hmn : SummariesBefore s m n) :
    ¬ SummariesBefore s n m := by
  intro hnm
  have hnodup := settled_nodup h
  have hown := own_before_partner ho hq hm
  have hpartner := own_before_partner ho hq hn
  exact ((hown.trans hnodup hmn).trans hnodup hpartner).asymm hnodup hnm

theorem lastCall_mem {m : Send} (hm : lastCall s a b = some m) :
    m ∈ continued s ∧ m.currentUID = a ∧ m.user.uid = b := by
  have hmem := List.mem_filter.mp (List.mem_of_getLast? hm)
  exact ⟨hmem.1, of_decide_eq_true hmem.2⟩

/-- There is a last call one way as soon as there is a call that way. -/
theorem lastCall_eq_none_iff (h : Accounting s) (hf : Faultless s) (hq : Quiescent s)
    (x y : String) :
    lastCall s x y = none ↔ ∀ n ∈ s.sends, ¬ (n.currentUID = x ∧ n.user.uid = y) := by
  rw [lastCall, List.getLast?_eq_none_iff, callsTo, List.filter_eq_nil_iff]
  simp only [decide_eq_true_eq]
  constructor
  · intro hnone n hn
    exact hnone n (continued_of_live h hq hn (by simp [hf.stopped]))
  · intro hnone n hn
    exact hnone n (continued_subset h hn)

theorem data_ne_of_currentUID_ne {m n : Send} (h : m.currentUID ≠ n.currentUID) :
    m.data ≠ n.data := by
  intro heq
  simp [Send.data_eq, h] at heq

/-- With one-sided traffic both summaries were written by the same last call. -/
theorem summary_of_one_side (h : Accounting s) (hf : Faultless s) (hs : SendsBetweenAccounts s)
    (ho : Ordered clientOf s) (hq : Quiescent s) (ha : IsUID a) (hb : IsUID b)
    (hnone : lastCall s b a = none) : summary s a b = (lastCall s a b).map Send.data ∧
      summary s b a = (lastCall s a b).map Send.data := by
  have side : ∀ x y, IsUID x → IsUID y → (x = a ∧ y = b ∨ x = b ∧ y = a) →
      summary s x y = (lastCall s a b).map Send.data := by
    intro x y hx hy hxy
    rw [summary_eq_lastSummary h hf]
    cases hl : lastCall s a b with
    | none =>
      cases hw : lastSummary s x y with
      | none => rfl
      | some w =>
        rcases lastSummary_cases h hs ho hq hx hy hw with ⟨_, hc⟩ | ⟨_, hc⟩ <;>
          rcases hxy with ⟨rfl, rfl⟩ | ⟨rfl, rfl⟩ <;> simp_all
    | some m =>
      have hm := List.mem_of_getLast? hl
      cases hw : lastSummary s x y with
      | none =>
        have hmem : ∃ p, (⟨m, p⟩ : Write) ∈ (applied s).filter (atSummary x y) := by
          rcases hxy with ⟨rfl, rfl⟩ | ⟨rfl, rfl⟩
          · exact ⟨_, mem_atSummary h hs ho hq hx hy (Or.inl ⟨rfl, rfl, rfl⟩) hm⟩
          · exact ⟨_, mem_atSummary h hs ho hq hx hy (Or.inr ⟨rfl, rfl, rfl⟩) hm⟩
        obtain ⟨p, hp⟩ := hmem
        simp [List.getLast?_eq_none_iff.mp hw] at hp
      | some w =>
        rcases lastSummary_cases h hs ho hq hx hy hw with ⟨_, hc⟩ | ⟨_, hc⟩ <;>
          rcases hxy with ⟨rfl, rfl⟩ | ⟨rfl, rfl⟩ <;> simp_all
  exact ⟨side a b ha hb (Or.inl ⟨rfl, rfl⟩), side b a hb ha (Or.inr ⟨rfl, rfl⟩)⟩

theorem summaries_of_both (h : Accounting s) (hf : Faultless s) (hs : SendsBetweenAccounts s)
    (ho : Ordered clientOf s) (hq : Quiescent s) (ha : IsUID a) (hb : IsUID b) {m n : Send}
    (hm : lastCall s a b = some m) (hn : lastCall s b a = some n) :
    summary s a b = some (if SummariesBefore s n m then m.data else n.data) ∧
      summary s b a = some (if SummariesBefore s m n then n.data else m.data) := by
  constructor
  · rw [summary_eq_lastSummary h hf, lastSummary_of_both h hs ho hq ha hb hm hn]
    split <;> rfl
  · rw [summary_eq_lastSummary h hf, lastSummary_of_both h hs ho hq hb ha hn hm]
    split <;> rfl

theorem summaries_equal_iff (h : Accounting s) (hf : Faultless s) (hs : SendsBetweenAccounts s)
    (ho : Ordered clientOf s) (hq : Quiescent s) (ha : IsUID a) (hb : IsUID b) (hab : a ≠ b)
    {m n : Send} (hm : lastCall s a b = some m) (hn : lastCall s b a = some n) :
    summary s a b = summary s b a ↔ SummariesBefore s m n ∨ SummariesBefore s n m := by
  obtain ⟨hsab, hsba⟩ := summaries_of_both h hf hs ho hq ha hb hm hn
  have hmem := lastCall_mem hm
  have hmem' := lastCall_mem hn
  have hne : m.data ≠ n.data := by
    apply data_ne_of_currentUID_ne
    rw [hmem.2.1, hmem'.2.1]
    exact hab
  rw [hsab, hsba]
  by_cases hmn : SummariesBefore s m n
  · have hnm := summariesBefore_asymm h ho hq hmem.1 hmem'.1 hmn
    simp [hmn, hnm]
  · by_cases hnm : SummariesBefore s n m
    · simp [hmn, hnm]
    · simp [hmn, hnm, Ne.symm hne]

/-- The account's clock runs forward along its calls to `b`. -/
def ClockForward (s : State) (a b : String) : Prop :=
  (callsTo s a b).Pairwise fun m n => m.date < n.date

instance (s : State) (a b : String) : Decidable (ClockForward s a b) :=
  inferInstanceAs (Decidable (List.Pairwise _ _))

theorem timestamp_le_lastCall (hclock : ClockForward s a b) {m k : Send}
    (hm : lastCall s a b = some m) (hk : k ∈ callsTo s a b) : k.timestamp ≤ m.timestamp := by
  obtain ⟨front, hfront⟩ := List.getLast?_eq_some_iff.mp hm
  rw [ClockForward, hfront, List.pairwise_append] at hclock
  rw [hfront] at hk
  rcases List.mem_append.mp hk with hk | hk
  · exact Send.timestamp_le (Int.le_of_lt (hclock.2.2 k hk m (List.mem_singleton.mpr rfl)))
  · obtain rfl := List.mem_singleton.mp hk
    exact Int.le_refl _

theorem greatest_iff (h : Accounting s) (hf : Faultless s) (hs : SendsBetweenAccounts s)
    (hq : Quiescent s) (ha : IsUID a) (hb : IsUID b) (hab : a ≠ b) (n : Send) :
    Greatest s a b n ↔ ∀ k ∈ s.sends, Between a b k → k.timestamp ≤ n.timestamp := by
  have hdata : (threadData s a b).Perm
      ((s.sends.filter fun k => decide (Between a b k)).map Send.data) := by
    have hp := (thread_perm h hs ha hb hab).map Prod.snd
    rw [delivered_of_quiescent h hf hq, List.map_map] at hp
    exact hp
  unfold Greatest
  simp only [hdata.mem_iff, List.mem_map, List.mem_filter, decide_eq_true_eq]
  constructor
  · intro hg k hk hbt
    exact hg k.data ⟨k, ⟨hk, hbt⟩, rfl⟩ k.timestamp rfl
  · rintro hg d ⟨k, ⟨hk, hbt⟩, rfl⟩ t ht
    obtain rfl : k.timestamp = t := Option.some.inj ht
    exact hg k hk hbt

theorem greatest_iff_last (h : Accounting s) (hf : Faultless s) (hs : SendsBetweenAccounts s)
    (hq : Quiescent s) (ha : IsUID a) (hb : IsUID b) (hab : a ≠ b)
    (hclock : ClockForward s a b) (hclock' : ClockForward s b a) (n : Send) :
    Greatest s a b n ↔
      ∀ k, lastCall s a b = some k ∨ lastCall s b a = some k → k.timestamp ≤ n.timestamp := by
  rw [greatest_iff h hf hs hq ha hb hab]
  constructor
  · rintro hg k (hk | hk)
    · have hmem := lastCall_mem hk
      exact hg k (continued_subset h hmem.1) (Or.inl hmem.2)
    · have hmem := lastCall_mem hk
      exact hg k (continued_subset h hmem.1) (Or.inr hmem.2)
  · intro hg k hk hbt
    have hcont : k ∈ continued s := continued_of_live h hq hk (by simp [hf.stopped])
    have bounded : ∀ x y, ClockForward s x y → k.currentUID = x ∧ k.user.uid = y →
        (∀ m, lastCall s x y = some m → m.timestamp ≤ n.timestamp) → k.timestamp ≤ n.timestamp := by
      intro x y hxy hkxy hlast
      have hmem : k ∈ callsTo s x y := List.mem_filter.mpr ⟨hcont, decide_eq_true hkxy⟩
      cases hl : lastCall s x y with
      | none => simp [List.getLast?_eq_none_iff.mp hl] at hmem
      | some m => exact Int.le_trans (timestamp_le_lastCall hxy hl hmem) (hlast m hl)
    rcases hbt with hto | hfrom
    · exact bounded a b hclock hto fun m hm => hg m (Or.inl hm)
    · exact bounded b a hclock' hfrom fun m hm => hg m (Or.inr hm)

end Last

theorem summaries_agreement {clientOf : String → Nat} {s : State} {as : List Action}
    (hrun : run system as = some s) (hacc : ∀ x ∈ as, x.BetweenAccounts)
    (hok : ∀ x ∈ as, x.Faultless) (hclient : ∀ x ∈ as, x.FromClient clientOf)
    (hfifo : StepsMeet system InOrder initial as) (hq : Quiescent s)
    {a b : String} (ha : IsUID a) (hb : IsUID b) (hab : a ≠ b) :
    (∀ x y, lastCall s x y = none ↔ ∀ n ∈ s.sends, ¬ (n.currentUID = x ∧ n.user.uid = y)) ∧
    (∀ n, lastCall s a b = some n → lastCall s b a = none →
      summary s a b = some n.data ∧ summary s b a = some n.data) ∧
    (∀ n, lastCall s b a = some n → lastCall s a b = none →
      summary s a b = some n.data ∧ summary s b a = some n.data) ∧
    (∀ m n, lastCall s a b = some m → lastCall s b a = some n →
      summary s a b = some (if SummariesBefore s n m then m.data else n.data) ∧
      summary s b a = some (if SummariesBefore s m n then n.data else m.data) ∧
      (summary s a b = summary s b a ↔ SummariesBefore s m n ∨ SummariesBefore s n m) ∧
      ¬ (SummariesBefore s m n ∧ SummariesBefore s n m)) ∧
    (ClockForward s a b → ClockForward s b a → ∀ n, Greatest s a b n ↔
      ∀ k, lastCall s a b = some k ∨ lastCall s b a = some k → k.timestamp ≤ n.timestamp) := by
  have h := accounting_run hrun
  have hs := sendsBetweenAccounts_run hrun hacc
  have hf := faultless_run hrun hok
  have ho := ordered_run hrun hclient hfifo
  refine ⟨lastCall_eq_none_iff h hf hq, ?_, ?_, ?_, ?_⟩
  · intro n hn hnone
    obtain ⟨hsab, hsba⟩ := summary_of_one_side h hf hs ho hq ha hb hnone
    exact ⟨by rw [hsab, hn]; rfl, by rw [hsba, hn]; rfl⟩
  · intro n hn hnone
    obtain ⟨hsba, hsab⟩ := summary_of_one_side h hf hs ho hq hb ha hnone
    exact ⟨by rw [hsab, hn]; rfl, by rw [hsba, hn]; rfl⟩
  · intro m n hm hn
    obtain ⟨hsab, hsba⟩ := summaries_of_both h hf hs ho hq ha hb hm hn
    refine ⟨hsab, hsba, summaries_equal_iff h hf hs ho hq ha hb hab hm hn, ?_⟩
    rintro ⟨hmn, hnm⟩
    exact summariesBefore_asymm h ho hq (lastCall_mem hm).1 (lastCall_mem hn).1 hmn hnm
  · intro hclock hclock' n
    exact greatest_iff_last h hf hs hq ha hb hab hclock hclock' n

/-- A reply sent after the first message arrived: both summaries hold the reply. -/
def answeredSend : List Action :=
  let m : Send := ⟨0, 0, "ann", account "bob", "hi", 10000⟩
  let n : Send := ⟨1, 1, "bob", account "ann", "yo", 11000⟩
  [.uploadMessage 0 (some "ann") "hi" (account "bob") 10000,
   .settle ⟨m, .ownThread⟩ .stored, .callback ⟨m, .ownThread⟩ .stored,
   .settle ⟨m, .partnerThread⟩ .stored, .settle ⟨m, .ownRecent⟩ .stored,
   .settle ⟨m, .partnerRecent⟩ .stored, .callback ⟨m, .partnerThread⟩ .stored,
   .uploadMessage 1 (some "bob") "yo" (account "ann") 11000,
   .settle ⟨n, .ownThread⟩ .stored, .callback ⟨n, .ownThread⟩ .stored,
   .settle ⟨n, .partnerThread⟩ .stored, .settle ⟨n, .ownRecent⟩ .stored,
   .settle ⟨n, .partnerRecent⟩ .stored, .callback ⟨n, .partnerThread⟩ .stored]

def answered : State := (run system answeredSend).get (by decide)

theorem summaries_agreement_answered :
    let m : Send := ⟨0, 0, "ann", account "bob", "hi", 10000⟩
    let n : Send := ⟨1, 1, "bob", account "ann", "yo", 11000⟩
    summary answered "ann" "bob" = summary answered "bob" "ann" ∧
      summary answered "ann" "bob" = some n.data ∧ SummariesBefore answered m n := by
  intro m n
  have hmn : SummariesBefore answered m n := by decide
  have hnm : ¬ SummariesBefore answered n m := by decide
  obtain ⟨hown, -, hequal, -⟩ := (summaries_agreement (s := answered) (Option.some_get _).symm
    (by decide : ∀ x ∈ answeredSend, x.BetweenAccounts) (by decide)
    (by decide : ∀ x ∈ answeredSend, x.FromClient fun uid => if uid = "ann" then 0 else 1)
    (by decide) (by decide : Quiescent answered) (by decide : IsUID "ann") (by decide : IsUID "bob")
    (by decide)).2.2.2.1 m n (by decide) (by decide)
  rw [if_neg hnm] at hown
  exact ⟨hequal.mpr (Or.inl hmn), hown, hmn⟩

end ChipChat.Upload
