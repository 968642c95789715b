import ChipChat.UploadThreads

/-! What a send leaves behind when its writes fail or its client stops. The four
writes of a call are independent: nothing is rolled back, and `completion` hears
of the partner's thread copy alone. -/

namespace ChipChat.Upload

open LabelledSystem

set_option autoImplicit false

/-- The thread copies of a call, as the documents at the paths it wrote them to. -/
def Holds (s : State) (n : Send) (p : Part) : Prop :=
  s.documents.lookup (Write.path ⟨n, p⟩) = some n.data

/-- Failure atomicity and honest reporting, once nothing is outstanding. -/
structure FailureAtomic (s : State) : Prop where
  mirrored : ∀ a b, IsUID a → IsUID b → (threadData s a b).Perm (threadData s b a)
  success : ∀ n, Reported s n .stored → ∀ p, SettledAs s n p .stored
  failure : ∀ n, Reported s n .rejected → ∀ p, p = .ownThread ∨ p = .partnerThread →
    ¬ Holds s n p

/-- The recipient's copy is rejected after the sender's was stored. -/
def halfSend : List Action :=
  let n : Send := ⟨0, 0, "ann", account "bob", "hi", 10000⟩
  [.uploadMessage 0 (some "ann") "hi" (account "bob") 10000,
   .settle ⟨n, .ownThread⟩ .stored, .callback ⟨n, .ownThread⟩ .stored,
   .settle ⟨n, .partnerThread⟩ .rejected, .settle ⟨n, .ownRecent⟩ .stored,
   .settle ⟨n, .partnerRecent⟩ .stored, .callback ⟨n, .partnerThread⟩ .rejected]

def halfSent : State := (run system halfSend).get (by decide)

theorem not_failureAtomic :
    ¬ ∀ as s, run system as = some s → (∀ x ∈ as, x.BetweenAccounts) → Quiescent s →
      FailureAtomic s := by
  intro h
  have hsent := h halfSend halfSent (Option.some_get _).symm (by decide) (by decide)
  exact absurd (hsent.mirrored "ann" "bob" (by decide) (by decide)) (by decide)

theorem holds_iff {s : State} (h : Accounting s) (hs : SendsBetweenAccounts s) {n : Send}
    (hn : n ∈ s.sends) {p : Part} (hp : p = .ownThread ∨ p = .partnerThread) :
    Holds s n p ↔ SettledAs s n p .stored := by
  have hl := lookup_copy h hs (w := ⟨n, p⟩) hn (decide_eq_true hp)
  unfold Holds SettledAs
  rw [hl]
  by_cases hst : ((⟨n, p⟩, .stored) : Write × Outcome) ∈ s.settled <;> simp [hst]

/-- A call that was not cut off has had all its writes settled. -/
theorem settled_of_continued {s : State} (h : Accounting s) (hq : Quiescent s) {n : Send}
    (hn : n ∈ continued s) (p : Part) : ∃ o, SettledAs s n p o := by
  apply settled_of_issued h hq
  apply (mem_issued_iff h _).mpr
  by_cases hp : p = .ownThread
  · exact Or.inl ⟨hp, continued_subset h hn⟩
  · exact Or.inr ⟨hp, hn⟩

theorem continued_of_reported {s : State} (h : Accounting s) {n : Send} {o : Outcome}
    (hr : Reported s n o) : n ∈ continued s := by
  rcases (mem_issued_iff h _).mp (settled_issued h (executed_settled h hr)) with hi | hi
  · exact absurd hi.1 (by simp)
  · exact hi.2

/-- Neither thread copy of the call was rejected, and its first callback ran. -/
def Unharmed (s : State) (n : Send) : Prop :=
  n ∈ continued s ∧ ¬ SettledAs s n .ownThread .rejected ∧
    ¬ SettledAs s n .partnerThread .rejected

theorem stored_of_unharmed {s : State} (h : Accounting s) (hq : Quiescent s) {n : Send}
    (hn : Unharmed s n) {p : Part} (hp : p = .ownThread ∨ p = .partnerThread) :
    SettledAs s n p .stored := by
  obtain ⟨o, ho⟩ := settled_of_continued h hq hn.1 p
  cases o with
  | stored => exact ho
  | rejected =>
    rcases hp with rfl | rfl
    · exact absurd ho hn.2.1
    · exact absurd ho hn.2.2

theorem threadData_mirrored {s : State} (h : Accounting s) (hs : SendsBetweenAccounts s)
    {a b : String} (ha : IsUID a) (hb : IsUID b)
    (copies : ∀ n ∈ s.sends, Between a b n → ∀ p, p = .ownThread ∨ p = .partnerThread →
      SettledAs s n p .stored) : (threadData s a b).Perm (threadData s b a) := by
  by_cases hab : a = b
  · subst hab
    exact List.Perm.refl _
  have hall : ∀ x y, (∀ n ∈ s.sends, Between a b n ↔ Between x y n) →
      delivered s x y = s.sends.filter fun n => decide (Between a b n) := by
    intro x y hxy
    apply List.filter_congr
    intro n hn
    apply decide_eq_decide.mpr
    constructor
    · exact fun hd => (hxy n hn).mpr hd.1
    · intro hbt
      refine ⟨(hxy n hn).mp hbt, copies n hn hbt _ ?_⟩
      unfold copyFor
      split <;> simp
  have hdata : ∀ x y, IsUID x → IsUID y → x ≠ y →
      (∀ n ∈ s.sends, Between a b n ↔ Between x y n) →
      (threadData s x y).Perm ((s.sends.filter fun n => decide (Between a b n)).map Send.data) := by
    intro x y hx hy hne hxy
    have hp := (thread_perm h hs hx hy hne).map Prod.snd
    rw [hall x y hxy, List.map_map] at hp
    exact hp
  exact (hdata a b ha hb hab fun _ _ => Iff.rfl).trans
    (hdata b a hb ha (Ne.symm hab) fun n _ => between_comm a b n).symm

theorem send_failures {s : State} {as : List Action} (hrun : run system as = some s)
    (hacc : ∀ x ∈ as, x.BetweenAccounts) (hq : Quiescent s) :
    (∀ a b, IsUID a → IsUID b → a ≠ b →
      (s.documents.inCollection (threadCollection a b)).Perm
        ((delivered s a b).map fun n => (copyFor a n).entry)) ∧
    (∀ a b, IsUID a → IsUID b → (∀ n ∈ s.sends, Between a b n → Unharmed s n) →
      (threadData s a b).Perm (threadData s b a)) ∧
    (∀ n ∈ s.sends, n ∉ continued s → n.client ∈ s.stopped) ∧
    (∀ n, Reported s n .stored → Holds s n .partnerThread ∧ ∀ p, ∃ o, SettledAs s n p o) ∧
    (∀ n, Reported s n .rejected → ¬ Holds s n .partnerThread) := by
  have h := accounting_run hrun
  have hs := sendsBetweenAccounts_run hrun hacc
  have hpartner : ∀ n o, Reported s n o →
      (Holds s n .partnerThread ↔ SettledAs s n .partnerThread .stored) := fun n o hr =>
    holds_iff h hs (continued_subset h (continued_of_reported h hr)) (Or.inr rfl)
  refine ⟨?_, ?_, ?_, ?_, ?_⟩
  · intro a b ha hb hab
    exact thread_perm h hs ha hb hab
  · intro a b ha hb hunharmed
    apply threadData_mirrored h hs ha hb
    intro n hn hbt p hp
    exact stored_of_unharmed h hq (hunharmed n hn hbt) hp
  · intro n hn hcut
    by_contra hlive
    exact hcut (continued_of_live h hq hn hlive)
  · intro n hr
    exact ⟨(hpartner n _ hr).mpr (executed_settled h hr),
      settled_of_continued h hq (continued_of_reported h hr)⟩
  · intro n hr hholds
    have hst := (hpartner n _ hr).mp hholds
    exact absurd (settled_unique h hst (executed_settled h hr)) (by simp)

theorem send_failures_halfSend :
    (∀ n, Reported halfSent n .rejected → ¬ Holds halfSent n .partnerThread) ∧
    halfSent.sends.length = 1 :=
  ⟨(send_failures (Option.some_get _).symm (by decide : ∀ x ∈ halfSend, x.BetweenAccounts)
    (by decide : Quiescent halfSent)).2.2.2.2, by decide⟩

end ChipChat.Upload
