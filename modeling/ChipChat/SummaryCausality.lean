import ChipChat.SummaryAgreement

/-! A summary is written by the callback of a call's first write, so it never names a
message before the backend has decided about the sender's own copy of it. -/

namespace ChipChat.Upload

open LabelledSystem

set_option autoImplicit false

section Summaries
variable {s : State} {a b : String}

theorem summary_write (h : Accounting s) (hs : SendsBetweenAccounts s) (ha : IsUID a)
    (hb : IsUID b) {d : Dictionary} (hd : summary s a b = some d) :
    ∃ w : Write, (w, .stored) ∈ s.settled ∧ w.send.data = d ∧ w.part ≠ .ownThread ∧
      Between a b w.send := by
  rw [summary, h.documents, WriteLog.lookup_replay] at hd
  obtain ⟨⟨w, o⟩, he, hentry⟩ := List.mem_map.mp (WriteLog.lastAt_mem hd)
  obtain ⟨hsettled, ho⟩ := List.mem_filter.mp he
  obtain rfl : o = .stored := of_decide_eq_true ho
  have hpath : w.path = (summaryReference a b).path := congrArg Prod.fst hentry
  have hacc : IsUID w.send.currentUID ∧ IsUID w.send.user.uid := hs _ (settled_send h hsettled)
  refine ⟨w, hsettled, congrArg Prod.snd hentry, ?_⟩
  rcases (path_eq_summary_iff ha hb hacc.1 hacc.2).mp hpath with ⟨hpart, hc, hu⟩ | ⟨hpart, hc, hu⟩
  · exact ⟨by simp [hpart], Or.inl ⟨hc, hu⟩⟩
  · exact ⟨by simp [hpart], Or.inr ⟨hc, hu⟩⟩

/-- Only the callback of a first write, which has settled by then, issues the other writes. -/
theorem first_settled (h : Accounting s) {w : Write} (hw : w ∈ s.issued) (hp : w.part ≠ .ownThread) :
    ∃ o, SettledAs s w.send .ownThread o := by
  rcases (mem_issued_iff h w).mp hw with ⟨hpart, -⟩ | ⟨-, hcontinued⟩
  · exact absurd hpart hp
  · obtain ⟨o, ho⟩ := (mem_continued_iff w.send).mp hcontinued
    exact ⟨o, executed_settled h ho⟩

end Summaries

/-- In every reachable state, whatever fails and whoever stops, a summary of a conversation
is the message of a call between its two accounts whose first write has settled, and the
document of that write is in the sender's thread exactly if it was not rejected. -/
theorem summary_behind_thread {s : State} {as : List Action} (hrun : run system as = some s)
    (hacc : ∀ x ∈ as, x.BetweenAccounts) {a b : String} (ha : IsUID a) (hb : IsUID b)
    {d : Dictionary} (hd : summary s a b = some d) :
    ∃ n ∈ s.sends, n.data = d ∧ Between a b n ∧ (∃ o, SettledAs s n .ownThread o) ∧
      (s.documents.lookup (Write.path ⟨n, .ownThread⟩) = some d ↔
        ¬ SettledAs s n .ownThread .rejected) := by
  have h := accounting_run hrun
  have hs := sendsBetweenAccounts_run hrun hacc
  obtain ⟨w, hsettled, rfl, hpart, hbetween⟩ := summary_write h hs ha hb hd
  obtain ⟨o, ho⟩ := first_settled h (settled_issued h hsettled) hpart
  have hsend := settled_send h hsettled
  refine ⟨w.send, hsend, rfl, hbetween, ⟨o, ho⟩, ?_⟩
  have hcopy : s.documents.lookup (Write.path ⟨w.send, .ownThread⟩) =
      if SettledAs s w.send .ownThread .stored then some w.send.data else none :=
    lookup_copy h hs hsend (by simp [awaited])
  rw [hcopy]
  cases o with
  | stored =>
    rw [if_pos ho]
    exact iff_of_true rfl fun hrejected => absurd (settled_unique h ho hrejected) (by simp)
  | rejected =>
    have hnot : ¬ SettledAs s w.send .ownThread .stored := fun hstored =>
      absurd (settled_unique h ho hstored) (by simp)
    rw [if_neg hnot]
    exact iff_of_false (by simp) fun hnot => hnot ho

theorem summary_behind_thread_crossing :
    ∃ n ∈ crossed.sends, summary crossed "ann" "bob" = some n.data ∧
      ∃ o, SettledAs crossed n .ownThread o := by
  have hsome : (summary crossed "ann" "bob").isSome := by decide
  have hd : summary crossed "ann" "bob" = some ((summary crossed "ann" "bob").get hsome) :=
    (Option.some_get hsome).symm
  obtain ⟨n, hn, hdata, -, hsettled, -⟩ := summary_behind_thread (s := crossed)
    (Option.some_get _).symm (by decide : ∀ x ∈ crossingSends, x.BetweenAccounts)
    (by decide : IsUID "ann") (by decide : IsUID "bob") hd
  exact ⟨n, hn, by rw [hdata]; exact hd, hsettled⟩

end ChipChat.Upload
