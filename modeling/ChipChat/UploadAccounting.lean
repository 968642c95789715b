import ChipChat.UploadRuns

/-!
# Accounting of the writes of a run

Every write issued is in flight or settled, every awaited write that settled has a
callback that is pending, executed or lost, and the writes issued are the first
write of every call and the three others of the calls whose callback has run.
-/

namespace ChipChat.Upload

open LabelledSystem

set_option autoImplicit false

/-- The writes Firestore applied, as key and value, in the order it applied them. -/
def storedEntries (settled : List (Write × Outcome)) : List (ResourcePath × Dictionary) :=
  (settled.filter fun e => decide (e.2 = .stored)).map fun e => e.1.entry

def firstWrite (n : Send) : Write := ⟨n, .ownThread⟩

def laterWrites (n : Send) : List Write :=
  [⟨n, .partnerThread⟩, ⟨n, .ownRecent⟩, ⟨n, .partnerRecent⟩]

theorem mem_laterWrites_iff (n : Send) (w : Write) :
    w ∈ laterWrites n ↔ w.send = n ∧ w.part ≠ .ownThread := by
  obtain ⟨m, p⟩ := w
  cases p <;> simp [laterWrites]

structure Accounting (s : State) : Prop where
  numbered : s.sends.map Send.number = List.range s.sends.length
  issued_perm : s.issued.Perm (s.inFlight ++ s.settled.map Prod.fst)
  awaited_perm : (s.settled.filter fun e => awaited e.1).Perm
    (s.callbacks ++ (s.executed ++ s.lost))
  origin : s.issued.Perm (s.sends.map firstWrite ++ (continued s).flatMap laterWrites)
  lost_stopped : ∀ e ∈ s.lost, e.1.send.client ∈ s.stopped
  documents : s.documents = WriteLog.replay (storedEntries s.settled)

theorem accounting_init : Accounting initial := by
  constructor <;> simp [initial, continued, storedEntries, WriteLog.replay]

theorem accounting_begin {s : State} (h : Accounting s) {w : Write}
    (hn : w.send.number = s.sends.length) (hp : w.part = .ownThread) :
    Accounting (s.begin w) := by
  have hw : firstWrite w.send = w := by
    obtain ⟨n, p⟩ := w
    cases hp
    rfl
  constructor
  · simp [State.begin, h.numbered, hn, List.range_succ]
  · have hp := h.issued_perm.append_right [w]
    simp only [State.begin]
    refine hp.trans ?_
    simp only [List.append_assoc]
    exact (List.perm_append_singleton w (s.settled.map Prod.fst)).append_left _
  · exact h.awaited_perm
  · have hp := h.origin.append_right [w]
    simp only [State.begin, List.map_append, List.map_cons, List.map_nil, hw]
    refine hp.trans ?_
    simp only [List.append_assoc]
    exact (List.perm_append_singleton w _).append_left _
  · exact h.lost_stopped
  · exact h.documents

theorem storedEntries_concat (settled : List (Write × Outcome)) (w : Write) (o : Outcome) :
    storedEntries (settled ++ [(w, o)]) =
      storedEntries settled ++ if o = .stored then [w.entry] else [] := by
  by_cases ho : o = .stored <;> simp [storedEntries, List.filter_append, ho]

theorem accounting_settle {s : State} (h : Accounting s) {w : Write} (hw : w ∈ s.inFlight)
    (o : Outcome) : Accounting (s.settle w o) := by
  constructor
  · exact h.numbered
  · refine h.issued_perm.trans ?_
    simp only [State.settle, List.map_append, List.map_cons, List.map_nil]
    have hp := (List.perm_cons_erase hw).append_right (s.settled.map Prod.fst)
    refine hp.trans ?_
    simp only [List.cons_append]
    rw [← List.append_assoc]
    exact (List.perm_append_singleton w _).symm
  · simp only [State.settle, List.filter_append]
    by_cases ha : awaited w = true
    -- the callback is queued, or lost when the client has already stopped
    · by_cases hc : w.send.client ∈ s.stopped
      · simp only [ha, hc, not_true_eq_false, and_false, and_true, ↓reduceIte, List.filter_cons,
          List.filter_nil]
        simpa only [List.append_assoc] using h.awaited_perm.append_right [(w, o)]
      · simp only [ha, hc, not_false_eq_true, and_self, and_false, ↓reduceIte, List.filter_cons,
          List.filter_nil]
        refine (h.awaited_perm.append_right [(w, o)]).trans ?_
        simp only [List.append_assoc]
        apply List.Perm.append_left
        rw [← List.append_assoc]
        exact List.perm_append_comm
    · simpa [ha] using h.awaited_perm
  · exact h.origin
  · intro e he
    simp only [State.settle] at he ⊢
    split at he
    · rename_i hc
      rcases List.mem_append.mp he with he | he
      · exact h.lost_stopped e he
      · obtain rfl := List.mem_singleton.mp he
        exact hc.2
    · exact h.lost_stopped e he
  · simp only [State.settle, storedEntries_concat]
    by_cases ho : o = .stored
    · rw [if_pos ho, if_pos ho, WriteLog.replay, WriteLog.replayFrom_append, h.documents]
      rfl
    · simp [ho, h.documents]

theorem continued_execute (s : State) (w : Write) (o : Outcome) :
    continued (s.execute w o) =
      continued s ++ if w.part = .ownThread then [w.send] else [] := by
  by_cases hp : w.part = .ownThread <;> simp [continued, State.execute, List.filter_append, hp]

theorem accounting_execute {s : State} (h : Accounting s) {w : Write} {o : Outcome}
    (hw : (w, o) ∈ s.callbacks) : Accounting (s.execute w o) := by
  constructor
  · exact h.numbered
  · simp only [State.execute]
    refine (h.issued_perm.append_right _).trans ?_
    simp only [List.append_assoc]
    exact List.perm_append_comm.append_left _
  · simp only [State.execute]
    refine h.awaited_perm.trans ?_
    refine ((List.perm_cons_erase hw).append_right _).trans ?_
    simp only [List.append_assoc, List.cons_append, List.nil_append]
    rw [← List.append_assoc, ← List.append_assoc]
    exact List.perm_middle.symm
  · rw [continued_execute]
    simp only [State.execute, State.continuation]
    -- only the callback of the first write issues further writes
    split
    · simp only [List.flatMap_append, List.flatMap_cons, List.flatMap_nil, List.append_nil]
      rw [← List.append_assoc]
      exact h.origin.append_right _
    · simpa using h.origin
  · exact h.lost_stopped
  · exact h.documents

theorem accounting_stop {s : State} (h : Accounting s) (client : Nat) :
    Accounting (s.stop client) := by
  constructor
  · exact h.numbered
  · exact h.issued_perm
  · simp only [State.stop]
    refine h.awaited_perm.trans ?_
    have hsplit := List.filter_append_perm
      (fun e : Write × Outcome => decide (e.1.send.client ≠ client)) s.callbacks
    refine (hsplit.symm.append_right _).trans ?_
    simp only [List.append_assoc]
    apply List.Perm.append_left
    refine List.perm_append_comm.trans ?_
    simp
  · exact h.origin
  · intro e he
    simp only [State.stop] at he ⊢
    rcases List.mem_append.mp he with he | he
    · exact List.mem_cons_of_mem _ (h.lost_stopped e he)
    · have hc := (List.mem_filter.mp he).2
      simp only [decide_eq_true_eq] at hc
      exact List.mem_cons.mpr (Or.inl hc)
  · exact h.documents

theorem accounting_step {s t : State} {a : Action} (h : Accounting s) (ht : step s a = some t) :
    Accounting t := by
  cases step_change ht with
  | ignored => exact h
  | begun => exact accounting_begin h rfl rfl
  | settled w o hw => exact accounting_settle h hw o
  | executed w o hw => exact accounting_execute h hw
  | stopped client => exact accounting_stop h client

theorem accounting_run {s : State} {as : List Action} (h : run system as = some s) :
    Accounting s :=
  invariant accounting_init (fun s a t hs (ht : step s a = some t) => accounting_step hs ht) h

section Consequences
variable {s : State}

theorem sends_nodup (h : Accounting s) : s.sends.Nodup := by
  apply List.Nodup.of_map Send.number
  rw [h.numbered]
  exact List.nodup_range

theorem send_eq_of_number_eq (h : Accounting s) {m n : Send} (hm : m ∈ s.sends)
    (hn : n ∈ s.sends) (heq : m.number = n.number) : m = n :=
  List.inj_on_of_nodup_map (by rw [h.numbered]; exact List.nodup_range) hm hn heq

theorem executed_settled (h : Accounting s) {e : Write × Outcome} (he : e ∈ s.executed) :
    e ∈ s.settled :=
  (List.mem_filter.mp (h.awaited_perm.symm.subset
    (List.mem_append_right _ (List.mem_append_left _ he)))).1

theorem mem_continued_iff (n : Send) :
    n ∈ continued s ↔ ∃ o, (firstWrite n, o) ∈ s.executed := by
  simp only [continued, List.mem_map, List.mem_filter, decide_eq_true_eq]
  constructor
  · rintro ⟨⟨⟨m, p⟩, o⟩, ⟨he, hp⟩, rfl⟩
    cases hp
    exact ⟨o, he⟩
  · rintro ⟨o, he⟩
    exact ⟨_, ⟨he, rfl⟩, rfl⟩

def isFirst (e : Write × Outcome) : Bool := decide (e.1.part = .ownThread)

theorem first_issued_nodup (h : Accounting s) :
    (s.issued.filter fun w => decide (w.part = .ownThread)).Nodup := by
  refine (h.origin.filter _).nodup_iff.mpr ?_
  have hlater : ((continued s).flatMap laterWrites).filter
      (fun w => decide (w.part = .ownThread)) = [] := by
    apply List.filter_eq_nil_iff.mpr
    intro w hw
    obtain ⟨n, _, hn⟩ := List.mem_flatMap.mp hw
    simpa using ((mem_laterWrites_iff n w).mp hn).2
  rw [List.filter_append, hlater, List.append_nil]
  apply List.Nodup.filter
  exact (sends_nodup h).map fun m n hmn => congrArg Write.send hmn

theorem first_settled_nodup (h : Accounting s) :
    ((s.settled.filter isFirst).map fun e => e.1.send).Nodup := by
  have hw : ((s.settled.filter isFirst).map Prod.fst).Nodup := by
    have hp := (h.issued_perm.filter fun w => decide (w.part = .ownThread)).nodup_iff.mp
      (first_issued_nodup h)
    rw [List.filter_append, List.filter_map] at hp
    exact hp.of_append_right
  have hm : (((s.settled.filter isFirst).map Prod.fst).map Write.send).Nodup := by
    apply hw.map_on
    intro w hw w' hw' heq
    obtain ⟨e, he, rfl⟩ := List.mem_map.mp hw
    obtain ⟨e', he', rfl⟩ := List.mem_map.mp hw'
    have hp := (List.mem_filter.mp he).2
    have hp' := (List.mem_filter.mp he').2
    simp only [isFirst, decide_eq_true_eq] at hp hp'
    cases e with | mk w o => cases e' with | mk w' o' =>
    cases w; cases w'
    simp_all
  rwa [List.map_map] at hm

/-- First writes are issued once, so each of them settles and calls back at most once. -/
theorem continued_nodup (h : Accounting s) : (continued s).Nodup := by
  have hs : ((s.settled.filter fun e => awaited e.1).filter isFirst).map (fun e => e.1.send)
      |>.Nodup := by
    rw [List.filter_comm]
    exact (first_settled_nodup h).sublist (List.filter_sublist.map _)
  have hp := ((h.awaited_perm.filter isFirst).map fun e => e.1.send).nodup_iff.mp hs
  simp only [List.filter_append, List.map_append] at hp
  exact hp.of_append_right.of_append_left

theorem settled_issued (h : Accounting s) {e : Write × Outcome} (he : e ∈ s.settled) :
    e.1 ∈ s.issued :=
  h.issued_perm.symm.subset (List.mem_append_right _ (List.mem_map.mpr ⟨e, he, rfl⟩))

theorem continued_subset (h : Accounting s) {n : Send} (hn : n ∈ continued s) : n ∈ s.sends := by
  obtain ⟨o, he⟩ := (mem_continued_iff n).mp hn
  have hi := h.origin.subset (settled_issued h (executed_settled h he))
  rcases List.mem_append.mp hi with hi | hi
  · obtain ⟨m, hm, heq⟩ := List.mem_map.mp hi
    cases heq
    exact hm
  · obtain ⟨m, _, hm⟩ := List.mem_flatMap.mp hi
    exact absurd rfl ((mem_laterWrites_iff m _).mp hm).2

theorem mem_issued_iff (h : Accounting s) (w : Write) :
    w ∈ s.issued ↔ (w.part = .ownThread ∧ w.send ∈ s.sends) ∨
      (w.part ≠ .ownThread ∧ w.send ∈ continued s) := by
  rw [h.origin.mem_iff]
  simp only [List.mem_append, List.mem_map, List.mem_flatMap, mem_laterWrites_iff, firstWrite]
  constructor
  · rintro (⟨n, hn, rfl⟩ | ⟨n, hn, rfl, hp⟩)
    · exact Or.inl ⟨rfl, hn⟩
    · exact Or.inr ⟨hp, hn⟩
  · rintro (⟨hp, hn⟩ | ⟨hp, hn⟩)
    · refine Or.inl ⟨w.send, hn, ?_⟩
      rw [← hp]
    · exact Or.inr ⟨w.send, hn, rfl, hp⟩

theorem issued_nodup (h : Accounting s) : s.issued.Nodup := by
  refine h.origin.nodup_iff.mpr ?_
  apply List.nodup_append.mpr
  refine ⟨(sends_nodup h).map fun m n hmn => congrArg Write.send hmn, ?_, ?_⟩
  -- later writes of two calls differ in the call, a later and a first write in the part
  · apply List.nodup_flatMap.mpr
    refine ⟨fun n _ => by simp [laterWrites], ?_⟩
    apply (continued_nodup h).imp
    intro m n hmn w hm hn
    have hwm := ((mem_laterWrites_iff m w).mp hm).1
    have hwn := ((mem_laterWrites_iff n w).mp hn).1
    exact hmn (hwm.symm.trans hwn)
  · intro w hw w' hw' heq
    subst heq
    obtain ⟨n, _, rfl⟩ := List.mem_map.mp hw
    obtain ⟨m, _, hm⟩ := List.mem_flatMap.mp hw'
    exact ((mem_laterWrites_iff m _).mp hm).2 rfl

theorem settled_nodup (h : Accounting s) : (s.settled.map Prod.fst).Nodup :=
  (h.issued_perm.nodup_iff.mp (issued_nodup h)).of_append_right

/-- A write settles once, with one outcome. -/
theorem settled_unique (h : Accounting s) {w : Write} {o o' : Outcome}
    (ho : (w, o) ∈ s.settled) (ho' : (w, o') ∈ s.settled) : o = o' :=
  congrArg Prod.snd (List.inj_on_of_nodup_map (settled_nodup h) ho ho' rfl)

/-- Once nothing is in flight every write that was issued has settled. -/
theorem settled_of_issued (h : Accounting s) (hq : Quiescent s) {w : Write}
    (hw : w ∈ s.issued) : ∃ o, (w, o) ∈ s.settled := by
  have hm := h.issued_perm.subset hw
  rw [hq.1, List.nil_append] at hm
  obtain ⟨⟨w', o⟩, he, rfl⟩ := List.mem_map.mp hm
  exact ⟨o, he⟩

/-- Once nothing is outstanding the first callback of a call has run, unless the
client stopped. -/
theorem continued_of_live (h : Accounting s) (hq : Quiescent s) {n : Send} (hn : n ∈ s.sends)
    (hlive : n.client ∉ s.stopped) : n ∈ continued s := by
  obtain ⟨o, ho⟩ := settled_of_issued h hq
    ((mem_issued_iff h (firstWrite n)).mpr (Or.inl ⟨rfl, hn⟩))
  have hm := h.awaited_perm.subset (List.mem_filter.mpr ⟨ho, rfl⟩)
  rw [hq.2, List.nil_append] at hm
  rcases List.mem_append.mp hm with he | hl
  · exact (mem_continued_iff n).mpr ⟨o, he⟩
  · exact absurd (h.lost_stopped _ hl) hlive

end Consequences

end ChipChat.Upload
