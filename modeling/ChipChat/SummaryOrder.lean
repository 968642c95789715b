import ChipChat.LogOrder
import ChipChat.ThreadDelivery

/-!
# The order in which summaries are written

When each client's writes are applied in the order it issued them and every
account sends from one client, the summary writes of an account are applied in the
order its first callbacks ran, the own summary of a call ahead of the partner's.
-/

namespace ChipChat.Upload

open LabelledSystem LogOrder

set_option autoImplicit false

/-- The write that settles is the oldest its client has in flight. -/
def InOrder (s : State) : Action → Prop
  | .settle w _ =>
      (s.inFlight.filter fun v => decide (v.send.client = w.send.client)).head? = some w
  | _ => True

instance (s : State) : ∀ a, Decidable (InOrder s a)
  | .settle .. => inferInstanceAs (Decidable (_ = _))
  | .uploadMessage .. | .callback .. | .stop .. => isTrue trivial

def Action.FromClient (clientOf : String → Nat) : Action → Prop
  | .uploadMessage client currentUser _ _ _ => ∀ uid ∈ currentUser, client = clientOf uid
  | _ => True

instance (clientOf : String → Nat) : ∀ a : Action, Decidable (a.FromClient clientOf)
  | .uploadMessage client currentUser .. =>
      inferInstanceAs (Decidable (∀ uid ∈ currentUser, client = clientOf uid))
  | .settle .. | .callback .. | .stop .. => isTrue trivial

def applied (s : State) : List Write := s.settled.map Prod.fst

def ofClient (c : Nat) (w : Write) : Bool := decide (w.send.client = c)

def summaryWrites (n : Send) : List Write := [⟨n, .ownRecent⟩, ⟨n, .partnerRecent⟩]

structure Ordered (clientOf : String → Nat) (s : State) : Prop where
  fifo : ∀ c, (applied s).filter (ofClient c) ++ s.inFlight.filter (ofClient c) =
    s.issued.filter (ofClient c)
  clients : ∀ n ∈ s.sends, n.client = clientOf n.currentUID
  summaries : (s.issued.filter fun w => !awaited w) = (continued s).flatMap summaryWrites

theorem ordered_begin {clientOf : String → Nat} {s : State} (h : Ordered clientOf s) {w : Write}
    (hc : w.send.client = clientOf w.send.currentUID) (hp : w.part = .ownThread) :
    Ordered clientOf (s.begin w) := by
  refine ⟨?_, ?_, ?_⟩
  · intro c
    simp only [State.begin, applied, List.filter_append, ← List.append_assoc]
    rw [← h.fifo c]
    rfl
  · intro n hn
    rcases List.mem_append.mp hn with hn | hn
    · exact h.clients n hn
    · obtain rfl := List.mem_singleton.mp hn
      exact hc
  · simpa [State.begin, List.filter_append, awaited, hp, continued] using h.summaries

theorem ordered_settle {clientOf : String → Nat} {s : State} (h : Ordered clientOf s) {w : Write}
    (hw : (s.inFlight.filter fun v => decide (v.send.client = w.send.client)).head? = some w)
    (o : Outcome) : Ordered clientOf (s.settle w o) := by
  refine ⟨?_, h.clients, h.summaries⟩
  intro c
  have hfifo := h.fifo c
  simp only [State.settle, applied, List.map_append, List.map_cons, List.map_nil,
    List.filter_append, ← List.erase_filter] at hfifo ⊢
  rw [← hfifo]
  -- the write is the oldest of its own client and unknown to the others
  by_cases hc : w.send.client = c
  · obtain ⟨rest, hrest⟩ := List.head?_eq_some_iff.mp hw
    have hfl : s.inFlight.filter (ofClient c) = w :: rest := by
      rw [← hrest, ← hc]
      rfl
    simp [hfl, ofClient, hc]
  · have hnot : w ∉ s.inFlight.filter (ofClient c) := by simp [ofClient, hc]
    simp [List.erase_of_not_mem hnot, ofClient, hc]

theorem ordered_execute {clientOf : String → Nat} {s : State} (h : Ordered clientOf s) (w : Write)
    (o : Outcome) : Ordered clientOf (s.execute w o) := by
  refine ⟨?_, h.clients, ?_⟩
  · intro c
    simp only [State.execute, applied, List.filter_append, ← List.append_assoc]
    rw [← h.fifo c]
    rfl
  · rw [continued_execute]
    simp only [State.execute, State.continuation, List.filter_append, h.summaries,
      List.flatMap_append]
    split
    · simp [Service.uploadMessageCallback, awaited, summaryWrites]
    · simp

theorem ordered_step {clientOf : String → Nat} {s t : State} {a : Action}
    (h : Ordered clientOf s) (ha : a.FromClient clientOf) (hi : InOrder s a)
    (ht : step s a = some t) : Ordered clientOf t := by
  cases step_change ht with
  | ignored => exact h
  | begun client uid message user date hc => exact ordered_begin h (ha uid rfl) rfl
  | settled w o hw => exact ordered_settle h hi o
  | executed w o hw => exact ordered_execute h w o
  | stopped => exact ⟨h.fifo, h.clients, h.summaries⟩

theorem ordered_run {clientOf : String → Nat} {s : State} {as : List Action}
    (h : run system as = some s) (hc : ∀ x ∈ as, x.FromClient clientOf)
    (hi : StepsMeet system InOrder initial as) : Ordered clientOf s :=
  invariant_of_stepsMeet
    (fun s a t hs ha (ht : step s a = some t) => ordered_step hs ha.1 ha.2 ht)
    ⟨fun _ => rfl, fun _ hn => absurd hn List.not_mem_nil, rfl⟩
    (stepsMeet_and (stepsMeet_of_forall hc initial) hi) h

/-- The calls from `a` to `b` whose first callback has run, in the order it did. -/
def callsTo (s : State) (a b : String) : List Send :=
  (continued s).filter fun n => decide (n.currentUID = a ∧ n.user.uid = b)

def lastCall (s : State) (a b : String) : Option Send := (callsTo s a b).getLast?

section Quiescence
variable {clientOf : String → Nat} {s : State}

theorem applied_client_eq_issued (h : Ordered clientOf s) (hq : Quiescent s) (c : Nat) :
    (applied s).filter (ofClient c) = s.issued.filter (ofClient c) := by
  have hf := h.fifo c
  rwa [hq.1, List.filter_nil, List.append_nil] at hf

theorem summaryWrites_filter (calls : List Send) (a b : String) {p : Part}
    (hp : p = .ownRecent ∨ p = .partnerRecent) :
    (calls.flatMap summaryWrites).filter (fun w => decide (w.part = p ∧
      w.send.currentUID = a ∧ w.send.user.uid = b)) =
    (calls.filter fun n => decide (n.currentUID = a ∧ n.user.uid = b)).map (Write.mk · p) := by
  induction calls with
  | nil => rfl
  | cons n calls ih =>
    rw [List.flatMap_cons, List.filter_append, ih]
    by_cases hn : n.currentUID = a ∧ n.user.uid = b <;>
      rcases hp with rfl | rfl <;> simp [summaryWrites, hn]

/-- The summary writes of one kind from `a` to `b` are applied in the order of the calls. -/
theorem applied_calls (hacc : Accounting s) (h : Ordered clientOf s) (hq : Quiescent s)
    (a b : String) {p : Part} (hp : p = .ownRecent ∨ p = .partnerRecent) :
    (applied s).filter (fun w => decide (w.part = p ∧ w.send.currentUID = a ∧
      w.send.user.uid = b)) = (callsTo s a b).map (Write.mk · p) := by
  have restrict : ∀ l : List Write, (∀ w ∈ l, w.send ∈ s.sends) →
      l.filter (fun w => decide (w.part = p ∧ w.send.currentUID = a ∧ w.send.user.uid = b)) =
      (l.filter (ofClient (clientOf a))).filter
        (fun w => decide (w.part = p ∧ w.send.currentUID = a ∧ w.send.user.uid = b)) := by
    intro l hl
    rw [List.filter_filter]
    apply List.filter_congr
    intro w hw
    have hc := h.clients _ (hl w hw)
    by_cases hwa : w.send.currentUID = a
    · simp [ofClient, hc, hwa]
    · simp [hwa]
  have happlied : ∀ w ∈ applied s, w.send ∈ s.sends := by
    intro w hw
    obtain ⟨e, he, rfl⟩ := List.mem_map.mp hw
    exact settled_send hacc he
  have hissued : ∀ w ∈ s.issued, w.send ∈ s.sends := by
    intro w hw
    rcases (mem_issued_iff hacc w).mp hw with hi | hi
    · exact hi.2
    · exact continued_subset hacc hi.2
  have hsummary : s.issued.filter (fun w => decide (w.part = p ∧ w.send.currentUID = a ∧
      w.send.user.uid = b)) = (s.issued.filter fun w => !awaited w).filter
        (fun w => decide (w.part = p ∧ w.send.currentUID = a ∧ w.send.user.uid = b)) := by
    rw [List.filter_filter]
    apply List.filter_congr
    intro w _
    by_cases hwp : w.part = p
    · rcases hp with rfl | rfl <;> simp [awaited, hwp]
    · simp [hwp]
  rw [restrict _ happlied, applied_client_eq_issued h hq, ← restrict _ hissued, hsummary,
    h.summaries, summaryWrites_filter _ _ _ hp]
  rfl

/-- A call's own summary is applied ahead of its partner's. -/
theorem own_before_partner (h : Ordered clientOf s) (hq : Quiescent s) {n : Send}
    (hn : n ∈ continued s) : Before (applied s) ⟨n, .ownRecent⟩ ⟨n, .partnerRecent⟩ := by
  have hissued : Before s.issued ⟨n, .ownRecent⟩ ⟨n, .partnerRecent⟩ := by
    have hb : Before ((continued s).flatMap summaryWrites) ⟨n, .ownRecent⟩ ⟨n, .partnerRecent⟩ :=
      List.sublist_flatten_of_mem (List.mem_map.mpr ⟨n, hn, rfl⟩)
    rw [← h.summaries] at hb
    exact hb.of_filter
  have hc := hissued.filter (p := ofClient n.client) (by simp [ofClient]) (by simp [ofClient])
  rw [← applied_client_eq_issued h hq] at hc
  exact hc.of_filter

end Quiescence

end ChipChat.Upload
