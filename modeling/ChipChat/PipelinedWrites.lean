import ChipChat.WritePipeline

/-!
# The queue in the pipeline

Between any two steps the pipeline holds the first writes of the current account's queue,
a stream is on its way while there are any, and what has been sent over it is just what the
backend still has to answer.
-/

namespace ChipChat.WritePipeline

open LabelledSystem

set_option autoImplicit false

section Filling
variable {s : State}

/-- What the loop adds to the pipeline. -/
def State.pipelined (s : State) (bs : List Batch) : State :=
  { s with
    writePipeline := s.writePipeline ++ bs
    stream := { s.stream with idle := s.stream.idle && !(s.stream.ready && !bs.isEmpty) }
    backend := { s.backend with
      requests := s.backend.requests ++ if s.stream.ready then bs else [] } }

def State.idled (s : State) : State :=
  if s.writePipeline.isEmpty then { s with stream := s.stream.markIdle } else s

theorem pipelined_nil (s : State) : s.pipelined [] = s := by
  simp [State.pipelined]

@[simp] theorem ready_idle (w : WriteStream) (idle : Bool) : { w with idle := idle }.ready = w.ready := rfl

theorem pipelined_cons (s : State) (b : Batch) (bs : List Batch) :
    (s.pipelined [b]).pipelined bs = s.pipelined (b :: bs) := by
  cases hready : s.stream.ready <;> simp [State.pipelined, hready]

theorem addToWritePipeline_eq (h : s.canAddToWritePipeline) (b : Batch) :
    s.addToWritePipeline b = some (s.pipelined [b]) := by
  unfold State.addToWritePipeline
  rw [if_pos h]
  cases hready : s.stream.ready <;> simp [State.pipelined, State.send, hready]

theorem nextMutationBatch_eq {p rest : List Batch} (hsorted : s.queue.Pairwise fun a b => a.batchId < b.batchId)
    (hq : s.queue = p ++ rest) : s.nextMutationBatch (p.getLast?.map Batch.batchId) = rest.head? := by
  unfold State.nextMutationBatch
  rw [hq] at hsorted ⊢
  rcases List.eq_nil_or_concat p with rfl | ⟨p, x, rfl⟩
  · cases rest <;> simp
  · rw [List.concat_eq_append] at *
    obtain ⟨hp, -, hrest⟩ := List.pairwise_append.mp hsorted
    have hnone : (p ++ [x]).find? (fun b => decide (x.batchId < b.batchId)) = none := by
      rw [List.find?_eq_none]
      intro b hb
      rcases List.mem_append.mp hb with hb | hb
      · have hlt := (List.pairwise_append.mp hp).2.2 b hb x (List.mem_singleton_self x)
        simp only [decide_eq_true_eq]
        omega
      · rw [List.mem_singleton.mp hb]
        simp
    simp only [List.getLast?_append, List.getLast?_singleton, Option.some_or,
      Option.map_some, Option.all_some] at *
    rw [List.find?_append, hnone, Option.none_or]
    cases rest with
    | nil => rfl
    | cons b rest =>
      have hlt := hrest x (by simp) b List.mem_cons_self
      rw [List.find?_cons_of_pos (by simpa using hlt)]
      rfl

theorem filled_of_full {rest : List Batch} (h : s.canAddToWritePipeline = false) :
    (if s.isNetworkEnabled then
      (s.pipelined (rest.take (kMaxPendingWrites - s.writePipeline.length))).idled else s) = s := by
  cases henabled : s.isNetworkEnabled with
  | false => rfl
  | true =>
    have hlen : kMaxPendingWrites ≤ s.writePipeline.length := by
      simpa [State.canAddToWritePipeline, henabled] using h
    have hne : s.writePipeline.isEmpty = false := by
      cases hp : s.writePipeline with
      | nil => simp [hp, kMaxPendingWrites] at hlen
      | cons => rfl
    rw [Nat.sub_eq_zero_of_le hlen, List.take_zero, pipelined_nil, State.idled, hne]
    rfl

/-- The loop fills the pipeline from the queue. -/
theorem fillLoop_eq (hsorted : s.queue.Pairwise fun a b => a.batchId < b.batchId) {rest : List Batch}
    (hq : s.queue = s.writePipeline ++ rest) {n : Nat} (hn : kMaxPendingWrites ≤ s.writePipeline.length + n) :
    s.fillLoop (s.writePipeline.getLast?.map Batch.batchId) n =
      some (if s.isNetworkEnabled then
        (s.pipelined (rest.take (kMaxPendingWrites - s.writePipeline.length))).idled else s) := by
  induction n generalizing s rest with
  | zero =>
    have hnot : s.canAddToWritePipeline = false := by
      have hlen : ¬ s.writePipeline.length < kMaxPendingWrites := by omega
      simp [State.canAddToWritePipeline, hlen]
    rw [State.fillLoop, hnot, filled_of_full hnot]
    rfl
  | succ n ih =>
    cases hadd : s.canAddToWritePipeline with
    | false =>
      rw [State.fillLoop, hadd, filled_of_full hadd]
      rfl
    | true =>
      obtain ⟨henabled, hlen⟩ : s.isNetworkEnabled = true ∧ s.writePipeline.length < kMaxPendingWrites := by
        simpa [State.canAddToWritePipeline] using hadd
      rw [State.fillLoop, hadd, if_pos rfl, nextMutationBatch_eq hsorted hq, if_pos henabled]
      cases rest with
      | nil =>
        rw [List.take_nil, pipelined_nil]
        rfl
      | cons b rest =>
        have hqueue : (s.pipelined [b]).queue = (s.pipelined [b]).writePipeline ++ rest := by
          simpa [State.pipelined, State.queue] using hq
        have hlength : (s.pipelined [b]).writePipeline.length = s.writePipeline.length + 1 := by
          simp [State.pipelined]
        have hlast : (s.pipelined [b]).writePipeline.getLast?.map Batch.batchId = some b.batchId := by
          simp [State.pipelined]
        have hnext := ih (s := s.pipelined [b]) hsorted hqueue (by omega)
        rw [hlast, show (s.pipelined [b]).isNetworkEnabled = true from henabled, if_pos rfl,
          pipelined_cons] at hnext
        have hsub : kMaxPendingWrites - s.writePipeline.length =
            kMaxPendingWrites - (s.pipelined [b]).writePipeline.length + 1 := by omega
        rw [hsub, List.take_succ_cons, ← hnext]
        simp only [List.head?_cons, addToWritePipeline_eq hadd, Option.bind_some]

def WriteStream.launched (w : WriteStream) : WriteStream :=
  { w with state := if w.state = .error then .backoff else .starting }

theorem start_eq {w : WriteStream} (h : w.isStarted = false) : w.start = some w.launched := by
  obtain ⟨state, handshakeComplete, idle⟩ := w
  cases state with
  | initial | error => rfl
  | starting | opened | backoff => cases h

theorem isStarted_launched (w : WriteStream) : w.launched.isStarted ∧ w.launched.isOpen = false := by
  by_cases herror : w.state = .error <;>
    simp [WriteStream.launched, WriteStream.isStarted, WriteStream.isOpen, herror]

theorem startIfNeeded_eq (s : State) : s.startIfNeeded =
    some (if s.shouldStartWriteStream then { s with stream := s.stream.launched } else s) := by
  unfold State.startIfNeeded State.startWriteStream
  split
  · rename_i hshould
    have hstopped : s.stream.isStarted = false := by
      simp only [State.shouldStartWriteStream, Bool.and_eq_true, Bool.not_eq_true'] at hshould
      exact hshould.1.2
    rw [start_eq hstopped]
    rfl
  · rfl

end Filling

/-- The ids of the mutations grow, and the next one is above them all. -/
structure Ordered (s : State) : Prop where
  sorted : s.mutations.Pairwise fun a b => a.batchId < b.batchId
  bounded : ∀ b ∈ s.mutations, b.batchId < s.nextBatchId

/-- What has been sent over the stream and is not answered is what is in the pipeline. -/
structure Connected (s : State) : Prop where
  stopped : s.isNetworkEnabled = false → s.writePipeline = [] ∧ s.stream.isStarted = false
  awaited : s.stream.isStarted → ¬ s.stream.ready → s.writePipeline ≠ []
  idle : s.stream.idle → s.stream.ready ∧ s.writePipeline = []
  sent : s.stream.ready → s.backend.responses ++ s.backend.requests = s.writePipeline
  unsent : ¬ s.stream.ready →
    s.backend.responses = [] ∧ s.backend.requests = [] ∧ s.backend.refusal = none

/-- The pipeline is as full as it can be, and a stream is on its way. -/
structure Full (s : State) : Prop where
  pipeline : s.writePipeline = if s.isNetworkEnabled then s.queue.take kMaxPendingWrites else []
  started : s.isNetworkEnabled → s.writePipeline ≠ [] → s.stream.isStarted

/-- Filling the pipeline only sends requests. -/
structure Carried (s t : State) : Prop where
  rest : t = { s with
    writePipeline := t.writePipeline
    stream := t.stream
    backend := { s.backend with requests := t.backend.requests } }
  requests : s.backend.requests <+: t.backend.requests
  handshake : t.stream.handshakeComplete = s.stream.handshakeComplete
  opened : t.stream.isOpen = s.stream.isOpen

section Filled
variable {s : State}

theorem sorted_queue (h : Ordered s) : s.queue.Pairwise fun a b => a.batchId < b.batchId :=
  h.sorted.filter _

theorem Carried.trans {t u : State} (hst : Carried s t) (htu : Carried t u) : Carried s u := by
  refine ⟨?_, hst.requests.trans htu.requests, htu.handshake.trans hst.handshake,
    htu.opened.trans hst.opened⟩
  rw [htu.rest, hst.rest]

theorem ready_of_empty (h : Connected s) (hopen : s.stream.isOpen) (hempty : s.writePipeline = []) :
    s.stream.ready := by
  by_contra hready
  refine h.awaited ?_ hready hempty
  rw [WriteStream.isStarted, hopen, Bool.or_true]

/-- The idle timer only runs while there is nothing in the pipeline. -/
theorem idled_pipelined (h : Connected s) (bs : List Batch) :
    ∃ idle, (s.pipelined bs).idled = { s.pipelined bs with stream := { s.stream with idle := idle } } ∧
      (idle → s.stream.ready ∧ s.writePipeline ++ bs = []) := by
  have hkept : (s.stream.idle && !(s.stream.ready && !bs.isEmpty)) →
      s.stream.ready ∧ s.writePipeline ++ bs = [] := by
    intro hidle
    simp only [Bool.and_eq_true, Bool.not_eq_true', Bool.and_eq_false_imp, Bool.not_eq_false'] at hidle
    obtain ⟨hready, hempty⟩ := h.idle hidle.1
    rw [hempty, List.isEmpty_iff.mp (hidle.2 hready)]
    exact ⟨hready, rfl⟩
  unfold State.idled
  split
  · rename_i hempty
    have hnil : s.writePipeline ++ bs = [] := List.isEmpty_iff.mp hempty
    by_cases hopen : s.stream.isOpen
    · refine ⟨true, ?_, fun _ => ⟨ready_of_empty h hopen (List.append_eq_nil_iff.mp hnil).1, hnil⟩⟩
      rw [WriteStream.markIdle, if_pos]
      · rfl
      · exact hopen
    · refine ⟨_, ?_, hkept⟩
      rw [WriteStream.markIdle, if_neg]
      · rfl
      · exact hopen
  · exact ⟨_, rfl, hkept⟩

theorem connected_pipelined (h : Connected s) (henabled : s.isNetworkEnabled) (bs : List Batch) :
    Connected (s.pipelined bs).idled ∧ Carried s (s.pipelined bs).idled ∧
      (s.pipelined bs).idled.writePipeline = s.writePipeline ++ bs := by
  obtain ⟨idle, heq, hidle⟩ := idled_pipelined h bs
  rw [heq]
  refine ⟨⟨fun hdisabled => ?_, fun hstarted hready => ?_, hidle, fun hready => ?_, fun hready => ?_⟩,
    ⟨rfl, List.prefix_append _ _, rfl, rfl⟩, rfl⟩
  · exact absurd henabled (Bool.eq_false_iff.mp hdisabled)
  · exact List.append_ne_nil_of_left_ne_nil (h.awaited hstarted hready) bs
  · have hready : s.stream.ready := hready
    simp only [State.pipelined]
    rw [if_pos hready, ← List.append_assoc, h.sent hready]
  · have hready : ¬ s.stream.ready := hready
    obtain ⟨hresponses, hrequests, hrefusal⟩ := h.unsent hready
    simp only [State.pipelined]
    rw [if_neg hready, hrequests]
    exact ⟨hresponses, rfl, hrefusal⟩

theorem connected_launched (h : Connected s) (hshould : s.shouldStartWriteStream) :
    Connected { s with stream := s.stream.launched } ∧ Carried s { s with stream := s.stream.launched } := by
  obtain ⟨⟨henabled, hstopped⟩, hne⟩ : (s.isNetworkEnabled = true ∧ s.stream.isStarted = false) ∧
      s.writePipeline.isEmpty = false := by
    simpa [State.shouldStartWriteStream] using hshould
  have hclosed : s.stream.isOpen = false := by
    rw [WriteStream.isStarted, Bool.or_eq_false_iff] at hstopped
    exact hstopped.2
  obtain ⟨-, hlaunched⟩ := isStarted_launched s.stream
  have hunready : ∀ w : WriteStream, w.isOpen = false → ¬ w.ready := by
    intro w hw
    rw [WriteStream.ready, hw]
    exact Bool.false_ne_true
  refine ⟨⟨fun hdisabled => ?_, fun _ _ hnil => ?_, fun hidle => ?_, fun hready => ?_, fun _ => ?_⟩,
    ⟨rfl, List.prefix_refl _, rfl, hlaunched.trans hclosed.symm⟩⟩
  · exact absurd henabled (Bool.eq_false_iff.mp hdisabled)
  · exact absurd (List.isEmpty_iff.mpr hnil) (Bool.eq_false_iff.mp hne)
  · exact absurd (h.idle hidle).1 (hunready _ hclosed)
  · exact absurd hready (hunready _ hlaunched)
  · exact h.unsent (hunready _ hclosed)

theorem startIfNeeded_full (h : Connected s)
    (hpipeline : s.writePipeline = if s.isNetworkEnabled then s.queue.take kMaxPendingWrites else []) :
    ∃ t, s.startIfNeeded = some t ∧ Connected t ∧ Full t ∧ Carried s t := by
  rw [startIfNeeded_eq]
  refine ⟨_, rfl, ?_⟩
  split
  · rename_i hshould
    obtain ⟨hlaunched, hcarried⟩ := connected_launched h hshould
    exact ⟨hlaunched, ⟨hpipeline, fun _ _ => (isStarted_launched s.stream).1⟩, hcarried⟩
  · rename_i hshould
    refine ⟨h, ⟨hpipeline, fun henabled hne => ?_⟩, ⟨rfl, List.prefix_refl _, rfl, rfl⟩⟩
    by_contra hstopped
    apply hshould
    simp [State.shouldStartWriteStream, henabled, Bool.eq_false_iff.mpr hstopped, hne]

/-- `FillWritePipeline` never fails, and leaves nothing to do. -/
theorem fillWritePipeline_full (hordered : Ordered s) (h : Connected s) {rest : List Batch}
    (hq : s.queue = s.writePipeline ++ rest) (hlen : s.writePipeline.length ≤ kMaxPendingWrites) :
    ∃ t, s.fillWritePipeline = some t ∧ Connected t ∧ Full t ∧ Carried s t := by
  have hloop := fillLoop_eq (sorted_queue hordered) hq (n := kMaxPendingWrites) (Nat.le_add_left _ _)
  obtain ⟨u, hu, hconnected, hpipeline, hcarried⟩ : ∃ u,
      s.fillLoop (s.writePipeline.getLast?.map Batch.batchId) kMaxPendingWrites = some u ∧ Connected u ∧
      (u.writePipeline = if s.isNetworkEnabled then s.queue.take kMaxPendingWrites else []) ∧
      Carried s u := by
    cases henabled : s.isNetworkEnabled with
    | false =>
      rw [henabled, if_neg Bool.false_ne_true] at hloop
      exact ⟨s, hloop, h, (h.stopped henabled).1, ⟨rfl, List.prefix_refl _, rfl, rfl⟩⟩
    | true =>
      rw [henabled, if_pos rfl] at hloop
      obtain ⟨hconnected, hcarried, hpipeline⟩ := connected_pipelined h henabled
        (rest.take (kMaxPendingWrites - s.writePipeline.length))
      refine ⟨_, hloop, hconnected, ?_, hcarried⟩
      rw [hpipeline, if_pos rfl, hq, List.take_append, List.take_of_length_le hlen]
  have hfull : u.writePipeline = if u.isNetworkEnabled then u.queue.take kMaxPendingWrites else [] := by
    have henabled : u.isNetworkEnabled = s.isNetworkEnabled := by rw [hcarried.rest]
    have hqueue : u.queue = s.queue := by
      rw [hcarried.rest]
      rfl
    rw [henabled, hqueue, hpipeline]
  obtain ⟨t, ht, hconnected, hfull, hstarted⟩ := startIfNeeded_full hconnected hfull
  refine ⟨t, ?_, hconnected, hfull, hcarried.trans hstarted⟩
  rw [State.fillWritePipeline, hu]
  exact ht

theorem queue_of_full (h : Full s) : ∃ rest, s.queue = s.writePipeline ++ rest := by
  rw [h.pipeline]
  split
  · exact ⟨_, (List.take_append_drop _ _).symm⟩
  · exact ⟨s.queue, rfl⟩

theorem length_of_full (h : Full s) : s.writePipeline.length ≤ kMaxPendingWrites := by
  rw [h.pipeline]
  split
  · exact List.length_take_le _ _
  · exact Nat.zero_le _

end Filled

end ChipChat.WritePipeline
