import ChipChat.SettledWrites

/-!
# Runs of the pipeline

Whatever happens to the streams, the network, the account and the app, no assertion of the
pipeline fails but one, no write is lost, and each is settled once and in its order.
-/

namespace ChipChat.WritePipeline

open LabelledSystem

set_option autoImplicit false

/-- What holds whenever the pipeline is filled. -/
structure Running (s : State) : Prop where
  ordered : Ordered s
  connected : Connected s
  full : Full s
  accounted : Accounted s
  answered : Answered s

/-- What holds between any two steps. -/
structure Consistent (s : State) : Prop extends Running s where
  handshake : s.stream.handshakeComplete → s.stream.isOpen

/-- The writes an action makes. -/
def writes (s : State) : Action → List Batch
  | .writeMutations mutation => [s.newBatch mutation]
  | _ => []

/-- The write an action settles. -/
def settles (s : State) : Action → Option (Batch × Outcome)
  | .onMutationResult => s.writePipeline.head?.map fun b => (b, .stored)
  | .onStreamFinish status =>
    if s.stream.ready ∧ status.isPermanentWriteError then
      s.writePipeline.head?.map fun b => (b, .rejected)
    else none
  | _ => none

def userAfter (s : State) : Action → Option String
  | .handleCredentialChange user => user
  | _ => s.user

def enabledAfter (s : State) : Action → Bool
  | .enableNetwork | .relaunch => true
  | .disableNetwork => false
  | _ => s.isNetworkEnabled

/-- All that a step does to the table, the account and the histories. -/
structure Effect (s : State) (a : Action) (t : State) : Prop where
  user : t.user = userAfter s a
  enabled : t.isNetworkEnabled = enabledAfter s a
  written : t.written = s.written ++ writes s a
  settled : t.settled = s.settled ++ (settles s a).toList
  mutations : t.mutations =
    (s.mutations ++ writes s a).filter fun r => (settles s a).all fun e => decide (r ≠ e.1)
  refused : s.backend.refused <+: t.backend.refused

section Carrying
variable {s t : State} {a : Action}

theorem Effect.carried {u : State} (h : Effect s a t) (htu : Carried t u) : Effect s a u := by
  refine ⟨?_, ?_, ?_, ?_, ?_, ?_⟩
  · rw [htu.rest]
    exact h.user
  · rw [htu.rest]
    exact h.enabled
  · rw [htu.rest]
    exact h.written
  · rw [htu.rest]
    exact h.settled
  · rw [htu.rest]
    exact h.mutations
  · rw [htu.rest]
    exact h.refused

/-- It holds wherever the mutations and the next id are the same. -/
theorem Ordered.moved (h : Ordered s)
    (ht : t = { t with mutations := s.mutations, nextBatchId := s.nextBatchId }) : Ordered t := by
  rw [ht]
  exact ⟨h.sorted, h.bounded⟩

theorem Accounted.moved (h : Accounted s)
    (ht : t = { t with
      mutations := s.mutations
      mutationCallbacks := s.mutationCallbacks
      written := s.written
      settled := s.settled
      completed := s.completed
      lost := s.lost }) : Accounted t := by
  rw [ht]
  exact ⟨h.calls, h.split, h.callbacks, h.completed, h.lost⟩

theorem Answered.moved (h : Answered s)
    (ht : t = { t with backend := s.backend, written := s.written, settled := s.settled }) : Answered t := by
  rw [ht]
  exact ⟨h.refusal, h.requests, h.responses, h.stored, h.orphaned, h.committed⟩

theorem ordered_carried (h : Ordered s) (hst : Carried s t) : Ordered t := by
  rw [hst.rest]
  exact h.moved rfl

theorem accounted_carried (h : Accounted s) (hst : Carried s t) : Accounted t := by
  rw [hst.rest]
  exact h.moved rfl

theorem queue_written (h : Accounted s) {b : Batch} (hb : b ∈ s.queue) : b ∈ s.written :=
  (mem_written h b).mpr (.inr ((mem_queue_iff b).mp hb).1)

theorem answered_carried (h : Answered s) (hst : Carried s t) (hconnected : Connected t) (hfull : Full t)
    (haccounted : Accounted t) : Answered t := by
  have hwritten : t.written = s.written := by rw [hst.rest]
  have hbackend : t.backend = { s.backend with requests := t.backend.requests } := by rw [hst.rest]
  have hsettled : t.settled = s.settled := by rw [hst.rest]
  refine ⟨fun c hc => ?_, fun b hb => ?_, ?_, ?_, ?_, ?_⟩
  · rw [hbackend] at hc
    obtain ⟨hpermanent, b, hhead, hrefused⟩ := h.refusal c hc
    obtain ⟨more, hmore⟩ := hst.requests
    refine ⟨hpermanent, b, ?_, ?_⟩
    · rw [← hmore, List.head?_append, hhead, Option.some_or]
    · rw [hbackend]
      exact hrefused
  · obtain ⟨rest, hq⟩ := queue_of_full hfull
    apply queue_written haccounted
    by_cases hready : t.stream.ready
    · rw [hq, ← hconnected.sent hready]
      exact List.mem_append_left _ (List.mem_append_right _ hb)
    · rw [(hconnected.unsent hready).2.1] at hb
      cases hb
  · rw [hbackend]
    exact h.responses
  · rw [hbackend, hsettled]
    exact h.stored
  · rw [hbackend, hwritten]
    exact h.orphaned
  · rw [hbackend, hwritten]
    exact h.committed

theorem running_carried (hordered : Ordered s) (haccounted : Accounted s) (hanswered : Answered s)
    (hst : Carried s t) (hconnected : Connected t) (hfull : Full t) : Running t :=
  ⟨ordered_carried hordered hst, hconnected, hfull, accounted_carried haccounted hst,
    answered_carried hanswered hst hconnected hfull (accounted_carried haccounted hst)⟩

theorem running_fill (hordered : Ordered s) (hconnected : Connected s) (haccounted : Accounted s)
    (hanswered : Answered s) {rest : List Batch} (hq : s.queue = s.writePipeline ++ rest)
    (hlen : s.writePipeline.length ≤ kMaxPendingWrites) :
    ∃ t, s.fillWritePipeline = some t ∧ Running t ∧ Carried s t := by
  obtain ⟨t, ht, hconnected, hfull, hst⟩ := fillWritePipeline_full hordered hconnected hq hlen
  exact ⟨t, ht, running_carried hordered haccounted hanswered hst hconnected hfull, hst⟩

theorem Running.consistent (h : Running t) (hst : Carried s t)
    (hs : s.stream.handshakeComplete → s.stream.isOpen) : Consistent t := by
  refine ⟨h, fun hcomplete => ?_⟩
  rw [hst.opened]
  exact hs (hst.handshake ▸ hcomplete)

/-- A step that leaves the table and the histories alone. -/
theorem Effect.silent (hwrites : writes s a = []) (hsettles : settles s a = none) (huser : t.user = userAfter s a)
    (henabled : t.isNetworkEnabled = enabledAfter s a)
    (hwritten : t.written = s.written) (hsettled : t.settled = s.settled)
    (hmutations : t.mutations = s.mutations) (hrefused : s.backend.refused <+: t.backend.refused) :
    Effect s a t := by
  refine ⟨huser, henabled, ?_, ?_, ?_, hrefused⟩
  · rw [hwrites, hwritten, List.append_nil]
  · rw [hsettles, hsettled]
    exact (List.append_nil _).symm
  · rw [hwrites, hsettles, hmutations, List.append_nil]
    exact (List.filter_eq_self.mpr fun _ _ => rfl).symm

end Carrying

section Writing
variable {s : State}

theorem consistent_writeMutations (h : Consistent s) (mutation : LocalStores.MutationBatch) :
    ∃ t, s.writeMutations mutation = some t ∧ Consistent t ∧ Effect s (.writeMutations mutation) t := by
  obtain ⟨rest, hq⟩ := queue_of_full h.full
  have hqueue : (s.writeLocally mutation).queue =
      (s.writeLocally mutation).writePipeline ++ (rest ++ [s.newBatch mutation]) := by
    have hnew : ([s.newBatch mutation].filter fun b => decide (b.user = s.user)) =
        [s.newBatch mutation] := by simp [State.newBatch]
    change (s.mutations ++ [s.newBatch mutation]).filter (fun b => decide (b.user = s.user)) =
      s.writePipeline ++ (rest ++ [s.newBatch mutation])
    rw [List.filter_append, hnew, ← List.append_assoc, ← hq]
    rfl
  have hanswered : Answered (s.writeLocally mutation) :=
    ⟨h.answered.refusal, fun b hb => List.mem_append_left _ (h.answered.requests b hb),
      h.answered.responses, h.answered.stored,
      fun b hb => List.mem_append_left _ (h.answered.orphaned b hb),
      fun b hb => List.mem_append_left _ (h.answered.committed b hb)⟩
  have hconnected : Connected (s.writeLocally mutation) :=
    ⟨h.connected.stopped, h.connected.awaited, h.connected.idle, h.connected.sent, h.connected.unsent⟩
  have hlen := length_of_full h.full
  obtain ⟨t, ht, hrunning, hcarried⟩ := running_fill (ordered_writeLocally h.ordered mutation) hconnected
    (accounted_writeLocally h.ordered h.accounted mutation) hanswered hqueue hlen
  have heffect : Effect s (.writeMutations mutation) (s.writeLocally mutation) := by
    refine ⟨rfl, rfl, rfl, (List.append_nil _).symm, ?_, List.prefix_refl _⟩
    exact (List.filter_eq_self.mpr fun _ _ => rfl).symm
  exact ⟨t, ht, hrunning.consistent hcarried h.handshake, heffect.carried hcarried⟩

theorem ready_of_responses (h : Connected s) (hresponses : s.backend.responses ≠ []) : s.stream.ready := by
  by_contra hready
  exact hresponses (h.unsent hready).1

theorem started_of_ready {w : WriteStream} (h : w.ready) : w.isStarted := by
  rw [WriteStream.ready, Bool.and_eq_true] at h
  rw [WriteStream.isStarted, h.1, Bool.or_true]

theorem idle_eq_false (h : Connected s) (hne : s.writePipeline ≠ []) : s.stream.idle = false :=
  Bool.eq_false_iff.mpr fun hidle => hne (h.idle hidle).2

/-- What is settled is the first write of the queue. -/
theorem effect_settle {u : State} {a : Action} {b : Batch} {rest : List Batch} {o : Outcome}
    (hordered : Ordered u) (hq : u.queue = b :: rest) (hwrites : writes s a = [])
    (hsettles : settles s a = some (b, o)) (huser : u.user = userAfter s a)
    (henabled : u.isNetworkEnabled = enabledAfter s a) (hwritten : u.written = s.written)
    (hsettled : u.settled = s.settled) (hmutations : u.mutations = s.mutations)
    (hrefused : s.backend.refused <+: u.backend.refused) : Effect s a (u.settle b o) := by
  have hsettle := settle_eq u b o
  refine ⟨?_, ?_, ?_, ?_, ?_, ?_⟩
  · rw [hsettle]
    exact huser
  · rw [hsettle]
    exact henabled
  · rw [hsettle, hwrites, List.append_nil]
    exact hwritten
  · rw [hsettles, ← hsettled]
    rfl
  · rw [mutations_settle hordered hq, hsettles, hwrites, hmutations, List.append_nil]
    rfl
  · rw [hsettle]
    exact hrefused

theorem answered_settle {u : State} {b : Batch} {o : Outcome} (h : Answered u)
    (hstored : o = .stored → b ∈ u.backend.committed) : Answered (u.settle b o) := by
  rw [settle_eq]
  refine ⟨h.refusal, h.requests, h.responses, fun r hr => ?_, h.orphaned, h.committed⟩
  rcases List.mem_append.mp hr with hr | hr
  · exact h.stored r hr
  · obtain ⟨rfl, ho⟩ := Prod.mk.inj (List.mem_singleton.mp hr)
    exact hstored ho.symm

/-- A write has left the pipeline, and is settled before the pipeline is filled again. -/
theorem running_settle {u : State} {b : Batch} {rest : List Batch} {o : Outcome} (hordered : Ordered u)
    (hconnected : Connected u) (haccounted : Accounted u) (hanswered : Answered u)
    (hq : u.queue = b :: (u.writePipeline ++ rest)) (hlen : u.writePipeline.length < kMaxPendingWrites)
    (hstored : o = .stored → b ∈ u.backend.committed) :
    ∃ t, (u.settle b o).fillWritePipeline = some t ∧ Running t ∧ Carried (u.settle b o) t := by
  have hsettle := settle_eq u b o
  have hsettled : Connected (u.settle b o) := by
    rw [hsettle]
    exact ⟨hconnected.stopped, hconnected.awaited, hconnected.idle, hconnected.sent, hconnected.unsent⟩
  have hrest : (u.settle b o).queue = (u.settle b o).writePipeline ++ rest := by
    rw [queue_settle hordered hq, hsettle]
  refine running_fill (ordered_settle hordered hq o) hsettled (accounted_settle hordered haccounted hq o)
    (answered_settle hanswered hstored) hrest ?_
  rw [hsettle]
  exact Nat.le_of_lt hlen

theorem length_lt_of_cons (h : Full s) {b : Batch} {writes : List Batch}
    (hpipeline : s.writePipeline = b :: writes) : writes.length < kMaxPendingWrites := by
  have hlength := length_of_full h
  rw [hpipeline, List.length_cons] at hlength
  exact hlength

/-- The first response is to the first write of the queue. -/
theorem consistent_onMutationResult (h : Consistent s) (hresponses : s.backend.responses ≠ []) :
    ∃ t, s.onMutationResult = some t ∧ Consistent t ∧ Effect s .onMutationResult t := by
  have hready := ready_of_responses h.connected hresponses
  obtain ⟨b, responses, hb⟩ := List.exists_cons_of_ne_nil hresponses
  obtain ⟨rest, hq⟩ := queue_of_full h.full
  have hpipeline : s.writePipeline = b :: (responses ++ s.backend.requests) := by
    rw [← h.connected.sent hready, hb]
    rfl
  have hqueue : s.queue = b :: (responses ++ s.backend.requests ++ rest) := by
    rw [hq, hpipeline]
    rfl
  -- the state once the write has left the pipeline
  let u : State := { s with
    writePipeline := responses ++ s.backend.requests
    backend := { s.backend with responses := s.backend.responses.tail } }
  have hordered : Ordered u := h.ordered.moved rfl
  have haccounted : Accounted u := h.accounted.moved rfl
  have huqueue : u.queue = b :: (responses ++ s.backend.requests ++ rest) := hqueue
  have hconnected : Connected u := by
    refine ⟨fun hdisabled => ?_, fun _ hnot => absurd hready hnot, fun hidle => ?_, fun _ => ?_,
      fun hnot => absurd hready hnot⟩
    · exact absurd (started_of_ready hready) (Bool.eq_false_iff.mp (h.connected.stopped hdisabled).2)
    · have hfalse := idle_eq_false h.connected (by rw [hpipeline]; exact List.cons_ne_nil _ _)
      exact absurd hidle (Bool.eq_false_iff.mp hfalse)
    · change s.backend.responses.tail ++ s.backend.requests = responses ++ s.backend.requests
      rw [hb, List.tail_cons]
  have hanswered : Answered u :=
    ⟨h.answered.refusal, h.answered.requests,
      fun r hr => h.answered.responses r (List.mem_of_mem_tail hr), h.answered.stored, h.answered.orphaned,
      h.answered.committed⟩
  have hcommitted : b ∈ u.backend.committed := h.answered.responses b (hb ▸ List.mem_cons_self)
  obtain ⟨t, ht, hrunning, hcarried⟩ := running_settle hordered hconnected haccounted hanswered huqueue
    (length_lt_of_cons h.full hpipeline) fun _ => hcommitted
  have heffect : Effect s .onMutationResult (u.settle b .stored) := by
    have hsettles : settles s .onMutationResult = some (b, .stored) := by
      rw [settles, hpipeline]
      rfl
    exact effect_settle hordered huqueue rfl hsettles rfl rfl rfl rfl rfl (List.prefix_refl _)
  refine ⟨t, ?_, hrunning.consistent hcarried ?_, heffect.carried hcarried⟩
  · unfold State.onMutationResult State.onWriteStreamMutationResult
    rw [if_pos (started_of_ready hready)]
    simp only [hpipeline]
    change (u.handleSuccessfulWrite b).bind _ = _
    rw [handleSuccessfulWrite_eq huqueue]
    exact ht
  · rw [settle_eq]
    exact h.handshake

end Writing

/-- The stream is closed, but its listener has not been told. -/
def State.closing (s : State) (status : Code) : State :=
  { s with
    stream := ⟨if status = .ok then .initial else .error, s.stream.handshakeComplete, false⟩
    backend := s.backend.disconnect }

def State.forget (s : State) : State :=
  { s with stream := { s.stream with handshakeComplete := false } }

section Closing
variable {s t : State} {status : Code}

theorem not_ready {w : WriteStream} (h : w.isOpen = false) : ¬ w.ready := by
  rw [WriteStream.ready, h]
  exact Bool.false_ne_true

theorem closed_of_stopped {w : WriteStream} (h : w.isStarted = false) : w.isOpen = false := by
  rw [WriteStream.isStarted, Bool.or_eq_false_iff] at h
  exact h.2

/-- Nothing is under way while the stream is down. -/
theorem connected_down (hstopped : s.stream.isStarted = false) (hidle : s.stream.idle = false)
    (hbackend : s.backend.responses = [] ∧ s.backend.requests = [] ∧ s.backend.refusal = none)
    (hdisabled : s.isNetworkEnabled = false → s.writePipeline = []) : Connected s := by
  have hready := not_ready (closed_of_stopped hstopped)
  refine ⟨fun h => ⟨hdisabled h, hstopped⟩, fun h => ?_, fun h => ?_, fun h => absurd h hready,
    fun _ => hbackend⟩
  · exact absurd h (Bool.eq_false_iff.mp hstopped)
  · exact absurd h (Bool.eq_false_iff.mp hidle)

theorem answered_disconnect (h : Answered s) : Answered { s with backend := s.backend.disconnect } := by
  refine ⟨fun c hc => (by cases hc), fun b hb => (by cases hb), fun b hb => (by cases hb), h.stored,
    fun b hb => ?_, h.committed⟩
  rcases List.mem_append.mp hb with hb | hb
  · exact h.orphaned b hb
  · split at hb
    · cases hb
    · exact h.requests b hb

theorem isStarted_closing (s : State) (status : Code) : (s.closing status).stream.isStarted = false := by
  unfold State.closing
  by_cases hok : status = .ok <;> simp [hok, WriteStream.isStarted, WriteStream.isOpen]

theorem connected_closing (h : Connected s) (status : Code) : Connected (s.closing status) :=
  connected_down (isStarted_closing s status) rfl ⟨rfl, rfl, rfl⟩ fun hdisabled => (h.stopped hdisabled).1

theorem close_eq (h : s.stream.isStarted) (status : Code) :
    s.close status = ((s.closing status).onWriteStreamClose status).map State.forget := by
  unfold State.close
  rw [if_neg (not_not.mpr h)]
  rfl

theorem consistent_forget (h : Running t) (hclosed : t.stream.isOpen = false) : Consistent t.forget := by
  have hready : ¬ t.stream.ready := not_ready hclosed
  have hforgot : ¬ t.forget.stream.ready := not_ready hclosed
  have hconnected := h.connected
  refine ⟨⟨h.ordered.moved rfl, ⟨hconnected.stopped, fun hstarted _ => ?_,
    fun hidle => absurd (hconnected.idle hidle).1 hready, fun hready => absurd hready hforgot,
    fun _ => hconnected.unsent hready⟩, ⟨h.full.pipeline, h.full.started⟩,
    h.accounted.moved rfl, h.answered.moved rfl⟩, fun hcomplete => by cases hcomplete⟩
  exact hconnected.awaited hstarted hready

theorem Effect.forget {a : Action} (h : Effect s a t) : Effect s a t.forget :=
  ⟨h.user, h.enabled, h.written, h.settled, h.mutations, h.refused⟩

/-- A stream that closes without an error for its writes is only started again. -/
theorem consistent_closed (h : Consistent s) {a : Action}
    (hclose : (s.closing status).onWriteStreamClose status = (s.closing status).startIfNeeded)
    (hstarted : s.stream.isStarted) (heffect : Effect s a (s.closing status)) :
    ∃ t, s.close status = some t ∧ Consistent t ∧ Effect s a t := by
  obtain ⟨t, ht, hconnected, hfull, hcarried⟩ :=
    startIfNeeded_full (connected_closing h.connected status) h.full.pipeline
  have haccounted : Accounted (s.closing status) := h.accounted.moved rfl
  have hdisconnected := answered_disconnect h.answered
  have hanswered : Answered (s.closing status) := hdisconnected.moved rfl
  have hrunning := running_carried (s := s.closing status) (h.ordered.moved rfl) haccounted
    hanswered hcarried hconnected hfull
  have hclosed : t.stream.isOpen = false :=
    hcarried.opened.trans (closed_of_stopped (isStarted_closing s status))
  refine ⟨t.forget, ?_, consistent_forget hrunning hclosed, (heffect.carried hcarried).forget⟩
  rw [close_eq hstarted, hclose, ht]
  rfl

theorem startIfNeeded_of_full (h : Full s) : s.startIfNeeded = some s := by
  unfold State.startIfNeeded
  rw [if_neg]
  simp only [State.shouldStartWriteStream, Bool.and_eq_true, Bool.not_eq_true']
  rintro ⟨⟨henabled, hstopped⟩, hne⟩
  have hstarted := h.started henabled fun hnil => by
    rw [hnil] at hne
    cases hne
  exact absurd hstarted (Bool.eq_false_iff.mp hstopped)

theorem enabled_of_started (h : Connected s) (hstarted : s.stream.isStarted) : s.isNetworkEnabled := by
  by_contra hdisabled
  exact absurd hstarted (Bool.eq_false_iff.mp (h.stopped (Bool.eq_false_iff.mpr hdisabled)).2)

theorem ready_iff (h : Consistent s) : s.stream.ready ↔ s.stream.handshakeComplete := by
  rw [WriteStream.ready, Bool.and_eq_true]
  exact and_iff_right_of_imp h.handshake

/-- A permanent error settles the first write of the pipeline, and the next stream is for the
others. -/
theorem consistent_rejected (h : Consistent s) (hready : s.stream.ready) (hpermanent : status.isPermanentWriteError)
    {b : Batch} {writes : List Batch} (hpipeline : s.writePipeline = b :: writes) :
    ∃ t, s.close status = some t ∧ Consistent t ∧ Effect s (.onStreamFinish status) t := by
  have hne : status ≠ .ok := by
    rintro rfl
    cases hpermanent
  obtain ⟨rest, hq⟩ := queue_of_full h.full
  have hqueue : s.queue = b :: (writes ++ rest) := by
    rw [hq, hpipeline]
    rfl
  let u : State := { s.closing status with
    writePipeline := writes
    stream := ⟨.initial, s.stream.handshakeComplete, false⟩ }
  have hordered : Ordered u := h.ordered.moved rfl
  have haccounted : Accounted u := h.accounted.moved rfl
  have huqueue : u.queue = b :: (writes ++ rest) := hqueue
  have hconnected : Connected u := by
    refine connected_down rfl rfl ⟨rfl, rfl, rfl⟩ fun hdisabled => ?_
    have henabled := enabled_of_started h.connected (started_of_ready hready)
    exact absurd henabled (Bool.eq_false_iff.mp hdisabled)
  have hdisconnected := answered_disconnect h.answered
  have hanswered : Answered u := hdisconnected.moved rfl
  obtain ⟨t, ht, hrunning, hcarried⟩ := running_settle (o := .rejected) hordered hconnected haccounted
    hanswered huqueue (length_lt_of_cons h.full hpipeline) fun ho => (by cases ho)
  have heffect : Effect s (.onStreamFinish status) (u.settle b .rejected) := by
    have hsettles : settles s (.onStreamFinish status) = some (b, .rejected) := by
      rw [settles, if_pos ⟨hready, hpermanent⟩, hpipeline]
      rfl
    exact effect_settle hordered huqueue rfl hsettles rfl rfl rfl rfl rfl (List.prefix_refl _)
  have hclosed : t.stream.isOpen = false := by
    rw [hcarried.opened, settle_eq]
    rfl
  have hclose : (s.closing status).onWriteStreamClose status = some t := by
    have hinhibit : (s.closing status).stream.inhibitBackoff = some u.stream := by
      unfold WriteStream.inhibitBackoff
      rw [isStarted_closing, if_neg Bool.false_ne_true]
      rfl
    have herror : (s.closing status).handleWriteError status = some t := by
      have hclosing : (s.closing status).writePipeline = b :: writes := hpipeline
      unfold State.handleWriteError
      rw [if_pos hpermanent]
      simp only [hclosing, hinhibit, Option.bind_some]
      change (u.handleRejectedWrite b.batchId).bind _ = _
      rw [handleRejectedWrite_eq huqueue]
      exact ht
    have hcomplete : (s.closing status).stream.handshakeComplete := (ready_iff h).mp hready
    have hfirst : (s.closing status).writePipeline ≠ [] := by
      rw [show (s.closing status).writePipeline = b :: writes from hpipeline]
      exact List.cons_ne_nil _ _
    unfold State.onWriteStreamClose
    rw [if_neg fun hok => hne hok.1, if_pos ⟨hne, hfirst, hcomplete⟩, herror]
    exact startIfNeeded_of_full hrunning.full
  refine ⟨t.forget, ?_, consistent_forget hrunning hclosed, (heffect.carried hcarried).forget⟩
  rw [close_eq (started_of_ready hready), hclose]
  rfl

theorem onWriteStreamClose_quiet (hok : status = .ok → s.shouldStartWriteStream = false)
    (hquiet : s.writePipeline ≠ [] → s.stream.handshakeComplete → status.isPermanentWriteError = false) :
    s.onWriteStreamClose status = s.startIfNeeded := by
  unfold State.onWriteStreamClose
  rw [if_neg fun h => absurd h.2 (Bool.eq_false_iff.mp (hok h.1))]
  split
  · rename_i herror
    rw [State.handleWriteError, hquiet herror.2.1 herror.2.2]
    rfl
  · rfl

theorem effect_closing {a : Action} (hwrites : writes s a = []) (hsettles : settles s a = none)
    (huser : userAfter s a = s.user) (henabled : enabledAfter s a = s.isNetworkEnabled) :
    Effect s a (s.closing status) :=
  .silent hwrites hsettles huser.symm henabled.symm rfl rfl rfl (List.prefix_refl _)

theorem consistent_onStreamFinish (h : Consistent s) (hstarted : s.stream.isStarted)
    (hok : status = .ok → s.writePipeline = []) :
    ∃ t, s.close status = some t ∧ Consistent t ∧ Effect s (.onStreamFinish status) t := by
  have hshould : status = .ok → (s.closing status).shouldStartWriteStream = false := by
    intro heq
    have hnil : (s.closing status).writePipeline = [] := hok heq
    simp [State.shouldStartWriteStream, hnil]
  by_cases hpermanent : s.stream.ready ∧ status.isPermanentWriteError
  · cases hpipeline : s.writePipeline with
    | nil =>
      refine consistent_closed h (onWriteStreamClose_quiet hshould fun hne => absurd hpipeline hne) hstarted
        (effect_closing rfl ?_ rfl rfl)
      rw [settles, if_pos hpermanent, hpipeline]
      rfl
    | cons b writes => exact consistent_rejected h hpermanent.1 hpermanent.2 hpipeline
  · refine consistent_closed h (onWriteStreamClose_quiet hshould fun _ hcomplete => ?_) hstarted
      (effect_closing rfl ?_ rfl rfl)
    · exact Bool.eq_false_iff.mpr fun herror => hpermanent ⟨(ready_iff h).mpr hcomplete, herror⟩
    · rw [settles, if_neg hpermanent]

/-- The stream is not to end without an error while there are writes in the pipeline. -/
theorem not_close_ok (h : Connected s) (hstarted : s.stream.isStarted) (hne : s.writePipeline ≠ []) :
    s.close .ok = none := by
  have hshould : (s.closing .ok).shouldStartWriteStream := by
    have henabled := enabled_of_started h hstarted
    have hon : (s.closing .ok).isNetworkEnabled := henabled
    have hpipeline : (s.closing .ok).writePipeline ≠ [] := hne
    simp [State.shouldStartWriteStream, hon, isStarted_closing, hpipeline]
  rw [close_eq hstarted, State.onWriteStreamClose, if_pos ⟨rfl, hshould⟩]
  rfl

theorem consistent_onIdle (h : Consistent s) (hidle : s.stream.idle) :
    ∃ t, s.close .ok = some t ∧ Consistent t ∧ Effect s .onIdle t := by
  obtain ⟨hready, hpipeline⟩ := h.connected.idle hidle
  have hnil : (s.closing .ok).writePipeline = [] := hpipeline
  refine consistent_closed h (onWriteStreamClose_quiet (fun _ => ?_) fun hne => absurd hnil hne)
    (started_of_ready hready) (effect_closing rfl rfl rfl rfl)
  simp [State.shouldStartWriteStream, hnil]

end Closing

/-- The network is down, and the pipeline is cleared. -/
def State.disabled (s : State) : State :=
  { s with
    isNetworkEnabled := false
    writePipeline := []
    stream := if s.stream.isStarted then ⟨.initial, false, false⟩ else s.stream
    backend := if s.stream.isStarted then s.backend.disconnect else s.backend }

section Restarting
variable {s : State}

theorem disableNetwork_eq (s : State) : s.disableNetwork = some s.disabled := by
  have hoff : ∀ t : State, t.isNetworkEnabled = false → t.shouldStartWriteStream = false := by
    intro t ht
    rw [State.shouldStartWriteStream, ht]
    rfl
  unfold State.disableNetwork State.disabled
  by_cases hstarted : s.stream.isStarted
  · have hclose := close_eq (s := { s with isNetworkEnabled := false }) hstarted .ok
    have hquiet : (State.closing { s with isNetworkEnabled := false } .ok).onWriteStreamClose .ok =
        (State.closing { s with isNetworkEnabled := false } .ok).startIfNeeded :=
      onWriteStreamClose_quiet (fun _ => hoff _ rfl) fun _ _ => rfl
    rw [hclose, hquiet, State.startIfNeeded, hoff _ rfl, if_pos hstarted, if_pos hstarted]
    rfl
  · rw [if_neg hstarted, if_neg hstarted, State.close, if_pos hstarted]
    rfl

theorem isStarted_disabled (s : State) : s.disabled.stream.isStarted = false := by
  unfold State.disabled
  by_cases hstarted : s.stream.isStarted
  · rw [if_pos hstarted]
    rfl
  · rw [if_neg hstarted]
    exact Bool.eq_false_iff.mpr hstarted

theorem idle_disabled (h : Connected s) : s.disabled.stream.idle = false := by
  unfold State.disabled
  by_cases hstarted : s.stream.isStarted
  · rw [if_pos hstarted]
  · rw [if_neg hstarted]
    exact Bool.eq_false_iff.mpr fun hidle => hstarted (started_of_ready (h.idle hidle).1)

theorem backend_disabled (h : Connected s) : s.disabled.backend.responses = [] ∧
    s.disabled.backend.requests = [] ∧ s.disabled.backend.refusal = none := by
  by_cases hstarted : s.stream.isStarted
  · simp only [State.disabled, if_pos hstarted]
    exact ⟨rfl, rfl, rfl⟩
  · simp only [State.disabled, if_neg hstarted]
    exact h.unsent fun hready => hstarted (started_of_ready hready)

theorem handshake_disabled (h : s.stream.handshakeComplete → s.stream.isOpen) :
    s.disabled.stream.handshakeComplete = false := by
  unfold State.disabled
  by_cases hstarted : s.stream.isStarted
  · rw [if_pos hstarted]
  · rw [if_neg hstarted]
    refine Bool.eq_false_iff.mpr fun hcomplete => hstarted ?_
    rw [WriteStream.isStarted, h hcomplete, Bool.or_true]

theorem answered_disabled (h : Answered s) : Answered s.disabled := by
  have hdisconnected := answered_disconnect h
  unfold State.disabled
  by_cases hstarted : s.stream.isStarted
  · rw [if_pos hstarted, if_pos hstarted]
    exact hdisconnected.moved rfl
  · rw [if_neg hstarted, if_neg hstarted]
    exact h.moved rfl

theorem refused_disabled (s : State) : s.disabled.backend.refused = s.backend.refused := by
  unfold State.disabled
  split <;> rfl

theorem consistent_disableNetwork (h : Consistent s) :
    ∃ t, s.disableNetwork = some t ∧ Consistent t ∧ Effect s .disableNetwork t := by
  have hconnected : Connected s.disabled := connected_down (isStarted_disabled s)
    (idle_disabled h.connected) (backend_disabled h.connected) fun _ => rfl
  refine ⟨s.disabled, disableNetwork_eq s, ⟨⟨h.ordered.moved rfl, hconnected,
    ⟨rfl, fun hon => (by cases hon)⟩, h.accounted.moved rfl, answered_disabled h.answered⟩,
    fun hcomplete => ?_⟩, ?_⟩
  · exact absurd hcomplete (Bool.eq_false_iff.mp (handshake_disabled h.handshake))
  · refine .silent rfl rfl rfl rfl rfl rfl rfl ?_
    rw [refused_disabled]

/-- Whatever was under way, the pipeline is filled anew from the queue of the account. -/
theorem restartNetwork_running (hordered : Ordered s) (hconnected : Connected s) (haccounted : Accounted s)
    (hanswered : Answered s) (hhandshake : s.stream.handshakeComplete → s.stream.isOpen) :
    ∃ t, s.restartNetwork = some t ∧ Consistent t ∧ t.user = s.user ∧ t.isNetworkEnabled ∧
      t.written = s.written ∧ t.settled = s.settled ∧ t.mutations = s.mutations ∧ s.backend.refused <+: t.backend.refused := by
  let u : State := { s.disabled with
    stream := { s.disabled.stream with state := .initial }
    isNetworkEnabled := true }
  have hcomplete : ¬ u.stream.handshakeComplete := Bool.eq_false_iff.mp (handshake_disabled hhandshake)
  have hanswered := answered_disabled hanswered
  obtain ⟨t, ht, hrunning, hcarried⟩ := running_fill (s := u) (hordered.moved rfl)
    (connected_down rfl (idle_disabled hconnected) (backend_disabled hconnected) fun h => (by cases h))
    (haccounted.moved rfl) (hanswered.moved rfl) rfl (Nat.zero_le _)
  refine ⟨t, ?_, hrunning.consistent hcarried fun h => absurd h hcomplete, ?_, ?_, ?_, ?_, ?_, ?_⟩
  · unfold State.restartNetwork
    rw [disableNetwork_eq, Option.bind_some, WriteStream.inhibitBackoff, isStarted_disabled,
      if_neg Bool.false_ne_true]
    exact ht
  · rw [hcarried.rest]
    rfl
  · rw [hcarried.rest]
  · rw [hcarried.rest]
    rfl
  · rw [hcarried.rest]
    rfl
  · rw [hcarried.rest]
    rfl
  · rw [hcarried.rest]
    change s.backend.refused <+: s.disabled.backend.refused
    rw [refused_disabled]

theorem consistent_networkChanged (h : Consistent s) :
    ∃ t, handle s .networkChanged = some t ∧ Consistent t ∧ Effect s .networkChanged t := by
  simp only [handle]
  split
  · rename_i hon
    obtain ⟨t, ht, hconsistent, huser, henabled, hwritten, hsettled, hmutations, hrefused⟩ :=
      restartNetwork_running h.ordered h.connected h.accounted h.answered h.handshake
    exact ⟨t, ht, hconsistent,
      .silent rfl rfl huser (henabled.trans hon.symm) hwritten hsettled hmutations hrefused⟩
  · exact ⟨s, rfl, h, .silent rfl rfl rfl rfl rfl rfl rfl (List.prefix_refl _)⟩

theorem ordered_loaded (h : Ordered s) (user : Option String) :
    Ordered { s with user := user, nextBatchId := loadNextBatchId s.mutations } :=
  ⟨h.sorted, fun _ hb => lt_loadNextBatchId hb⟩

theorem consistent_handleCredentialChange (h : Consistent s) (user : Option String) :
    ∃ t, s.handleCredentialChange user = some t ∧ Consistent t ∧
      Effect s (.handleCredentialChange user) t := by
  -- the account is swapped while the pipeline still holds the other one's writes
  obtain ⟨u, hu, huser, hordered, hsame⟩ : ∃ u : State, (if s.user = user then s
      else { s with user := user, nextBatchId := loadNextBatchId s.mutations }) = u ∧ u.user = user ∧
      Ordered u ∧ u = { s with user := u.user, nextBatchId := u.nextBatchId } := by
    split
    · rename_i hown
      exact ⟨s, rfl, hown, h.ordered, rfl⟩
    · exact ⟨_, rfl, rfl, ordered_loaded h.ordered user, rfl⟩
  have hconnected : Connected u := by
    rw [hsame]
    exact ⟨h.connected.stopped, h.connected.awaited, h.connected.idle, h.connected.sent, h.connected.unsent⟩
  have haccounted : Accounted u := by
    rw [hsame]
    exact h.accounted.moved rfl
  have hanswered : Answered u := by
    rw [hsame]
    exact h.answered.moved rfl
  have hhandshake : u.stream.handshakeComplete → u.stream.isOpen := by
    rw [hsame]
    exact h.handshake
  have heffect : Effect s (.handleCredentialChange user) u := by
    refine .silent rfl rfl huser ?_ ?_ ?_ ?_ ?_ <;> rw [hsame]
    rfl
  unfold State.handleCredentialChange
  simp only [hu]
  split
  · rename_i hon
    obtain ⟨t, ht, hconsistent, htuser, henabled, hwritten, hsettled, hmutations, hrefused⟩ :=
      restartNetwork_running hordered hconnected haccounted hanswered hhandshake
    refine ⟨t, ht, hconsistent, .silent rfl rfl (htuser.trans huser) ?_ ?_ ?_ ?_ ?_⟩
    · exact (henabled.trans hon.symm).trans heffect.enabled
    · rw [hwritten, hsame]
    · rw [hsettled, hsame]
    · rw [hmutations, hsame]
    · exact heffect.refused.trans hrefused
  · rename_i hdisabled
    have hoff := Bool.eq_false_iff.mpr hdisabled
    obtain ⟨hpipeline, -⟩ := hconnected.stopped hoff
    refine ⟨u, rfl, ⟨⟨hordered, hconnected, ⟨?_, fun hon => absurd hon hdisabled⟩, haccounted, hanswered⟩,
      hhandshake⟩, heffect⟩
    rw [hpipeline, hoff]
    rfl

theorem consistent_enableNetwork (h : Consistent s) :
    ∃ t, s.enableNetwork = some t ∧ Consistent t ∧ Effect s .enableNetwork t := by
  obtain ⟨rest, hq⟩ := queue_of_full h.full
  have hconnected : Connected { s with isNetworkEnabled := true } :=
    ⟨fun hoff => (by cases hoff), h.connected.awaited, h.connected.idle, h.connected.sent,
      h.connected.unsent⟩
  have hlen := length_of_full h.full
  obtain ⟨t, ht, hrunning, hcarried⟩ := running_fill (s := { s with isNetworkEnabled := true })
    (h.ordered.moved rfl) hconnected (h.accounted.moved rfl) (h.answered.moved rfl) hq hlen
  have heffect : Effect s .enableNetwork { s with isNetworkEnabled := true } :=
    .silent rfl rfl rfl rfl rfl rfl rfl (List.prefix_refl _)
  exact ⟨t, ht, hrunning.consistent hcarried h.handshake, heffect.carried hcarried⟩

theorem consistent_relaunch (h : Consistent s) :
    ∃ t, s.relaunch = some t ∧ Consistent t ∧ Effect s .relaunch t := by
  let u : State := { s with
    nextBatchId := loadNextBatchId s.mutations
    mutationCallbacks := ∅
    writePipeline := []
    stream := .new
    backend := s.backend.disconnect
    lost := s.lost ++ s.mutations.map Batch.call
    isNetworkEnabled := true }
  have hlost := accounted_lost h.accounted
  have hdisconnected := answered_disconnect h.answered
  obtain ⟨t, ht, hrunning, hcarried⟩ := running_fill (s := u)
    ⟨h.ordered.sorted, fun _ hb => lt_loadNextBatchId hb⟩
    (connected_down rfl rfl ⟨rfl, rfl, rfl⟩ fun hoff => (by cases hoff))
    (hlost.moved rfl) (hdisconnected.moved rfl) rfl (Nat.zero_le _)
  have heffect : Effect s .relaunch u := .silent rfl rfl rfl rfl rfl rfl rfl (List.prefix_refl _)
  exact ⟨t, ht, hrunning.consistent hcarried fun hcomplete => (by cases hcomplete), heffect.carried hcarried⟩

end Restarting

/-- Nothing is written or settled, and neither account nor network change. -/
structure Quiet (s : State) (a : Action) : Prop where
  writes : writes s a = []
  settles : settles s a = none
  user : userAfter s a = s.user
  enabled : enabledAfter s a = s.isNetworkEnabled

/-- Only the stream and the backend move. -/
structure Streamed (s t : State) : Prop where
  rest : t = { s with stream := t.stream, backend := t.backend }
  started : s.stream.isStarted → t.stream.isStarted
  handshake : t.stream.handshakeComplete → t.stream.isOpen
  refused : s.backend.refused <+: t.backend.refused

section Streaming
variable {s : State}

theorem Consistent.streamed {t : State} {a : Action} (h : Consistent s) (ha : Quiet s a)
    (hst : Streamed s t) (hconnected : Connected t) (hanswered : Answered t) :
    Consistent t ∧ Effect s a t := by
  have hfull : Full t := by
    refine ⟨?_, fun henabled hne => hst.started ?_⟩
    · rw [hst.rest]
      exact h.full.pipeline
    · rw [hst.rest] at henabled hne
      exact h.full.started henabled hne
  have hordered : Ordered t := by
    rw [hst.rest]
    exact h.ordered.moved rfl
  have haccounted : Accounted t := by
    rw [hst.rest]
    exact h.accounted.moved rfl
  refine ⟨⟨⟨hordered, hconnected, hfull, haccounted, hanswered⟩, hst.handshake⟩,
    .silent ha.writes ha.settles ?_ ?_ ?_ ?_ ?_ hst.refused⟩
  · rw [ha.user, hst.rest]
  · rw [ha.enabled, hst.rest]
  · rw [hst.rest]
  · rw [hst.rest]
  · rw [hst.rest]

theorem foldl_send (s : State) (bs : List Batch) : bs.foldl State.send s =
    { s with
      stream := { s.stream with idle := s.stream.idle && bs.isEmpty }
      backend := { s.backend with requests := s.backend.requests ++ bs } } := by
  induction bs generalizing s with
  | nil => simp
  | cons b bs ih =>
    rw [List.foldl_cons, ih]
    simp [State.send]

theorem onStreamStart_eq (h : Consistent s) (hstarting : s.stream.state = .starting) :
    s.onStreamStart = some { s with stream := ⟨.opened, false, false⟩ } := by
  have hclosed : s.stream.isOpen = false := by simp [WriteStream.isOpen, hstarting]
  refine if_neg fun hcomplete => ?_
  exact Bool.eq_false_iff.mp hclosed (h.handshake hcomplete)

theorem consistent_onStreamStart (h : Consistent s) (hstarting : s.stream.state = .starting) :
    ∃ t, s.onStreamStart = some t ∧ Consistent t ∧ Effect s .onStreamStart t := by
  have hready := not_ready (w := s.stream) (by simp [WriteStream.isOpen, hstarting])
  have hstarted : s.stream.isStarted := by simp [WriteStream.isStarted, hstarting]
  refine ⟨_, onStreamStart_eq h hstarting, h.streamed ⟨rfl, rfl, rfl, rfl⟩
    ⟨rfl, fun _ => rfl, fun hcomplete => (by cases hcomplete), List.prefix_refl _⟩
    ⟨fun hoff => ?_, fun _ _ => h.connected.awaited hstarted hready, fun hidle => (by cases hidle),
      fun hcomplete => (by cases hcomplete), fun _ => h.connected.unsent hready⟩
    (h.answered.moved rfl)⟩
  exact absurd hstarted (Bool.eq_false_iff.mp (h.connected.stopped hoff).2)

theorem onHandshakeComplete_eq (h : Consistent s) (hopen : s.stream.isOpen)
    (hcomplete : ¬ s.stream.handshakeComplete) : s.onHandshakeComplete = { s with
      stream := ⟨s.stream.state, true, false⟩
      backend := { s.backend with requests := s.writePipeline } } := by
  have hstarted : s.stream.isStarted := by rw [WriteStream.isStarted, hopen, Bool.or_true]
  have hready : ¬ s.stream.ready := fun hready => hcomplete ((ready_iff h).mp hready)
  obtain ⟨-, hrequests, -⟩ := h.connected.unsent hready
  unfold State.onHandshakeComplete
  rw [foldl_send]
  simp [hrequests, idle_eq_false h.connected (h.connected.awaited hstarted hready)]

/-- Once the handshake is complete the whole pipeline is sent. -/
theorem consistent_onHandshakeComplete (h : Consistent s) (hopen : s.stream.isOpen)
    (hcomplete : ¬ s.stream.handshakeComplete) :
    Consistent s.onHandshakeComplete ∧ Effect s .onHandshakeComplete s.onHandshakeComplete := by
  have hready : ¬ s.stream.ready := fun hready => hcomplete ((ready_iff h).mp hready)
  obtain ⟨hresponses, -, hrefusal⟩ := h.connected.unsent hready
  obtain ⟨rest, hq⟩ := queue_of_full h.full
  have hnow : WriteStream.ready ⟨s.stream.state, true, false⟩ := by
    rw [WriteStream.ready, Bool.and_true]
    exact hopen
  rw [onHandshakeComplete_eq h hopen hcomplete]
  refine h.streamed ⟨rfl, rfl, rfl, rfl⟩ ⟨rfl, id, fun _ => hopen, List.prefix_refl _⟩
    ⟨h.connected.stopped, fun _ hnot => absurd hnow hnot, fun hidle => (by cases hidle), fun _ => ?_,
      fun hnot => absurd hnow hnot⟩
    ⟨fun c hc => ?_, fun b hb => ?_, h.answered.responses, h.answered.stored, h.answered.orphaned,
      h.answered.committed⟩
  · change s.backend.responses ++ s.writePipeline = s.writePipeline
    rw [hresponses, List.nil_append]
  · change s.backend.refusal = some c at hc
    rw [hrefusal] at hc
    cases hc
  · exact queue_written h.accounted (hq ▸ List.mem_append_left rest hb)

theorem ready_of_requests (h : Connected s) (hrequests : s.backend.requests ≠ []) : s.stream.ready := by
  by_contra hready
  exact hrequests (h.unsent hready).2.1

theorem consistent_commit (h : Consistent s) (hrequests : s.backend.requests ≠ [])
    (hrefusal : s.backend.refusal = none) : Consistent s.commit ∧ Effect s .commit s.commit := by
  have hready := ready_of_requests h.connected hrequests
  obtain ⟨b, requests, hb⟩ := List.exists_cons_of_ne_nil hrequests
  have heq : s.commit = { s with backend := { s.backend with
      requests := requests
      responses := s.backend.responses ++ [b]
      committed := s.backend.committed ++ [b] } } := by
    unfold State.commit
    rw [hb]
    rfl
  rw [heq]
  refine h.streamed ⟨rfl, rfl, rfl, rfl⟩ ⟨rfl, id, h.handshake, List.prefix_refl _⟩
    ⟨h.connected.stopped, fun _ hnot => absurd hready hnot, h.connected.idle, fun _ => ?_,
      fun hnot => absurd hready hnot⟩
    ⟨fun c hc => ?_, fun r hr => ?_, fun r hr => ?_, fun r hr => ?_, h.answered.orphaned, fun r hr => ?_⟩
  · rw [← h.connected.sent hready, hb]
    simp
  · change s.backend.refusal = some c at hc
    rw [hrefusal] at hc
    cases hc
  · exact h.answered.requests r (hb ▸ List.mem_cons_of_mem b hr)
  · rcases List.mem_append.mp hr with hr | hr
    · exact List.mem_append_left _ (h.answered.responses r hr)
    · exact List.mem_append_right _ hr
  · exact List.mem_append_left _ (h.answered.stored r hr)
  · rcases List.mem_append.mp hr with hr | hr
    · exact h.answered.committed r hr
    · rw [List.mem_singleton.mp hr]
      exact h.answered.requests b (hb ▸ List.mem_cons_self)

theorem consistent_commitOrphaned (h : Consistent s) {b : Batch} (hb : b ∈ s.backend.orphaned) :
    Consistent (s.commitOrphaned b) ∧ Effect s (.commitOrphaned b) (s.commitOrphaned b) := by
  refine h.streamed ⟨rfl, rfl, rfl, rfl⟩ ⟨rfl, id, h.handshake, List.prefix_refl _⟩
    ⟨h.connected.stopped, h.connected.awaited, h.connected.idle, h.connected.sent, h.connected.unsent⟩
    ⟨h.answered.refusal, h.answered.requests, fun r hr => ?_, fun r hr => ?_, fun r hr => ?_, fun r hr => ?_⟩
  · exact List.mem_append_left _ (h.answered.responses r hr)
  · exact List.mem_append_left _ (h.answered.stored r hr)
  · exact h.answered.orphaned r (List.mem_of_mem_erase hr)
  · rcases List.mem_append.mp hr with hr | hr
    · exact h.answered.committed r hr
    · rw [List.mem_singleton.mp hr]
      exact h.answered.orphaned b hb

theorem consistent_refuse (h : Consistent s) (hrequests : s.backend.requests ≠ []) {status : Code}
    (hpermanent : status.isPermanentWriteError) :
    Consistent (s.refuse status) ∧ Effect s (.refuse status) (s.refuse status) := by
  have hready := ready_of_requests h.connected hrequests
  obtain ⟨b, requests, hb⟩ := List.exists_cons_of_ne_nil hrequests
  refine h.streamed ⟨rfl, rfl, rfl, rfl⟩ ⟨rfl, id, h.handshake, List.prefix_append _ _⟩
    ⟨h.connected.stopped, h.connected.awaited, h.connected.idle, h.connected.sent,
      fun hnot => absurd hready hnot⟩
    ⟨fun c hc => ⟨?_, b, ?_, ?_⟩, h.answered.requests, h.answered.responses, h.answered.stored,
      h.answered.orphaned, h.answered.committed⟩
  · cases hc
    exact hpermanent
  · change s.backend.requests.head? = some b
    rw [hb, List.head?_cons]
  · change b ∈ s.backend.refused ++ s.backend.requests.head?.toList
    rw [hb]
    exact List.mem_append_right _ (List.mem_singleton_self b)

theorem consistent_onBackoffElapsed (h : Consistent s) (hbackoff : s.stream.state = .backoff) :
    ∃ t, s.onBackoffElapsed = some t ∧ Consistent t ∧ Effect s .onBackoffElapsed t := by
  have hclosed : s.stream.isOpen = false := by simp [WriteStream.isOpen, hbackoff]
  have hstarted : s.stream.isStarted := by simp [WriteStream.isStarted, hbackoff]
  have hready := not_ready hclosed
  refine ⟨{ s with stream := { s.stream with state := .starting } }, rfl, h.streamed ⟨rfl, rfl, rfl, rfl⟩
    ⟨rfl, fun _ => rfl, fun hcomplete => ?_, List.prefix_refl _⟩
    ⟨fun hoff => ?_, fun _ _ => h.connected.awaited hstarted hready,
      fun hidle => absurd (h.connected.idle hidle).1 hready, fun hnow => absurd hnow (not_ready rfl),
      fun _ => h.connected.unsent hready⟩
    (h.answered.moved rfl)⟩
  · exact absurd (h.handshake hcomplete) (Bool.eq_false_iff.mp hclosed)
  · exact absurd hstarted (Bool.eq_false_iff.mp (h.connected.stopped hoff).2)

end Streaming

end ChipChat.WritePipeline
