import ChipChat.WriteRuns

/-!
# What becomes of the writes

Over any run of the pipeline: which assertion may fail, in what order the writes are settled
and reported, and what the backend has done with those that are reported.
-/

namespace ChipChat.WritePipeline

open LabelledSystem

set_option autoImplicit false

/-- The backend ends the stream without an error while there are writes for it. -/
def Abandons (s : State) : Action → Prop
  | .onStreamFinish status => status = .ok ∧ s.writePipeline ≠ []
  | _ => False

section Stepping
variable {s t : State} {a : Action}

theorem consistent_initial : Consistent .initial := by
  refine ⟨⟨⟨List.Pairwise.nil, fun b hb => (by cases hb)⟩,
    ⟨fun hoff => (by cases hoff), fun hstarted => (by cases hstarted), fun hidle => (by cases hidle),
      fun hready => (by cases hready), fun _ => ⟨rfl, rfl, rfl⟩⟩,
    ⟨rfl, fun _ hne => absurd rfl hne⟩,
    ⟨rfl, fun _ => rfl, fun key call => ?_, rfl, fun n hn => (by cases hn)⟩,
    ⟨fun c hc => (by cases hc), fun b hb => (by cases hb), fun b hb => (by cases hb),
      fun b hb => (by cases hb), fun b hb => (by cases hb), fun b hb => (by cases hb)⟩⟩,
    fun hcomplete => (by cases hcomplete)⟩
  change (∅ : WriteLog.Table (Option String × Nat) Nat).lookup key = some call ↔ _
  rw [AList.lookup_empty]
  simp [State.initial]

theorem started_of_possible {status : Code} (ha : Possible s (.onStreamFinish status)) :
    s.stream.isStarted := by
  rcases ha with hopen | ⟨hstarting, -⟩
  · rw [WriteStream.isStarted, hopen, Bool.or_true]
  · simp [WriteStream.isStarted, hstarting]

theorem consistent_handle (h : Consistent s) (ha : Possible s a) (hkept : ¬ Abandons s a) :
    ∃ t, handle s a = some t ∧ Consistent t ∧ Effect s a t := by
  cases a with
  | writeMutations mutation => exact consistent_writeMutations h mutation
  | handleCredentialChange user => exact consistent_handleCredentialChange h user
  | networkChanged => exact consistent_networkChanged h
  | enableNetwork => exact consistent_enableNetwork h
  | disableNetwork => exact consistent_disableNetwork h
  | relaunch => exact consistent_relaunch h
  | onStreamStart => exact consistent_onStreamStart h ha
  | onHandshakeComplete => exact ⟨_, rfl, consistent_onHandshakeComplete h ha.1 ha.2⟩
  | commit => exact ⟨_, rfl, consistent_commit h ha.1 ha.2⟩
  | commitOrphaned b => exact ⟨_, rfl, consistent_commitOrphaned h ha⟩
  | refuse status => exact ⟨_, rfl, consistent_refuse h ha.1 ha.2.2⟩
  | onMutationResult => exact consistent_onMutationResult h ha
  | onStreamFinish status =>
    refine consistent_onStreamFinish h (started_of_possible ha) fun hok => ?_
    by_contra hne
    exact hkept ⟨hok, hne⟩
  | onBackoffElapsed => exact consistent_onBackoffElapsed h ha
  | onIdle => exact consistent_onIdle h ha

theorem handle_abandons (h : Consistent s) (ha : Possible s a) (hfails : Abandons s a) :
    handle s a = none := by
  cases a with
  | onStreamFinish status =>
    obtain ⟨rfl, hne⟩ := hfails
    exact not_close_ok h.connected (started_of_possible ha) hne
  | writeMutations | handleCredentialChange | networkChanged | enableNetwork | disableNetwork | relaunch
  | onStreamStart | onHandshakeComplete | commit | commitOrphaned | refuse | onMutationResult
  | onBackoffElapsed | onIdle => exact hfails.elim

theorem possible_of_step (ht : step s a = some t) : Possible s a ∧ handle s a = some t := by
  unfold step at ht
  split at ht
  · exact ⟨‹_›, ht⟩
  · cases ht

theorem consistent_step (h : Consistent s) (ht : step s a = some t) : Consistent t ∧ Effect s a t := by
  obtain ⟨ha, hhandle⟩ := possible_of_step ht
  have hkept : ¬ Abandons s a := by
    intro hfails
    rw [handle_abandons h ha hfails] at hhandle
    cases hhandle
  obtain ⟨u, hu, hconsistent, heffect⟩ := consistent_handle h ha hkept
  cases hu.symm.trans hhandle
  exact ⟨hconsistent, heffect⟩

theorem consistent_run {as : List Action} (hrun : run system as = some s) : Consistent s :=
  invariant (I := Consistent) consistent_initial (fun _ _ _ h ht => (consistent_step h ht).1) hrun

end Stepping

/-- No assertion of the pipeline ever fails, but the one that the backend does not end a stream
that is needed. -/
theorem pipeline_assertions {s : State} {as : List Action} (hrun : run system as = some s) {a : Action}
    (ha : Possible s a) : (handle s a).isSome ↔ ¬ Abandons s a := by
  have h := consistent_run hrun
  constructor
  · intro hsome hfails
    rw [handle_abandons h ha hfails] at hsome
    cases hsome
  · intro hkept
    obtain ⟨t, ht, -⟩ := consistent_handle h ha hkept
    rw [ht]
    rfl

/-- Ann's first write is stored, the stream breaks, and her second write is refused over the
next one; she has signed out by the time the third would be sent. -/
def outage : List Action :=
  [.handleCredentialChange (some "ann"), .writeMutations ⟨"m1", .empty⟩, .writeMutations ⟨"m2", .empty⟩,
    .onStreamStart, .onHandshakeComplete, .commit, .onMutationResult, .onStreamFinish .unavailable,
    .onBackoffElapsed, .onStreamStart, .onHandshakeComplete, .refuse .permissionDenied,
    .onStreamFinish .permissionDenied, .writeMutations ⟨"m3", .empty⟩, .handleCredentialChange none,
    .writeMutations ⟨"m4", .empty⟩, .onStreamStart, .onHandshakeComplete]

def outaged : State := (run system outage).get (by decide)

theorem run_outage : run system outage = some outaged := (Option.some_get _).symm

theorem pipeline_assertions_outage :
    (handle outaged .commit).isSome ∧ ¬ (handle outaged (.onStreamFinish .ok)).isSome := by
  constructor
  · exact (pipeline_assertions run_outage (by decide)).mpr id
  · intro hsome
    exact (pipeline_assertions run_outage (by decide)).mp hsome ⟨rfl, by decide⟩

theorem sent_eq {s : State} (h : Connected s) :
    s.backend.responses ++ s.backend.requests = if s.stream.ready then s.writePipeline else [] := by
  split
  · rename_i hready
    exact h.sent hready
  · rename_i hready
    obtain ⟨hresponses, hrequests, -⟩ := h.unsent hready
    rw [hresponses, hrequests]
    rfl

/-- The pipeline is the head of the account's queue, a stream is on its way while there is one,
and just the pipeline is under way over a stream that is ready. -/
theorem pipeline_of_queue {s : State} {as : List Action} (hrun : run system as = some s) :
    s.writePipeline = (if s.isNetworkEnabled then s.queue.take kMaxPendingWrites else []) ∧
      (s.isNetworkEnabled → s.queue ≠ [] → s.stream.isStarted) ∧
      s.backend.responses ++ s.backend.requests = (if s.stream.ready then s.writePipeline else []) ∧
      ∀ b ∈ s.backend.responses ++ s.backend.requests, b.user = s.user := by
  have h := consistent_run hrun
  have hsent := sent_eq h.connected
  refine ⟨h.full.pipeline, fun henabled hne => h.full.started henabled ?_, hsent, fun b hb => ?_⟩
  · rw [h.full.pipeline, if_pos henabled]
    exact fun hnil => hne ((List.take_eq_nil_iff.mp hnil).resolve_left (by decide))
  · obtain ⟨rest, hq⟩ := queue_of_full h.full
    rw [hsent] at hb
    split at hb
    · exact ((mem_queue_iff b).mp (hq ▸ List.mem_append_left rest hb)).2
    · cases hb

theorem pipeline_of_queue_outage :
    outaged.stream.isStarted ∧
      ((outaged.backend.responses ++ outaged.backend.requests).map fun b => b.mutation.key) = ["m4"] := by
  obtain ⟨-, hstarted, hsent, -⟩ := pipeline_of_queue run_outage
  refine ⟨hstarted (by decide) (by decide), ?_⟩
  rw [hsent]
  decide

section Settlement
variable {s t : State} {a : Action}

def mutationOf : Action → Option LocalStores.MutationBatch
  | .writeMutations mutation => some mutation
  | _ => none

theorem mutation_writes (s : State) (a : Action) :
    (writes s a).map Batch.mutation = [a].filterMap mutationOf := by
  cases a <;> rfl

/-- The writes of a run are those of its calls. -/
theorem mutation_written {as : List Action} (hrun : runFrom system s as = some t) (h : Consistent s) :
    t.written.map Batch.mutation = s.written.map Batch.mutation ++ as.filterMap mutationOf := by
  induction as generalizing s with
  | nil =>
    cases hrun
    exact (List.append_nil _).symm
  | cons a as ih =>
    obtain ⟨u, hu, hrun⟩ := (runFrom_cons_iff system s t a as).mp hrun
    obtain ⟨hconsistent, heffect⟩ := consistent_step h hu
    rw [ih hrun hconsistent, heffect.written, List.map_append, mutation_writes, List.append_assoc,
      ← List.filterMap_append]
    rfl

theorem settled_nodup (h : Accounted s) : (s.settled.map fun e => e.1.call).Nodup := by
  have hwritten : s.written.Nodup := by
    refine List.Nodup.of_map Batch.call ?_
    rw [h.calls]
    exact List.nodup_range
  have hsettled : (s.settled.map Prod.fst).Nodup := by
    rw [List.nodup_iff_count_le_one]
    intro b
    have hown : decide (b.user = b.user) = true := decide_eq_true rfl
    have hcount := List.nodup_iff_count_le_one.mp hwritten b
    rw [← List.count_filter (p := fun r : Batch => decide (r.user = b.user)) hown, h.split b.user,
      List.count_append, List.count_filter (p := fun r : Batch => decide (r.user = b.user)) hown] at hcount
    exact (Nat.le_add_right _ _).trans hcount
  have hcalls := hsettled.map_on (f := Batch.call) fun a ha b hb hcall =>
    call_injective h ((mem_written h a).mpr (.inl ha)) ((mem_written h b).mpr (.inl hb)) hcall
  rwa [List.map_map] at hcalls

end Settlement

/-- No write is lost, put before an earlier one of its account or settled twice, and its callback
runs once and with its outcome, unless the app was killed while it was pending. -/
theorem writes_settle_in_order {s : State} {as : List Action} (hrun : run system as = some s) :
    s.written.map Batch.mutation = as.filterMap mutationOf ∧
      s.written.map Batch.call = List.range s.written.length ∧
      (∀ user, (s.written.filter fun b => decide (b.user = user)) =
        ((s.settled.map Prod.fst).filter fun b => decide (b.user = user)) ++
          s.mutations.filter fun b => decide (b.user = user)) ∧
      s.completed =
        ((s.settled.filter fun e => decide (e.1.call ∉ s.lost)).map fun e => (e.1.call, e.2)) ∧
      (s.settled.map fun e => e.1.call).Nodup ∧
      ∀ b, (b, .stored) ∈ s.settled → b ∈ s.backend.committed := by
  have h := consistent_run hrun
  refine ⟨mutation_written hrun consistent_initial, h.accounted.calls, h.accounted.split,
    h.accounted.completed, settled_nodup h.accounted, h.answered.stored⟩

theorem writes_settle_in_order_outage :
    outaged.completed = [(0, .stored), (1, .rejected)] ∧
      ((outaged.written.filter fun b => decide (b.user = some "ann")).map fun b => b.mutation.key) =
        ["m1", "m2", "m3"] ∧
      ∀ b, (b, .stored) ∈ outaged.settled → b ∈ outaged.backend.committed := by
  obtain ⟨-, -, hsplit, hcompleted, -, hstored⟩ := writes_settle_in_order run_outage
  refine ⟨?_, ?_, hstored⟩
  · rw [hcompleted]
    decide
  · rw [hsplit]
    decide

/-- A stream finishes with such an error on account of its first request only, once the answers
to the requests before that are read. -/
def StatusInOrder (s : State) : Action → Prop
  | .onStreamFinish status => s.stream.ready → status.isPermanentWriteError →
    s.backend.refusal = some status ∧ s.backend.responses = []
  | _ => True

instance decidableStatusInOrder (s : State) : ∀ a, Decidable (StatusInOrder s a)
  | .onStreamFinish _ => inferInstanceAs (Decidable (_ → _ → _))
  | .writeMutations _ | .handleCredentialChange _ | .networkChanged | .enableNetwork | .disableNetwork
  | .relaunch | .onStreamStart | .onHandshakeComplete | .commit | .commitOrphaned _ | .refuse _
  | .onMutationResult | .onBackoffElapsed | .onIdle => isTrue trivial

section Rejections
variable {s t : State} {a : Action} {b : Batch}

/-- It is the first write in the pipeline that a step settles. -/
theorem settles_cases {o : Outcome} (h : settles s a = some (b, o)) : s.writePipeline.head? = some b ∧
    (a = .onMutationResult ∧ o = .stored ∨
      ∃ status, a = .onStreamFinish status ∧ o = .rejected ∧ s.stream.ready ∧
        status.isPermanentWriteError) := by
  cases a with
  | onMutationResult =>
    obtain ⟨r, hr, heq⟩ := Option.map_eq_some_iff.mp h
    cases heq
    exact ⟨hr, .inl ⟨rfl, rfl⟩⟩
  | onStreamFinish status =>
    obtain ⟨⟨hready, hpermanent⟩, hsettles⟩ := Option.ite_none_right_eq_some.mp h
    obtain ⟨r, hr, heq⟩ := Option.map_eq_some_iff.mp hsettles
    cases heq
    exact ⟨hr, .inr ⟨status, rfl, rfl, hready, hpermanent⟩⟩
  | writeMutations | handleCredentialChange | networkChanged | enableNetwork | disableNetwork | relaunch
  | onStreamStart | onHandshakeComplete | commit | commitOrphaned | refuse | onBackoffElapsed | onIdle =>
    cases h

/-- The stream was closed on account of the first write in the pipeline. -/
theorem refused_of_rejected (h : Consistent s) (horder : StatusInOrder s a)
    (hb : settles s a = some (b, .rejected)) : b ∈ s.backend.refused := by
  obtain ⟨hhead, ⟨-, ho⟩ | ⟨status, rfl, -, hready, hpermanent⟩⟩ := settles_cases hb
  · cases ho
  obtain ⟨hrefusal, hresponses⟩ := horder hready hpermanent
  obtain ⟨-, r, hr, hrefused⟩ := h.answered.refusal status hrefusal
  rw [← h.connected.sent hready, hresponses, List.nil_append, hr] at hhead
  cases hhead
  exact hrefused

theorem refused_step (h : Consistent s) (horder : StatusInOrder s a) (ht : step s a = some t)
    (hrefused : ∀ b, (b, .rejected) ∈ s.settled → b ∈ s.backend.refused) :
    ∀ b, (b, .rejected) ∈ t.settled → b ∈ t.backend.refused := by
  obtain ⟨-, heffect⟩ := consistent_step h ht
  intro b hb
  apply heffect.refused.subset
  rw [heffect.settled] at hb
  rcases List.mem_append.mp hb with hb | hb
  · exact hrefused b hb
  · exact refused_of_rejected h horder (Option.mem_toList.mp hb)

end Rejections

/-- A write is reported as rejected only if the backend has refused it. -/
theorem rejections_refused {s : State} {as : List Action} (hrun : run system as = some s)
    (horder : StepsMeet system StatusInOrder .initial as) {b : Batch} (hb : (b, .rejected) ∈ s.settled) :
    b ∈ s.backend.refused := by
  have hboth : Consistent s ∧ ∀ b, (b, .rejected) ∈ s.settled → b ∈ s.backend.refused := by
    refine invariant_of_stepsMeet (I := fun s => Consistent s ∧
      ∀ b, (b, .rejected) ∈ s.settled → b ∈ s.backend.refused) ?_
      ⟨consistent_initial, fun b hb => (by cases hb)⟩ horder hrun
    rintro s a t ⟨h, hrefused⟩ horder ht
    exact ⟨(consistent_step h ht).1, refused_step h horder ht hrefused⟩
  exact hboth.2 b hb

theorem rejections_refused_outage :
    ∃ b ∈ outaged.backend.refused, b.call = 1 ∧ b.mutation.key = "m2" := by
  have hrejected : ∃ b, (b, Outcome.rejected) ∈ outaged.settled ∧ b.call = 1 ∧ b.mutation.key = "m2" :=
    ⟨⟨some "ann", 2, ⟨"m2", .empty⟩, 1⟩, by decide, rfl, rfl⟩
  obtain ⟨b, hb, hcall⟩ := hrejected
  exact ⟨b, rejections_refused run_outage (by decide) hb, hcall⟩

/-- If the status overtakes an answer, a write that is committed is reported as rejected. -/
example : (run system [.writeMutations ⟨"m1", .empty⟩, .writeMutations ⟨"m2", .empty⟩, .onStreamStart,
    .onHandshakeComplete, .commit, .refuse .permissionDenied, .onStreamFinish .permissionDenied]).map
      (fun s => (s.settled.map fun e => (e.1.call, e.2), s.backend.committed.map Batch.call)) =
    some ([(0, .rejected)], [0]) := by decide

end ChipChat.WritePipeline
