import ChipChat.LocalViews
import ChipChat.WriteOutcomes

/-!
# The queues of the local store

What is settled is always the first write of the account's queue. So the queues of a run of the
pipeline are those of a run of the local store, which is only told the outcomes.
-/

namespace ChipChat.WritePipeline

open LabelledSystem

set_option autoImplicit false

/-- What the store is told of a write that is settled. -/
def settlement (ackVersion : Batch → Nat) (e : Batch × Outcome) : LocalStores.Action :=
  match e.2 with
  | .stored => .handleSuccessfulWrite (ackVersion e.1)
  | .rejected => .handleRejectedWrite

def isSettlement : LocalStores.Action → Bool
  | .handleSuccessfulWrite _ | .handleRejectedWrite => true
  | _ => false

/-- What the store is told of a step. -/
def told (ackVersion : Batch → Nat) (s : State) : Action → List LocalStores.Action
  | .writeMutations mutation => [.writeMutations mutation]
  | .handleCredentialChange user => [.handleCredentialChange user]
  | a => (settles s a).toList.map (settlement ackVersion)

/-- The store has the queues of the pipeline, and nobody is listening to it. -/
structure Mirrors (s : State) (u : LocalStores.State) : Prop where
  view : u.manager.view = none
  user : u.store.user = s.user
  queues : ∀ user, u.store.mutationQueues user =
    (s.mutations.filter fun b => decide (b.user = user)).map Batch.mutation

section Telling
variable {s t : State} {u : LocalStores.State} {a : Action}

theorem Mirrors.queue (h : Mirrors s u) : u.store.mutationQueue = s.queue.map Batch.mutation := by
  rw [LocalStores.LocalStore.mutationQueue, h.user, h.queues]
  rfl

theorem emit_of_unlistened (h : Mirrors s u) (targetChange : Option DocumentViews.TargetChange)
    (r : LocalStores.LocalStore × DocumentViews.MaybeDocumentMap) :
    u.emit targetChange r = some ⟨r.1, u.manager⟩ := by
  unfold LocalStores.State.emit QueryListeners.State.emitNewSnapshots
  rw [h.view]
  rfl

theorem applyBatchResult_eq (store : LocalStores.LocalStore) (b : LocalStores.MutationBatch) (ackVersion : Nat) :
    store.applyBatchResult b ackVersion =
      { store with remoteDocuments := (store.applyBatchResult b ackVersion).remoteDocuments } := by
  unfold LocalStores.LocalStore.applyBatchResult
  split <;> rfl

theorem mirrors_writeMutations (h : Mirrors s u) {mutation : LocalStores.MutationBatch}
    (heffect : Effect s (.writeMutations mutation) t) :
    ∃ v, LocalStores.step u (.writeMutations mutation) = some v ∧ Mirrors t v := by
  refine ⟨_, emit_of_unlistened h none _, h.view, h.user.trans heffect.user.symm, fun user => ?_⟩
  have hmutations : t.mutations = s.mutations ++ [s.newBatch mutation] := by
    rw [heffect.mutations]
    exact List.filter_eq_self.mpr fun _ _ => rfl
  have hqueue := h.queue
  simp only [LocalStores.LocalStore.writeLocally, LocalStores.LocalStore.setQueue, h.user]
  rw [hmutations, List.filter_append, List.map_append]
  by_cases hown : user = s.user
  · subst hown
    rw [if_pos rfl, hqueue]
    simp [State.newBatch, State.queue]
  · rw [if_neg hown, h.queues, List.filter_cons_of_neg (by simp [State.newBatch, Ne.symm hown])]
    exact (List.append_nil _).symm

theorem mirrors_handleCredentialChange (h : Mirrors s u) {user : Option String}
    (heffect : Effect s (.handleCredentialChange user) t) :
    ∃ v, LocalStores.step u (.handleCredentialChange user) = some v ∧ Mirrors t v := by
  have hmutations : t.mutations = s.mutations := by
    rw [heffect.mutations]
    exact (List.filter_eq_self.mpr fun _ _ => rfl).trans (List.append_nil _)
  have huser : t.user = user := heffect.user
  by_cases hsame : u.store.user = user
  · refine ⟨u, if_pos hsame, h.view, hsame.trans huser.symm, fun user => ?_⟩
    rw [hmutations]
    exact h.queues user
  · refine ⟨⟨{ u.store with user := user }, u.manager⟩, ?_, h.view, huser.symm, fun user => ?_⟩
    · rw [LocalStores.step, if_neg hsame, LocalStores.emitted, if_neg hsame]
      exact emit_of_unlistened h none _
    · rw [hmutations]
      exact h.queues user

/-- The store takes the first write of the queue, as the pipeline does. -/
theorem mirrors_settlement (h : Mirrors s u) (hordered : Ordered s) (ackVersion : Batch → Nat) {b : Batch}
    {o : Outcome} {rest : List Batch} (hq : s.queue = b :: rest) (huser : t.user = s.user)
    (hmutations : t.mutations = s.mutations.filter fun r => decide (r ≠ b)) :
    ∃ v, LocalStores.step u (settlement ackVersion (b, o)) = some v ∧ Mirrors t v := by
  have hqueue : u.store.mutationQueue = b.mutation :: rest.map Batch.mutation := by
    rw [h.queue, hq]
    rfl
  have hqueues : ∀ user, (if user = u.store.user then rest.map Batch.mutation
      else u.store.mutationQueues user) =
        (t.mutations.filter fun r => decide (r.user = user)).map Batch.mutation := by
    intro user
    rw [hmutations, h.user, h.queues, ← mutations_settle hordered hq o]
    by_cases hown : user = s.user
    · have hrest := queue_settle hordered hq o
      have hsame : (s.settle b o).user = user := by rw [settle_eq, hown]
      rw [State.queue, hsame] at hrest
      rw [if_pos hown, hrest]
    · have hother : ¬ b.user = user := fun heq => hown (heq.symm.trans (mem_of_queue hq).2)
      rw [if_neg hown, pending_settle hordered hq o user, List.filter_cons_of_neg (by simpa using hother)]
      rfl
  cases o with
  | stored =>
    refine ⟨⟨(u.store.applyBatchResult b.mutation (ackVersion b)).setQueue (rest.map Batch.mutation),
      u.manager⟩, ?_, h.view, ?_, fun user => ?_⟩
    · simp only [settlement, LocalStores.step, LocalStores.emitted, LocalStores.LocalStore.acknowledgeBatch,
        hqueue]
      exact emit_of_unlistened h none _
    · rw [applyBatchResult_eq]
      exact h.user.trans huser.symm
    · rw [applyBatchResult_eq]
      exact hqueues user
  | rejected =>
    refine ⟨⟨u.store.setQueue (rest.map Batch.mutation), u.manager⟩, ?_, h.view, h.user.trans huser.symm,
      hqueues⟩
    simp only [settlement, LocalStores.step, LocalStores.emitted, LocalStores.LocalStore.rejectBatch, hqueue]
    exact emit_of_unlistened h none _

theorem mirrors_settles (h : Consistent s) (hmirrors : Mirrors s u) (heffect : Effect s a t)
    (hwrites : writes s a = []) (huser : userAfter s a = s.user) (ackVersion : Batch → Nat) :
    ∃ v, runFrom LocalStores.system u ((settles s a).toList.map (settlement ackVersion)) = some v ∧
      Mirrors t v := by
  have hmutations := heffect.mutations
  rw [hwrites, List.append_nil] at hmutations
  have hsame : t.user = s.user := heffect.user.trans huser
  cases hsettles : settles s a with
  | none =>
    rw [hsettles] at hmutations
    refine ⟨u, rfl, hmirrors.view, hmirrors.user.trans hsame.symm, fun user => ?_⟩
    rw [hmutations.trans (List.filter_eq_self.mpr fun _ _ => rfl)]
    exact hmirrors.queues user
  | some e =>
    obtain ⟨b, o⟩ := e
    rw [hsettles] at hmutations
    obtain ⟨rest, hq⟩ := queue_of_full h.full
    obtain ⟨writes, hpipeline⟩ := List.head?_eq_some_iff.mp (settles_cases hsettles).1
    rw [hpipeline, List.cons_append] at hq
    obtain ⟨v, hv, hmirrored⟩ := mirrors_settlement hmirrors h.ordered ackVersion hq hsame hmutations
    exact ⟨v, (runFrom_cons_iff LocalStores.system u v _ []).mpr ⟨v, hv, rfl⟩, hmirrored⟩

theorem mirrors_step (h : Consistent s) (ht : step s a = some t) (hmirrors : Mirrors s u)
    (ackVersion : Batch → Nat) :
    ∃ v, runFrom LocalStores.system u (told ackVersion s a) = some v ∧ Mirrors t v := by
  obtain ⟨-, heffect⟩ := consistent_step h ht
  cases a with
  | writeMutations mutation =>
    obtain ⟨v, hv, hmirrored⟩ := mirrors_writeMutations hmirrors heffect
    exact ⟨v, (runFrom_cons_iff LocalStores.system u v _ []).mpr ⟨v, hv, rfl⟩, hmirrored⟩
  | handleCredentialChange user =>
    obtain ⟨v, hv, hmirrored⟩ := mirrors_handleCredentialChange hmirrors heffect
    exact ⟨v, (runFrom_cons_iff LocalStores.system u v _ []).mpr ⟨v, hv, rfl⟩, hmirrored⟩
  | networkChanged | enableNetwork | disableNetwork | relaunch | onStreamStart | onHandshakeComplete
  | commit | commitOrphaned | refuse | onMutationResult | onStreamFinish | onBackoffElapsed | onIdle =>
    exact mirrors_settles h hmirrors heffect rfl rfl ackVersion

theorem written_told (ackVersion : Batch → Nat) (s : State) (a : Action) :
    LocalStores.written (told ackVersion s a) = [a].filterMap mutationOf := by
  have hnone : ∀ e : Option (Batch × Outcome),
      LocalStores.written (e.toList.map (settlement ackVersion)) = [] := by
    rintro (_ | ⟨b, _ | _⟩) <;> rfl
  cases a with
  | writeMutations | handleCredentialChange => rfl
  | networkChanged | enableNetwork | disableNetwork | relaunch | onStreamStart | onHandshakeComplete
  | commit | commitOrphaned | refuse | onMutationResult | onStreamFinish | onBackoffElapsed | onIdle =>
    exact hnone _

theorem settlements_told (ackVersion : Batch → Nat) (s : State) (a : Action) :
    (told ackVersion s a).filter isSettlement = (settles s a).toList.map (settlement ackVersion) := by
  have hall : ∀ e : Option (Batch × Outcome), (e.toList.map (settlement ackVersion)).filter isSettlement =
      e.toList.map (settlement ackVersion) := by
    rintro (_ | ⟨b, _ | _⟩) <;> rfl
  cases a with
  | writeMutations | handleCredentialChange => rfl
  | networkChanged | enableNetwork | disableNetwork | relaunch | onStreamStart | onHandshakeComplete
  | commit | commitOrphaned | refuse | onMutationResult | onStreamFinish | onBackoffElapsed | onIdle =>
    exact hall _

/-- The store is told of each step as it is taken. -/
theorem mirrors_run {as : List Action} (hrun : run system as = some s) (ackVersion : Batch → Nat) :
    ∃ bs u, run LocalStores.system bs = some u ∧ Mirrors s u ∧
      LocalStores.written bs = as.filterMap mutationOf ∧
      bs.filter isSettlement = s.settled.map (settlement ackVersion) := by
  induction as using List.reverseRecOn generalizing s with
  | nil =>
    cases hrun
    exact ⟨[], _, rfl, ⟨rfl, rfl, fun _ => rfl⟩, rfl, rfl⟩
  | append_singleton as a ih =>
    obtain ⟨r, hr, ht⟩ := (run_snoc_iff system s as a).mp hrun
    obtain ⟨bs, u, hbs, hmirrors, hwritten, hsettled⟩ := ih hr
    have h := consistent_run hr
    obtain ⟨v, hv, hnext⟩ := mirrors_step h ht hmirrors ackVersion
    refine ⟨bs ++ told ackVersion r a, v, ?_, hnext, ?_, ?_⟩
    · exact (runFrom_append_iff LocalStores.system _ v bs _).mpr ⟨u, hbs, hv⟩
    · rw [LocalStores.written, List.filterMap_append, List.filterMap_append, ← hwritten]
      exact congrArg _ (written_told ackVersion r a)
    · rw [List.filter_append, hsettled, settlements_told, (consistent_step h ht).2.settled, List.map_append]

end Telling

/-- Whatever versions the writes are acknowledged with, the pipeline's queues are those of a store
that is told of the same writes, and of each of them once it is settled, in that order. -/
theorem pipeline_refines_store {s : State} {as : List Action} (hrun : run system as = some s)
    (ackVersion : Batch → Nat) :
    ∃ bs u, run LocalStores.system bs = some u ∧ u.store.user = s.user ∧
      (∀ user, u.store.mutationQueues user =
        (s.mutations.filter fun b => decide (b.user = user)).map Batch.mutation) ∧
      LocalStores.written bs = as.filterMap mutationOf ∧
      bs.filter isSettlement = s.settled.map (settlement ackVersion) := by
  obtain ⟨bs, u, hbs, hmirrors, hhistories⟩ := mirrors_run hrun ackVersion
  exact ⟨bs, u, hbs, hmirrors.user, hmirrors.queues, hhistories⟩

theorem pipeline_refines_store_outage : ∃ bs u, run LocalStores.system bs = some u ∧
    u.store.mutationQueues (some "ann") = [⟨"m3", .empty⟩] ∧ u.store.mutationQueues none = [⟨"m4", .empty⟩] ∧
    bs.filter isSettlement = [.handleSuccessfulWrite 7, .handleRejectedWrite] := by
  obtain ⟨bs, u, hbs, -, hqueues, -, hsettled⟩ := pipeline_refines_store run_outage fun _ => 7
  have hoff : outaged.settled = [(⟨some "ann", 1, ⟨"m1", .empty⟩, 0⟩, .stored),
      (⟨some "ann", 2, ⟨"m2", .empty⟩, 1⟩, .rejected)] := by decide
  refine ⟨bs, u, hbs, ?_, ?_, ?_⟩
  · rw [hqueues]
    decide
  · rw [hqueues]
    decide
  · rw [hsettled, hoff]
    rfl

end ChipChat.WritePipeline
