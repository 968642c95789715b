import ChipChat.PipelinedWrites

/-!
# Writes that are settled

The table of mutations and the callbacks over a run: the writes of each account are settled
one by one in their order, and each runs its callback then, unless the app was killed while
the write was pending.
-/

namespace ChipChat.WritePipeline

open LabelledSystem

set_option autoImplicit false

/-- The first write of the queue is settled. -/
def State.settle (s : State) (b : Batch) (o : Outcome) : State :=
  { s.notifyUser b.batchId o with
    mutations := s.mutations.filter fun r => !decide (r.user = s.user ∧ r.batchId = b.batchId)
    settled := s.settled ++ [(b, o)] }

/-- The histories agree: `call` numbers the writes, the writes of each account are the settled
and then the pending ones, and the callbacks are those of pending and of settled writes. -/
structure Accounted (s : State) : Prop where
  calls : s.written.map Batch.call = List.range s.written.length
  split : ∀ user, (s.written.filter fun b => decide (b.user = user)) =
    ((s.settled.map Prod.fst).filter fun b => decide (b.user = user)) ++
      s.mutations.filter fun b => decide (b.user = user)
  callbacks : ∀ key call, s.mutationCallbacks.lookup key = some call ↔
    ∃ b ∈ s.mutations, (b.user, b.batchId) = key ∧ b.call = call ∧ call ∉ s.lost
  completed : s.completed =
    (s.settled.filter fun e => decide (e.1.call ∉ s.lost)).map fun e => (e.1.call, e.2)
  lost : ∀ n ∈ s.lost, n < s.written.length

/-- What the backend has said, and what has been made of it. -/
structure Answered (s : State) : Prop where
  refusal : ∀ c ∈ s.backend.refusal, c.isPermanentWriteError ∧
    ∃ b, s.backend.requests.head? = some b ∧ b ∈ s.backend.refused
  requests : ∀ b ∈ s.backend.requests, b ∈ s.written
  responses : ∀ b ∈ s.backend.responses, b ∈ s.backend.committed
  stored : ∀ b, (b, .stored) ∈ s.settled → b ∈ s.backend.committed
  orphaned : ∀ b ∈ s.backend.orphaned, b ∈ s.written
  committed : ∀ b ∈ s.backend.committed, b ∈ s.written

section Settling
variable {s : State} {b : Batch} {rest : List Batch}

theorem Ordered.inj (h : Ordered s) {a b : Batch} (ha : a ∈ s.mutations) (hb : b ∈ s.mutations)
    (hid : a.batchId = b.batchId) : a = b := by
  have hnodup : (s.mutations.map Batch.batchId).Nodup :=
    List.pairwise_map.mpr (h.sorted.imp fun hlt => Nat.ne_of_lt hlt)
  exact List.inj_on_of_nodup_map hnodup ha hb hid

theorem mem_queue_iff (b : Batch) : b ∈ s.queue ↔ b ∈ s.mutations ∧ b.user = s.user := by
  rw [State.queue, List.mem_filter, decide_eq_true_eq]

theorem mem_of_queue (hq : s.queue = b :: rest) : b ∈ s.mutations ∧ b.user = s.user :=
  (mem_queue_iff b).mp (hq ▸ List.mem_cons_self)

theorem notifyUser_eq (s : State) (batchId : Nat) (o : Outcome) :
    s.notifyUser batchId o = { s with
      mutationCallbacks := (s.notifyUser batchId o).mutationCallbacks
      completed := (s.notifyUser batchId o).completed } := by
  unfold State.notifyUser
  split <;> rfl

theorem settle_eq (s : State) (b : Batch) (o : Outcome) :
    s.settle b o = { s with
      mutations := (s.settle b o).mutations
      mutationCallbacks := (s.settle b o).mutationCallbacks
      settled := s.settled ++ [(b, o)]
      completed := (s.settle b o).completed } := by
  unfold State.settle
  rw [notifyUser_eq]

theorem lookupMutationBatch_head (hq : s.queue = b :: rest) : s.lookupMutationBatch b.batchId = some b := by
  unfold State.lookupMutationBatch
  rw [hq]
  exact List.find?_cons_of_pos (decide_eq_true rfl)

theorem removeMutationBatch_head (hq : s.queue = b :: rest) (o : Outcome) :
    s.removeMutationBatch b o = some { s with
      mutations := s.mutations.filter fun r => !decide (r.user = s.user ∧ r.batchId = b.batchId)
      settled := s.settled ++ [(b, o)] } := by
  unfold State.removeMutationBatch
  rw [lookupMutationBatch_head hq]
  rfl

theorem handleSuccessfulWrite_eq (hq : s.queue = b :: rest) :
    s.handleSuccessfulWrite b = some (s.settle b .stored) := by
  have hqueue : (s.notifyUser b.batchId .stored).queue = b :: rest := by
    rw [notifyUser_eq]
    exact hq
  unfold State.handleSuccessfulWrite
  rw [removeMutationBatch_head hqueue, State.settle, notifyUser_eq]

theorem handleRejectedWrite_eq (hq : s.queue = b :: rest) :
    s.handleRejectedWrite b.batchId = some (s.settle b .rejected) := by
  unfold State.handleRejectedWrite
  rw [lookupMutationBatch_head hq, Option.bind_some, removeMutationBatch_head hq, Option.map_some]
  unfold State.settle State.notifyUser
  cases s.mutationCallbacks.lookup (s.user, b.batchId) <;> rfl

/-- No other write has its id. -/
theorem mutations_settle (hordered : Ordered s) (hq : s.queue = b :: rest) (o : Outcome) :
    (s.settle b o).mutations = s.mutations.filter fun r => decide (r ≠ b) := by
  obtain ⟨hb, huser⟩ := mem_of_queue hq
  apply List.filter_congr
  intro r hr
  rw [← decide_not, decide_eq_decide, not_iff_not]
  constructor
  · exact fun h => hordered.inj hr hb h.2
  · rintro rfl
    exact ⟨huser, rfl⟩

theorem queue_settle (hordered : Ordered s) (hq : s.queue = b :: rest) (o : Outcome) :
    (s.settle b o).queue = rest := by
  have hnodup : s.queue.Nodup := (sorted_queue hordered).imp fun hlt heq => by
    rw [heq] at hlt
    exact lt_irrefl _ hlt
  rw [hq] at hnodup
  have hfresh := (List.nodup_cons.mp hnodup).1
  unfold State.queue
  rw [mutations_settle hordered hq, List.filter_comm, settle_eq]
  change s.queue.filter _ = rest
  rw [hq, List.filter_cons_of_neg (by simp), List.filter_eq_self]
  intro r hr
  rw [decide_eq_true_eq]
  rintro rfl
  exact hfresh hr

theorem ordered_settle (hordered : Ordered s) (hq : s.queue = b :: rest) (o : Outcome) :
    Ordered (s.settle b o) := by
  have hmutations := mutations_settle hordered hq o
  constructor
  · rw [hmutations]
    exact hordered.sorted.filter _
  · intro r hr
    rw [hmutations] at hr
    rw [settle_eq]
    exact hordered.bounded r (List.mem_filter.mp hr).1

theorem mem_written (h : Accounted s) (r : Batch) :
    r ∈ s.written ↔ r ∈ s.settled.map Prod.fst ∨ r ∈ s.mutations := by
  have hmem : ∀ l : List Batch, r ∈ l ↔ r ∈ l.filter fun b => decide (b.user = r.user) := by
    intro l
    rw [List.mem_filter]
    exact (and_iff_left (decide_eq_true rfl)).symm
  rw [hmem s.written, h.split r.user, List.mem_append, ← hmem, ← hmem]

theorem call_injective (h : Accounted s) {a r : Batch} (ha : a ∈ s.written) (hr : r ∈ s.written)
    (hcall : a.call = r.call) : a = r := by
  have hnodup : (s.written.map Batch.call).Nodup := by
    rw [h.calls]
    exact List.nodup_range
  exact List.inj_on_of_nodup_map hnodup ha hr hcall

/-- A write is settled or pending, and not both. -/
theorem not_pending (h : Accounted s) {e : Batch × Outcome} (he : e ∈ s.settled) {r : Batch}
    (hr : r ∈ s.mutations) : e.1.call ≠ r.call := by
  intro hcall
  have hsettled : e.1 ∈ s.settled.map Prod.fst := List.mem_map_of_mem he
  obtain rfl : e.1 = r := call_injective h ((mem_written h _).mpr (.inl hsettled))
    ((mem_written h r).mpr (.inr hr)) hcall
  have hnodup : (s.written.filter fun b => decide (b.user = e.1.user)).Nodup := by
    refine List.Nodup.filter _ (List.Nodup.of_map Batch.call ?_)
    rw [h.calls]
    exact List.nodup_range
  rw [h.split] at hnodup
  have huser : decide (e.1.user = e.1.user) = true := decide_eq_true rfl
  exact (List.nodup_append.mp hnodup).2.2 e.1 (List.mem_filter.mpr ⟨hsettled, huser⟩) e.1
    (List.mem_filter.mpr ⟨hr, huser⟩) rfl

theorem lookup_callback (hordered : Ordered s) (h : Accounted s) (hb : b ∈ s.mutations) :
    s.mutationCallbacks.lookup (b.user, b.batchId) = if b.call ∈ s.lost then none else some b.call := by
  apply Option.ext
  intro call
  rw [h.callbacks]
  split
  · rename_i hlost
    simp only [reduceCtorEq, iff_false]
    rintro ⟨r, hr, hkey, rfl, hkept⟩
    obtain rfl := hordered.inj hr hb (Prod.mk.inj hkey).2
    exact hkept hlost
  · rename_i hkept
    rw [Option.some.injEq]
    constructor
    · rintro ⟨r, hr, hkey, rfl, -⟩
      rw [hordered.inj hr hb (Prod.mk.inj hkey).2]
    · rintro rfl
      exact ⟨b, hb, rfl, rfl, hkept⟩

theorem completed_settle (hordered : Ordered s) (h : Accounted s) (hq : s.queue = b :: rest) (o : Outcome) :
    (s.settle b o).completed = s.completed ++ if b.call ∈ s.lost then [] else [(b.call, o)] := by
  obtain ⟨hb, huser⟩ := mem_of_queue hq
  have hlookup := lookup_callback hordered h hb
  rw [huser] at hlookup
  unfold State.settle State.notifyUser
  rw [hlookup]
  by_cases hlost : b.call ∈ s.lost
  · rw [if_pos hlost, if_pos hlost, List.append_nil]
  · rw [if_neg hlost, if_neg hlost]

theorem callbacks_settle (hordered : Ordered s) (h : Accounted s) (hq : s.queue = b :: rest) (o : Outcome)
    (key : Option String × Nat) : (s.settle b o).mutationCallbacks.lookup key =
      if key = (b.user, b.batchId) then none else s.mutationCallbacks.lookup key := by
  obtain ⟨hb, huser⟩ := mem_of_queue hq
  have hlookup := lookup_callback hordered h hb
  unfold State.settle State.notifyUser
  rw [← huser]
  by_cases hkey : key = (b.user, b.batchId)
  · subst hkey
    rw [if_pos rfl]
    split
    · assumption
    · exact AList.lookup_erase _ _
  · rw [if_neg hkey]
    split
    · rfl
    · exact AList.lookup_erase_ne hkey

theorem pending_settle (hordered : Ordered s) (hq : s.queue = b :: rest) (o : Outcome)
    (user : Option String) : (s.mutations.filter fun r => decide (r.user = user)) =
      ([b].filter fun r => decide (r.user = user)) ++
        (s.settle b o).mutations.filter fun r => decide (r.user = user) := by
  obtain ⟨hb, huser⟩ := mem_of_queue hq
  by_cases hown : b.user = user
  · have hrest := queue_settle hordered hq o
    have hsame : (s.settle b o).user = user := by
      rw [settle_eq]
      exact huser.symm.trans hown
    rw [State.queue, hsame] at hrest
    rw [hrest, ← hown, huser]
    change s.queue = _
    rw [hq]
    simp [huser]
  · rw [List.filter_cons_of_neg (by simpa using hown), mutations_settle hordered hq, List.filter_filter]
    apply List.filter_congr
    intro r _
    by_cases hr : r.user = user
    · have hne : r ≠ b := by
        rintro rfl
        exact hown hr
      simp [hr, hne]
    · simp [hr]

theorem accounted_settle (hordered : Ordered s) (h : Accounted s) (hq : s.queue = b :: rest) (o : Outcome) :
    Accounted (s.settle b o) := by
  have hmutations := mutations_settle hordered hq o
  have hwritten : (s.settle b o).written = s.written := by rw [settle_eq]
  have hsettled : (s.settle b o).settled = s.settled ++ [(b, o)] := rfl
  have hlost : (s.settle b o).lost = s.lost := by rw [settle_eq]
  refine ⟨?_, fun user => ?_, fun key call => ?_, ?_, ?_⟩
  · rw [hwritten]
    exact h.calls
  · rw [hwritten, hsettled, h.split user, pending_settle hordered hq o user, List.map_append,
      List.filter_append, List.append_assoc]
    rfl
  · rw [callbacks_settle hordered h hq, hmutations, hlost]
    split
    · rename_i hkey
      simp only [reduceCtorEq, false_iff]
      rintro ⟨r, hr, hrkey, -⟩
      obtain ⟨hr, hne⟩ := List.mem_filter.mp hr
      have hid := (Prod.mk.inj (hrkey.trans hkey)).2
      exact of_decide_eq_true hne (hordered.inj hr (mem_of_queue hq).1 hid)
    · rename_i hkey
      rw [h.callbacks]
      constructor
      · rintro ⟨r, hr, rfl, hcall⟩
        refine ⟨r, List.mem_filter.mpr ⟨hr, decide_eq_true ?_⟩, rfl, hcall⟩
        rintro rfl
        exact hkey rfl
      · rintro ⟨r, hr, hrest⟩
        exact ⟨r, (List.mem_filter.mp hr).1, hrest⟩
  · rw [completed_settle hordered h hq, hsettled, hlost, List.filter_append, List.map_append, h.completed]
    refine congrArg _ ?_
    by_cases hkept : b.call ∈ s.lost
    · rw [if_pos hkept, List.filter_cons_of_neg (by simpa using hkept)]
      rfl
    · rw [if_neg hkept]
      simp [hkept]
  · rw [hwritten, hlost]
    exact h.lost

theorem fresh_batch (hordered : Ordered s) (h : Accounted s) (key : Option String) :
    s.mutationCallbacks.lookup (key, s.nextBatchId) = none := by
  rw [Option.eq_none_iff_forall_ne_some]
  intro call hcall
  obtain ⟨r, hr, hkey, -⟩ := (h.callbacks _ call).mp hcall
  have hlt := hordered.bounded r hr
  rw [(Prod.mk.inj hkey).2] at hlt
  exact lt_irrefl _ hlt

theorem ordered_writeLocally (h : Ordered s) (mutation : LocalStores.MutationBatch) :
    Ordered (s.writeLocally mutation) := by
  constructor
  · refine List.pairwise_append.mpr ⟨h.sorted, List.pairwise_singleton _ _, fun r hr x hx => ?_⟩
    rw [List.mem_singleton.mp hx]
    exact h.bounded r hr
  · intro r hr
    rcases List.mem_append.mp hr with hr | hr
    · exact Nat.lt_succ_of_lt (h.bounded r hr)
    · rw [List.mem_singleton.mp hr]
      exact Nat.lt_succ_self _

theorem accounted_writeLocally (hordered : Ordered s) (h : Accounted s)
    (mutation : LocalStores.MutationBatch) : Accounted (s.writeLocally mutation) := by
  have hcallbacks : (s.writeLocally mutation).mutationCallbacks =
      s.mutationCallbacks.insert (s.user, s.nextBatchId) s.written.length := by
    have hnone := fresh_batch hordered h s.user
    refine if_neg fun hsome => ?_
    rw [show s.mutationCallbacks.lookup ((s.newBatch mutation).user, (s.newBatch mutation).batchId) = none
      from hnone] at hsome
    cases hsome
  have hnew : s.written.length ∉ s.lost := fun hlost => lt_irrefl _ (h.lost _ hlost)
  refine ⟨?_, fun user => ?_, fun key call => ?_, h.completed, fun n hn => ?_⟩
  · have hwritten : (s.writeLocally mutation).written = s.written ++ [s.newBatch mutation] := rfl
    rw [hwritten, List.map_append, h.calls, List.length_append, List.length_singleton, List.range_succ]
    rfl
  · change (List.filter _ (s.written ++ [_])) = List.filter _ _ ++ List.filter _ (s.mutations ++ [_])
    rw [List.filter_append, List.filter_append, h.split user, List.append_assoc]
    rfl
  · rw [hcallbacks]
    by_cases hkey : key = (s.user, s.nextBatchId)
    · subst hkey
      rw [AList.lookup_insert, Option.some.injEq]
      constructor
      · rintro rfl
        exact ⟨s.newBatch mutation, List.mem_append_right _ (List.mem_singleton_self _), rfl, rfl, hnew⟩
      · rintro ⟨r, hr, hkey, rfl, -⟩
        rcases List.mem_append.mp hr with hr | hr
        · have hlt := hordered.bounded r hr
          rw [(Prod.mk.inj hkey).2] at hlt
          exact absurd hlt (lt_irrefl _)
        · rw [List.mem_singleton.mp hr]
          rfl
    · rw [AList.lookup_insert_ne hkey, h.callbacks]
      constructor
      · rintro ⟨r, hr, hrest⟩
        exact ⟨r, List.mem_append_left _ hr, hrest⟩
      · rintro ⟨r, hr, hrkey, hrest⟩
        rcases List.mem_append.mp hr with hr | hr
        · exact ⟨r, hr, hrkey, hrest⟩
        · rw [List.mem_singleton.mp hr] at hrkey
          exact absurd hrkey.symm hkey
  · have hlength : (s.writeLocally mutation).written.length = s.written.length + 1 := by
      simp [State.writeLocally]
    rw [hlength]
    exact Nat.lt_succ_of_lt (h.lost n hn)

theorem lt_loadNextBatchId (hb : b ∈ s.mutations) : b.batchId < loadNextBatchId s.mutations := by
  have hfold : ∀ (l : List Batch) (m : Nat), m ≤ l.foldl (fun maxBatchId b => max maxBatchId b.batchId) m ∧
      ∀ b ∈ l, b.batchId ≤ l.foldl (fun maxBatchId b => max maxBatchId b.batchId) m := by
    intro l
    induction l with
    | nil => exact fun m => ⟨Nat.le_refl m, fun b hb => by cases hb⟩
    | cons a l ih =>
      intro m
      obtain ⟨hle, hall⟩ := ih (max m a.batchId)
      refine ⟨(Nat.le_max_left _ _).trans hle, fun b hb => ?_⟩
      rcases List.mem_cons.mp hb with rfl | hb
      · exact (Nat.le_max_right _ _).trans hle
      · exact hall b hb
  exact Nat.lt_succ_of_le ((hfold s.mutations 0).2 b hb)

/-- What is pending when the app is killed runs no callback any more. -/
theorem accounted_lost (h : Accounted s) :
    Accounted { s with
      mutationCallbacks := ∅
      lost := s.lost ++ s.mutations.map Batch.call } := by
  refine ⟨h.calls, h.split, fun key call => ?_, ?_, fun n hn => ?_⟩
  · rw [AList.lookup_empty]
    simp only [reduceCtorEq, false_iff]
    rintro ⟨r, hr, -, rfl, hkept⟩
    exact hkept (List.mem_append_right _ (List.mem_map_of_mem hr))
  · rw [h.completed]
    refine congrArg _ (List.filter_congr fun e he => ?_)
    rw [decide_eq_decide, not_iff_not, List.mem_append, iff_self_or]
    intro hpending
    obtain ⟨r, hr, hcall⟩ := List.mem_map.mp hpending
    exact absurd hcall.symm (not_pending h he hr)
  · rcases List.mem_append.mp hn with hn | hn
    · exact h.lost n hn
    · obtain ⟨r, hr, rfl⟩ := List.mem_map.mp hn
      have hmem : r.call ∈ s.written.map Batch.call :=
        List.mem_map_of_mem ((mem_written h r).mpr (.inr hr))
      rw [h.calls] at hmem
      exact List.mem_range.mp hmem

end Settling

end ChipChat.WritePipeline
