import ChipChat.WriteOutcomes

/-!
# Queues that are drained

However the streams have broken, as long as the network is enabled the stream and the backend
can go on by themselves until every write of the account is settled.
-/

namespace ChipChat.WritePipeline

open LabelledSystem

set_option autoImplicit false

/-- A step of the stream or of the backend. -/
def Delivers : Action → Prop
  | .onStreamStart | .onHandshakeComplete | .commit | .onMutationResult | .onStreamFinish _
  | .onBackoffElapsed => True
  | .writeMutations _ | .handleCredentialChange _ | .networkChanged | .enableNetwork | .disableNetwork
  | .relaunch | .commitOrphaned _ | .refuse _ | .onIdle => False

/-- Such steps lead from `s` to `t`. -/
def Delivered (s t : State) : Prop := ∃ as, (∀ a ∈ as, Delivers a) ∧ runFrom system s as = some t

/-- They have settled no write on the way. -/
structure Prepared (s t : State) : Prop where
  delivered : Delivered s t
  consistent : Consistent t
  user : t.user = s.user
  enabled : t.isNetworkEnabled = s.isNetworkEnabled
  settled : t.settled = s.settled
  mutations : t.mutations = s.mutations

section Delivering
variable {s t u : State} {a : Action}

theorem Delivered.refl (s : State) : Delivered s s := ⟨[], fun a ha => (by cases ha), rfl⟩

theorem Delivered.single (ha : Delivers a) (ht : step s a = some t) : Delivered s t := by
  refine ⟨[a], fun b hb => ?_, (runFrom_cons_iff system s t a []).mpr ⟨t, ht, rfl⟩⟩
  rw [List.mem_singleton.mp hb]
  exact ha

theorem Delivered.trans (hst : Delivered s t) (htu : Delivered t u) : Delivered s u := by
  obtain ⟨as, has, hs⟩ := hst
  obtain ⟨bs, hbs, ht⟩ := htu
  refine ⟨as ++ bs, fun a ha => ?_, (runFrom_append_iff system s u as bs).mpr ⟨t, hs, ht⟩⟩
  rcases List.mem_append.mp ha with ha | ha
  · exact has a ha
  · exact hbs a ha

theorem Prepared.refl (h : Consistent s) : Prepared s s :=
  ⟨.refl s, h, rfl, rfl, rfl, rfl⟩

theorem Prepared.trans (hst : Prepared s t) (htu : Prepared t u) : Prepared s u :=
  ⟨hst.delivered.trans htu.delivered, htu.consistent, htu.user.trans hst.user,
    htu.enabled.trans hst.enabled, htu.settled.trans hst.settled, htu.mutations.trans hst.mutations⟩

theorem Prepared.queue (h : Prepared s t) : t.queue = s.queue := by
  unfold State.queue
  rw [h.mutations, h.user]

theorem step_eq (ha : Possible s a) : step s a = handle s a := if_pos ha

theorem prepared_step (h : Consistent s) (hquiet : Quiet s a) (ha : Delivers a) (hpossible : Possible s a)
    (ht : handle s a = some t) : Prepared s t := by
  rw [← step_eq hpossible] at ht
  obtain ⟨hconsistent, heffect⟩ := consistent_step h ht
  refine ⟨.single ha ht, hconsistent, ?_, ?_, ?_, ?_⟩
  · rw [heffect.user, hquiet.user]
  · rw [heffect.enabled, hquiet.enabled]
  · rw [heffect.settled, hquiet.settles]
    exact List.append_nil _
  · rw [heffect.mutations, hquiet.writes, hquiet.settles, List.append_nil]
    exact List.filter_eq_self.mpr fun _ _ => rfl

end Delivering

section Connecting
variable {s : State}

theorem ready_of_opened (h : Consistent s) (hopen : s.stream.isOpen) :
    ∃ t, Prepared s t ∧ t.stream.ready := by
  by_cases hcomplete : s.stream.handshakeComplete
  · exact ⟨s, .refl h, (ready_iff h).mpr hcomplete⟩
  · refine ⟨s.onHandshakeComplete, prepared_step (a := .onHandshakeComplete) h ⟨rfl, rfl, rfl, rfl⟩ trivial
      ⟨hopen, hcomplete⟩ rfl, ?_⟩
    rw [onHandshakeComplete_eq h hopen hcomplete, WriteStream.ready, Bool.and_true]
    exact hopen

theorem ready_of_starting (h : Consistent s) (hstarting : s.stream.state = .starting) :
    ∃ t, Prepared s t ∧ t.stream.ready := by
  have hprepared : Prepared s { s with stream := ⟨.opened, false, false⟩ } :=
    prepared_step (a := .onStreamStart) h ⟨rfl, rfl, rfl, rfl⟩ trivial hstarting (onStreamStart_eq h hstarting)
  obtain ⟨t, ht, hready⟩ := ready_of_opened hprepared.consistent rfl
  exact ⟨t, hprepared.trans ht, hready⟩

theorem ready_of_backoff (h : Consistent s) (hbackoff : s.stream.state = .backoff) :
    ∃ t, Prepared s t ∧ t.stream.ready := by
  have hprepared : Prepared s { s with stream := { s.stream with state := .starting } } :=
    prepared_step (a := .onBackoffElapsed) h ⟨rfl, rfl, rfl, rfl⟩ trivial hbackoff rfl
  obtain ⟨t, ht, hready⟩ := ready_of_starting hprepared.consistent rfl
  exact ⟨t, hprepared.trans ht, hready⟩

theorem ready_of_started (h : Consistent s) (hstarted : s.stream.isStarted) :
    ∃ t, Prepared s t ∧ t.stream.ready := by
  rw [WriteStream.isStarted, Bool.or_eq_true, decide_eq_true_eq] at hstarted
  rcases hstarted with (hstarting | hbackoff) | hopen
  · exact ready_of_starting h hstarting
  · exact ready_of_backoff h hbackoff
  · exact ready_of_opened h hopen

end Connecting

section Draining
variable {s : State} {b : Batch} {rest : List Batch}

/-- A step that settles the first write of the queue leaves the others. -/
theorem drained_step {a : Action} {o : Outcome} (h : Consistent s) (hq : s.queue = b :: rest)
    (ha : Delivers a) (hpossible : Possible s a) (hkept : ¬ Abandons s a) (hwrites : writes s a = [])
    (huser : userAfter s a = s.user) (henabled : enabledAfter s a = s.isNetworkEnabled)
    (hsettles : settles s a = some (b, o)) : ∃ t, Delivered s t ∧ Consistent t ∧
      t.isNetworkEnabled = s.isNetworkEnabled ∧ t.queue = rest ∧ t.settled = s.settled ++ [(b, o)] := by
  obtain ⟨t, ht, hconsistent, heffect⟩ := consistent_handle h hpossible hkept
  rw [← step_eq hpossible] at ht
  refine ⟨t, .single ha ht, hconsistent, heffect.enabled.trans henabled, ?_, ?_⟩
  · rw [← queue_settle h.ordered hq o]
    unfold State.queue
    rw [heffect.mutations, mutations_settle h.ordered hq, hwrites, hsettles, List.append_nil,
      heffect.user, huser, settle_eq]
    rfl
  · rw [heffect.settled, hsettles]
    rfl

theorem head_of_queue (h : Consistent s) (henabled : s.isNetworkEnabled) (hq : s.queue = b :: rest) :
    s.writePipeline.head? = some b := by
  rw [h.full.pipeline, if_pos henabled, hq]
  rfl

/-- A response that is there is read. -/
theorem drained_of_responses (h : Consistent s) (henabled : s.isNetworkEnabled) (hq : s.queue = b :: rest)
    (hresponses : s.backend.responses ≠ []) : ∃ t, Delivered s t ∧ Consistent t ∧
      t.isNetworkEnabled = s.isNetworkEnabled ∧ t.queue = rest ∧ ∃ o, t.settled = s.settled ++ [(b, o)] := by
  have hsettles : settles s .onMutationResult = some (b, .stored) := by
    rw [settles, head_of_queue h henabled hq]
    rfl
  obtain ⟨t, hdelivered, hconsistent, hnetwork, hqueue, hsettled⟩ := drained_step h hq
    (a := .onMutationResult) trivial hresponses id rfl rfl rfl hsettles
  exact ⟨t, hdelivered, hconsistent, hnetwork, hqueue, _, hsettled⟩

/-- Else the first write is waiting at the backend, which commits it or has refused it. -/
theorem drained_of_ready (h : Consistent s) (henabled : s.isNetworkEnabled) (hq : s.queue = b :: rest)
    (hready : s.stream.ready) : ∃ t, Delivered s t ∧ Consistent t ∧
      t.isNetworkEnabled = s.isNetworkEnabled ∧ t.queue = rest ∧ ∃ o, t.settled = s.settled ++ [(b, o)] := by
  by_cases hresponses : s.backend.responses = []
  · have hhead := head_of_queue h henabled hq
    have hrequests : s.backend.requests ≠ [] := by
      rw [← h.connected.sent hready, hresponses, List.nil_append] at hhead
      intro hnil
      rw [hnil] at hhead
      cases hhead
    cases hrefusal : s.backend.refusal with
    | none =>
      have hprepared : Prepared s s.commit :=
        prepared_step (a := .commit) h ⟨rfl, rfl, rfl, rfl⟩ trivial ⟨hrequests, hrefusal⟩ rfl
      have hanswered : s.commit.backend.responses ≠ [] := by
        obtain ⟨r, requests, hr⟩ := List.exists_cons_of_ne_nil hrequests
        simp [State.commit, hr]
      obtain ⟨t, hdelivered, hconsistent, hnetwork, hqueue, o, hsettled⟩ :=
        drained_of_responses hprepared.consistent henabled hq hanswered
      exact ⟨t, hprepared.delivered.trans hdelivered, hconsistent, hnetwork, hqueue, o, hsettled⟩
    | some status =>
      have hpermanent := (h.answered.refusal status hrefusal).1
      have hopen : s.stream.isOpen := h.handshake ((ready_iff h).mp hready)
      have hkept : ¬ Abandons s (.onStreamFinish status) := by
        rintro ⟨rfl, -⟩
        cases hpermanent
      have hsettles : settles s (.onStreamFinish status) = some (b, .rejected) := by
        rw [settles, if_pos ⟨hready, hpermanent⟩, hhead]
        rfl
      obtain ⟨t, hdelivered, hconsistent, hnetwork, hqueue, hsettled⟩ := drained_step h hq
        (a := .onStreamFinish status) trivial (.inl hopen) hkept rfl rfl rfl hsettles
      exact ⟨t, hdelivered, hconsistent, hnetwork, hqueue, _, hsettled⟩
  · exact drained_of_responses h henabled hq hresponses

theorem drained_head (h : Consistent s) (henabled : s.isNetworkEnabled) (hq : s.queue = b :: rest) :
    ∃ t, Delivered s t ∧ Consistent t ∧ t.isNetworkEnabled = s.isNetworkEnabled ∧ t.queue = rest ∧
      ∃ o, t.settled = s.settled ++ [(b, o)] := by
  have hne : s.writePipeline ≠ [] := by
    intro hnil
    have hhead := head_of_queue h henabled hq
    rw [hnil] at hhead
    cases hhead
  obtain ⟨u, hprepared, hready⟩ := ready_of_started h (h.full.started henabled hne)
  obtain ⟨t, hdelivered, hconsistent, hnetwork, hqueue, o, hsettled⟩ :=
    drained_of_ready hprepared.consistent (hprepared.enabled.trans henabled)
      (hprepared.queue.trans hq) hready
  refine ⟨t, hprepared.delivered.trans hdelivered, hconsistent, hnetwork.trans hprepared.enabled, hqueue,
    o, ?_⟩
  rw [hsettled, hprepared.settled]

theorem drained (h : Consistent s) (henabled : s.isNetworkEnabled) : ∃ t, Delivered s t ∧ t.queue = [] ∧
    t.settled.map Prod.fst = s.settled.map Prod.fst ++ s.queue := by
  generalize hq : s.queue = queue
  induction queue generalizing s with
  | nil => exact ⟨s, .refl s, hq, (List.append_nil _).symm⟩
  | cons b rest ih =>
    obtain ⟨u, hdelivered, hconsistent, hnetwork, hqueue, o, hsettled⟩ := drained_head h henabled hq
    obtain ⟨t, hrest, hempty, hall⟩ := ih hconsistent (hnetwork.trans henabled) hqueue
    refine ⟨t, hdelivered.trans hrest, hempty, ?_⟩
    rw [hall, hsettled, List.map_append, List.append_assoc]
    rfl

end Draining

/-- From every state with the network enabled the queue of the account can be drained, in its
order, by the stream and the backend alone. -/
theorem writes_drain {s : State} {as : List Action} (hrun : run system as = some s)
    (henabled : s.isNetworkEnabled) :
    ∃ bs t, (∀ b ∈ bs, Delivers b) ∧ run system (as ++ bs) = some t ∧ t.queue = [] ∧
      t.settled.map Prod.fst = s.settled.map Prod.fst ++ s.queue := by
  obtain ⟨t, ⟨bs, hbs, hruns⟩, hempty, hsettled⟩ := drained (consistent_run hrun) henabled
  exact ⟨bs, t, hbs, (runFrom_append_iff system .initial t as bs).mpr ⟨s, hrun, hruns⟩, hempty, hsettled⟩

theorem writes_drain_outage : ∃ bs t, (∀ b ∈ bs, Delivers b) ∧ run system (outage ++ bs) = some t ∧
    t.queue = [] ∧ t.settled.map (fun e => e.1.mutation.key) = ["m1", "m2", "m4"] := by
  obtain ⟨bs, t, hbs, hrun, hempty, hsettled⟩ := writes_drain run_outage (by decide)
  refine ⟨bs, t, hbs, hrun, hempty, ?_⟩
  have hkeys := congrArg (List.map fun b : Batch => b.mutation.key) hsettled
  rw [List.map_map] at hkeys
  rw [show (fun e : Batch × Outcome => e.1.mutation.key) = (fun b : Batch => b.mutation.key) ∘ Prod.fst from rfl,
    hkeys]
  decide

end ChipChat.WritePipeline
