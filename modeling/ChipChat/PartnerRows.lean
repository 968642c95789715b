import ChipChat.SessionIsolation

/-! The rows of the conversation list over a whole run: one for each partner that a
lookup has been completed for, and none of them ever goes away. -/

namespace ChipChat.ConversationList

open LabelledSystem

set_option autoImplicit false

/-- A row is not dropped: its partner keeps one, with the same or a later message. -/
def Kept (s t : State) : Prop :=
  ∀ partner, (s.conversationsDictionary.lookup partner).isSome →
    (t.conversationsDictionary.lookup partner).isSome

theorem kept_step {s t : State} {a : Action} (ht : step s a = some t) : Kept s t := by
  cases step_change ht with
  | signedIn | signedOut | listened | nobody | delivered | failed | notFound =>
    exact fun _ hpartner => hpartner
  -- the dictionary is only ever assigned to
  | found =>
    intro partner hpartner
    simp [State.found, lookup_refiled, hpartner]

theorem kept_run {s t : State} {bs : List Action} (ht : runFrom system s bs = some t) : Kept s t := by
  refine related_of_stepsMeet (S := system) (fun _ _ h => h) (fun _ _ _ h h' p hp => h' p (h p hp))
    ((stepsMeet_true s bs).mono fun s a _ => ?_) ht
  exact fun t ht => kept_step ht

theorem partners_nodup {s : State} (h : WellFiled s) :
    (s.conversations.map fun c => c.message.chatPartnerID).Nodup := by
  rw [(h.rows.map _).nodup_iff, values, List.map_map]
  have hkeys : (WriteLog.pairs s.conversationsDictionary).map
      ((fun c : Conversation => c.message.chatPartnerID) ∘ Prod.snd) =
      (WriteLog.pairs s.conversationsDictionary).map Prod.fst := by
    apply List.map_congr_left
    rintro ⟨partner, c⟩ hc
    exact (h.keys partner c ((WriteLog.mem_pairs_iff _ _ _).mp hc)).symm
  rw [hkeys]
  exact WriteLog.pairs_keys_nodup _

/-- At any two points of a run, sign-outs and all: the rows of the later one have distinct
partners, each row is the message of a completed lookup and opens the thread with its partner,
and every partner who had a row at the earlier point still has one. -/
theorem partner_rows {s t : State} {as bs : List Action} (hs : run system as = some s)
    (ht : runFrom system s bs = some t) :
    (t.conversations.map fun c => c.message.chatPartnerID).Nodup ∧
    (∀ c ∈ t.conversations, (∃ l ∈ t.completed, l.message = c.message) ∧
      ∀ uid, Service.fetchMessages (some uid) c.user =
        some (threadCollection uid c.message.chatPartnerID)) ∧
    ∀ c ∈ s.conversations, ∃ c' ∈ t.conversations,
      c'.message.chatPartnerID = c.message.chatPartnerID := by
  have hst : run system (as ++ bs) = some t :=
    (runFrom_append_iff system system.init t as bs).mpr ⟨s, hs, ht⟩
  have hfiled : ∀ {u : State} {cs : List Action}, run system cs = some u → WellFiled u :=
    invariant wellFiled_init fun s a t h (ht : step s a = some t) => wellFiled_step h ht
  have hlookups : FromLookups t :=
    invariant fromLookups_init (fun s a t h (ht : step s a = some t) => fromLookups_step h ht) hst
  have hlater := hfiled hst
  refine ⟨partners_nodup hlater, ?_, ?_⟩
  · intro c hc
    obtain ⟨partner, hpartner⟩ := (mem_rows_iff hlater c).mp hc
    refine ⟨hlookups.filed partner c hpartner, ?_⟩
    intro uid
    rw [Service.fetchMessages, Option.map_some, hlater.users partner c hpartner]
  · intro c hc
    obtain ⟨partner, hpartner⟩ := (mem_rows_iff (hfiled hs) c).mp hc
    obtain ⟨c', hc'⟩ := Option.isSome_iff_exists.mp (kept_run ht partner (by rw [hpartner]; rfl))
    refine ⟨c', (mem_rows_iff hlater c').mpr ⟨partner, hc'⟩, ?_⟩
    rw [← hlater.keys partner c' hc', (hfiled hs).keys partner c hpartner]

/-- Bob's row is there for whoever signs in after Ann. -/
theorem partner_rows_switch :
    ∃ c ∈ afterSwitch.conversations, c.message.chatPartnerID = bobsRow.message.chatPartnerID := by
  obtain ⟨s, hs, ht⟩ := (runFrom_append_iff system system.init afterSwitch annsSession _).mp
    (Option.some_get _).symm
  have hrow : bobsRow ∈ s.conversations := by
    have heq : (run system annsSession).map State.conversations = some [bobsRow] := by decide
    rw [run, hs] at heq
    rw [Option.some.inj heq]
    exact List.mem_singleton.mpr rfl
  exact (partner_rows hs ht).2.2 bobsRow hrow

end ChipChat.ConversationList
