import ChipChat.ConversationCallbacks

/-!
# The order of the rows

The query behind the list orders by timestamp. The rows are the values of a
dictionary, which lists them in any order; two partners are enough to lose it.
-/

namespace ChipChat.Callbacks

open LabelledSystem
open ConversationList (filed values)

set_option autoImplicit false

def SortedByTimestamp (conversations : List Conversation) : Prop :=
  conversations.Pairwise fun c d => c.message.timestamp ≤ d.message.timestamp

def DistinctTimestamps (conversations : List Conversation) : Prop :=
  ∀ c ∈ conversations, ∀ d ∈ conversations,
    c.message.timestamp = d.message.timestamp → c.message = d.message

/-- Whatever order the dictionary picks after each of the callbacks, the rows are in
the query's order, and no two choices leave different rows. -/
structure KeepsQueryOrder (callbacks : List (List Conversation)) : Prop where
  sorted : ∀ as s, as.map Callback.handed <+: callbacks → run system as = some s →
    SortedByTimestamp s.conversations
  same : ∀ as bs s t, as.map Callback.handed <+: callbacks →
    bs.map Callback.handed = as.map Callback.handed → run system as = some s →
      run system bs = some t → s.conversations = t.conversations

/-- The dictionary is one log of all that was handed over. -/
theorem dictionary_run {s : State} {as : List Callback} (hrun : run system as = some s) :
    s.conversationsDictionary = WriteLog.replay (filed (as.map Callback.handed).flatten) := by
  induction as using List.reverseRecOn generalizing s with
  | nil =>
    cases hrun
    rfl
  | append_singleton as c ih =>
    obtain ⟨t, ht, hs⟩ := (run_snoc_iff system s as c).mp hrun
    rw [(step_iff.mp hs).2]
    simp only [refiled, ih ht, WriteLog.replay]
    rw [← WriteLog.replayFrom_append]
    simp [filed]

theorem lookup_run {s : State} {as : List Callback} (hrun : run system as = some s)
    (partner : String) : s.conversationsDictionary.lookup partner =
      lastWith (as.map Callback.handed).flatten partner := by
  rw [dictionary_run hrun, WriteLog.lookup_replay, lastAt_filed_eq]

theorem mem_handed_of_row {s : State} {as : List Callback} (hrun : run system as = some s)
    {c : Conversation} (hc : c ∈ s.conversations) : c ∈ (as.map Callback.handed).flatten := by
  have hlookup := (mem_rows_iff (filed_run hrun) c).mp hc
  rw [lookup_run hrun] at hlookup
  exact (lastWith_mem hlookup).1

theorem rows_perm_run {s : State} {as : List Callback} (hrun : run system as = some s) :
    s.conversations.Perm (values (WriteLog.replay (filed (as.map Callback.handed).flatten))) :=
  dictionary_run hrun ▸ (filed_run hrun).rows

/-- Every order of the final values is the outcome of some run. -/
theorem exists_run (callbacks : List (List Conversation)) (hne : callbacks ≠ [])
    {rows : List Conversation}
    (hrows : rows.Perm (values (WriteLog.replay (filed callbacks.flatten)))) :
    ∃ as s, as.map Callback.handed = callbacks ∧ run system as = some s ∧
      s.conversations = rows := by
  induction callbacks using List.reverseRecOn generalizing rows with
  | nil => exact absurd rfl hne
  | append_singleton callbacks handed ih =>
    have hbefore : ∃ as s, as.map Callback.handed = callbacks ∧ run system as = some s := by
      by_cases hnil : callbacks = []
      · exact ⟨[], initial, hnil.symm, rfl⟩
      · obtain ⟨as, s, has, hs, -⟩ := ih hnil (List.Perm.refl _)
        exact ⟨as, s, has, hs⟩
    obtain ⟨as, s, has, hs⟩ := hbefore
    have hdictionary : refiled s handed =
        WriteLog.replay (filed (callbacks ++ [handed]).flatten) := by
      rw [refiled, dictionary_run hs, has, WriteLog.replay, ← WriteLog.replayFrom_append]
      simp [WriteLog.replay, filed]
    refine ⟨as ++ [⟨handed, rows⟩], ⟨refiled s handed, rows⟩, by simp [has], ?_, rfl⟩
    refine (run_snoc_iff system _ as _).mpr ⟨s, hs, step_iff.mpr ⟨?_, rfl⟩⟩
    rw [hdictionary]
    exact hrows

theorem handed_mem_of_prefix {callbacks : List (List Conversation)} {as : List Callback}
    (hinitial : as.map Callback.handed <+: callbacks) {c : Conversation}
    (hc : c ∈ (as.map Callback.handed).flatten) : c ∈ callbacks.flatten := by
  obtain ⟨rest, rfl⟩ := hinitial
  rw [List.flatten_append]
  exact List.mem_append_left _ hc

/-- Rows that list the same values in the query's order are the same rows. -/
theorem sorted_rows_eq {rows rows' : List Conversation} (hperm : rows.Perm rows')
    (hdistinct : DistinctTimestamps rows) (hpartner : (rows.map Conversation.partner).Nodup)
    (hrows : SortedByTimestamp rows) (hrows' : SortedByTimestamp rows') : rows = rows' := by
  apply hperm.eq_of_pairwise ?_ hrows hrows'
  intro c d hc hd hle hge
  have hd := hperm.mem_iff.mpr hd
  have hmessage := hdistinct c hc d hd (le_antisymm hle hge)
  exact List.inj_on_of_nodup_map hpartner hc hd (congrArg Message.chatPartnerID hmessage)

/-- Values that are in order both ways round have one partner. -/
theorem partner_eq_of_sorted_reverse {rows : List Conversation} (hdistinct : DistinctTimestamps rows)
    (hrows : SortedByTimestamp rows) (hreverse : SortedByTimestamp rows.reverse) :
    ∀ c ∈ rows, ∀ d ∈ rows, c.partner = d.partner := by
  have hle : ∀ c ∈ rows, ∀ d ∈ rows, c.message.timestamp ≤ d.message.timestamp :=
    List.Pairwise.forall_of_forall_of_flip (fun c _ => le_rfl) hrows
      (List.pairwise_reverse.mp hreverse)
  intro c hc d hd
  exact congrArg Message.chatPartnerID
    (hdistinct c hc d hd (le_antisymm (hle c hc d hd) (hle d hd c hc)))

theorem sorted_of_one_partner {rows : List Conversation}
    (hpartner : (rows.map Conversation.partner).Nodup)
    (hone : ∀ c ∈ rows, ∀ d ∈ rows, c.partner = d.partner) : SortedByTimestamp rows := by
  refine (List.pairwise_map.mp hpartner).imp_of_mem ?_
  intro c d hc hd hne
  exact absurd (hone c hc d hd) hne

theorem one_partner_of_keepsQueryOrder {callbacks : List (List Conversation)}
    (hdistinct : DistinctTimestamps callbacks.flatten) (h : KeepsQueryOrder callbacks) :
    ∀ c ∈ callbacks.flatten, ∀ d ∈ callbacks.flatten, c.partner = d.partner := by
  by_cases hne : callbacks = []
  · subst hne
    simp
  -- one run for the values as they come, one for the same values reversed
  · obtain ⟨as, s, has, hs, hrows⟩ := exists_run callbacks hne (List.Perm.refl _)
    obtain ⟨bs, t, hbs, ht, hreverse⟩ := exists_run callbacks hne (List.reverse_perm _)
    have hsorted := h.sorted as s (has ▸ List.prefix_refl _) hs
    have hsorted' := h.sorted bs t (hbs ▸ List.prefix_refl _) ht
    rw [hreverse, ← hrows] at hsorted'
    have hmem : ∀ c ∈ s.conversations, c ∈ callbacks.flatten :=
      fun c hc => has ▸ mem_handed_of_row hs hc
    have hpartner := partner_eq_of_sorted_reverse
      (fun c hc d hd => hdistinct c (hmem c hc) d (hmem d hd)) hsorted hsorted'
    have hrow : ∀ c ∈ callbacks.flatten, ∃ e ∈ s.conversations, e.partner = c.partner := by
      intro c hc
      obtain ⟨e, he⟩ := Option.isSome_iff_exists.mp
        ((lastWith_isSome_iff callbacks.flatten c.partner).mpr ⟨c, hc, rfl⟩)
      refine ⟨e, ?_, (lastWith_mem he).2⟩
      rw [mem_rows_iff (filed_run hs), lookup_run hs, has, (lastWith_mem he).2]
      exact he
    intro c hc d hd
    obtain ⟨e, he, hec⟩ := hrow c hc
    obtain ⟨f, hf, hfd⟩ := hrow d hd
    rw [← hec, ← hfd]
    exact hpartner e he f hf

theorem keepsQueryOrder_of_one_partner {callbacks : List (List Conversation)}
    (hdistinct : DistinctTimestamps callbacks.flatten)
    (hone : ∀ c ∈ callbacks.flatten, ∀ d ∈ callbacks.flatten, c.partner = d.partner) :
    KeepsQueryOrder callbacks := by
  have hsorted : ∀ as s, as.map Callback.handed <+: callbacks → run system as = some s →
      SortedByTimestamp s.conversations := by
    intro as s hinitial hs
    have hmem : ∀ c ∈ s.conversations, c ∈ callbacks.flatten :=
      fun c hc => handed_mem_of_prefix hinitial (mem_handed_of_row hs hc)
    exact sorted_of_one_partner (rows_partner_nodup (filed_run hs))
      fun c hc d hd => hone c (hmem c hc) d (hmem d hd)
  refine ⟨hsorted, ?_⟩
  intro as bs s t hinitial hsame hs ht
  have hperm : s.conversations.Perm t.conversations :=
    (rows_perm_run hs).trans (hsame ▸ rows_perm_run ht).symm
  have hmem : ∀ c ∈ s.conversations, c ∈ callbacks.flatten :=
    fun c hc => handed_mem_of_prefix hinitial (mem_handed_of_row hs hc)
  exact sorted_rows_eq hperm (fun c hc d hd => hdistinct c (hmem c hc) d (hmem d hd))
    (rows_partner_nodup (filed_run hs)) (hsorted as s hinitial hs)
    (hsorted bs t (hsame ▸ hinitial) ht)

def bobThenEve : List Callback :=
  [⟨[incoming "bob" 1], [incoming "bob" 1]⟩,
   ⟨[incoming "bob" 1, incoming "eve" 2], [incoming "eve" 2, incoming "bob" 1]⟩]

def eveOnTop : State := (run system bobThenEve).get (by decide)

theorem not_keepsQueryOrder :
    ¬ ∀ callbacks : List (List Conversation), DistinctTimestamps callbacks.flatten →
      KeepsQueryOrder callbacks := by
  intro h
  have hkeeps := h (bobThenEve.map Callback.handed) (by unfold DistinctTimestamps; decide)
  have hsorted := hkeeps.sorted bobThenEve eveOnTop (List.prefix_refl _) (Option.some_get _).symm
  exact absurd hsorted (by unfold SortedByTimestamp; decide)

theorem row_order {callbacks : List (List Conversation)}
    (hdistinct : DistinctTimestamps callbacks.flatten) :
    KeepsQueryOrder callbacks ↔
      ∀ c ∈ callbacks.flatten, ∀ d ∈ callbacks.flatten, c.partner = d.partner :=
  ⟨one_partner_of_keepsQueryOrder hdistinct, keepsQueryOrder_of_one_partner hdistinct⟩

theorem row_order_bob : KeepsQueryOrder [[incoming "bob" 1], [incoming "bob" 1, incoming "bob" 2]] :=
  (row_order (by unfold DistinctTimestamps; decide)).mpr (by decide)

end ChipChat.Callbacks
