import ChipChat.ConversationCallbacks

/-!
# One listener replays its array

Each callback writes the whole array again into a dictionary that already holds all
of it but the last conversation. What is left is one fold over the array.
-/

namespace ChipChat.Listeners

open LabelledSystem

set_option autoImplicit false

/-- One listener, whose lookups complete with the given conversations and rows. -/
def oneListener (completions : List (Conversation × List Conversation)) : List Action :=
  .listen :: completions.map fun c => .appended 0 c.1 c.2

/-- The dictionary holds the last conversation of each partner in the only array. -/
structure Replayed (conversations : List Conversation) (s : State) : Prop where
  arrays : s.arrays = [conversations]
  dictionary : ∀ partner, s.controller.conversationsDictionary.lookup partner =
    lastWith conversations partner

theorem replayed_appended {conversations : List Conversation} {s t : State}
    (h : Replayed conversations s) {c : Conversation} {rows : List Conversation}
    (ht : step s (.appended 0 c rows) = some t) : Replayed (conversations ++ [c]) t := by
  rcases step_cases ht with ⟨hlisten, -⟩ | ⟨i, array, d, rows', heq, harray, harrays, hstep⟩
  · cases hlisten
  · cases heq
    rw [h.arrays] at harray harrays
    obtain rfl : conversations = array := Option.some.inj harray
    refine ⟨harrays, ?_⟩
    intro partner
    rw [(Callbacks.step_iff.mp hstep).2]
    -- the prefix is written over its own last conversations
    rw [Callbacks.lookup_refiled, h.dictionary, lastWith_append, Option.or_assoc, Option.or_self]

theorem replayed_run {completions : List (Conversation × List Conversation)} {s : State}
    (hrun : run system (oneListener completions) = some s) :
    Replayed (completions.map Prod.fst) s := by
  induction completions using List.reverseRecOn generalizing s with
  | nil =>
    cases hrun
    exact ⟨rfl, fun partner => rfl⟩
  | append_singleton completions c ih =>
    rw [oneListener, List.map_append, ← List.cons_append] at hrun
    obtain ⟨t, ht, hs⟩ := (run_snoc_iff system s _ _).mp hrun
    rw [List.map_append]
    exact replayed_appended (ih ht) hs

theorem repeated_replay {completions : List (Conversation × List Conversation)} {s : State}
    (hrun : run system (oneListener completions) = some s) :
    (∀ partner, s.controller.conversationsDictionary.lookup partner =
      lastWith (completions.map Prod.fst) partner) ∧
    (∀ partner, partner ∈ s.controller.conversationsDictionary ↔
      ∃ c ∈ completions.map Prod.fst, c.partner = partner) ∧
    (s.controller.conversations.map Conversation.partner).Nodup ∧
    ∀ c, c ∈ s.controller.conversations ↔
      lastWith (completions.map Prod.fst) c.partner = some c := by
  have hreplayed := replayed_run hrun
  have hfiled := filed_of_run hrun
  refine ⟨hreplayed.dictionary, ?_, Callbacks.rows_partner_nodup hfiled, ?_⟩
  · intro partner
    rw [← AList.lookup_isSome, hreplayed.dictionary, lastWith_isSome_iff]
  · intro c
    rw [Callbacks.mem_rows_iff hfiled, hreplayed.dictionary]

/-- Bob writes, then Eve, then Bob again. -/
def bobAndEve : List (Conversation × List Conversation) :=
  [(incoming "bob" 1, [incoming "bob" 1]),
   (incoming "eve" 2, [incoming "bob" 1, incoming "eve" 2]),
   (incoming "bob" 3, [incoming "eve" 2, incoming "bob" 3])]

def afterBobAndEve : State := (run system (oneListener bobAndEve)).get (by decide)

theorem repeated_replay_bob :
    afterBobAndEve.controller.conversationsDictionary.lookup "bob" = some (incoming "bob" 3) := by
  rw [(repeated_replay (s := afterBobAndEve) (Option.some_get _).symm).1]
  decide

end ChipChat.Listeners
