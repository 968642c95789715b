import ChipChat.ConversationRuns

/-!
# What the listeners hand to the conversation list

Two views of the same runs. In the first the arrays of the listeners grow and each
completed lookup hands one of them over; in the second only the callbacks are left.
Neither asks which account is signed in or what the query delivered.
-/

open LabelledSystem

set_option autoImplicit false

namespace ChipChat

def Conversation.partner (c : Conversation) : String := c.message.chatPartnerID

/-- The last of `conversations` with `partner`. -/
def lastWith (conversations : List Conversation) (partner : String) : Option Conversation :=
  (conversations.filter fun c => decide (c.partner = partner)).getLast?

theorem lastWith_mem {conversations : List Conversation} {partner : String} {c : Conversation}
    (h : lastWith conversations partner = some c) : c ∈ conversations ∧ c.partner = partner := by
  simpa using List.mem_of_getLast? h

theorem lastWith_isSome_iff (conversations : List Conversation) (partner : String) :
    (lastWith conversations partner).isSome ↔ ∃ c ∈ conversations, c.partner = partner := by
  simp [lastWith]

theorem lastWith_append (old new : List Conversation) (partner : String) :
    lastWith (old ++ new) partner = (lastWith new partner).or (lastWith old partner) := by
  simp [lastWith, List.filter_append, List.getLast?_append]

theorem lastAt_filed_eq (conversations : List Conversation) (partner : String) :
    WriteLog.lastAt (ConversationList.filed conversations) partner =
      lastWith conversations partner := by
  rw [WriteLog.lastAt, ConversationList.filed, List.filter_map, List.getLast?_map, Option.map_map]
  exact Option.map_id'

/-- Ann's conversation with `partner`, whose message of that time came last. -/
def incoming (partner : String) (timestamp : Timestamp) : Conversation :=
  ⟨⟨"", "", partner, partner, ""⟩, ⟨"hi", "ann", partner, timestamp, false⟩⟩

end ChipChat

namespace ChipChat.Callbacks

open ConversationList (filed values)

/-- What the completion in `ConversationsController.fetchConversations` writes. -/
structure State where
  conversationsDictionary : WriteLog.Table String Conversation
  conversations : List Conversation

def initial : State := ⟨∅, []⟩

/-- A call of the completion, with the order in which the dictionary lists its values. -/
structure Callback where
  handed : List Conversation
  rows : List Conversation

def refiled (s : State) (handed : List Conversation) : WriteLog.Table String Conversation :=
  WriteLog.replayFrom s.conversationsDictionary (filed handed)

def step (s : State) (c : Callback) : Option State :=
  if c.rows.Perm (values (refiled s c.handed)) then some ⟨refiled s c.handed, c.rows⟩ else none

def system : System State Callback := ⟨initial, step⟩

theorem step_iff {s t : State} {c : Callback} :
    step s c = some t ↔
      c.rows.Perm (values (refiled s c.handed)) ∧ t = ⟨refiled s c.handed, c.rows⟩ := by
  rw [step, Option.ite_none_right_eq_some, Option.some.injEq, eq_comm (a := t)]

theorem lookup_refiled (s : State) (handed : List Conversation) (partner : String) :
    (refiled s handed).lookup partner =
      (lastWith handed partner).or (s.conversationsDictionary.lookup partner) := by
  rw [refiled, WriteLog.lookup_replayFrom, lastAt_filed_eq]

/-- What every run keeps: rows are the dictionary's values, filed under their partners. -/
structure Filed (s : State) : Prop where
  rows : s.conversations.Perm (values s.conversationsDictionary)
  keys : ∀ partner c, s.conversationsDictionary.lookup partner = some c → c.partner = partner

theorem filed_init : Filed initial := by
  constructor <;> simp [initial, values, WriteLog.pairs]

theorem filed_step {s t : State} {c : Callback} (h : Filed s) (ht : step s c = some t) :
    Filed t := by
  obtain ⟨hrows, rfl⟩ := step_iff.mp ht
  refine ⟨hrows, ?_⟩
  intro partner d hd
  rw [lookup_refiled, Option.or_eq_some_iff] at hd
  rcases hd with hd | ⟨-, hd⟩
  · exact (lastWith_mem hd).2
  · exact h.keys partner d hd

theorem mem_rows_iff {s : State} (h : Filed s) (c : Conversation) :
    c ∈ s.conversations ↔ s.conversationsDictionary.lookup c.partner = some c := by
  rw [h.rows.mem_iff, ConversationList.mem_values_iff]
  constructor
  · rintro ⟨partner, hc⟩
    rw [h.keys partner c hc]
    exact hc
  · exact fun hc => ⟨c.partner, hc⟩

/-- No two rows have the same partner. -/
theorem rows_partner_nodup {s : State} (h : Filed s) :
    (s.conversations.map Conversation.partner).Nodup := by
  have hkeys : (values s.conversationsDictionary).map Conversation.partner =
      (WriteLog.pairs s.conversationsDictionary).map Prod.fst := by
    rw [values, List.map_map]
    apply List.map_congr_left
    rintro ⟨partner, c⟩ hc
    exact h.keys partner c ((WriteLog.mem_pairs_iff _ _ _).mp hc)
  rw [(h.rows.map Conversation.partner).nodup_iff, hkeys]
  exact WriteLog.pairs_keys_nodup _

theorem filed_run {s : State} {as : List Callback} (hrun : run system as = some s) : Filed s :=
  invariant (S := system) filed_init (fun _ _ _ hs ht => filed_step hs ht) hrun

end ChipChat.Callbacks

namespace ChipChat.Listeners

/-- The array each listener has captured, and the controller they all call. -/
structure State where
  arrays : List (List Conversation)
  controller : Callbacks.State

def initial : State := ⟨[], Callbacks.initial⟩

/-- A further `fetchConversations`, or a lookup of the `i`-th listener that returns. -/
inductive Action where
  | listen
  | appended (i : Nat) (conversation : Conversation) (rows : List Conversation)

def step (s : State) : Action → Option State
  | .listen => some { s with arrays := s.arrays ++ [[]] }
  | .appended i c rows =>
      match s.arrays[i]? with
      | none => none
      | some array =>
        let conversations := Service.fetchConversationsLookup array c.message c.user
        (Callbacks.step s.controller ⟨conversations, rows⟩).map fun controller =>
          ⟨s.arrays.set i conversations, controller⟩

def system : System State Action := ⟨initial, step⟩

theorem step_cases {s t : State} {a : Action} (h : step s a = some t) :
    (a = .listen ∧ t = { s with arrays := s.arrays ++ [[]] }) ∨
    (∃ i array c rows, a = .appended i c rows ∧ s.arrays[i]? = some array ∧
      t.arrays = s.arrays.set i (array ++ [c]) ∧
      Callbacks.step s.controller ⟨array ++ [c], rows⟩ = some t.controller) := by
  cases a with
  | listen => exact Or.inl ⟨rfl, (Option.some.inj h).symm⟩
  | appended i c rows =>
    simp only [step] at h
    split at h
    · cases h
    · rename_i array harray
      obtain ⟨controller, hstep, rfl⟩ := Option.map_eq_some_iff.mp h
      exact Or.inr ⟨i, array, c, rows, rfl, harray, rfl, hstep⟩

/-- Each step is a callback of the controller, or none. -/
theorem callbacks_of_run {s : State} {as : List Action} (hrun : run system as = some s) :
    ∃ bs, run Callbacks.system bs = some s.controller := by
  refine run_simulates (f := State.controller) rfl ?_ hrun
  intro s a t ht
  rcases step_cases ht with ⟨-, rfl⟩ | ⟨i, array, c, rows, -, -, -, hstep⟩
  · exact Or.inl rfl
  · exact Or.inr ⟨⟨array ++ [c], rows⟩, hstep⟩

theorem filed_of_run {s : State} {as : List Action} (hrun : run system as = some s) :
    Callbacks.Filed s.controller := by
  obtain ⟨bs, hbs⟩ := callbacks_of_run hrun
  exact Callbacks.filed_run hbs

end ChipChat.Listeners

namespace ChipChat.ConversationList

/-- The arrays of the listeners and what the controller holds. -/
def State.listening (s : State) : Listeners.State :=
  ⟨s.listeners.map Listener.conversations, s.conversationsDictionary, s.conversations⟩

theorem map_set_result {listeners : List Listener} {i : Nat} {r : Listener}
    (hr : listeners[i]? = some r) (result : QueryResult) :
    (listeners.set i { r with result := result }).map Listener.conversations =
      listeners.map Listener.conversations := by
  obtain ⟨hi, rfl⟩ := List.getElem?_eq_some_iff.mp hr
  rw [List.map_set]
  apply List.ext_getElem
  · simp
  · intro k hk hk'
    by_cases hik : i = k
    · subst hik
      simp
    · simp [hik]

theorem found_appended {s : State} {j : Nat} {l : Lookup} {r : Listener} {user : User}
    {rows : List Conversation} (hr : s.listeners[l.listener]? = some r)
    (ha : Answer s l r user rows) :
    Listeners.step s.listening (.appended l.listener ⟨user, l.message⟩ rows) =
      some (s.found j l r user rows).listening := by
  have harray : s.listening.arrays[l.listener]? = some r.conversations := by
    simp [State.listening, hr]
  have hstep : Callbacks.step s.listening.controller
      ⟨Service.fetchConversationsLookup r.conversations l.message user, rows⟩ =
        some ⟨s.refiled (Service.fetchConversationsLookup r.conversations l.message user), rows⟩ :=
    Callbacks.step_iff.mpr ⟨ha.2, rfl⟩
  simp only [Listeners.step, harray, hstep, Option.map_some]
  simp [State.listening, State.found, List.map_set]

/-- Every run of the app is, for the controller, a run of its listeners. -/
theorem listeners_of_run {s : State} {as : List Action} (hrun : run system as = some s) :
    ∃ bs, run Listeners.system bs = some s.listening := by
  refine run_simulates (f := State.listening) rfl ?_ hrun
  intro s a t ht
  cases step_change ht with
  | signedIn | signedOut | nobody | failed | notFound => exact Or.inl rfl
  | listened uid hu =>
    refine Or.inr ⟨.listen, ?_⟩
    simp [Listeners.system, Listeners.step, State.listening, State.listen]
  | delivered i r now result hr =>
    refine Or.inl ?_
    simp only [State.listening, State.snapshot, map_set_result hr]
  | found j l r data user rows hl hsome hr ha =>
    exact Or.inr ⟨.appended l.listener ⟨user, l.message⟩ rows, found_appended hr ha⟩

/-- Whatever accounts come and go, the list never shows two rows of one partner. -/
theorem rows_partner_nodup_of_run {s : State} {as : List Action} (hrun : run system as = some s) :
    (s.conversations.map Conversation.partner).Nodup := by
  obtain ⟨bs, hbs⟩ := listeners_of_run hrun
  exact Callbacks.rows_partner_nodup (Listeners.filed_of_run hbs)

end ChipChat.ConversationList
