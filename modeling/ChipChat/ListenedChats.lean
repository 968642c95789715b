import ChipChat.ChatView
import ChipChat.ListenerEvents

/-!
# Chats over the listeners of a query

The listener of `Service.fetchMessages` runs through the changes of each snapshot it is
given. Over the events of any query listener it fills its array as `ChatView` says, the
result there being that of the view.
-/

namespace ChipChat.ListenedChats

open DocumentViews LabelledSystem QueryListeners

set_option autoImplicit false

/-- What `Auth` and the clock say while an event is processed. -/
structure Moment where
  currentUser : Option String
  now : Timestamp

/-- What the listener does with an event. -/
def receive (s : ChatView.State) (e : Moment × ViewSnapshot) : Option ChatView.State :=
  e.2.forEachChange.map fun changes =>
    changes.foldl (ChatView.State.change e.1.currentUser e.1.now) s

/-- The event as `ChatView` has it. -/
def delivery (e : Moment × ViewSnapshot) : ChatView.Action :=
  .delivered ⟨e.1.currentUser, e.1.now, result e.2.documents⟩

/-- The changes do not depend on the result that is kept beside the messages. -/
theorem foldl_change_result (currentUser : Option String) (now : Timestamp)
    (changes : List DocumentChange) (s : ChatView.State) (r : QueryResult) :
    changes.foldl (ChatView.State.change currentUser now) { s with result := r } =
      { changes.foldl (ChatView.State.change currentUser now) s with result := r } := by
  induction changes generalizing s with
  | nil => rfl
  | cons c changes ih => exact ih (ChatView.State.change currentUser now s c)

theorem simulates_chained {events : List (Moment × ViewSnapshot)} (s : ChatView.State)
    (h : Chained s.result (events.map Prod.snd)) (r : QueryResult) :
    ∃ t, runFrom ChatView.system s (events.map delivery) = some t ∧
      events.foldlM receive { s with result := r } = some { t with result := r } := by
  induction events generalizing s with
  | nil => exact ⟨s, rfl, rfl⟩
  | cons e events ih =>
    have hreceive : receive { s with result := r } e =
        some { s.deliver ⟨e.1.currentUser, e.1.now, result e.2.documents⟩ with result := r } := by
      rw [receive, h.1, Option.map_some, foldl_change_result]
      rfl
    obtain ⟨t, ht, hfold⟩ := ih (s.deliver ⟨e.1.currentUser, e.1.now, result e.2.documents⟩) h.2
    refine ⟨t, (runFrom_cons_iff _ s t (delivery e) _).mpr ⟨_, rfl, ht⟩, ?_⟩
    rw [List.foldlM_cons, hreceive]
    exact hfold

theorem result_deliveries {events : List (Moment × ViewSnapshot)} {t : ChatView.State}
    (ht : run ChatView.system (events.map delivery) = some t) :
    t.result = lastResult (events.map Prod.snd) := by
  induction events using List.reverseRecOn generalizing t with
  | nil =>
    cases ht
    rfl
  | append_singleton events e =>
    rw [List.map_append] at ht ⊢
    obtain ⟨u, -, hu⟩ := (run_snoc_iff _ t (events.map delivery) (delivery e)).mp ht
    rw [List.map_singleton, lastResult_concat]
    exact congrArg ChatView.State.result (Option.some.inj hu).symm

/-- Over the events of a query listener the array of a chat is that of a run of `ChatView`,
whose result is, from the first event on, that of the view. -/
theorem listened_chats {s : QueryListeners.State} {as : List QueryListeners.Action}
    (hrun : run QueryListeners.system as = some s) {l : QueryListener}
    (hl : l ∈ s.closed ++ s.listeners) {events : List (Moment × ViewSnapshot)}
    (hevents : events.map Prod.snd = l.events) :
    ∃ t, run ChatView.system (events.map delivery) = some t ∧
      (∃ chat, events.foldlM receive ChatView.initial = some chat ∧
        chat.accumulated = t.accumulated ∧ chat.messages = t.messages) ∧
      (l ∈ s.listeners → l.raisedInitialEvent →
        ∃ v, s.view = some v ∧ t.result.documents = (result v.documentSet).documents) := by
  have hchained : Chained ChatView.initial.result (events.map Prod.snd) := by
    rw [hevents]
    exact chained_run hrun l hl
  obtain ⟨t, ht, hfold⟩ := simulates_chained ChatView.initial hchained .empty
  refine ⟨t, ht, ⟨_, hfold, rfl, rfl⟩, fun hlistening hraised => ?_⟩
  obtain ⟨v, hv, hserved⟩ := served_run hrun l hlistening
  refine ⟨v, hv, ?_⟩
  rw [result_deliveries ht, hevents]
  exact hserved.raised hraised

def firstListener : QueryListener := listening.listeners.head (by decide)

/-- Ann is signed in while both messages come in. -/
def received : List (Moment × ViewSnapshot) := firstListener.events.map fun n => (⟨some "ann", 0⟩, n)

theorem listened_chats_session :
    received.length = 2 ∧ ∃ t, run ChatView.system (received.map delivery) = some t ∧
      ∃ v, listening.view = some v ∧ t.result.documents = (result v.documentSet).documents := by
  have hmem : firstListener ∈ listening.listeners := List.head_mem _
  have hevents : received.map Prod.snd = firstListener.events := by simp [received, Function.comp_def]
  obtain ⟨t, ht, -, hresult⟩ := listened_chats run_session (List.mem_append_right _ hmem) hevents
  exact ⟨by decide, t, ht, hresult hmem (by decide)⟩

end ChipChat.ListenedChats
