import ChipChat.LabelledSystem
import ChipChat.QuerySnapshots
import ChipChat.Service

/-!
# The listener behind `ChatController.messages`

The listener of `Service.fetchMessages` appends the additions of each snapshot to
the array it captured and hands that array to the controller; removals and
modifications are passed over.
-/

namespace ChipChat.ChatView

open LabelledSystem

set_option autoImplicit false

/-- A snapshot, with what `Auth` and the clock say while it is processed. -/
structure Snapshot where
  currentUser : Option String
  now : Timestamp
  result : QueryResult

/-- `accumulated` is the array captured in `Service.fetchMessages`, `messages` the controller's. -/
structure State where
  result : QueryResult
  accumulated : List Message
  messages : List Message

def initial : State := ⟨.empty, [], []⟩

inductive Action where
  | delivered (snapshot : Snapshot)
  | failed

namespace State

def change (currentUser : Option String) (now : Timestamp) (s : State)
    (change : DocumentChange) : State :=
  let (accumulated, handed) := Service.fetchMessagesChange currentUser now s.accumulated change
  { s with accumulated := accumulated, messages := handed.getD s.messages }

def deliver (s : State) (n : Snapshot) : State :=
  { (documentChanges s.result.documents n.result.documents).foldl
      (change n.currentUser n.now) s with result := n.result }

end State

def step (s : State) : Action → Option State
  | .delivered n => some (s.deliver n)
  | .failed => some s

def system : System State Action := ⟨initial, step⟩

/-- The additions of a snapshot, decoded. -/
def addedMessages (old : QueryResult) (n : Snapshot) : List Message :=
  (old.added n.result).map fun d => Message.ofDictionary n.currentUser n.now d.data

section Changes
variable (currentUser : Option String) (now : Timestamp)

theorem foldl_change_added (docs : List QueryDocument) (s : State) (h : s.messages = s.accumulated) :
    (docs.map (DocumentChange.mk .added)).foldl (State.change currentUser now) s =
      { s with
        accumulated := s.accumulated ++ docs.map fun d => Message.ofDictionary currentUser now d.data
        messages := s.accumulated ++
          docs.map fun d => Message.ofDictionary currentUser now d.data } := by
  induction docs generalizing s with
  | nil =>
    obtain ⟨result, accumulated, messages⟩ := s
    simp_all
  | cons d docs ih =>
    rw [List.map_cons, List.foldl_cons, ih]
    · simp [State.change, Service.fetchMessagesChange]
    · simp [State.change, Service.fetchMessagesChange]

theorem foldl_change_passed (type : DocumentChangeType) (h : type ≠ .added)
    (docs : List QueryDocument) (s : State) :
    (docs.map (DocumentChange.mk type)).foldl (State.change currentUser now) s = s := by
  induction docs with
  | nil => rfl
  | cons d docs ih =>
    rw [List.map_cons, List.foldl_cons]
    have hd : State.change currentUser now s ⟨type, d⟩ = s := by
      simp [State.change, Service.fetchMessagesChange, h]
    rw [hd, ih]

end Changes

theorem deliver_eq {s : State} (h : s.messages = s.accumulated) (n : Snapshot) :
    s.deliver n = ⟨n.result, s.accumulated ++ addedMessages s.result n,
      s.accumulated ++ addedMessages s.result n⟩ := by
  simp only [State.deliver, documentChanges, List.foldl_append]
  rw [foldl_change_passed _ _ .modified (by decide), foldl_change_passed _ _ .removed (by decide),
    foldl_change_added _ _ _ _ h]
  rfl

theorem step_cases {s t : State} {a : Action} (h : s.messages = s.accumulated)
    (ht : step s a = some t) :
    (∃ n, a = .delivered n ∧ t = ⟨n.result, s.messages ++ addedMessages s.result n,
      s.messages ++ addedMessages s.result n⟩) ∨ (a = .failed ∧ t = s) := by
  cases a with
  | delivered n =>
    have hn := Option.some.inj ht
    rw [deliver_eq h] at hn
    exact Or.inl ⟨n, rfl, by rw [← hn, h]⟩
  | failed => exact Or.inr ⟨rfl, (Option.some.inj ht).symm⟩

/-- What `f` yields for each snapshot of a run, given the result before it. -/
def collect {β : Type} (f : QueryResult → Snapshot → List β) : QueryResult → List Action → List β
  | _, [] => []
  | old, .delivered n :: as => f old n ++ collect f n.result as
  | old, .failed :: as => collect f old as

/-- What every run keeps: both arrays hold the additions in the order of their delivery. -/
theorem runFrom_messages {s t : State} {as : List Action} (h : s.messages = s.accumulated)
    (ht : runFrom system s as = some t) :
    t.messages = t.accumulated ∧ t.messages = s.messages ++ collect addedMessages s.result as := by
  induction as generalizing s with
  | nil =>
    cases ht
    exact ⟨h, by simp [collect]⟩
  | cons a as ih =>
    obtain ⟨u, hu, ht⟩ := (runFrom_cons_iff system s t a as).mp ht
    rcases step_cases h hu with ⟨n, rfl, rfl⟩ | ⟨rfl, rfl⟩
    · obtain ⟨hsame, hmessages⟩ := ih rfl ht
      exact ⟨hsame, by rw [hmessages, List.append_assoc]; rfl⟩
    · exact ih h ht

/-- An identifier is added once more than it has been removed exactly when it is in the result. -/
theorem documentIDs_collect (s : State) {t : State} {as : List Action}
    (hs : s.messages = s.accumulated) (ht : runFrom system s as = some t) :
    (documentIDs t.result.documents ++
        collect (fun old n => documentIDs (old.removed n.result)) s.result as).Perm
      (documentIDs s.result.documents ++
        collect (fun old n => documentIDs (old.added n.result)) s.result as) := by
  induction as generalizing s with
  | nil =>
    cases ht
    exact List.Perm.refl _
  | cons a as ih =>
    obtain ⟨u, hu, ht⟩ := (runFrom_cons_iff system s t a as).mp ht
    rcases step_cases hs hu with ⟨n, rfl, rfl⟩ | ⟨rfl, rfl⟩
    · have hn := QueryResult.documentIDs_perm s.result n.result
      have hrest := ih _ rfl ht
      simp only [collect] at hrest ⊢
      -- only the order of the four lists is at stake from here on
      generalize documentIDs t.result.documents = final at hrest ⊢
      generalize documentIDs (s.result.removed n.result) = gone at hn ⊢
      generalize collect _ n.result as = goneLater at hrest ⊢
      generalize collect _ n.result as = addedLater at hrest ⊢
      have hfront : (final ++ (gone ++ goneLater)).Perm (gone ++ (final ++ goneLater)) := by
        rw [← List.append_assoc, ← List.append_assoc]
        exact List.perm_append_comm.append_right goneLater
      have hback : (gone ++ (documentIDs n.result.documents ++ addedLater)).Perm
          (documentIDs s.result.documents ++
            (documentIDs (s.result.added n.result) ++ addedLater)) := by
        rw [← List.append_assoc, ← List.append_assoc]
        exact (List.perm_append_comm.trans hn).append_right addedLater
      exact hfront.trans ((hrest.append_left gone).trans hback)
    · exact ih _ hs ht

/-- The messages of a result, for the account that is signed in. -/
def decoded (currentUser : Option String) (now : Timestamp) (r : QueryResult) : List Message :=
  r.documents.map fun d => Message.ofDictionary currentUser now d.data

theorem ofDictionary_now {d : Dictionary} (h : (d.asTimestamp "timestamp").isSome)
    (currentUser : Option String) (now now' : Timestamp) :
    Message.ofDictionary currentUser now d = Message.ofDictionary currentUser now' d := by
  obtain ⟨t, ht⟩ := Option.isSome_iff_exists.mp h
  simp [Message.ofDictionary, ht]

theorem addedMessages_eq (old : QueryResult) (n : Snapshot) (now : Timestamp) :
    addedMessages old n =
      (old.added n.result).map fun d => Message.ofDictionary n.currentUser now d.data := by
  apply List.map_congr_left
  intro d hd
  exact ofDictionary_now (n.result.stamped d (List.mem_filter.mp hd).1) _ _ _

/-- The snapshot only adds documents, and `currentUser` is signed in. -/
def GrowsFor (currentUser : Option String) (s : State) : Action → Prop
  | .delivered n => s.result.Grows n.result ∧ n.currentUser = currentUser
  | .failed => True

/-- What the snapshot adds comes after all that was delivered before. -/
def AddsBehind (s : State) : Action → Prop
  | .delivered n => ∀ d ∈ s.result.documents, ∀ e ∈ s.result.added n.result, d.Precedes e
  | .failed => True

instance (currentUser : Option String) (s : State) : ∀ a, Decidable (GrowsFor currentUser s a)
  | .delivered _ => inferInstanceAs (Decidable (_ ∧ _))
  | .failed => isTrue trivial

instance (s : State) : ∀ a, Decidable (AddsBehind s a)
  | .delivered n => inferInstanceAs (Decidable (∀ d ∈ s.result.documents,
      ∀ e ∈ s.result.added n.result, d.Precedes e))
  | .failed => isTrue trivial

section Growing
variable {currentUser : Option String} {now : Timestamp} {s t : State} {a : Action}

theorem growing_step (h : s.messages = s.accumulated)
    (hdecoded : s.messages.Perm (decoded currentUser now s.result))
    (ha : GrowsFor currentUser s a) (ht : step s a = some t) :
    t.messages = t.accumulated ∧ t.messages.Perm (decoded currentUser now t.result) := by
  rcases step_cases h ht with ⟨n, rfl, rfl⟩ | ⟨rfl, rfl⟩
  · obtain ⟨hgrows, rfl⟩ := ha
    refine ⟨rfl, ?_⟩
    have hnew := (hgrows.perm.map fun d => Message.ofDictionary n.currentUser now d.data).symm
    rw [List.map_append] at hnew
    rw [addedMessages_eq s.result n now]
    exact (hdecoded.append_right _).trans hnew
  · exact ⟨h, hdecoded⟩

theorem appending_step (h : s.messages = s.accumulated)
    (hdecoded : s.messages = decoded currentUser now s.result)
    (ha : GrowsFor currentUser s a) (hbehind : AddsBehind s a) (ht : step s a = some t) :
    t.messages = t.accumulated ∧ t.messages = decoded currentUser now t.result := by
  rcases step_cases h ht with ⟨n, rfl, rfl⟩ | ⟨rfl, rfl⟩
  · obtain ⟨hgrows, rfl⟩ := ha
    refine ⟨rfl, ?_⟩
    rw [addedMessages_eq s.result n now, hdecoded, decoded, decoded, hgrows.eq_append hbehind,
      List.map_append]
  · exact ⟨h, hdecoded⟩

theorem growing_run {as : List Action} (hrun : run system as = some s)
    (has : StepsMeet system (GrowsFor currentUser) system.init as) :
    s.messages.Perm (decoded currentUser now s.result) :=
  (invariant_of_stepsMeet
    (I := fun s => s.messages = s.accumulated ∧
      s.messages.Perm (decoded currentUser now s.result))
    (fun s a t hs ha (ht : step s a = some t) => growing_step hs.1 hs.2 ha ht)
    ⟨rfl, List.Perm.nil⟩ has hrun).2

theorem appending_run {as : List Action} (hrun : run system as = some s)
    (has : StepsMeet system (GrowsFor currentUser) system.init as)
    (hbehind : StepsMeet system AddsBehind system.init as) :
    s.messages = decoded currentUser now s.result :=
  (invariant_of_stepsMeet
    (I := fun s => s.messages = s.accumulated ∧ s.messages = decoded currentUser now s.result)
    (fun s a t hs ha (ht : step s a = some t) => appending_step hs.1 hs.2 ha.1 ha.2 ht)
    ⟨rfl, rfl⟩ (stepsMeet_and has hbehind) hrun).2

end Growing

def document (id : String) (t : Timestamp) : QueryDocument :=
  ⟨id, [("fromID", .string "b"), ("toID", .string "a"), ("text", .string id),
    ("timestamp", .timestamp t)]⟩

def withLater : QueryResult :=
  ⟨[document "x" 2], by decide, by decide, by decide⟩

def withBoth : QueryResult :=
  ⟨[document "y" 1, document "x" 2], by decide, by decide, by decide⟩

/-- A message echoed locally is withdrawn when its write is rejected. -/
def withdrawal : List Action :=
  [.delivered ⟨some "a", 9, withLater⟩, .delivered ⟨some "a", 9, .empty⟩]

def afterWithdrawal : State := (run system withdrawal).get (by decide)

theorem not_chatReflectsThread :
    ¬ ∀ as s, run system as = some s →
      (∀ n, .delivered n ∈ as → n.currentUser = some "a") →
      s.messages = decoded (some "a") 0 s.result := by
  intro h
  have hgone := h withdrawal afterWithdrawal (Option.some_get _).symm (by
    intro n hn
    simp only [withdrawal, List.mem_cons, Action.delivered.injEq, List.not_mem_nil, or_false] at hn
    rcases hn with rfl | rfl <;> rfl)
  exact absurd hgone (by decide)

theorem chat_messages {s : State} {as : List Action} (hrun : run system as = some s) :
    s.messages.Perm (collect addedMessages .empty as) ∧
    (documentIDs s.result.documents ++
        collect (fun old n => documentIDs (old.removed n.result)) .empty as).Perm
      (collect (fun old n => documentIDs (old.added n.result)) .empty as) ∧
    ∀ currentUser, StepsMeet system (GrowsFor currentUser) system.init as →
      ∀ now, s.messages.Perm (decoded currentUser now s.result) ∧
        (StepsMeet system AddsBehind system.init as →
          s.messages = decoded currentUser now s.result) := by
  refine ⟨?_, ?_, ?_⟩
  · rw [(runFrom_messages rfl hrun).2]
    exact List.Perm.refl _
  · exact documentIDs_collect initial rfl hrun
  · intro currentUser has now
    exact ⟨growing_run hrun has, appending_run hrun has⟩

/-- Two messages that arrive in order. -/
def inOrder : List Action :=
  [.delivered ⟨some "a", 9, ⟨[document "y" 1], by decide, by decide, by decide⟩⟩,
   .delivered ⟨some "a", 9, withBoth⟩]

def afterInOrder : State := (run system inOrder).get (by decide)

theorem chat_messages_inOrder : afterInOrder.messages = decoded (some "a") 0 afterInOrder.result :=
  ((chat_messages (Option.some_get _).symm : _ ∧ _ ∧ _).2.2 (some "a")
    (by decide : StepsMeet system (GrowsFor (some "a")) system.init inOrder) 0).2 (by decide)

end ChipChat.ChatView
