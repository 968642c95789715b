import ChipChat.ConversationRuns

/-!
# Which account a row belongs to

`chatPartnerID` was computed for whoever was signed in when the message was
decoded. The rows are those of the account now signed in when all that was loaded came
in its own session, in documents that name it.
-/

namespace ChipChat

set_option autoImplicit false

def Message.otherParticipant (m : Message) (u : String) : String :=
  if m.fromID = u then m.toID else m.fromID

/-- `u` is the sender or the recipient. -/
def Dictionary.HasParticipant (d : Dictionary) (u : String) : Prop :=
  d.asString "fromID" = some u ∨ d.asString "toID" = some u

instance (d : Dictionary) (u : String) : Decidable (d.HasParticipant u) :=
  inferInstanceAs (Decidable (_ ∨ _))

/-- Decoded in the session of a participant, a message has the other one as its partner. -/
theorem ofDictionary_of_participant {d : Dictionary} {u : String} (h : d.HasParticipant u) (now : Timestamp) :
    let m := Message.ofDictionary (some u) now d
    (m.fromID = u ∨ m.toID = u) ∧ m.chatPartnerID = m.otherParticipant u := by
  simp only [Message.ofDictionary, Message.chatPartnerID, Message.otherParticipant,
    Option.some.injEq, decide_eq_true_eq, and_true]
  exact h.imp (fun hfrom => by rw [hfrom]; rfl) fun hto => by rw [hto]; rfl

end ChipChat

namespace ChipChat.ConversationList

open LabelledSystem

set_option autoImplicit false

/-- `c` is a conversation of `u`, filed under the other participant and no other key. -/
structure IsConversationOf (s : State) (u : String) (c : Conversation) : Prop where
  participant : c.message.fromID = u ∨ c.message.toID = u
  key : ∀ partner, s.conversationsDictionary.lookup partner = some c ↔
    partner = c.message.otherParticipant u
  user : c.user.uid = c.message.otherParticipant u

def SessionIsolated (s : State) : Prop :=
  ∀ u, s.currentUser = some u → ∀ c ∈ s.conversations, IsConversationOf s u c

/-- The snapshot that started the lookup came while `u` was signed in, and its document
names `u`. -/
def LoadedBy (u : String) (l : Lookup) : Prop :=
  l.currentUser = some u ∧ l.change.document.data.HasParticipant u

instance (u : String) (l : Lookup) : Decidable (LoadedBy u l) := inferInstanceAs (Decidable (_ ∧ _))

/-- An account signs in only when all lookups that have returned a user were its own, and
while it is signed in only lookups of its own do. -/
def OwnLookups (s : State) : Action → Prop
  | .signIn u => ∀ l ∈ s.completed, LoadedBy u l
  | .lookupReturned j data _ =>
      data ≠ none → ∀ u ∈ s.currentUser, ∀ l ∈ s.lookups[j]?, LoadedBy u l
  | _ => True

instance (s : State) : ∀ a, Decidable (OwnLookups s a)
  | .signIn u => inferInstanceAs (Decidable (∀ l ∈ s.completed, LoadedBy u l))
  | .lookupReturned .. => inferInstanceAs (Decidable (_ → _))
  | .signOut | .fetchConversations | .snapshot .. | .failed _ => isTrue trivial

/-- Every conversation that is filed or waits in an array was made by a completed lookup. -/
structure FromLookups (s : State) : Prop where
  filed : ∀ partner c, s.conversationsDictionary.lookup partner = some c →
    ∃ l ∈ s.completed, l.message = c.message
  arrays : ∀ r ∈ s.listeners, ∀ c ∈ r.conversations, ∃ l ∈ s.completed, l.message = c.message

section Lookups
variable {s t : State} {a : Action}

theorem fromLookups_init : FromLookups initial := by
  constructor <;> simp [initial]

theorem fromLookups_found (h : FromLookups s) {j : Nat} {l : Lookup} {r : Listener} {user : User}
    {rows : List Conversation} (hr : s.listeners[l.listener]? = some r) :
    FromLookups (s.found j l r user rows) := by
  have handed : ∀ c ∈ Service.fetchConversationsLookup r.conversations l.message user,
      ∃ k ∈ (s.found j l r user rows).completed, k.message = c.message := by
    intro c hc
    rcases List.mem_append.mp hc with hc | hc
    · obtain ⟨k, hk, hmessage⟩ := h.arrays r (List.mem_of_getElem? hr) c hc
      exact ⟨k, List.mem_append_left _ hk, hmessage⟩
    · rw [List.mem_singleton.mp hc]
      exact ⟨l, List.mem_append_right _ (List.mem_singleton.mpr rfl), rfl⟩
  constructor
  · intro partner c hc
    simp only [State.found, lookup_refiled, Option.or_eq_some_iff] at hc
    rcases hc with hc | ⟨-, hc⟩
    · exact handed c (lastAt_filed hc).2
    · obtain ⟨k, hk, hmessage⟩ := h.filed partner c hc
      exact ⟨k, List.mem_append_left _ hk, hmessage⟩
  · intro q hq c hc
    rcases List.mem_or_eq_of_mem_set hq with hq | rfl
    · obtain ⟨k, hk, hmessage⟩ := h.arrays q hq c hc
      exact ⟨k, List.mem_append_left _ hk, hmessage⟩
    · exact handed c hc

theorem fromLookups_step (h : FromLookups s) (ht : step s a = some t) : FromLookups t := by
  cases step_change ht with
  | signedIn | signedOut | notFound => exact ⟨h.filed, h.arrays⟩
  | nobody | failed => exact h
  | listened uid hu =>
    refine ⟨h.filed, ?_⟩
    intro q hq c hc
    rcases List.mem_append.mp hq with hq | hq
    · exact h.arrays q hq c hc
    · rw [List.mem_singleton.mp hq] at hc
      cases hc
  | delivered i r now result hr =>
    refine ⟨h.filed, ?_⟩
    intro q hq c hc
    rcases List.mem_or_eq_of_mem_set hq with hq | rfl
    · exact h.arrays q hq c hc
    · exact h.arrays r (List.mem_of_getElem? hr) c hc
  | found j l r data user rows hl hsome hr ha => exact fromLookups_found h hr

end Lookups

/-- The message of a lookup was decoded for whoever was signed in when its snapshot came. -/
def Decoded (s : State) : Prop :=
  ∀ l ∈ s.lookups ++ s.completed,
    ∃ now, l.message = Message.ofDictionary l.currentUser now l.change.document.data

theorem decoded_step {s t : State} {a : Action} (h : Decoded s) (ht : step s a = some t) :
    Decoded t := by
  intro k hk
  cases step_change ht with
  | signedIn | signedOut | listened | nobody | failed => exact h k hk
  | delivered i r now result hr =>
    rcases List.mem_append.mp hk with hk | hk
    · rcases List.mem_append.mp hk with hk | hk
      · exact h k (List.mem_append_left _ hk)
      · obtain ⟨change, -, rfl⟩ := List.mem_map.mp hk
        exact ⟨now, rfl⟩
    · exact h k (List.mem_append_right _ hk)
  | notFound j l data rows hl hnone =>
    rcases List.mem_append.mp hk with hk | hk
    · exact h k (List.mem_append_left _ (List.mem_of_mem_eraseIdx hk))
    · exact h k (List.mem_append_right _ hk)
  | found j l r data user rows hl hsome hr ha =>
    rcases List.mem_append.mp hk with hk | hk
    · exact h k (List.mem_append_left _ (List.mem_of_mem_eraseIdx hk))
    · rcases List.mem_append.mp hk with hk | hk
      · exact h k (List.mem_append_right _ hk)
      · rw [List.mem_singleton.mp hk]
        exact h l (List.mem_append_left _ (List.mem_of_getElem? hl))

/-- All that was loaded belongs to the account that is signed in. -/
structure OwnSession (s : State) : Prop where
  filed : WellFiled s
  lookups : FromLookups s
  decoded : Decoded s
  own : ∀ u ∈ s.currentUser, ∀ l ∈ s.completed, LoadedBy u l

theorem ownSession_init : OwnSession initial :=
  ⟨wellFiled_init, fromLookups_init, fun _ hl => absurd hl List.not_mem_nil,
    fun _ hu => by cases hu⟩

theorem ownSession_step {s t : State} {a : Action} (h : OwnSession s) (ha : OwnLookups s a)
    (ht : step s a = some t) : OwnSession t := by
  refine ⟨wellFiled_step h.filed ht, fromLookups_step h.lookups ht, decoded_step h.decoded ht, ?_⟩
  cases step_change ht with
  | signedIn uid =>
    intro u hu
    obtain rfl := Option.some.inj hu
    exact ha
  | signedOut => exact fun u hu => by cases hu
  | listened | nobody | delivered | failed | notFound => exact h.own
  | found j l r data user rows hl hsome hr hanswer =>
    intro u hu k hk
    rcases List.mem_append.mp hk with hk | hk
    · exact h.own u hu k hk
    · rw [List.mem_singleton.mp hk]
      have hdata : data ≠ none := by
        rintro rfl
        cases hsome
      exact ha hdata u hu l hl

theorem OwnSession.isolated {s : State} (h : OwnSession s) : SessionIsolated s := by
  intro u hu c hc
  obtain ⟨partner, hpartner⟩ := (mem_rows_iff h.filed c).mp hc
  have hkey := h.filed.keys partner c hpartner
  obtain ⟨l, hl, hmessage⟩ := h.lookups.filed partner c hpartner
  obtain ⟨now, hdecoded⟩ := h.decoded l (List.mem_append_right _ hl)
  obtain ⟨hsession, hnamed⟩ := h.own u hu l hl
  obtain ⟨hparticipant, hother⟩ := ofDictionary_of_participant hnamed now
  rw [← hsession, ← hdecoded, hmessage] at hparticipant hother
  refine ⟨hparticipant, ?_, (h.filed.users partner c hpartner).trans hother⟩
  intro k
  rw [← hother]
  constructor
  · exact h.filed.keys k c
  · rintro rfl
    exact hkey ▸ hpartner

/-- Ann signs in, loads her conversation with Bob, and signs out. -/
def annsSession : List Action :=
  [.signIn "ann", .fetchConversations,
   .snapshot 0 0 withBob,
   .lookupReturned 0 (some bobsDocument) [bobsRow], .signOut]

def afterSwitch : State := (run system (annsSession ++ [.signIn "eve"])).get (by decide)

theorem not_sessionIsolated : ¬ ∀ as s, run system as = some s → SessionIsolated s := by
  intro h
  have hswitch := h (annsSession ++ [.signIn "eve"]) afterSwitch (Option.some_get _).symm "eve"
    (by decide) bobsRow (by decide)
  exact absurd hswitch.participant (by decide)

theorem session_isolation {as : List Action} (hown : StepsMeet system OwnLookups system.init as) :
    Throughout system SessionIsolated system.init as :=
  throughout_of_stepsMeet (I := OwnSession)
    (fun s a t hs ha (ht : step s a = some t) => ownSession_step hs ha ht)
    (fun _ hs => hs.isolated) ownSession_init hown

theorem session_isolation_return :
    Throughout system SessionIsolated system.init (annsSession ++ [.signIn "ann"]) :=
  session_isolation (by decide)

end ChipChat.ConversationList
