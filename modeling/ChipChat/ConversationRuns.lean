import ChipChat.LabelledSystem
import ChipChat.QuerySnapshots
import ChipChat.Service

/-!
# The conversation list of one app process

`ConversationsController` files every conversation its listeners hand over in a
dictionary that outlives sign-outs; listeners and lookups once started stay. The
rows are the dictionary's values, in whichever order it lists them.
-/

namespace ChipChat.ConversationList

open LabelledSystem

set_option autoImplicit false

/-- A listener of `Service.fetchConversations`, with the result last delivered to
it and the array it captured. -/
structure Listener where
  query : CollectionReference
  result : QueryResult
  conversations : List Conversation

/-- A running `fetchUser`, with the change it was started for and who was signed in then. -/
structure Lookup where
  listener : Nat
  change : DocumentChange
  message : Message
  currentUser : Option String
  deriving DecidableEq, Repr

/-- `completed` records the lookups that returned a user, in order. -/
structure State where
  currentUser : Option String
  listeners : List Listener
  lookups : List Lookup
  completed : List Lookup
  conversationsDictionary : WriteLog.Table String Conversation
  conversations : List Conversation

def initial : State := ⟨none, [], [], [], ∅, []⟩

inductive Action where
  | signIn (uid : String)
  | signOut
  | fetchConversations
  | snapshot (i : Nat) (now : Timestamp) (result : QueryResult)
  | failed (i : Nat)
  | lookupReturned (j : Nat) (data : Option Dictionary) (rows : List Conversation)

/-- The assignments of the loop in `ConversationsController.fetchConversations`. -/
def filed (conversations : List Conversation) : List (String × Conversation) :=
  conversations.map fun c => (c.message.chatPartnerID, c)

def values (dictionary : WriteLog.Table String Conversation) : List Conversation :=
  (WriteLog.pairs dictionary).map Prod.snd

namespace State

def listen (s : State) (query : CollectionReference) : State :=
  { s with listeners := s.listeners ++ [⟨query, .empty, []⟩] }

def snapshot (s : State) (i : Nat) (r : Listener) (now : Timestamp) (result : QueryResult) :
    State :=
  { s with
    listeners := s.listeners.set i { r with result := result }
    lookups := s.lookups ++ (documentChanges r.result.documents result.documents).map fun change =>
      ⟨i, change, Service.fetchConversationsChange s.currentUser now change, s.currentUser⟩ }

def notFound (s : State) (j : Nat) : State := { s with lookups := s.lookups.eraseIdx j }

/-- The dictionary after the controller has been handed `conversations`. -/
def refiled (s : State) (conversations : List Conversation) : WriteLog.Table String Conversation :=
  WriteLog.replayFrom s.conversationsDictionary (filed conversations)

def found (s : State) (j : Nat) (l : Lookup) (r : Listener) (user : User)
    (rows : List Conversation) : State :=
  let conversations := Service.fetchConversationsLookup r.conversations l.message user
  { s with
    listeners := s.listeners.set l.listener { r with conversations := conversations }
    lookups := s.lookups.eraseIdx j
    completed := s.completed ++ [l]
    conversationsDictionary := s.refiled conversations
    conversations := rows }

end State

/-- A users document carries its own identifier, and the rows list the new dictionary. -/
def Answer (s : State) (l : Lookup) (r : Listener) (user : User) (rows : List Conversation) : Prop :=
  user.uid = l.message.chatPartnerID ∧
    rows.Perm
      (values (s.refiled (Service.fetchConversationsLookup r.conversations l.message user)))

instance (s : State) (l : Lookup) (r : Listener) (user : User) (rows : List Conversation) :
    Decidable (Answer s l r user rows) :=
  inferInstanceAs (Decidable (_ ∧ _))

def step (s : State) : Action → Option State
  | .signIn uid => some { s with currentUser := some uid }
  -- listeners, lookups and the dictionary outlive the session
  | .signOut => some { s with currentUser := none }
  | .fetchConversations =>
      match Service.fetchConversations s.currentUser with
      | none => some s
      | some query => some (s.listen query)
  | .snapshot i now result =>
      match s.listeners[i]? with
      | none => none
      | some r => some (s.snapshot i r now result)
  | .failed i => if i < s.listeners.length then some s else none
  | .lookupReturned j data rows =>
      match s.lookups[j]? with
      | none => none
      | some l =>
        match Service.fetchUserCallback data with
        | none => some (s.notFound j)
        | some user =>
          match s.listeners[l.listener]? with
          | none => none
          | some r => if Answer s l r user rows then some (s.found j l r user rows) else none

def system : System State Action := ⟨initial, step⟩

/-- Everything one step can do. -/
inductive Change (s : State) : Action → State → Prop where
  | signedIn (uid : String) : Change s (.signIn uid) { s with currentUser := some uid }
  | signedOut : Change s .signOut { s with currentUser := none }
  | listened (uid : String) (hu : s.currentUser = some uid) :
      Change s .fetchConversations (s.listen (recentMessages uid))
  | nobody (hu : s.currentUser = none) : Change s .fetchConversations s
  | delivered (i : Nat) (r : Listener) (now : Timestamp) (result : QueryResult)
      (hr : s.listeners[i]? = some r) :
      Change s (.snapshot i now result) (s.snapshot i r now result)
  | failed (i : Nat) : Change s (.failed i) s
  | notFound (j : Nat) (l : Lookup) (data : Option Dictionary) (rows : List Conversation)
      (hl : s.lookups[j]? = some l) (hnone : Service.fetchUserCallback data = none) :
      Change s (.lookupReturned j data rows) (s.notFound j)
  | found (j : Nat) (l : Lookup) (r : Listener) (data : Option Dictionary) (user : User)
      (rows : List Conversation) (hl : s.lookups[j]? = some l)
      (hsome : Service.fetchUserCallback data = some user)
      (hr : s.listeners[l.listener]? = some r) (ha : Answer s l r user rows) :
      Change s (.lookupReturned j data rows) (s.found j l r user rows)

theorem step_change {s t : State} {a : Action} (h : step s a = some t) : Change s a t := by
  cases a with
  | signIn uid => exact Option.some.inj h ▸ .signedIn uid
  | signOut => exact Option.some.inj h ▸ .signedOut
  | fetchConversations =>
    simp only [step, Service.fetchConversations] at h
    cases hu : s.currentUser with
    | none =>
      rw [hu] at h
      exact Option.some.inj h ▸ .nobody hu
    | some uid =>
      rw [hu] at h
      exact Option.some.inj h ▸ .listened uid hu
  | snapshot i now result =>
    simp only [step] at h
    split at h
    · cases h
    · rename_i r hr
      exact Option.some.inj h ▸ .delivered i r now result hr
  | failed i =>
    simp only [step, Option.ite_none_right_eq_some, Option.some.injEq] at h
    exact h.2 ▸ .failed i
  | lookupReturned j data rows =>
    simp only [step] at h
    split at h
    · cases h
    · rename_i l hl
      split at h
      · rename_i hnone
        exact Option.some.inj h ▸ .notFound j l data rows hl hnone
      · rename_i user huser
        split at h
        · cases h
        · rename_i r hr
          simp only [Option.ite_none_right_eq_some, Option.some.injEq] at h
          exact h.2 ▸ .found j l r data user rows hl huser hr h.1

/-- What every run keeps: users belong to the partners their rows are filed under. -/
structure WellFiled (s : State) : Prop where
  rows : s.conversations.Perm (values s.conversationsDictionary)
  keys : ∀ partner c, s.conversationsDictionary.lookup partner = some c →
    partner = c.message.chatPartnerID
  users : ∀ partner c, s.conversationsDictionary.lookup partner = some c →
    c.user.uid = c.message.chatPartnerID
  arrays : ∀ r ∈ s.listeners, ∀ c ∈ r.conversations, c.user.uid = c.message.chatPartnerID

theorem mem_values_iff (dictionary : WriteLog.Table String Conversation) (c : Conversation) :
    c ∈ values dictionary ↔ ∃ partner, dictionary.lookup partner = some c := by
  simp [values]

theorem mem_rows_iff {s : State} (h : WellFiled s) (c : Conversation) :
    c ∈ s.conversations ↔ ∃ partner, s.conversationsDictionary.lookup partner = some c :=
  h.rows.mem_iff.trans (mem_values_iff _ c)

theorem lastAt_filed {conversations : List Conversation} {partner : String} {c : Conversation}
    (h : WriteLog.lastAt (filed conversations) partner = some c) :
    partner = c.message.chatPartnerID ∧ c ∈ conversations := by
  obtain ⟨c', hc', heq⟩ := List.mem_map.mp (WriteLog.lastAt_mem h)
  cases heq
  exact ⟨rfl, hc'⟩

theorem lookup_refiled (s : State) (conversations : List Conversation) (partner : String) :
    (s.refiled conversations).lookup partner =
      (WriteLog.lastAt (filed conversations) partner).or
        (s.conversationsDictionary.lookup partner) :=
  WriteLog.lookup_replayFrom _ _ _

theorem wellFiled_init : WellFiled initial := by
  constructor <;> simp [initial, values, WriteLog.pairs]

/-- Listeners whose arrays are not touched keep what is known of their conversations. -/
theorem arrays_set {listeners : List Listener} {i : Nat} {r r' : Listener}
    (h : ∀ r ∈ listeners, ∀ c ∈ r.conversations, c.user.uid = c.message.chatPartnerID)
    (hr : listeners[i]? = some r) (hsame : r'.conversations = r.conversations) :
    ∀ r ∈ listeners.set i r', ∀ c ∈ r.conversations, c.user.uid = c.message.chatPartnerID := by
  intro q hq c hc
  rcases List.mem_or_eq_of_mem_set hq with hq | rfl
  · exact h q hq c hc
  · exact h r (List.mem_of_getElem? hr) c (hsame ▸ hc)

theorem wellFiled_found {s : State} (h : WellFiled s) {j : Nat} {l : Lookup} {r : Listener}
    {user : User} {rows : List Conversation} (hr : s.listeners[l.listener]? = some r)
    (ha : Answer s l r user rows) : WellFiled (s.found j l r user rows) := by
  have handed : ∀ c ∈ Service.fetchConversationsLookup r.conversations l.message user,
      c.user.uid = c.message.chatPartnerID := by
    intro c hc
    rcases List.mem_append.mp hc with hc | hc
    · exact h.arrays r (List.mem_of_getElem? hr) c hc
    · rw [List.mem_singleton.mp hc]
      exact ha.1
  have filedOr : ∀ partner c, (s.found j l r user rows).conversationsDictionary.lookup partner =
      some c → partner = c.message.chatPartnerID ∧ c.user.uid = c.message.chatPartnerID := by
    intro partner c hc
    simp only [State.found, lookup_refiled, Option.or_eq_some_iff] at hc
    rcases hc with hc | ⟨-, hc⟩
    · obtain ⟨hkey, hmem⟩ := lastAt_filed hc
      exact ⟨hkey, handed c hmem⟩
    · exact ⟨h.keys partner c hc, h.users partner c hc⟩
  constructor
  · exact ha.2
  · exact fun partner c hc => (filedOr partner c hc).1
  · exact fun partner c hc => (filedOr partner c hc).2
  · intro q hq c hc
    rcases List.mem_or_eq_of_mem_set hq with hq | rfl
    · exact h.arrays q hq c hc
    · exact handed c hc

theorem wellFiled_step {s t : State} {a : Action} (h : WellFiled s) (ht : step s a = some t) :
    WellFiled t := by
  cases step_change ht with
  | signedIn | signedOut | notFound => exact ⟨h.rows, h.keys, h.users, h.arrays⟩
  | nobody | failed => exact h
  | listened uid hu =>
    refine ⟨h.rows, h.keys, h.users, ?_⟩
    intro q hq c hc
    rcases List.mem_append.mp hq with hq | hq
    · exact h.arrays q hq c hc
    · rw [List.mem_singleton.mp hq] at hc
      cases hc
  | delivered i r now result hr => exact ⟨h.rows, h.keys, h.users, arrays_set h.arrays hr rfl⟩
  | found j l r data user rows hl hsome hr ha => exact wellFiled_found h hr ha

def fromBob : QueryDocument :=
  ⟨"bob", [("fromID", .string "bob"), ("toID", .string "ann"), ("text", .string "hi"),
    ("timestamp", .timestamp 1000)]⟩

def withBob : QueryResult := ⟨[fromBob], by decide, by decide, by decide⟩

def bobsDocument : Dictionary := [("uid", .string "bob"), ("username", .string "bob")]

def bobsRow : Conversation :=
  ⟨User.ofDictionary bobsDocument, Message.ofDictionary (some "ann") 0 fromBob.data⟩

end ChipChat.ConversationList
