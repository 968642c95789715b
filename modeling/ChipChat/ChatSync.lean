import ChipChat.ChatView
import ChipChat.ThreadMailboxes

/-!
# Chats over the database

Any number of chats, on any devices, listen to their threads while uploads go on. A
chat is shown the copies its listener has received from the backend, those its own
device has had stored and, ahead of the backend, those in the mutation queue of the
account that is signed in there, until the backend rejects them. With the account the
queue is exchanged, while the listener stays.
-/

namespace ChipChat

set_option autoImplicit false

/-- The identifier of the document a write goes to; `name` gives those `addDocument` makes. -/
def Write.documentID (name : Nat → String) (w : Write) : String :=
  match w.path.getLast? with
  | some (.autoID n) => name n
  | some (.name s) => s
  | none => ""

def Write.document (name : Nat → String) (w : Write) : QueryDocument :=
  ⟨w.documentID name, w.send.data⟩

end ChipChat

namespace ChipChat.ChatSync

open LabelledSystem Upload

set_option autoImplicit false

/-- A chat of `currentUID` with `user`, the account whose mutation queue its device uses, those
whose queues it has used since the chat was opened, and what its listener has received. -/
structure Chat where
  client : Nat
  currentUID : String
  user : User
  account : Option String
  formerAccounts : List (Option String)
  received : List Write
  view : ChatView.State

structure State where
  uploads : Upload.State
  chats : List Chat

def initial : State := ⟨Upload.initial, []⟩

inductive Action where
  | upload (a : Upload.Action)
  | fetchMessages (client : Nat) (currentUser : Option String) (user : User)
  | handleCredentialChange (client : Nat) (user : Option String)
  | receive (i : Nat) (w : Write)
  | view (i : Nat) (a : ChatView.Action)

namespace Chat

/-- The query of the chat, as `Service.fetchMessages` makes it. -/
def InQuery (c : Chat) (w : Write) : Prop := inThread c.currentUID c.user.uid w.path

/-- The write was issued on the chat's device. -/
def Own (c : Chat) (w : Write) : Prop := w.send.client = c.client

instance (c : Chat) (w : Write) : Decidable (c.InQuery w) := inferInstanceAs (Decidable (_ = true))

instance (c : Chat) (w : Write) : Decidable (c.Own w) := inferInstanceAs (Decidable (_ = _))

/-- A chat that is opened while `currentUID` is signed in. -/
def opened (client : Nat) (currentUID : String) (user : User) : Chat :=
  ⟨client, currentUID, user, some currentUID, [], [], ChatView.initial⟩

def accounts (c : Chat) : List (Option String) := c.account :: c.formerAccounts

/-- The mutation queue is swapped only if the account is another one. -/
def handleCredentialChange (c : Chat) (user : Option String) : Chat :=
  if c.account = user then c
  else { c with account := user, formerAccounts := c.accounts }

end Chat

/-- The copy is in the local view of the chat's query: in the cache, or in the queue. -/
def Shows (s : Upload.State) (c : Chat) (w : Write) : Prop :=
  c.InQuery w ∧ (w ∈ c.received ∨ c.Own w ∧
    ((w, .stored) ∈ s.settled ∨ c.account = some w.send.currentUID ∧ (w, .rejected) ∉ s.settled))

instance (s : Upload.State) (c : Chat) (w : Write) : Decidable (Shows s c w) :=
  inferInstanceAs (Decidable (_ ∧ _))

/-- The result is that of the chat's query on its local view. -/
def IsView (name : Nat → String) (s : Upload.State) (c : Chat) (r : QueryResult) : Prop :=
  (∀ d ∈ r.documents, ∃ w ∈ s.issued, Shows s c w ∧ w.document name = d) ∧
    ∀ w ∈ s.issued, Shows s c w → w.document name ∈ r.documents

instance (name : Nat → String) (s : Upload.State) (c : Chat) (r : QueryResult) :
    Decidable (IsView name s c r) :=
  inferInstanceAs (Decidable (_ ∧ _))

/-- A snapshot is of the local view; an error ends the listener without one. -/
def Delivers (name : Nat → String) (s : Upload.State) (c : Chat) : ChatView.Action → Prop
  | .delivered n => IsView name s c n.result
  | .failed => True

instance (name : Nat → String) (s : Upload.State) (c : Chat) : ∀ a, Decidable (Delivers name s c a)
  | .delivered n => inferInstanceAs (Decidable (IsView name s c n.result))
  | .failed => isTrue trivial

def step (name : Nat → String) (s : State) : Action → Option State
  | .upload a => (Upload.step s.uploads a).map fun uploads => { s with uploads := uploads }
  | .fetchMessages client currentUser user =>
      match currentUser with
      -- the guard of `Service.fetchMessages`
      | none => some s
      | some currentUID => some { s with chats := s.chats ++ [Chat.opened client currentUID user] }
  | .handleCredentialChange client user =>
      some { s with chats := s.chats.map fun c =>
        if c.client = client then c.handleCredentialChange user else c }
  | .receive i w =>
      match s.chats[i]? with
      | none => none
      | some c =>
        if Upload.SettledAs s.uploads w.send w.part .stored then
          some { s with chats := s.chats.set i { c with received := c.received ++ [w] } }
        else none
  | .view i a =>
      match s.chats[i]? with
      | none => none
      | some c =>
        if c.client ∉ s.uploads.stopped ∧ Delivers name s.uploads c a then
          (ChatView.step c.view a).map fun view => { s with chats := s.chats.set i { c with view := view } }
        else none

def system (name : Nat → String) : System State Action := ⟨initial, step name⟩

/-- Everything one step can do. -/
inductive Change (name : Nat → String) (s : State) : Action → State → Prop where
  | uploaded (a : Upload.Action) (uploads : Upload.State)
      (ha : Upload.step s.uploads a = some uploads) :
      Change name s (.upload a) { s with uploads := uploads }
  | refused (client : Nat) (user : User) : Change name s (.fetchMessages client none user) s
  | opened (client : Nat) (currentUID : String) (user : User) :
      Change name s (.fetchMessages client (some currentUID) user)
        { s with chats := s.chats ++ [Chat.opened client currentUID user] }
  | credential (client : Nat) (user : Option String) :
      Change name s (.handleCredentialChange client user)
        { s with chats := s.chats.map fun c =>
          if c.client = client then c.handleCredentialChange user else c }
  | received (i : Nat) (w : Write) (c : Chat) (hc : s.chats[i]? = some c)
      (hw : (w, .stored) ∈ s.uploads.settled) :
      Change name s (.receive i w)
        { s with chats := s.chats.set i { c with received := c.received ++ [w] } }
  | viewed (i : Nat) (a : ChatView.Action) (c : Chat) (view : ChatView.State)
      (hc : s.chats[i]? = some c) (ha : Delivers name s.uploads c a)
      (hview : ChatView.step c.view a = some view) :
      Change name s (.view i a) { s with chats := s.chats.set i { c with view := view } }

theorem step_change {name : Nat → String} {s t : State} {a : Action} (h : step name s a = some t) :
    Change name s a t := by
  cases a with
  | upload b =>
    obtain ⟨uploads, hb, rfl⟩ := Option.map_eq_some_iff.mp h
    exact .uploaded b uploads hb
  | fetchMessages client currentUser user =>
    cases currentUser <;> obtain rfl := Option.some.inj h
    · exact .refused client user
    · exact .opened client _ user
  | handleCredentialChange client user =>
    obtain rfl := Option.some.inj h
    exact .credential client user
  | receive i w =>
    simp only [step] at h
    split at h
    · cases h
    · rename_i c hc
      simp only [Option.ite_none_right_eq_some, Option.some.injEq] at h
      obtain ⟨hw, rfl⟩ := h
      exact .received i w c hc hw
  | view i b =>
    simp only [step] at h
    split at h
    · cases h
    · rename_i c hc
      simp only [Option.ite_none_right_eq_some, Option.map_eq_some_iff] at h
      obtain ⟨⟨-, hdelivers⟩, view, hview, rfl⟩ := h
      exact .viewed i b c view hc hdelivers hview

/-- The uploads of a run, which go on as they would without any chat. -/
def Action.uploaded : Action → Option Upload.Action
  | .upload a => some a
  | _ => none

theorem uploads_run {name : Nat → String} {s : State} {as : List Action}
    (h : run (system name) as = some s) :
    run Upload.system (as.filterMap Action.uploaded) = some s.uploads := by
  induction as using List.reverseRecOn generalizing s with
  | nil =>
    cases h
    rfl
  | append_singleton as a ih =>
    obtain ⟨t, ht, hs⟩ := (run_snoc_iff (system name) s as a).mp h
    have hprev := ih ht
    rw [List.filterMap_append]
    cases step_change hs with
    | uploaded b uploads hb => exact (run_snoc_iff Upload.system uploads _ b).mpr ⟨_, hprev, hb⟩
    | refused | opened | credential | received | viewed =>
      change run Upload.system (_ ++ []) = _
      rwa [List.append_nil]

end ChipChat.ChatSync
