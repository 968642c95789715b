import ChipChat.ImageLoads
import ChipChat.Model

/-!
# Cells that are reused

A cell is configured anew each time its model is assigned. `CellClass` is what the
classes of cells have in common: `configure` sets labels that do not depend on what the
cell showed before, and may call `sd_setImage` on the cell's own image view. Cell `j`
has the image view `j`; `URL(string:)` is a parameter.
-/

namespace ChipChat.ReusedCells

open ImageLoads LabelledSystem

set_option autoImplicit false

structure CellClass (γ κ : Type) where
  fresh : κ
  configure : κ → γ → κ
  configure_eq : ∀ k k' c, configure k c = configure k' c
  /-- The argument of `sd_setImage`, if it is called. -/
  request : γ → Option (Option URL)

structure State (γ κ : Type) where
  cells : List (Option γ × κ)
  loads : ImageLoads.State

inductive Action (γ : Type) where
  | dequeueNew
  | assign (j : Nat) (content : γ) (inMemory : Option (List UInt8))
  | complete (i : Nat) (image : Option (List UInt8))
  | downloadFailed (i : Nat)

section System
variable {γ κ : Type} (K : CellClass γ κ)

/-- `didSet` of a cell's model. -/
def State.assign (s : State γ κ) (j : Nat) (k : κ) (content : γ)
    (inMemory : Option (List UInt8)) : State γ κ where
  cells := s.cells.set j (some content, K.configure k content)
  loads :=
    match K.request content with
    | none => s.loads
    | some url => s.loads.sd_setImage j url inMemory

def step (s : State γ κ) : Action γ → Option (State γ κ)
  | .dequeueNew => some { s with cells := s.cells ++ [(none, K.fresh)] }
  | .assign j content inMemory =>
      match s.cells[j]? with
      | none => none
      | some (_, k) => some (s.assign K j k content inMemory)
  | .complete i image =>
      match s.loads.operations[i]? with
      | none => none
      | some op =>
          if op.finished then none else some { s with loads := s.loads.complete i op image }
  | .downloadFailed i =>
      match s.loads.operations[i]? with
      | none => none
      | some op =>
          if op.Running then some { s with loads := s.loads.downloadFailed op } else none

def system : System (State γ κ) (Action γ) := ⟨⟨[], .empty⟩, step K⟩

end System

/-! ## The classes -/

/-- A message as `ChatController` hands it to a cell: `message.user` is set afterwards. -/
structure UserMessage where
  message : Message
  user : Option User
  deriving DecidableEq, Repr

inductive UIColor where
  | bubble
  | lightGray
  | blue
  | black
  | white
  deriving DecidableEq, Repr

namespace MessageViewModel

def messageBackgroundColor (m : UserMessage) : UIColor :=
  if m.message.isFromCurrentUser then .lightGray else .blue

def messageTextColor (m : UserMessage) : UIColor :=
  if m.message.isFromCurrentUser then .black else .white

def leadingAnchorActive (m : UserMessage) : Bool := !m.message.isFromCurrentUser

def trailingAnchorActive (m : UserMessage) : Bool := m.message.isFromCurrentUser

def shouldHideProfileImage (m : UserMessage) : Bool := m.message.isFromCurrentUser

def profileImageURL (url : String → Option URL) (m : UserMessage) : Option URL :=
  m.user.bind fun user => url user.profileImageURL

end MessageViewModel

structure MessageCell where
  bubbleColor : UIColor
  textColor : UIColor
  text : String
  leadingActive : Bool
  trailingActive : Bool
  imageHidden : Bool
  deriving DecidableEq, Repr

def messageCell (url : String → Option URL) : CellClass UserMessage MessageCell where
  fresh := ⟨.bubble, .white, "", false, false, false⟩
  configure _ m :=
    { bubbleColor := MessageViewModel.messageBackgroundColor m
      textColor := MessageViewModel.messageTextColor m
      text := m.message.text
      leadingActive := MessageViewModel.leadingAnchorActive m
      trailingActive := MessageViewModel.trailingAnchorActive m
      imageHidden := MessageViewModel.shouldHideProfileImage m }
  configure_eq _ _ _ := rfl
  request m := some (MessageViewModel.profileImageURL url m)

namespace ConversationViewModel

def profileImageURL (url : String → Option URL) (c : Conversation) : Option URL :=
  url c.user.profileImageURL

/-- The `DateFormatter` with the format `hh:mm a` is a parameter. -/
def timestamp (string : Timestamp → String) (c : Conversation) : String :=
  string c.message.timestamp

end ConversationViewModel

structure ConversationsCell where
  usernameLabel : String
  messageTextLabel : String
  timestampLabel : String
  deriving DecidableEq, Repr

def conversationsCell (url : String → Option URL) (string : Timestamp → String) :
    CellClass Conversation ConversationsCell where
  fresh := ⟨"", "", "2h"⟩
  configure _ c := ⟨c.user.username, c.message.text, ConversationViewModel.timestamp string c⟩
  configure_eq _ _ _ := rfl
  request c := some (ConversationViewModel.profileImageURL url c)

structure UserCell where
  fullnameLabel : String
  usernameLabel : String
  deriving DecidableEq, Repr

/-- `configure` of `UserCell` returns before `sd_setImage` when the URL is no URL. -/
def userCell (url : String → Option URL) : CellClass User UserCell where
  fresh := ⟨"Leaf", "The Goat"⟩
  configure _ user := ⟨user.fullname, user.username⟩
  configure_eq _ _ _ := rfl
  request user := (url user.profileImageURL).map some

structure ProfileHeader where
  fullnameLabel : String
  usernameLabel : String
  deriving DecidableEq, Repr

/-- `populateUserData` of `ProfileHeader`, likewise. -/
def profileHeader (url : String → Option URL) : CellClass User ProfileHeader where
  fresh := ⟨"", ""⟩
  configure _ user := ⟨user.fullname, "@" ++ user.username⟩
  configure_eq _ _ _ := rfl
  request user := (url user.profileImageURL).map some

/-! ## What the cells show -/

section Reuse
variable {γ κ : Type} (K : CellClass γ κ) (wanted : γ → Option URL)

/-- Each cell shows the labels of its model. -/
def Labelled (s : State γ κ) : Prop :=
  ∀ (j : Nat) c k, s.cells[j]? = some (some c, k) → k = K.configure K.fresh c

/-- Each cell shows, and waits for, no picture but that of its model. -/
def OwnPictures (s : State γ κ) : Prop :=
  ∀ (j : Nat) c k, s.cells[j]? = some (some c, k) → Shows s.loads j (wanted c)

/-- A model without a request goes to a cell that shows no picture and waits for none. -/
def BlankKept (s : State γ κ) : Action γ → Prop
  | .assign j content _ => K.request content = none → Blank s.loads j
  | _ => True

instance (s : State γ κ) : ∀ a, Decidable (BlankKept K s a)
  | .assign j content _ => inferInstanceAs (Decidable (K.request content = none → Blank s.loads j))
  | .dequeueNew | .complete .. | .downloadFailed _ => isTrue trivial

/-- A request is for the wanted URL, and is made when there is one. -/
def Requests : Prop :=
  ∀ c, (∀ u, K.request c = some u → u = wanted c) ∧ (K.request c = none → wanted c = none)

variable {K wanted}

/-- What one step can do. -/
inductive Change (K : CellClass γ κ) (s : State γ κ) : Action γ → State γ κ → Prop where
  | dequeued : Change K s .dequeueNew { s with cells := s.cells ++ [(none, K.fresh)] }
  | assigned (j : Nat) (c : γ) (inMemory : Option (List UInt8)) (before : Option γ) (k : κ)
      (hj : s.cells[j]? = some (before, k)) :
      Change K s (.assign j c inMemory) (s.assign K j k c inMemory)
  | completed (i : Nat) (image : Option (List UInt8)) (op : Operation)
      (hi : s.loads.operations[i]? = some op) (hfinished : op.finished = false) :
      Change K s (.complete i image) { s with loads := s.loads.complete i op image }
  | downloadFailed (i : Nat) (op : Operation) (hi : s.loads.operations[i]? = some op) :
      Change K s (.downloadFailed i) { s with loads := s.loads.downloadFailed op }

theorem step_change {s t : State γ κ} {a : Action γ} (h : step K s a = some t) :
    Change K s a t := by
  cases a with
  | dequeueNew =>
    cases h
    exact .dequeued
  | assign j c inMemory =>
    cases hj : s.cells[j]? with
    | none => simp [step, hj] at h
    | some e =>
      simp only [step, hj, Option.some.injEq] at h
      subst h
      exact .assigned j c inMemory e.1 e.2 hj
  | complete i image =>
    cases hi : s.loads.operations[i]? with
    | none => simp [step, hi] at h
    | some op =>
      simp only [step, hi, Option.ite_none_left_eq_some, Option.some.injEq] at h
      obtain ⟨hfinished, rfl⟩ := h
      exact .completed i image op hi (by simpa using hfinished)
  | downloadFailed i =>
    cases hi : s.loads.operations[i]? with
    | none => simp [step, hi] at h
    | some op =>
      simp only [step, hi, Option.ite_none_right_eq_some, Option.some.injEq] at h
      obtain ⟨-, rfl⟩ := h
      exact .downloadFailed i op hi

theorem mem_assigned_iff {s : State γ κ} {j : Nat} {before : Option γ} {k : κ}
    (hj : s.cells[j]? = some (before, k)) (c : γ) (inMemory : Option (List UInt8)) (j' : Nat)
    (e : Option γ × κ) :
    (s.assign K j k c inMemory).cells[j']? = some e ↔
      if j = j' then (some c, K.configure k c) = e else s.cells[j']? = some e := by
  have hlt : j < s.cells.length := (List.getElem?_eq_some_iff.mp hj).1
  have hcells : (s.assign K j k c inMemory).cells = s.cells.set j (some c, K.configure k c) := rfl
  rw [hcells, List.getElem?_set]
  split_ifs with hjj
  · simp
  · exact Iff.rfl

/-- A cell that has a model had it before, except for the cell that is assigned. -/
theorem dequeued_cell {s : State γ κ} {j : Nat} {c : γ} {k : κ}
    (h : (s.cells ++ [(none, K.fresh)])[j]? = some (some c, k)) : s.cells[j]? = some (some c, k) := by
  rcases Nat.lt_or_ge j s.cells.length with hj | hj
  · rwa [List.getElem?_append_left hj] at h
  · rw [List.getElem?_append_right hj] at h
    cases hm : j - s.cells.length with
    | zero => simp [hm] at h
    | succ m => simp [hm] at h

theorem labelled_step {s t : State γ κ} {a : Action γ} (hs : Labelled K s)
    (ht : step K s a = some t) : Labelled K t := by
  cases step_change ht with
  | dequeued => exact fun j c k hc => hs j c k (dequeued_cell hc)
  | assigned j c inMemory before k hj =>
    intro j' c' k' hc'
    rw [mem_assigned_iff hj] at hc'
    split_ifs at hc' with hjj
    · cases hc'
      exact K.configure_eq k K.fresh c
    · exact hs j' c' k' hc'
  | completed | downloadFailed => exact hs

theorem tracked_step {s t : State γ κ} {a : Action γ} (hs : Tracked s.loads)
    (ht : step K s a = some t) : Tracked t.loads := by
  cases step_change ht with
  | dequeued | downloadFailed => exact hs
  | assigned j c inMemory before k hj =>
    unfold State.assign
    cases K.request c with
    | none => exact hs
    | some url => exact tracked_sd_setImage hs j url inMemory
  | completed => exact tracked_complete hs

theorem assign_loads (s : State γ κ) (j : Nat) (k : κ) (c : γ) (inMemory : Option (List UInt8)) :
    (s.assign K j k c inMemory).loads =
      match K.request c with
      | none => s.loads
      | some url => s.loads.sd_setImage j url inMemory := rfl

theorem ownPictures_assign (hK : Requests K wanted) {s : State γ κ} (htracked : Tracked s.loads)
    (hs : OwnPictures wanted s) {j : Nat} {before : Option γ} {k : κ}
    (hj : s.cells[j]? = some (before, k)) (c : γ) (inMemory : Option (List UInt8)) :
    OwnPictures wanted (s.assign K j k c inMemory) ↔ (K.request c = none → Blank s.loads j) := by
  have hself : (s.assign K j k c inMemory).cells[j]? = some (some c, K.configure k c) :=
    (mem_assigned_iff hj c inMemory j _).mpr (by rw [if_pos rfl])
  have hloads := assign_loads (K := K) s j k c inMemory
  constructor
  · intro ht hnone
    have hshows := ht j c _ hself
    rw [hloads, hnone, (hK c).2 hnone] at hshows
    exact (shows_none_iff s.loads j).mp hshows
  · intro hblank j' c' k' hc'
    rw [mem_assigned_iff hj] at hc'
    rw [hloads]
    split_ifs at hc' with hjj
    · cases hc'
      subst hjj
      cases hrequest : K.request c with
      | none =>
        rw [(hK c).2 hrequest]
        exact (shows_none_iff s.loads j).mpr (hblank hrequest)
      | some url =>
        rw [← (hK c).1 url hrequest]
        exact shows_sd_setImage htracked j url inMemory
    · have hold := hs j' c' k' hc'
      cases K.request c with
      | none => exact hold
      | some url => exact shows_sd_setImage_of_ne (Ne.symm hjj) hold url inMemory

theorem ownPictures_step (hK : Requests K wanted) {s t : State γ κ} {a : Action γ}
    (htracked : Tracked s.loads) (hs : OwnPictures wanted s) (ht : step K s a = some t) :
    OwnPictures wanted t ↔ BlankKept K s a := by
  cases step_change ht with
  | dequeued => exact iff_of_true (fun j c k hc => hs j c k (dequeued_cell hc)) trivial
  | assigned j c inMemory before k hj => exact ownPictures_assign hK htracked hs hj c inMemory
  | completed i image op hi hfinished =>
    exact iff_of_true (fun j c k hc => shows_complete hi hfinished (hs j c k hc)) trivial
  | downloadFailed =>
    exact iff_of_true (fun j c k hc => ⟨(hs j c k hc).image, (hs j c k hc).running⟩) trivial

theorem pictures_run (hK : Requests K wanted) {s : State γ κ} {as : List (Action γ)}
    (hrun : run (system K) as = some s) :
    Throughout (system K) (OwnPictures wanted) (system K).init as ↔
      StepsMeet (system K) (BlankKept K) (system K).init as := by
  apply throughout_iff_stepsMeet (I := fun s => Tracked s.loads)
  · exact fun s a t h (ht : step K s a = some t) => tracked_step h ht
  · exact fun s a t h hs (ht : step K s a = some t) => ownPictures_step hK h hs ht
  · exact tracked_empty
  · intro j c k hc
    simp [system] at hc
  · exact hrun

/-- Where there is no model yet, no picture is shown or awaited. -/
def Untouched (s : State γ κ) : Prop :=
  ∀ v, (∀ c k, s.cells[v]? ≠ some (some c, k)) → Blank s.loads v

/-- Models are only assigned to cells that have none. -/
def AssignedOnce (s : State γ κ) : Action γ → Prop
  | .assign j _ _ => ∀ c k, s.cells[j]? ≠ some (some c, k)
  | _ => True

theorem untouched_step {s t : State γ κ} {a : Action γ} (hs : Untouched s)
    (ht : step K s a = some t) : Untouched t := by
  intro v hv
  cases step_change ht with
  | dequeued =>
    refine hs v fun c k hc => hv c k ?_
    have hlt : v < s.cells.length := (List.getElem?_eq_some_iff.mp hc).1
    rwa [List.getElem?_append_left hlt]
  | assigned j c inMemory before k hj =>
    have hne : v ≠ j := by
      rintro rfl
      exact hv c _ ((mem_assigned_iff hj c inMemory v _).mpr (by rw [if_pos rfl]))
    have hblank : Blank s.loads v := by
      refine hs v fun c' k' hc' => hv c' k' ?_
      rwa [mem_assigned_iff hj, if_neg (Ne.symm hne)]
    rw [assign_loads]
    cases K.request c with
    | none => exact hblank
    | some url =>
      rw [← shows_none_iff] at hblank ⊢
      exact shows_sd_setImage_of_ne hne hblank url inMemory
  | completed i image op hi hfinished =>
    have hblank : Blank s.loads v := hs v hv
    rw [← shows_none_iff] at hblank ⊢
    exact shows_complete hi hfinished hblank
  | downloadFailed => exact hs v hv

theorem ownPictures_once (hK : Requests K wanted) {s : State γ κ} {as : List (Action γ)}
    (hrun : run (system K) as = some s)
    (honce : StepsMeet (system K) AssignedOnce (system K).init as) : OwnPictures wanted s := by
  have hinvariant : OwnPictures wanted s ∧ Untouched s ∧ Tracked s.loads := by
    refine invariant_of_stepsMeet (I := fun s => OwnPictures wanted s ∧ Untouched s ∧ Tracked s.loads)
      ?_ ?_ honce hrun
    · rintro s a t ⟨hown, huntouched, htracked⟩ ha (ht : step K s a = some t)
      refine ⟨(ownPictures_step hK htracked hown ht).mpr ?_, untouched_step huntouched ht,
        tracked_step htracked ht⟩
      cases a with
      | assign j c inMemory => exact fun _ => huntouched j ha
      | dequeueNew | complete | downloadFailed => trivial
    · exact ⟨fun j c k hc => by simp [system] at hc, fun v _ => blank_empty v, tracked_empty⟩
  exact hinvariant.1

theorem labelled_run {s : State γ κ} {as : List (Action γ)} (hrun : run (system K) as = some s) :
    Labelled K s := by
  apply invariant (I := Labelled K) ?_ ?_ hrun
  · intro j c k hc
    simp [system] at hc
  · exact fun s a t hs (ht : step K s a = some t) => labelled_step hs ht

end Reuse

theorem requests_of_always {γ κ : Type} {K : CellClass γ κ} {wanted : γ → Option URL}
    (h : ∀ c, K.request c = some (wanted c)) : Requests K wanted := by
  intro c
  rw [h c]
  exact ⟨fun u hu => (Option.some.inj hu).symm, fun hnone => by cases hnone⟩

/-- A class whose cells always call `sd_setImage` never shows a picture of another model. -/
theorem ownPictures_of_always {γ κ : Type} {K : CellClass γ κ} {wanted : γ → Option URL}
    (h : ∀ c, K.request c = some (wanted c)) {s : State γ κ} {as : List (Action γ)}
    (hrun : run (system K) as = some s) : OwnPictures wanted s := by
  have hkept : StepsMeet (system K) (BlankKept K) (system K).init as := by
    refine (stepsMeet_true _ as).mono fun s a _ => ?_
    cases a with
    | assign j c inMemory => exact fun hnone => by simp [h c] at hnone
    | dequeueNew | complete | downloadFailed => trivial
  exact ((pictures_run (requests_of_always h) hrun).mpr hkept).last hrun

/-- However often the cells of a chat are reused, and in whatever order their image loads
end: the bubble and its colours are on the side of the sender, exactly one of its two
anchors is active, and a picture that is shown is that of the message's user. -/
theorem message_cells (url : String → Option URL) {s : State UserMessage MessageCell} {as : List (Action UserMessage)}
    (hrun : run (system (messageCell url)) as = some s) {j : Nat} {m : UserMessage} {k : MessageCell}
    (hj : s.cells[j]? = some (some m, k)) :
    k.text = m.message.text ∧
    (k.trailingActive ↔ m.message.isFromCurrentUser) ∧
    (k.leadingActive ↔ ¬ k.trailingActive) ∧
    (k.imageHidden ↔ k.trailingActive) ∧
    (k.bubbleColor, k.textColor) =
      (if k.trailingActive then (.lightGray, .black) else (.blue, .white)) ∧
    ∀ p ∈ (s.loads.views j).image, ∃ user ∈ m.user, url user.profileImageURL = some p.url := by
  have hlabels : k = (messageCell url).configure (messageCell url).fresh m :=
    labelled_run hrun j m k hj
  have hpictures : OwnPictures (MessageViewModel.profileImageURL url) s :=
    ownPictures_of_always (fun _ => rfl) hrun
  subst hlabels
  refine ⟨rfl, Iff.rfl, ?_, Iff.rfl, ?_, ?_⟩
  · simp [messageCell, MessageViewModel.leadingAnchorActive, MessageViewModel.trailingAnchorActive]
  · cases hm : m.message.isFromCurrentUser <;>
      simp [messageCell, MessageViewModel.trailingAnchorActive,
        MessageViewModel.messageBackgroundColor, MessageViewModel.messageTextColor, hm]
  · intro p hp
    exact Option.bind_eq_some_iff.mp ((hpictures j m _ hj).image p hp)

def bob : User := ⟨"", "", "", "bob", "bob.jpg"⟩
def eve : User := ⟨"", "", "", "eve", "eve.jpg"⟩
def fromBob : Message := ⟨"hi", "ann", "bob", 1, false⟩
def fromEve : Message := ⟨"hey", "ann", "eve", 2, false⟩

/-- Bob's picture arrives when the cell has been reused for a message with Eve, and Eve's
after it. -/
def reusedCell : List (Action UserMessage) :=
  [.dequeueNew, .assign 0 ⟨fromBob, none⟩ none, .assign 0 ⟨fromBob, some bob⟩ none,
   .assign 0 ⟨fromEve, none⟩ none, .assign 0 ⟨fromEve, some eve⟩ none,
   .complete 0 (some [1]), .complete 1 (some [2])]

def afterReuse : State UserMessage MessageCell :=
  (run (system (messageCell some)) reusedCell).get (by decide)

theorem message_cells_reused :
    (afterReuse.loads.views 0).image.isSome ∧
      ∀ p ∈ (afterReuse.loads.views 0).image, ∃ user ∈ some eve,
        some user.profileImageURL = some p.url :=
  ⟨by decide, (message_cells some (s := afterReuse) (j := 0) (m := ⟨fromEve, some eve⟩)
    (k := ⟨.blue, .white, "hey", true, false, false⟩) (Option.some_get _).symm (by decide)).2.2.2.2.2⟩

/-- The cells of the conversations likewise. -/
theorem conversation_cells (url : String → Option URL) (string : Timestamp → String)
    {s : State Conversation ConversationsCell} {as : List (Action Conversation)}
    (hrun : run (system (conversationsCell url string)) as = some s) {j : Nat} {c : Conversation}
    {k : ConversationsCell} (hj : s.cells[j]? = some (some c, k)) :
    k = ⟨c.user.username, c.message.text, string c.message.timestamp⟩ ∧
      ∀ p ∈ (s.loads.views j).image, url c.user.profileImageURL = some p.url := by
  have hpictures : OwnPictures (ConversationViewModel.profileImageURL url) s :=
    ownPictures_of_always (fun _ => rfl) hrun
  exact ⟨labelled_run hrun j c k hj, (hpictures j c k hj).image⟩

theorem requests_of_guard {κ : Type} {K : CellClass User κ} {url : String → Option URL}
    (h : ∀ user, K.request user = (url user.profileImageURL).map some) :
    Requests K fun user => url user.profileImageURL := by
  intro user
  cases hurl : url user.profileImageURL <;> simp [h, hurl]

/-- In every state of a run the cells of the user list show, and wait for, no picture but
their own user's, exactly when a user whose `profileImageURL` is no URL is only put into
cells that show no picture and wait for none. -/
theorem user_cells (url : String → Option URL) {s : State User UserCell} {as : List (Action User)}
    (hrun : run (system (userCell url)) as = some s) :
    Throughout (system (userCell url)) (OwnPictures fun user => url user.profileImageURL)
      (system (userCell url)).init as ↔
    StepsMeet (system (userCell url)) (BlankKept (userCell url)) (system (userCell url)).init as :=
  pictures_run (requests_of_guard fun _ => rfl) hrun

/-- A cell is reused while its picture is still loading; a user without a picture gets
another. -/
def listedUsers : List (Action User) :=
  [.dequeueNew, .assign 0 bob none, .assign 0 eve (some [2]), .complete 0 (some [1]),
   .dequeueNew, .assign 1 ⟨"", "", "", "ann", ""⟩ none]

def nonempty (string : String) : Option URL := if string = "" then none else some string

def afterListing : State User UserCell :=
  (run (system (userCell nonempty)) listedUsers).get (by decide)

theorem user_cells_listed :
    Throughout (system (userCell nonempty)) (OwnPictures fun user => nonempty user.profileImageURL)
      (system (userCell nonempty)).init listedUsers :=
  (user_cells nonempty (s := afterListing) (Option.some_get _).symm).mpr (by decide)

/-- The header makes the same early return, but gets its user only once: it shows the names
and no picture but that of this user. -/
theorem profile_headers (url : String → Option URL) {s : State User ProfileHeader}
    {as : List (Action User)} (hrun : run (system (profileHeader url)) as = some s)
    (honce : StepsMeet (system (profileHeader url)) AssignedOnce
      (system (profileHeader url)).init as)
    {j : Nat} {user : User} {k : ProfileHeader} (hj : s.cells[j]? = some (some user, k)) :
    k.fullnameLabel = user.fullname ∧ k.usernameLabel = "@" ++ user.username ∧
      ∀ p ∈ (s.loads.views j).image, url user.profileImageURL = some p.url := by
  have hlabels : k = (profileHeader url).configure (profileHeader url).fresh user :=
    labelled_run hrun j user k hj
  have hpictures : OwnPictures (fun user : User => url user.profileImageURL) s :=
    ownPictures_once (requests_of_guard fun _ => rfl) hrun honce
  subst hlabels
  exact ⟨rfl, rfl, (hpictures j user _ hj).image⟩

end ChipChat.ReusedCells
