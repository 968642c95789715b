import ChipChat.LabelledSystem
import ChipChat.Service

/-!
# The message field of a chat

`CustomInputAccessoryView` hands its text to `ChatController` at every tap and keeps
it until the upload reports success. Edits, taps and reports come in any order; the
history lists them in the order in which they came.
-/

namespace ChipChat.MessageInput

open LabelledSystem

set_option autoImplicit false

inductive Event where
  | edited
  | called (number : Nat) (message : String)
  | failed (number : Nat)
  | cleared (number : Nat) (removed : String)
  deriving DecidableEq, Repr

/-- A call of `uploadMessage` whose completion has not run, with the number of edits
before its tap and the write it started, which is `none` if nobody is signed in. -/
structure Call where
  number : Nat
  message : String
  edits : Nat
  write : Option Write
  deriving DecidableEq, Repr

structure State where
  currentUser : Option String
  user : User
  text : String
  placeholderHidden : Bool
  waiting : List Call
  calls : Nat
  edits : Nat
  history : List Event
  deriving DecidableEq, Repr

/-- A chat with `user`, opened while `currentUser` is signed in. -/
def initial (currentUser : Option String) (user : User) : State :=
  ⟨currentUser, user, "", false, [], 0, 0, []⟩

inductive Action where
  | edit (text : String)
  | send (date : Timestamp)
  | completed (j : Nat) (outcome : Outcome)

namespace State

def handleTextInputChange (s : State) (text : String) : State :=
  { s with
    text := text
    placeholderHidden := !text.isEmpty
    edits := s.edits + 1
    history := s.history ++ [.edited] }

/-- Whatever the text is, `ChatController` passes it on to `uploadMessage`. -/
def handleSendMessage (s : State) (date : Timestamp) : State :=
  { s with
    waiting := s.waiting ++ [⟨s.calls, s.text, s.edits,
      Service.uploadMessage s.calls 0 s.currentUser s.text s.user date⟩]
    calls := s.calls + 1
    history := s.history ++ [.called s.calls s.text] }

/-- A text view whose text is set to `nil` reads as empty. -/
def clearMessageText (s : State) : State := { s with text := "", placeholderHidden := false }

/-- The completion given to `uploadMessage`. -/
def uploadCompletion (s : State) (j : Nat) (c : Call) : Outcome → State
  | .rejected =>
      { s with waiting := s.waiting.eraseIdx j, history := s.history ++ [.failed c.number] }
  | .stored =>
      { s.clearMessageText with
        waiting := s.waiting.eraseIdx j
        history := s.history ++ [.cleared c.number s.text] }

end State

def step (s : State) : Action → Option State
  | .edit text => some (s.handleTextInputChange text)
  | .send date => some (s.handleSendMessage date)
  | .completed j outcome =>
      match s.waiting[j]? with
      | none => none
      | some c => if c.write.isSome then some (s.uploadCompletion j c outcome) else none

def system (currentUser : Option String) (user : User) : System State Action :=
  ⟨initial currentUser user, step⟩

/-- What one step can do. -/
inductive Change (s : State) : Action → State → Prop where
  | edited (text : String) : Change s (.edit text) (s.handleTextInputChange text)
  | sent (date : Timestamp) : Change s (.send date) (s.handleSendMessage date)
  | rejected (j : Nat) (c : Call) (hc : s.waiting[j]? = some c) :
      Change s (.completed j .rejected) (s.uploadCompletion j c .rejected)
  | stored (j : Nat) (c : Call) (hc : s.waiting[j]? = some c) :
      Change s (.completed j .stored) (s.uploadCompletion j c .stored)

theorem step_change {s t : State} {a : Action} (h : step s a = some t) : Change s a t := by
  cases a with
  | edit text =>
    obtain rfl := Option.some.inj h
    exact .edited text
  | send date =>
    obtain rfl := Option.some.inj h
    exact .sent date
  | completed j outcome =>
    simp only [step] at h
    split at h
    · cases h
    · rename_i c hc
      rw [Option.ite_none_right_eq_some] at h
      obtain rfl := Option.some.inj h.2
      cases outcome with
      | rejected => exact .rejected j c hc
      | stored => exact .stored j c hc

/-- The placeholder is shown exactly over an empty field. -/
theorem placeholder_run {currentUser : Option String} {user : User} {s : State} {as : List Action}
    (hrun : run (system currentUser user) as = some s) : s.placeholderHidden = !s.text.isEmpty := by
  apply invariant (S := system currentUser user) (I := fun s => s.placeholderHidden = !s.text.isEmpty)
    rfl ?_ hrun
  intro s a t hs ht
  cases step_change ht with
  | edited | stored => rfl
  | sent | rejected => exact hs

/-- Where the marked element of a list that has grown at its end can stand. -/
theorem concat_eq_append_cons_iff {α : Type*} (l before after : List α) (x e : α) :
    l ++ [e] = before ++ x :: after ↔
      (after = [] ∧ before = l ∧ x = e) ∨
        ∃ after', after = after' ++ [e] ∧ l = before ++ x :: after' := by
  induction after using List.reverseRecOn with
  | nil =>
    rw [List.append_singleton_inj]
    constructor
    · rintro ⟨rfl, rfl⟩
      exact Or.inl ⟨rfl, rfl, rfl⟩
    · rintro (⟨-, rfl, rfl⟩ | ⟨after', hnil, -⟩)
      · exact ⟨rfl, rfl⟩
      · simp at hnil
  | append_singleton after y _ =>
    rw [← List.cons_append, ← List.append_assoc, List.append_singleton_inj]
    constructor
    · rintro ⟨rfl, rfl⟩
      exact Or.inr ⟨after, rfl, rfl⟩
    · rintro (⟨hnil, -⟩ | ⟨after', hafter, rfl⟩)
      · simp at hnil
      · obtain ⟨rfl, rfl⟩ := List.append_singleton_inj.mp hafter
        exact ⟨rfl, rfl⟩

/-- `between` is what came after the call `n`, which passed `m`. -/
def CalledBefore (history : List Event) (n : Nat) (m : String) (between : List Event) : Prop :=
  ∃ before, history = before ++ .called n m :: between

theorem calledBefore_concat_iff (history : List Event) (e : Event) (n : Nat) (m : String)
    (between : List Event) :
    CalledBefore (history ++ [e]) n m between ↔ (between = [] ∧ .called n m = e) ∨
      ∃ between', between = between' ++ [e] ∧ CalledBefore history n m between' := by
  simp only [CalledBefore, concat_eq_append_cons_iff]
  constructor
  · rintro ⟨before, ⟨hnil, -, he⟩ | ⟨between', hbetween, hhistory⟩⟩
    · exact Or.inl ⟨hnil, he⟩
    · exact Or.inr ⟨between', hbetween, before, hhistory⟩
  · rintro (⟨hnil, he⟩ | ⟨between', hbetween, before, hhistory⟩)
    · exact ⟨history, Or.inl ⟨hnil, rfl, he⟩⟩
    · exact ⟨before, Or.inr ⟨between', hbetween, hhistory⟩⟩

/-- What the history knows of the calls, and what the field holds of those still waiting. -/
structure Tracked (s : State) : Prop where
  fresh : ∀ n m between, CalledBefore s.history n m between → n < s.calls
  numbers : (s.waiting.map Call.number).Nodup
  called : ∀ c ∈ s.waiting, ∃ between, CalledBefore s.history c.number c.message between
  pending : ∀ c ∈ s.waiting, ∀ m between, CalledBefore s.history c.number m between →
    .failed c.number ∉ between
  edits : ∀ c ∈ s.waiting, ∀ m between, CalledBefore s.history c.number m between →
    c.edits + between.count .edited = s.edits
  unchanged : ∀ c ∈ s.waiting, c.edits = s.edits → s.text = "" ∨ s.text = c.message
  answered : ∀ n m between, CalledBefore s.history n m between →
    .edited ∈ between ∨ .failed n ∈ between ∨ s.text = "" ∨ ∃ c ∈ s.waiting, c.number = n

section Steps
variable {s : State} (h : Tracked s)
include h

theorem Tracked.edits_le {c : Call} (hc : c ∈ s.waiting) : c.edits ≤ s.edits := by
  obtain ⟨between, hbetween⟩ := h.called c hc
  have hcount := h.edits c hc c.message between hbetween
  omega

theorem Tracked.number_lt {c : Call} (hc : c ∈ s.waiting) : c.number < s.calls := by
  obtain ⟨between, hbetween⟩ := h.called c hc
  exact h.fresh c.number c.message between hbetween

/-- The calls that wait after one has been answered, and their numbers. -/
theorem Tracked.waiting_eraseIdx {j : Nat} {c : Call} (hc : s.waiting[j]? = some c) :
    ((s.waiting.eraseIdx j).map Call.number).Nodup ∧
      (∀ d ∈ s.waiting.eraseIdx j, d ∈ s.waiting ∧ d.number ≠ c.number) ∧
        ∀ d ∈ s.waiting, d = c ∨ d ∈ s.waiting.eraseIdx j := by
  obtain ⟨hj, rfl⟩ := List.getElem?_eq_some_iff.mp hc
  have hperm := List.getElem_cons_eraseIdx_perm hj
  have hnumbers := ((hperm.map Call.number).nodup_iff).mpr h.numbers
  rw [List.map_cons, List.nodup_cons] at hnumbers
  refine ⟨hnumbers.2, ?_, ?_⟩
  · intro d hd
    refine ⟨List.mem_of_mem_eraseIdx hd, ?_⟩
    intro heq
    exact hnumbers.1 (heq ▸ List.mem_map_of_mem hd)
  · intro d hd
    exact List.mem_cons.mp (hperm.mem_iff.mpr hd)

theorem tracked_edit (text : String) : Tracked (s.handleTextInputChange text) := by
  have hbefore : ∀ n m between, CalledBefore (s.history ++ [.edited]) n m between →
      ∃ between', between = between' ++ [.edited] ∧ CalledBefore s.history n m between' := by
    intro n m between hbetween
    simpa using (calledBefore_concat_iff _ _ _ _ _).mp hbetween
  constructor
  · intro n m between hbetween
    obtain ⟨between', -, hbetween'⟩ := hbefore n m between hbetween
    exact h.fresh n m between' hbetween'
  · exact h.numbers
  · intro c hc
    obtain ⟨between, hbetween⟩ := h.called c hc
    exact ⟨_, (calledBefore_concat_iff _ _ _ _ _).mpr (Or.inr ⟨between, rfl, hbetween⟩)⟩
  · intro c hc m between hbetween
    obtain ⟨between', rfl, hbetween'⟩ := hbefore c.number m between hbetween
    simpa using h.pending c hc m between' hbetween'
  · intro c hc m between hbetween
    obtain ⟨between', rfl, hbetween'⟩ := hbefore c.number m between hbetween
    have hcount := h.edits c hc m between' hbetween'
    simp only [State.handleTextInputChange, List.count_append, List.count_singleton_self]
    omega
  -- every call was made before this edit
  · intro c hc hedits
    have hle := h.edits_le hc
    simp only [State.handleTextInputChange] at hedits
    omega
  · intro n m between hbetween
    obtain ⟨between', rfl, -⟩ := hbefore n m between hbetween
    exact Or.inl (by simp)

theorem tracked_send (date : Timestamp) : Tracked (s.handleSendMessage date) := by
  have hbefore : ∀ n m between,
      CalledBefore (s.history ++ [.called s.calls s.text]) n m between →
        (between = [] ∧ n = s.calls ∧ m = s.text) ∨ ∃ between',
          between = between' ++ [.called s.calls s.text] ∧ CalledBefore s.history n m between' := by
    intro n m between hbetween
    simpa using (calledBefore_concat_iff _ _ _ _ _).mp hbetween
  have hwaiting : ∀ c ∈ (s.handleSendMessage date).waiting, c ∈ s.waiting ∨
      (c.number = s.calls ∧ c.message = s.text ∧ c.edits = s.edits) := by
    intro c hc
    rcases List.mem_append.mp hc with hc | hc
    · exact Or.inl hc
    · rw [List.mem_singleton.mp hc]
      exact Or.inr ⟨rfl, rfl, rfl⟩
  -- numbers tell the new call from the calls that waited before it
  have hcall : ∀ c ∈ (s.handleSendMessage date).waiting, ∀ m between,
      CalledBefore (s.history ++ [.called s.calls s.text]) c.number m between →
        (between = [] ∧ c.edits = s.edits) ∨ (c ∈ s.waiting ∧ ∃ between',
          between = between' ++ [.called s.calls s.text] ∧
            CalledBefore s.history c.number m between') := by
    intro c hc m between hbetween
    rcases hwaiting c hc with hc | ⟨hnumber, -, hedits⟩
    · rcases hbefore c.number m between hbetween with ⟨-, hnumber, -⟩ | hold
      · exact absurd hnumber (Nat.ne_of_lt (h.number_lt hc))
      · exact Or.inr ⟨hc, hold⟩
    · rcases hbefore c.number m between hbetween with ⟨hnil, -, -⟩ | ⟨between', -, hbetween'⟩
      · exact Or.inl ⟨hnil, hedits⟩
      · exact absurd (hnumber ▸ h.fresh c.number m between' hbetween') (lt_irrefl _)
  constructor
  · intro n m between hbetween
    rcases hbefore n m between hbetween with ⟨-, rfl, -⟩ | ⟨between', -, hbetween'⟩
    · exact Nat.lt_succ_self _
    · exact Nat.lt_succ_of_lt (h.fresh n m between' hbetween')
  · simp only [State.handleSendMessage, List.map_append, List.map_singleton]
    refine List.nodup_append.mpr ⟨h.numbers, List.nodup_singleton _, ?_⟩
    intro n hn n' hn'
    obtain ⟨c, hc, rfl⟩ := List.mem_map.mp hn
    rw [List.mem_singleton.mp hn']
    exact Nat.ne_of_lt (h.number_lt hc)
  · intro c hc
    rcases hwaiting c hc with hc | ⟨hnumber, hmessage, -⟩
    · obtain ⟨between, hbetween⟩ := h.called c hc
      exact ⟨_, (calledBefore_concat_iff _ _ _ _ _).mpr (Or.inr ⟨between, rfl, hbetween⟩)⟩
    · rw [hnumber, hmessage]
      exact ⟨[], (calledBefore_concat_iff _ _ _ _ _).mpr (Or.inl ⟨rfl, rfl⟩)⟩
  · intro c hc m between hbetween
    rcases hcall c hc m between hbetween with ⟨rfl, -⟩ | ⟨hc, between', rfl, hbetween'⟩
    · exact List.not_mem_nil
    · simpa using h.pending c hc m between' hbetween'
  · intro c hc m between hbetween
    rcases hcall c hc m between hbetween with ⟨rfl, hedits⟩ | ⟨hc, between', rfl, hbetween'⟩
    · exact hedits
    · simpa [State.handleSendMessage] using h.edits c hc m between' hbetween'
  · intro c hc hedits
    rcases hwaiting c hc with hc | ⟨-, hmessage, -⟩
    · exact h.unchanged c hc hedits
    · exact Or.inr hmessage.symm
  · intro n m between hbetween
    rcases hbefore n m between hbetween with ⟨rfl, rfl, rfl⟩ | ⟨between', rfl, hbetween'⟩
    · exact Or.inr (Or.inr (Or.inr ⟨_, List.mem_append_right _ (List.mem_singleton.mpr rfl), rfl⟩))
    · rcases h.answered n m between' hbetween' with hedited | hfailed | hempty | ⟨c, hc, hn⟩
      · exact Or.inl (List.mem_append_left _ hedited)
      · exact Or.inr (Or.inl (List.mem_append_left _ hfailed))
      · exact Or.inr (Or.inr (Or.inl hempty))
      · exact Or.inr (Or.inr (Or.inr ⟨c, List.mem_append_left _ hc, hn⟩))

/-- The report that `e` records is for `c`: a failure, or a success that empties the field. -/
theorem tracked_report {j : Nat} {c : Call} (hc : s.waiting[j]? = some c) {t : State} {e : Event}
    (hwaiting : t.waiting = s.waiting.eraseIdx j) (hcalls : t.calls = s.calls)
    (hedits : t.edits = s.edits) (hhistory : t.history = s.history ++ [e])
    (he : e ≠ .edited ∧ (∀ n m, e ≠ .called n m) ∧ ∀ n, e = .failed n → n = c.number)
    (htext : (e = .failed c.number ∧ t.text = s.text) ∨ t.text = "") : Tracked t := by
  obtain ⟨hnumbers, hkept, hsplit⟩ := h.waiting_eraseIdx hc
  have hbefore : ∀ n m between, CalledBefore t.history n m between →
      ∃ between', between = between' ++ [e] ∧ CalledBefore s.history n m between' := by
    intro n m between hbetween
    rw [hhistory] at hbetween
    rcases (calledBefore_concat_iff _ _ _ _ _).mp hbetween with ⟨-, hcalled⟩ | hold
    · exact absurd hcalled.symm (he.2.1 n m)
    · exact hold
  constructor
  · intro n m between hbetween
    obtain ⟨between', -, hbetween'⟩ := hbefore n m between hbetween
    exact hcalls ▸ h.fresh n m between' hbetween'
  · exact hwaiting ▸ hnumbers
  · intro d hd
    obtain ⟨between, hbetween⟩ := h.called d (hkept d (hwaiting ▸ hd)).1
    rw [hhistory]
    exact ⟨_, (calledBefore_concat_iff _ _ _ _ _).mpr (Or.inr ⟨between, rfl, hbetween⟩)⟩
  · intro d hd m between hbetween
    obtain ⟨hmem, hne⟩ := hkept d (hwaiting ▸ hd)
    obtain ⟨between', rfl, hbetween'⟩ := hbefore d.number m between hbetween
    intro hfailed
    rcases List.mem_append.mp hfailed with hfailed | hfailed
    · exact h.pending d hmem m between' hbetween' hfailed
    · exact hne (he.2.2 d.number (List.mem_singleton.mp hfailed).symm)
  · intro d hd m between hbetween
    obtain ⟨between', rfl, hbetween'⟩ := hbefore d.number m between hbetween
    have hcount := h.edits d (hkept d (hwaiting ▸ hd)).1 m between' hbetween'
    rw [List.count_append, List.count_singleton, if_neg (by simpa using he.1), hedits]
    exact hcount
  · intro d hd hdedits
    rcases htext with ⟨-, htext⟩ | htext
    · rw [htext]
      exact h.unchanged d (hkept d (hwaiting ▸ hd)).1 (hdedits.trans hedits)
    · exact Or.inl htext
  · intro n m between hbetween
    obtain ⟨between', rfl, hbetween'⟩ := hbefore n m between hbetween
    rcases htext with ⟨rfl, htext⟩ | htext
    · rcases h.answered n m between' hbetween' with hedited | hfailed | hempty | ⟨d, hd, rfl⟩
      · exact Or.inl (List.mem_append_left _ hedited)
      · exact Or.inr (Or.inl (List.mem_append_left _ hfailed))
      · exact Or.inr (Or.inr (Or.inl (htext.trans hempty)))
      · rcases hsplit d hd with rfl | hd
        · exact Or.inr (Or.inl (List.mem_append_right _ (List.mem_singleton.mpr rfl)))
        · exact Or.inr (Or.inr (Or.inr ⟨d, hwaiting ▸ hd, rfl⟩))
    · exact Or.inr (Or.inr (Or.inl htext))

end Steps

theorem tracked_init (currentUser : Option String) (user : User) :
    Tracked (initial currentUser user) := by
  constructor <;> simp [initial, CalledBefore]

theorem tracked_step {s t : State} {a : Action} (h : Tracked s) (ht : step s a = some t) :
    Tracked t := by
  cases step_change ht with
  | edited text => exact tracked_edit h text
  | sent date => exact tracked_send h date
  | rejected j c hc =>
    refine tracked_report h hc rfl rfl rfl rfl ⟨by simp, by simp, ?_⟩ (Or.inl ⟨rfl, rfl⟩)
    rintro n heq
    cases heq
    rfl
  | stored j c hc =>
    exact tracked_report h hc rfl rfl rfl rfl ⟨by simp, by simp, by simp⟩ (Or.inr rfl)

end ChipChat.MessageInput
