import ChipChat.MessageInput

/-!
# Sending a draft once, and clearing only what was sent

Every tap sends whatever the field holds, so a draft is sent once and never empty
only where each tap finds a text edited after the calls that still wait were made. A
report of success clears the field whatever it holds by then.
-/

namespace ChipChat.MessageInput

open LabelledSystem

set_option autoImplicit false

/-- No call passes an empty text, and no two calls come without an edit or a failure between. -/
structure SentOnce (history : List Event) : Prop where
  nonempty : ∀ n m, .called n m ∈ history → m ≠ ""
  apart : ∀ before n m between n' m' after,
    history = before ++ .called n m :: between ++ .called n' m' :: after →
      .edited ∈ between ∨ .failed n ∈ between

/-- Whatever a report removes was passed to the call it is about and not edited since. -/
def DraftKept (history : List Event) : Prop :=
  ∀ before n removed after, history = before ++ .cleared n removed :: after → removed ≠ "" →
    ∃ between, CalledBefore before n removed between ∧ .edited ∉ between

/-- A tap finds a text, and the calls still waiting were made before the last edit. -/
def TapsEditedText (s : State) : Action → Prop
  | .send _ => s.text ≠ "" ∧ ∀ c ∈ s.waiting, c.edits < s.edits
  | _ => True

/-- A success finds the text as it was at the tap, or finds none. -/
def ReportsBeforeEdits (s : State) : Action → Prop
  | .completed j .stored => ∀ c ∈ s.waiting[j]?, s.text = "" ∨ c.edits = s.edits
  | _ => True

instance (s : State) : ∀ a, Decidable (TapsEditedText s a)
  | .send _ => inferInstanceAs (Decidable (s.text ≠ "" ∧ ∀ c ∈ s.waiting, c.edits < s.edits))
  | .edit _ | .completed .. => isTrue trivial

instance (s : State) : ∀ a, Decidable (ReportsBeforeEdits s a)
  | .completed j .stored =>
      inferInstanceAs (Decidable (∀ c ∈ s.waiting[j]?, s.text = "" ∨ c.edits = s.edits))
  | .completed _ .rejected | .edit _ | .send _ => isTrue trivial

theorem sentOnce_concat_iff (history : List Event) (e : Event) :
    SentOnce (history ++ [e]) ↔ SentOnce history ∧ ∀ n m, e = .called n m → m ≠ "" ∧
      ∀ n' m' between, CalledBefore history n' m' between →
        .edited ∈ between ∨ .failed n' ∈ between := by
  constructor
  · intro h
    refine ⟨⟨?_, ?_⟩, ?_⟩
    · exact fun n m hcalled => h.nonempty n m (List.mem_append_left _ hcalled)
    · rintro before n m between n' m' after rfl
      exact h.apart before n m between n' m' (after ++ [e]) (by simp)
    · rintro n m rfl
      refine ⟨h.nonempty n m (List.mem_append_right _ (List.mem_singleton.mpr rfl)), ?_⟩
      rintro n' m' between ⟨before, rfl⟩
      exact h.apart before n' m' between n m [] rfl
  · rintro ⟨h, hlast⟩
    constructor
    · intro n m hcalled
      rcases List.mem_append.mp hcalled with hcalled | hcalled
      · exact h.nonempty n m hcalled
      · exact (hlast n m (List.mem_singleton.mp hcalled).symm).1
    · intro before n m between n' m' after heq
      rcases (concat_eq_append_cons_iff _ _ _ _ _).mp heq with ⟨-, hbefore, hcalled⟩ |
        ⟨after', -, hhistory⟩
      · exact (hlast n' m' hcalled.symm).2 n m between ⟨before, hbefore.symm⟩
      · exact h.apart before n m between n' m' after' hhistory

theorem draftKept_concat_iff (history : List Event) (e : Event) :
    DraftKept (history ++ [e]) ↔ DraftKept history ∧ ∀ n removed, e = .cleared n removed →
      removed ≠ "" → ∃ between, CalledBefore history n removed between ∧ .edited ∉ between := by
  constructor
  · intro h
    constructor
    · rintro before n removed after rfl
      exact h before n removed (after ++ [e]) (by simp)
    · rintro n removed rfl
      exact h history n removed [] rfl
  · rintro ⟨h, hlast⟩ before n removed after heq
    rcases (concat_eq_append_cons_iff _ _ _ _ _).mp heq with ⟨-, rfl, hcleared⟩ |
      ⟨after', -, hhistory⟩
    · exact hlast n removed hcleared.symm
    · exact h before n removed after' hhistory

section Steps
variable {s : State} (h : Tracked s)
include h

/-- A further call is apart from all earlier ones when none still waits over this text. -/
theorem apart_iff (htext : s.text ≠ "") :
    (∀ n m between, CalledBefore s.history n m between →
      .edited ∈ between ∨ .failed n ∈ between) ↔ ∀ c ∈ s.waiting, c.edits < s.edits := by
  constructor
  · intro hapart c hc
    obtain ⟨between, hbetween⟩ := h.called c hc
    have hcount := h.edits c hc c.message between hbetween
    rcases hapart c.number c.message between hbetween with hedited | hfailed
    · have hpos := List.count_pos_iff.mpr hedited
      omega
    · exact absurd hfailed (h.pending c hc c.message between hbetween)
  · intro hwaiting n m between hbetween
    rcases h.answered n m between hbetween with hedited | hfailed | hempty | ⟨c, hc, rfl⟩
    · exact Or.inl hedited
    · exact Or.inr hfailed
    · exact absurd hempty htext
    · have hcount := h.edits c hc m between hbetween
      have hlt := hwaiting c hc
      exact Or.inl (List.count_pos_iff.mp (by omega))

/-- What a success removes was sent with its call when there was no edit since. -/
theorem kept_iff {c : Call} (hc : c ∈ s.waiting) :
    (s.text ≠ "" → ∃ between, CalledBefore s.history c.number s.text between ∧
      .edited ∉ between) ↔ s.text = "" ∨ c.edits = s.edits := by
  constructor
  · intro hkept
    by_cases htext : s.text = ""
    · exact Or.inl htext
    · obtain ⟨between, hbetween, hedited⟩ := hkept htext
      have hcount := h.edits c hc s.text between hbetween
      rw [List.count_eq_zero_of_not_mem hedited] at hcount
      exact Or.inr hcount
  · intro hsame htext
    have hedits := hsame.resolve_left htext
    have hmessage := (h.unchanged c hc hedits).resolve_left htext
    obtain ⟨between, hbetween⟩ := h.called c hc
    have hcount := h.edits c hc c.message between hbetween
    refine ⟨between, hmessage ▸ hbetween, List.count_eq_zero.mp (by omega)⟩

end Steps

theorem sentOnce_step {s t : State} {a : Action} (h : Tracked s) (hs : SentOnce s.history)
    (ht : step s a = some t) : SentOnce t.history ↔ TapsEditedText s a := by
  cases step_change ht with
  | edited | rejected | stored =>
    exact iff_of_true ((sentOnce_concat_iff _ _).mpr ⟨hs, by simp⟩) trivial
  | sent date =>
    rw [State.handleSendMessage, sentOnce_concat_iff]
    constructor
    · rintro ⟨-, hlast⟩
      obtain ⟨htext, hapart⟩ := hlast s.calls s.text rfl
      exact ⟨htext, (apart_iff h htext).mp hapart⟩
    · rintro ⟨htext, hwaiting⟩
      refine ⟨hs, ?_⟩
      rintro n m heq
      cases heq
      exact ⟨htext, (apart_iff h htext).mpr hwaiting⟩

theorem draftKept_step {s t : State} {a : Action} (h : Tracked s) (hs : DraftKept s.history)
    (ht : step s a = some t) : DraftKept t.history ↔ ReportsBeforeEdits s a := by
  cases step_change ht with
  | edited | sent | rejected =>
    exact iff_of_true ((draftKept_concat_iff _ _).mpr ⟨hs, by simp⟩) trivial
  | stored j c hc =>
    have hkept := kept_iff h (List.mem_of_getElem? hc)
    simp only [ReportsBeforeEdits, hc, Option.mem_some_iff, forall_eq']
    rw [← hkept]
    constructor
    · exact fun hafter => ((draftKept_concat_iff _ _).mp hafter).2 c.number s.text rfl
    · intro hlast
      refine (draftKept_concat_iff _ _).mpr ⟨hs, ?_⟩
      rintro n removed heq
      cases heq
      exact hlast

theorem sentOnce_nil : SentOnce [] := by
  constructor <;> simp

theorem draftKept_nil : DraftKept [] := by
  simp [DraftKept]

def bob : User := ⟨"", "", "bob", "bob", ""⟩

/-- Ann taps Send twice before the first upload is acknowledged. -/
def doubleTap : List Action := [.edit "hi", .send 0, .send 0]

theorem not_sentOnce :
    ¬ ∀ currentUser user as s, run (system currentUser user) as = some s → SentOnce s.history := by
  intro h
  have htwice := h (some "ann") bob doubleTap _ rfl
  exact absurd (htwice.apart [.edited] 0 "hi" [] 1 "hi" [] rfl) (by simp)

theorem sent_once {currentUser : Option String} {user : User} {s : State} {as : List Action}
    (hrun : run (system currentUser user) as = some s) :
    Throughout (system currentUser user) (fun s => SentOnce s.history) (initial currentUser user) as ↔
      StepsMeet (system currentUser user) TapsEditedText (initial currentUser user) as := by
  apply throughout_iff_stepsMeet (I := Tracked)
  · exact fun s a t hs ht => tracked_step hs ht
  · exact fun s a t htracked hs ht => sentOnce_step htracked hs ht
  · exact tracked_init currentUser user
  · exact sentOnce_nil
  · exact hrun

/-- Two messages; the second is sent again after its upload has failed. -/
def twoMessages : List Action :=
  [.edit "hi", .send 0, .completed 0 .stored, .edit "there", .send 1, .completed 0 .rejected,
   .send 2]

theorem sent_once_twoMessages :
    Throughout (system (some "ann") bob) (fun s => SentOnce s.history) (initial (some "ann") bob)
      twoMessages :=
  (sent_once (s := (run (system (some "ann") bob) twoMessages).get (by decide))
    (Option.some_get _).symm).mpr (by decide)

/-- Ann types on while the upload is under way. -/
def typedOn : List Action := [.edit "hi", .send 0, .edit "hi, are you", .completed 0 .stored]

theorem not_draftKept :
    ¬ ∀ currentUser user as s, run (system currentUser user) as = some s → DraftKept s.history := by
  intro h
  have hkept := h (some "ann") bob typedOn _ rfl
  obtain ⟨between, ⟨before, hsplit⟩, -⟩ :=
    hkept [.edited, .called 0 "hi", .edited] 0 "hi, are you" [] rfl (by decide)
  have hmem : Event.called 0 "hi, are you" ∈ [Event.edited, .called 0 "hi", .edited] := by
    rw [hsplit]
    simp
  exact absurd hmem (by decide)

theorem draft_kept {currentUser : Option String} {user : User} {s : State} {as : List Action}
    (hrun : run (system currentUser user) as = some s) :
    Throughout (system currentUser user) (fun s => DraftKept s.history) (initial currentUser user) as ↔
      StepsMeet (system currentUser user) ReportsBeforeEdits (initial currentUser user) as := by
  apply throughout_iff_stepsMeet (I := Tracked)
  · exact fun s a t hs ht => tracked_step hs ht
  · exact fun s a t htracked hs ht => draftKept_step htracked hs ht
  · exact tracked_init currentUser user
  · exact draftKept_nil
  · exact hrun

theorem draft_kept_twoMessages :
    Throughout (system (some "ann") bob) (fun s => DraftKept s.history) (initial (some "ann") bob)
      twoMessages :=
  (draft_kept (s := (run (system (some "ann") bob) twoMessages).get (by decide))
    (Option.some_get _).symm).mpr (by decide)

end ChipChat.MessageInput
