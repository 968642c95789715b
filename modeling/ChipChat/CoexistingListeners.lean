import ChipChat.ConversationCallbacks

/-!
# Several listeners over one dictionary

Every `authenticationComplete` adds a listener with an array of its own. A lookup
that returns writes the whole array of its listener, so a listener that lags behind
moves rows back unless its array holds no row that another listener has renewed.
-/

namespace ChipChat.Listeners

open LabelledSystem

set_option autoImplicit false

/-- A listener receives the messages of each partner with increasing timestamps. -/
def Advancing (s : State) : Action → Prop
  | .listen => True
  | .appended i c _ =>
      ∀ array ∈ s.arrays[i]?, ∀ d ∈ array, d.partner = c.partner →
        d.message.timestamp < c.message.timestamp

/-- The array handed over is, for the partners in it, not behind the array of any listener. -/
def UpToDate (s : State) : Action → Prop
  | .listen => True
  | .appended i c _ =>
      ∀ array ∈ s.arrays[i]?, ∀ other ∈ s.arrays, ∀ d ∈ other,
        (∃ e ∈ array ++ [c], e.partner = d.partner) →
          ∃ e ∈ array ++ [c], e.partner = d.partner ∧ d.message.timestamp ≤ e.message.timestamp

instance (s : State) : ∀ a, Decidable (Advancing s a)
  | .listen => isTrue trivial
  | .appended i c _ => inferInstanceAs (Decidable (∀ array ∈ s.arrays[i]?, ∀ d ∈ array,
      d.partner = c.partner → d.message.timestamp < c.message.timestamp))

instance (s : State) : ∀ a, Decidable (UpToDate s a)
  | .listen => isTrue trivial
  | .appended i c _ => inferInstanceAs (Decidable (∀ array ∈ s.arrays[i]?, ∀ other ∈ s.arrays,
      ∀ d ∈ other, (∃ e ∈ array ++ [c], e.partner = d.partner) →
        ∃ e ∈ array ++ [c], e.partner = d.partner ∧ d.message.timestamp ≤ e.message.timestamp))

/-- What `t` holds for a partner is no older than what `s` holds. -/
def NotMovedBack (s t : State) : Prop :=
  ∀ partner c, s.controller.conversationsDictionary.lookup partner = some c →
    ∃ d, t.controller.conversationsDictionary.lookup partner = some d ∧
      c.message.timestamp ≤ d.message.timestamp

def NeverMovesBack (as : List Action) : Prop :=
  ∀ before between after s t, as = before ++ between ++ after →
    run system before = some s → runFrom system s between = some t → NotMovedBack s t

theorem NotMovedBack.refl (s : State) : NotMovedBack s s := fun _ c hc => ⟨c, hc, le_rfl⟩

theorem NotMovedBack.trans (s t u : State) (hst : NotMovedBack s t) (htu : NotMovedBack t u) :
    NotMovedBack s u := by
  intro partner c hc
  obtain ⟨d, hd, hcd⟩ := hst partner c hc
  obtain ⟨e, he, hde⟩ := htu partner d hd
  exact ⟨e, he, hcd.trans hde⟩

def Increasing (conversations : List Conversation) : Prop :=
  conversations.Pairwise fun c d => c.partner = d.partner →
    c.message.timestamp < d.message.timestamp

theorem increasing_concat_iff (conversations : List Conversation) (c : Conversation) :
    Increasing (conversations ++ [c]) ↔ Increasing conversations ∧
      ∀ d ∈ conversations, d.partner = c.partner → d.message.timestamp < c.message.timestamp := by
  simp [Increasing, List.pairwise_append]

theorem le_lastWith {conversations : List Conversation} (h : Increasing conversations)
    {partner : String} {c : Conversation} (hc : lastWith conversations partner = some c) :
    ∀ d ∈ conversations, d.partner = partner → d.message.timestamp ≤ c.message.timestamp := by
  induction conversations using List.reverseRecOn with
  | nil => cases hc
  | append_singleton conversations e ih =>
    rw [increasing_concat_iff] at h
    rw [lastWith_append] at hc
    intro d hd hpartner
    by_cases he : e.partner = partner
    · have hlast : lastWith [e] partner = some e := by simp [lastWith, he]
      rw [hlast, Option.some_or] at hc
      obtain rfl := Option.some.inj hc
      rcases List.mem_append.mp hd with hd | hd
      · exact (h.2 d hd (hpartner.trans he.symm)).le
      · rw [List.mem_singleton.mp hd]
    · have hlast : lastWith [e] partner = none := by simp [lastWith, he]
      rw [hlast, Option.none_or] at hc
      rcases List.mem_append.mp hd with hd | hd
      · exact ih h.1 hc d hd hpartner
      · rw [List.mem_singleton.mp hd] at hpartner
        exact absurd hpartner he

/-- The dictionary holds, for each partner, the newest conversation of all arrays. -/
structure Current (s : State) : Prop where
  increasing : ∀ array ∈ s.arrays, Increasing array
  present : ∀ array ∈ s.arrays, ∀ d ∈ array,
    (s.controller.conversationsDictionary.lookup d.partner).isSome
  held : ∀ partner c, s.controller.conversationsDictionary.lookup partner = some c →
    c.partner = partner ∧ ∃ array ∈ s.arrays, c ∈ array
  newest : ∀ partner c, s.controller.conversationsDictionary.lookup partner = some c →
    ∀ array ∈ s.arrays, ∀ d ∈ array, d.partner = partner →
      d.message.timestamp ≤ c.message.timestamp

theorem current_init : Current initial := by
  constructor <;> simp [initial, Callbacks.initial]

theorem current_listen {s : State} (h : Current s) :
    Current { s with arrays := s.arrays ++ [[]] } := by
  have hnew : ∀ array ∈ s.arrays ++ [[]], array ∈ s.arrays ∨ array = [] := by
    intro array harray
    simpa using harray
  constructor
  · intro array harray
    rcases hnew array harray with harray | rfl
    · exact h.increasing array harray
    · exact List.Pairwise.nil
  · intro array harray d hd
    rcases hnew array harray with harray | rfl
    · exact h.present array harray d hd
    · cases hd
  · intro partner c hc
    obtain ⟨hpartner, array, harray, hmem⟩ := h.held partner c hc
    exact ⟨hpartner, array, List.mem_append_left _ harray, hmem⟩
  · intro partner c hc array harray d hd
    rcases hnew array harray with harray | rfl
    · exact h.newest partner c hc array harray d hd
    · cases hd

section Appended
variable {s t : State} {i : Nat} {array : List Conversation} {c : Conversation}
  {rows : List Conversation}

theorem lookup_appended (hstep : Callbacks.step s.controller ⟨array ++ [c], rows⟩ =
    some t.controller) (partner : String) :
    t.controller.conversationsDictionary.lookup partner =
      (lastWith (array ++ [c]) partner).or (s.controller.conversationsDictionary.lookup partner) := by
  rw [(Callbacks.step_iff.mp hstep).2, Callbacks.lookup_refiled]

/-- A conversation of some array is still in one after the array of the `i`-th has grown. -/
theorem mem_arrays_set (harray : s.arrays[i]? = some array) {other : List Conversation}
    (hother : other ∈ s.arrays) {d : Conversation} (hd : d ∈ other) :
    ∃ other ∈ s.arrays.set i (array ++ [c]), d ∈ other := by
  obtain ⟨k, hk, rfl⟩ := List.mem_iff_getElem.mp hother
  obtain ⟨hi, rfl⟩ := List.getElem?_eq_some_iff.mp harray
  by_cases hik : i = k
  · subst hik
    exact ⟨_, List.mem_set hi _, List.mem_append_left _ hd⟩
  · refine ⟨s.arrays[k], ?_, hd⟩
    exact List.mem_iff_getElem.mpr ⟨k, by simpa using hk, by simp [hik]⟩

theorem upToDate_iff (harray : s.arrays[i]? = some array) :
    UpToDate s (.appended i c rows) ↔ ∀ other ∈ s.arrays, ∀ d ∈ other,
      (∃ e ∈ array ++ [c], e.partner = d.partner) →
        ∃ e ∈ array ++ [c], e.partner = d.partner ∧
          d.message.timestamp ≤ e.message.timestamp := by
  simp [UpToDate, harray]

theorem increasing_appended (h : Current s) (harray : s.arrays[i]? = some array)
    (hadvancing : Advancing s (.appended i c rows)) : Increasing (array ++ [c]) := by
  simp only [Advancing, harray, Option.mem_some_iff, forall_eq'] at hadvancing
  exact (increasing_concat_iff array c).mpr
    ⟨h.increasing array (List.mem_of_getElem? harray), hadvancing⟩

/-- When the array handed over is up to date its last conversation of a partner is the newest. -/
theorem newest_appended (harray : s.arrays[i]? = some array)
    (hincreasing : Increasing (array ++ [c])) (hcurrent : UpToDate s (.appended i c rows))
    {partner : String} {e : Conversation} (he : lastWith (array ++ [c]) partner = some e) :
    ∀ other ∈ s.arrays, ∀ d ∈ other, d.partner = partner →
      d.message.timestamp ≤ e.message.timestamp := by
  intro other hother d hd hpartner
  obtain ⟨hemem, hepartner⟩ := lastWith_mem he
  obtain ⟨e', he', hpartner', hle⟩ := (upToDate_iff harray).mp hcurrent other hother d hd
    ⟨e, hemem, hepartner.trans hpartner.symm⟩
  exact hle.trans (le_lastWith hincreasing he e' he' (hpartner'.trans hpartner))

theorem notMovedBack_appended (h : Current s) (harray : s.arrays[i]? = some array)
    (hadvancing : Advancing s (.appended i c rows))
    (hstep : Callbacks.step s.controller ⟨array ++ [c], rows⟩ = some t.controller) :
    NotMovedBack s t ↔ UpToDate s (.appended i c rows) := by
  have hincreasing := increasing_appended h harray hadvancing
  constructor
  · intro hback
    refine (upToDate_iff harray).mpr ?_
    intro other hother d hd hoccurs
    obtain ⟨c₀, hc₀⟩ := Option.isSome_iff_exists.mp (h.present other hother d hd)
    obtain ⟨e, he, hle⟩ := hback d.partner c₀ hc₀
    obtain ⟨e', he'⟩ := Option.isSome_iff_exists.mp
      ((lastWith_isSome_iff (array ++ [c]) d.partner).mpr hoccurs)
    rw [lookup_appended hstep, he', Option.some_or] at he
    obtain rfl := Option.some.inj he
    obtain ⟨hmem, hpartner⟩ := lastWith_mem he'
    exact ⟨e', hmem, hpartner, (h.newest d.partner c₀ hc₀ other hother d hd rfl).trans hle⟩
  · intro hcurrent partner c₀ hc₀
    rw [lookup_appended hstep]
    cases hlast : lastWith (array ++ [c]) partner with
    | none => exact ⟨c₀, hc₀, le_rfl⟩
    | some e =>
      obtain ⟨hpartner, other, hother, hmem⟩ := h.held partner c₀ hc₀
      exact ⟨e, rfl, newest_appended harray hincreasing hcurrent hlast other hother c₀ hmem hpartner⟩

theorem current_appended (h : Current s) (harray : s.arrays[i]? = some array)
    (hadvancing : Advancing s (.appended i c rows)) (hcurrent : UpToDate s (.appended i c rows))
    (harrays : t.arrays = s.arrays.set i (array ++ [c]))
    (hstep : Callbacks.step s.controller ⟨array ++ [c], rows⟩ = some t.controller) :
    Current t := by
  have hincreasing := increasing_appended h harray hadvancing
  have hi : i < s.arrays.length := (List.getElem?_eq_some_iff.mp harray).1
  have hnew : ∀ other ∈ t.arrays, other ∈ s.arrays ∨ other = array ++ [c] := by
    intro other hother
    rw [harrays] at hother
    exact List.mem_or_eq_of_mem_set hother
  have happended : array ++ [c] ∈ t.arrays := harrays ▸ List.mem_set hi _
  constructor
  · intro other hother
    rcases hnew other hother with hother | rfl
    · exact h.increasing other hother
    · exact hincreasing
  · intro other hother d hd
    rw [lookup_appended hstep, Option.isSome_or, Bool.or_eq_true]
    rcases hnew other hother with hother | rfl
    · exact Or.inr (h.present other hother d hd)
    · exact Or.inl ((lastWith_isSome_iff _ _).mpr ⟨d, hd, rfl⟩)
  · intro partner e he
    rw [lookup_appended hstep, Option.or_eq_some_iff] at he
    rcases he with he | ⟨-, he⟩
    · exact ⟨(lastWith_mem he).2, _, happended, (lastWith_mem he).1⟩
    · obtain ⟨hpartner, other, hother, hmem⟩ := h.held partner e he
      rw [harrays]
      exact ⟨hpartner, mem_arrays_set harray hother hmem⟩
  · intro partner e he other hother d hd hpartner
    rw [lookup_appended hstep, Option.or_eq_some_iff] at he
    rcases he with he | ⟨hnone, he⟩
    · rcases hnew other hother with hother | rfl
      · exact newest_appended harray hincreasing hcurrent he other hother d hd hpartner
      · exact le_lastWith hincreasing he d hd hpartner
    · rcases hnew other hother with hother | rfl
      · exact h.newest partner e he other hother d hd hpartner
      · have hsome := (lastWith_isSome_iff (array ++ [c]) partner).mpr ⟨d, hd, hpartner⟩
        rw [hnone] at hsome
        cases hsome

end Appended

theorem current_step {s t : State} {a : Action} (h : Current s) (hadvancing : Advancing s a)
    (hcurrent : UpToDate s a) (ht : step s a = some t) : Current t := by
  rcases step_cases ht with ⟨-, rfl⟩ | ⟨i, array, c, rows, rfl, harray, harrays, hstep⟩
  · exact current_listen h
  · exact current_appended h harray hadvancing hcurrent harrays hstep

theorem notMovedBack_iff {s t : State} {a : Action} (h : Current s) (hadvancing : Advancing s a)
    (ht : step s a = some t) : NotMovedBack s t ↔ UpToDate s a := by
  rcases step_cases ht with ⟨rfl, rfl⟩ | ⟨i, array, c, rows, rfl, harray, -, hstep⟩
  · exact iff_of_true (NotMovedBack.refl s) trivial
  · exact notMovedBack_appended h harray hadvancing hstep

/-- Two listeners; the second has not yet seen Bob's second message when Eve writes. -/
def lagging : List Action :=
  [.listen, .listen,
   .appended 0 (incoming "bob" 1) [incoming "bob" 1],
   .appended 1 (incoming "bob" 1) [incoming "bob" 1],
   .appended 0 (incoming "bob" 2) [incoming "bob" 2],
   .appended 1 (incoming "eve" 3) [incoming "bob" 1, incoming "eve" 3]]

def beforeEve : State := (run system (lagging.take 5)).get (by decide)
def afterEve : State := (run system lagging).get (by decide)

theorem not_neverMovesBack :
    ¬ ∀ as s, run system as = some s → StepsMeet system Advancing system.init as →
      NeverMovesBack as := by
  intro h
  have hnever := h lagging afterEve (Option.some_get _).symm (by decide)
  obtain ⟨d, hd, hle⟩ := hnever (lagging.take 5) (lagging.drop 5) [] beforeEve afterEve rfl
    (Option.some_get _).symm rfl "bob" (incoming "bob" 2) (by decide)
  have hheld : afterEve.controller.conversationsDictionary.lookup "bob" =
      some (incoming "bob" 1) := by decide
  obtain rfl := Option.some.inj (hheld.symm.trans hd)
  exact absurd hle (by decide)

theorem coexisting_listeners {s : State} {as : List Action} (hrun : run system as = some s)
    (hadvancing : StepsMeet system Advancing system.init as) :
    NeverMovesBack as ↔ StepsMeet system UpToDate system.init as := by
  refine (related_iff_stepsMeet NotMovedBack.refl NotMovedBack.trans hrun).trans ?_
  apply stepsMeet_congr (H := Advancing) (I := Current)
  · intro s a t h hadvancing ht
    rw [← notMovedBack_iff h hadvancing ht]
    simp [ht]
  · exact fun s a t h hadvancing hcurrent ht => current_step h hadvancing hcurrent ht
  · exact current_init
  · exact hadvancing
  · exact hrun

/-- Eve writes after the second listener has caught up. -/
def caughtUp : List Action :=
  lagging.take 5 ++
    [.appended 1 (incoming "bob" 2) [incoming "bob" 2],
     .appended 1 (incoming "eve" 3) [incoming "bob" 2, incoming "eve" 3]]

def afterCaughtUp : State := (run system caughtUp).get (by decide)

theorem coexisting_listeners_caughtUp : NeverMovesBack caughtUp :=
  (coexisting_listeners (s := afterCaughtUp) (Option.some_get _).symm (by decide)).mpr (by decide)

end ChipChat.Listeners
