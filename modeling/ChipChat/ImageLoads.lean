import ChipChat.LabelledSystem
import Mathlib.Logic.Function.Basic

/-!
# The image loads of SDWebImage

Image views share one manager. An operation whose completion is still to be called is
finished by a later step, in any order; what it does then depends on whether the view
has cancelled it. The options are empty and the placeholder is nil, as at every call of
`sd_setImage(with:)` in the app.
-/

namespace ChipChat.ImageLoads

set_option autoImplicit false

/-- A URL, as its `absoluteString`. -/
abbrev URL := String

/-- An image, with the URL it was loaded from. -/
structure Picture where
  url : URL
  data : List UInt8
  deriving DecidableEq, Repr

structure Operation where
  view : Nat
  url : URL
  isCancelled : Bool
  finished : Bool
  deriving DecidableEq, Repr

/-- Its completion may still show a picture. -/
def Operation.Running (op : Operation) : Prop := op.isCancelled = false ∧ op.finished = false

instance (op : Operation) : Decidable op.Running := inferInstanceAs (Decidable (_ ∧ _))

structure ImageView where
  image : Option Picture
  imageURL : Option URL
  operation : Option Nat
  deriving DecidableEq, Repr

structure State where
  views : Nat → ImageView
  operations : List Operation
  failedURLs : List URL

def State.empty : State := ⟨fun _ => ⟨none, none, none⟩, [], []⟩

namespace State

def modifyView (s : State) (v : Nat) (f : ImageView → ImageView) : State :=
  { s with views := Function.update s.views v (f (s.views v)) }

def setImage (s : State) (v : Nat) (image : Option Picture) : State :=
  s.modifyView v fun view => { view with image := image }

def sd_cancelImageLoadOperation (s : State) (v : Nat) : State :=
  match (s.views v).operation with
  | none => s
  | some i =>
      { s with operations := s.operations.modify i fun op => { op with isCancelled := true } }.modifyView
        v fun view => { view with operation := none }

def sd_setImageLoadOperation (s : State) (v i : Nat) : State :=
  (s.sd_cancelImageLoadOperation v).modifyView v fun view => { view with operation := some i }

def start (s : State) (op : Operation) : State := { s with operations := s.operations ++ [op] }

/-- `loadImageWithURL`: a refused URL and an image in memory complete the operation at once. -/
def loadImage (s : State) (v : Nat) (url : URL) (inMemory : Option (List UInt8)) : State :=
  if url = "" ∨ url ∈ s.failedURLs then s.start ⟨v, url, false, true⟩
  else
    match inMemory with
    | some data => (s.setImage v (some ⟨url, data⟩)).start ⟨v, url, false, true⟩
    | none => s.start ⟨v, url, false, false⟩

def sd_setImage (s : State) (v : Nat) (url : Option URL) (inMemory : Option (List UInt8)) : State :=
  let s := ((s.sd_cancelImageLoadOperation v).modifyView v fun view =>
    { view with imageURL := url }).setImage v none
  match url with
  | none => s
  | some url => (s.loadImage v url inMemory).sd_setImageLoadOperation v s.operations.length

/-- The completion of an operation on the main queue, with an image or without. -/
def complete (s : State) (i : Nat) (op : Operation) (image : Option (List UInt8)) : State :=
  let s := { s with operations := s.operations.set i { op with finished := true } }
  if op.isCancelled then s
  else
    match image with
    | some data => s.setImage op.view (some ⟨op.url, data⟩)
    | none => s

/-- A download fails for good; its completion is still to come. -/
def downloadFailed (s : State) (op : Operation) : State :=
  { s with failedURLs := s.failedURLs ++ [op.url] }

end State

/-- Whatever the view shows, or may come to show, was loaded from `url`. -/
structure Shows (s : State) (v : Nat) (url : Option URL) : Prop where
  image : ∀ p ∈ (s.views v).image, url = some p.url
  running : ∀ op ∈ s.operations, op.view = v → op.Running → url = some op.url

/-- The view shows no picture and waits for none. -/
def Blank (s : State) (v : Nat) : Prop :=
  (s.views v).image = none ∧ ∀ op ∈ s.operations, op.view = v → ¬ op.Running

instance (s : State) (v : Nat) : Decidable (Blank s v) := inferInstanceAs (Decidable (_ ∧ _))

/-- Each view holds the one operation of it that still runs, if any. -/
def Tracked (s : State) : Prop :=
  ∀ i op, s.operations[i]? = some op → op.Running → (s.views op.view).operation = some i

theorem shows_none_iff (s : State) (v : Nat) : Shows s v none ↔ Blank s v := by
  constructor
  · intro h
    refine ⟨Option.eq_none_iff_forall_not_mem.mpr fun p hp => ?_, fun op hop hv hrun => ?_⟩
    · cases h.image p hp
    · cases h.running op hop hv hrun
  · rintro ⟨himage, hrunning⟩
    refine ⟨fun p hp => ?_, fun op hop hv hrun => absurd hrun (hrunning op hop hv)⟩
    rw [himage] at hp
    cases hp

theorem tracked_empty : Tracked State.empty := fun i op h => by simp [State.empty] at h

theorem blank_empty (v : Nat) : Blank State.empty v := ⟨rfl, fun op hop => by cases hop⟩

section Cancel
variable {s : State} {v : Nat}

theorem cancel_of_none (h : (s.views v).operation = none) : s.sd_cancelImageLoadOperation v = s := by
  unfold State.sd_cancelImageLoadOperation
  rw [h]

theorem cancel_views_of_ne {w : Nat} (hw : w ≠ v) :
    (s.sd_cancelImageLoadOperation v).views w = s.views w := by
  unfold State.sd_cancelImageLoadOperation
  cases (s.views v).operation with
  | none => rfl
  | some i => exact Function.update_of_ne hw ..

theorem cancel_operation : ((s.sd_cancelImageLoadOperation v).views v).operation = none := by
  unfold State.sd_cancelImageLoadOperation
  cases h : (s.views v).operation with
  | none => exact h
  | some i => simp [State.modifyView]

/-- What still runs is what ran before, except for the view's own operation. -/
theorem cancel_running {i : Nat} {op : Operation}
    (h : (s.sd_cancelImageLoadOperation v).operations[i]? = some op) (hrun : op.Running) :
    s.operations[i]? = some op ∧ (s.views v).operation ≠ some i := by
  unfold State.sd_cancelImageLoadOperation at h
  cases hv : (s.views v).operation with
  | none =>
    rw [hv] at h
    exact ⟨h, by simp⟩
  | some j =>
    rw [hv] at h
    have h' : (s.operations.modify j fun op => { op with isCancelled := true })[i]? = some op := h
    by_cases hji : j = i
    · subst hji
      rw [List.getElem?_modify_eq] at h'
      obtain ⟨op', -, rfl⟩ := Option.map_eq_some_iff.mp h'
      exact absurd hrun.1 (by simp)
    · rw [List.getElem?_modify_ne _ _ hji] at h'
      exact ⟨h', by simpa using hji⟩

theorem cancel_running_view (hs : Tracked s) {i : Nat} {op : Operation}
    (h : (s.sd_cancelImageLoadOperation v).operations[i]? = some op) (hrun : op.Running) :
    op.view ≠ v := by
  rintro rfl
  obtain ⟨hop, hv⟩ := cancel_running h hrun
  exact hv (hs i op hop hrun)

end Cancel

/-- The load leaves at most a picture from the URL, and one operation. -/
theorem loadImage_eq (s : State) (v : Nat) (url : URL) (inMemory : Option (List UInt8)) :
    ∃ (image : Option Picture) (finished : Bool),
      (image = (s.views v).image ∨ ∀ p ∈ image, p.url = url) ∧
      s.loadImage v url inMemory =
        (s.setImage v image).start ⟨v, url, false, finished⟩ := by
  have hsame : s.setImage v (s.views v).image = s := by
    simp [State.setImage, State.modifyView]
  unfold State.loadImage
  split_ifs with hrefused
  · exact ⟨(s.views v).image, true, .inl rfl, by rw [hsame]⟩
  · cases inMemory with
    | none => exact ⟨(s.views v).image, false, .inl rfl, by rw [hsame]⟩
    | some data => exact ⟨some ⟨url, data⟩, true, .inr (by simp), rfl⟩

/-- One call starts at most one operation, and shows at most a picture from the URL. -/
theorem sd_setImage_eq (s : State) (v : Nat) (url : Option URL) (inMemory : Option (List UInt8)) :
    ∃ (image : Option Picture) (started : Option Operation),
      (∀ p ∈ image, url = some p.url) ∧ (∀ op ∈ started, op.view = v ∧ url = some op.url) ∧
      s.sd_setImage v url inMemory =
        { views := Function.update (s.sd_cancelImageLoadOperation v).views v
            ⟨image, url, started.map fun _ => (s.sd_cancelImageLoadOperation v).operations.length⟩
          operations := (s.sd_cancelImageLoadOperation v).operations ++ started.toList
          failedURLs := (s.sd_cancelImageLoadOperation v).failedURLs } := by
  have hnone : ((s.sd_cancelImageLoadOperation v).views v).operation = none := cancel_operation
  cases url with
  | none =>
    refine ⟨none, none, by simp, by simp, ?_⟩
    simp [State.sd_setImage, State.setImage, State.modifyView, hnone]
  | some url =>
    obtain ⟨image, finished, himage, heq⟩ := loadImage_eq
      (((s.sd_cancelImageLoadOperation v).modifyView v fun view =>
        { view with imageURL := some url }).setImage v none) v url inMemory
    refine ⟨image, some ⟨v, url, false, finished⟩, ?_, by simp, ?_⟩
    · rcases himage with rfl | himage
      · simp [State.setImage, State.modifyView]
      · exact fun p hp => congrArg some (himage p hp).symm
    · simp only [State.sd_setImage, State.sd_setImageLoadOperation, heq]
      rw [cancel_of_none (by simp [State.setImage, State.modifyView, State.start, hnone])]
      simp [State.setImage, State.modifyView, State.start]

theorem getElem?_toList {α : Type} {l : List α} {o : Option α} {i : Nat} {a : α}
    (h : (l ++ o.toList)[i]? = some a) : l[i]? = some a ∨ i = l.length ∧ a ∈ o := by
  rcases Nat.lt_or_ge i l.length with hi | hi
  · exact .inl (by rwa [List.getElem?_append_left hi] at h)
  · rw [List.getElem?_append_right hi] at h
    cases o with
    | none => simp at h
    | some b =>
      obtain ⟨hlt, hab⟩ := List.getElem?_eq_some_iff.mp h
      simp only [Option.toList_some, List.length_singleton] at hlt
      refine .inr ⟨by omega, ?_⟩
      simpa using hab

theorem tracked_sd_setImage {s : State} (hs : Tracked s) (v : Nat) (url : Option URL)
    (inMemory : Option (List UInt8)) : Tracked (s.sd_setImage v url inMemory) := by
  obtain ⟨image, started, himage, hstarted, heq⟩ := sd_setImage_eq s v url inMemory
  rw [heq]
  intro i op hop hrun
  rcases getElem?_toList hop with hold | ⟨rfl, hnew⟩
  · have hne : op.view ≠ v := cancel_running_view hs hold hrun
    have hview := hs i op (cancel_running hold hrun).1 hrun
    simpa [Function.update_of_ne hne, cancel_views_of_ne hne] using hview
  · simp [(hstarted op hnew).1, Option.mem_def.mp hnew]

/-- Whatever the view showed or waited for before, it is for the new URL now. -/
theorem shows_sd_setImage {s : State} (hs : Tracked s) (v : Nat) (url : Option URL)
    (inMemory : Option (List UInt8)) : Shows (s.sd_setImage v url inMemory) v url := by
  obtain ⟨image, started, himage, hstarted, heq⟩ := sd_setImage_eq s v url inMemory
  rw [heq]
  refine ⟨fun p hp => himage p (by simpa using hp), ?_⟩
  intro op hop hv hrun
  obtain ⟨i, hi⟩ := List.mem_iff_getElem?.mp hop
  rcases getElem?_toList hi with hi | ⟨-, hi⟩
  · exact absurd hv (cancel_running_view hs hi hrun)
  · exact (hstarted op hi).2

theorem shows_sd_setImage_of_ne {s : State} {v w : Nat} {u : Option URL} (hw : w ≠ v)
    (h : Shows s w u) (url : Option URL) (inMemory : Option (List UInt8)) :
    Shows (s.sd_setImage v url inMemory) w u := by
  obtain ⟨image, started, himage, hstarted, heq⟩ := sd_setImage_eq s v url inMemory
  rw [heq]
  refine ⟨fun p hp => h.image p ?_, ?_⟩
  · simpa [Function.update_of_ne hw, cancel_views_of_ne hw] using hp
  · intro op hop hv hrun
    obtain ⟨i, hi⟩ := List.mem_iff_getElem?.mp hop
    rcases getElem?_toList hi with hi | ⟨-, hi⟩
    · exact h.running op (List.mem_of_getElem? (cancel_running hi hrun).1) hv hrun
    · exact absurd ((hstarted op hi).1.symm.trans hv) hw.symm

section Complete
variable {s : State} {i : Nat} {op : Operation} {image : Option (List UInt8)}

theorem complete_operations :
    (s.complete i op image).operations = s.operations.set i { op with finished := true } := by
  unfold State.complete
  split_ifs
  · rfl
  · cases image <;> rfl

theorem complete_running {j : Nat} {op' : Operation}
    (h : (s.complete i op image).operations[j]? = some op') (hrun : op'.Running) :
    s.operations[j]? = some op' := by
  rw [complete_operations] at h
  by_cases hij : i = j
  · subst hij
    obtain ⟨-, rfl⟩ : _ ∧ { op with finished := true } = op' := by
      simpa [List.getElem?_set] using h
    exact absurd hrun.2 (by simp)
  · rwa [List.getElem?_set_ne hij] at h

theorem complete_operation (w : Nat) :
    ((s.complete i op image).views w).operation = (s.views w).operation := by
  unfold State.complete
  split_ifs
  · rfl
  · cases image with
    | none => rfl
    | some data =>
      by_cases hw : w = op.view
      · subst hw
        simp [State.setImage, State.modifyView]
      · simp [State.setImage, State.modifyView, Function.update_of_ne hw]

theorem tracked_complete (hs : Tracked s) : Tracked (s.complete i op image) := by
  intro j op' hop hrun
  rw [complete_operation]
  exact hs j op' (complete_running hop hrun) hrun

/-- A completion shows what its view still waits for, or nothing. -/
theorem shows_complete (hop : s.operations[i]? = some op) (hfinished : op.finished = false)
    {w : Nat} {u : Option URL} (h : Shows s w u) : Shows (s.complete i op image) w u := by
  refine ⟨?_, ?_⟩
  · intro p hp
    unfold State.complete at hp
    split_ifs at hp with hcancelled
    · exact h.image p hp
    · cases image with
      | none => exact h.image p hp
      | some data =>
        by_cases hw : w = op.view
        · subst hw
          have hp' : p = ⟨op.url, data⟩ := by
            simpa [State.setImage, State.modifyView, eq_comm] using hp
          have hrun : op.Running := ⟨by simpa using hcancelled, hfinished⟩
          rw [hp']
          exact h.running op (List.mem_of_getElem? hop) rfl hrun
        · refine h.image p ?_
          simpa [State.setImage, State.modifyView, Function.update_of_ne hw] using hp
  · intro op' hop' hv hrun
    obtain ⟨j, hj⟩ := List.mem_iff_getElem?.mp hop'
    exact h.running op' (List.mem_of_getElem? (complete_running hj hrun)) hv hrun

end Complete

end ChipChat.ImageLoads
