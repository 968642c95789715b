import Mathlib.Data.List.Induction

/-!
# Runs of a guarded labelled system

A system is an initial state and a partial step; `none` means that the action
is not enabled. Properties of runs come in four forms: an invariant of every run,
an invariant of the runs whose steps all meet a condition, a relation between any
two states that a run passes through, and a map of the states that carries runs of
one system to runs of another.
-/

namespace LabelledSystem

set_option autoImplicit false

universe u v

structure System (σ : Type u) (α : Type v) where
  init : σ
  step : σ → α → Option σ

variable {σ : Type u} {α : Type v} (S : System σ α)

def runFrom : σ → List α → Option σ
  | s, [] => some s
  | s, a :: as => (S.step s a).bind fun t => runFrom t as

def run (as : List α) : Option σ := runFrom S S.init as

/-- Every step that is taken meets `P` in the state it is taken from. -/
def StepsMeet (P : σ → α → Prop) : σ → List α → Prop
  | _, [] => True
  | s, a :: as => P s a ∧ ∀ t ∈ S.step s a, StepsMeet P t as

instance decidableStepsMeet (P : σ → α → Prop) [∀ s a, Decidable (P s a)] :
    ∀ s as, Decidable (StepsMeet S P s as)
  | _, [] => isTrue trivial
  | s, a :: as =>
    let _ := fun t => decidableStepsMeet P t as
    inferInstanceAs (Decidable (P s a ∧ ∀ t ∈ S.step s a, StepsMeet S P t as))

/-- `Q` holds in the first state and in every state the run passes through. -/
def Throughout (Q : σ → Prop) : σ → List α → Prop
  | s, [] => Q s
  | s, a :: as => Q s ∧ ∀ t ∈ S.step s a, Throughout Q t as

@[simp] theorem runFrom_nil (s : σ) : runFrom S s [] = some s := rfl

theorem runFrom_cons_iff (s u : σ) (a : α) (as : List α) :
    runFrom S s (a :: as) = some u ↔ ∃ t, S.step s a = some t ∧ runFrom S t as = some u := by
  simp [runFrom, Option.bind_eq_some_iff]

theorem runFrom_append_iff (s u : σ) (as bs : List α) :
    runFrom S s (as ++ bs) = some u ↔
      ∃ t, runFrom S s as = some t ∧ runFrom S t bs = some u := by
  induction as generalizing s with
  | nil => simp
  | cons a as ih =>
    simp only [List.cons_append, runFrom_cons_iff, ih]
    constructor
    · rintro ⟨m, hm, t, ht, hu⟩
      exact ⟨t, ⟨m, hm, ht⟩, hu⟩
    · rintro ⟨t, ⟨m, hm, ht⟩, hu⟩
      exact ⟨m, hm, t, ht, hu⟩

theorem run_snoc_iff (u : σ) (as : List α) (a : α) :
    run S (as ++ [a]) = some u ↔ ∃ t, run S as = some t ∧ S.step t a = some u := by
  simp [run, runFrom_append_iff, runFrom_cons_iff]

section Invariants
variable {S}

/-- The rule for runs whose steps meet `P`: `P` need only be used step by step. -/
theorem invariant_of_stepsMeet {P : σ → α → Prop} {I : σ → Prop}
    (preserved : ∀ s a t, I s → P s a → S.step s a = some t → I t)
    {s u : σ} {as : List α} (hs : I s) (hP : StepsMeet S P s as)
    (hu : runFrom S s as = some u) : I u := by
  induction as generalizing s with
  | nil =>
    cases hu
    exact hs
  | cons a as ih =>
    obtain ⟨t, ht, hu⟩ := (runFrom_cons_iff S s u a as).mp hu
    exact ih (preserved s a t hs hP.1 ht) (hP.2 t ht) hu

theorem stepsMeet_true (s : σ) (as : List α) : StepsMeet S (fun _ _ => True) s as := by
  induction as generalizing s with
  | nil => trivial
  | cons a as ih => exact ⟨trivial, fun t _ => ih t⟩

theorem stepsMeet_of_forall {P : α → Prop} {as : List α} (h : ∀ a ∈ as, P a) (s : σ) :
    StepsMeet S (fun _ a => P a) s as := by
  induction as generalizing s with
  | nil => trivial
  | cons a as ih =>
    exact ⟨h a List.mem_cons_self, fun t _ => ih (fun b hb => h b (List.mem_cons_of_mem a hb)) t⟩

theorem StepsMeet.mono {P Q : σ → α → Prop} (hPQ : ∀ s a, P s a → Q s a) {s : σ} {as : List α}
    (h : StepsMeet S P s as) : StepsMeet S Q s as := by
  induction as generalizing s with
  | nil => trivial
  | cons a as ih => exact ⟨hPQ s a h.1, fun t ht => ih (h.2 t ht)⟩

theorem stepsMeet_and {P Q : σ → α → Prop} {s : σ} {as : List α}
    (hP : StepsMeet S P s as) (hQ : StepsMeet S Q s as) :
    StepsMeet S (fun s a => P s a ∧ Q s a) s as := by
  induction as generalizing s with
  | nil => trivial
  | cons a as ih => exact ⟨⟨hP.1, hQ.1⟩, fun t ht => ih (hP.2 t ht) (hQ.2 t ht)⟩

theorem invariant {I : σ → Prop} (init : I S.init)
    (preserved : ∀ s a t, I s → S.step s a = some t → I t)
    {u : σ} {as : List α} (hu : run S as = some u) : I u :=
  invariant_of_stepsMeet (fun s a t hs _ ht => preserved s a t hs ht) init
    (stepsMeet_true S.init as) hu

theorem Throughout.head {Q : σ → Prop} {s : σ} {as : List α} (h : Throughout S Q s as) : Q s := by
  cases as with
  | nil => exact h
  | cons a as => exact h.1

theorem Throughout.last {Q : σ → Prop} {s u : σ} {as : List α} (h : Throughout S Q s as)
    (hu : runFrom S s as = some u) : Q u := by
  induction as generalizing s with
  | nil =>
    cases hu
    exact h
  | cons a as ih =>
    obtain ⟨t, ht, hu⟩ := (runFrom_cons_iff S s u a as).mp hu
    exact ih (h.2 t ht) hu

/-- Steps are functions, so what is asked of every next state is asked of the run's own. -/
theorem stepsMeet_cons_iff {P : σ → α → Prop} {s t : σ} {a : α} (ht : S.step s a = some t)
    (as : List α) : StepsMeet S P s (a :: as) ↔ P s a ∧ StepsMeet S P t as := by
  simp [StepsMeet, ht]

theorem throughout_cons_iff {Q : σ → Prop} {s t : σ} {a : α} (ht : S.step s a = some t)
    (as : List α) : Throughout S Q s (a :: as) ↔ Q s ∧ Throughout S Q t as := by
  simp [Throughout, ht]

/-- When, under the invariant `I`, a step re-establishes `Q` exactly if it meets
`P`, the runs that never leave `Q` are exactly the runs whose steps all meet `P`. -/
theorem throughout_iff_stepsMeet {P : σ → α → Prop} {I Q : σ → Prop}
    (preserved : ∀ s a t, I s → S.step s a = some t → I t)
    (exact_step : ∀ s a t, I s → Q s → S.step s a = some t → (Q t ↔ P s a))
    {s u : σ} {as : List α} (hI : I s) (hQ : Q s) (hu : runFrom S s as = some u) :
    Throughout S Q s as ↔ StepsMeet S P s as := by
  induction as generalizing s with
  | nil => exact ⟨fun _ => trivial, fun _ => hQ⟩
  | cons a as ih =>
    obtain ⟨t, ht, hu⟩ := (runFrom_cons_iff S s u a as).mp hu
    have hstep := exact_step s a t hI hQ ht
    have hIt := preserved s a t hI ht
    rw [throughout_cons_iff ht, stepsMeet_cons_iff ht]
    constructor
    · rintro ⟨_, h⟩
      exact ⟨hstep.mp h.head, (ih hIt h.head hu).mp h⟩
    · rintro ⟨hP, h⟩
      exact ⟨hQ, (ih hIt (hstep.mpr hP) hu).mpr h⟩

/-- Where the steps all meet `P`, what the invariant they preserve implies holds throughout. -/
theorem throughout_of_stepsMeet {P : σ → α → Prop} {I Q : σ → Prop}
    (preserved : ∀ s a t, I s → P s a → S.step s a = some t → I t) (holds : ∀ s, I s → Q s)
    {s : σ} {as : List α} (hI : I s) (hP : StepsMeet S P s as) : Throughout S Q s as := by
  induction as generalizing s with
  | nil => exact holds s hI
  | cons a as ih => exact ⟨holds s hI, fun t ht => ih (preserved s a t hI hP.1 ht) (hP.2 t ht)⟩

/-- Two conditions that agree on every step, under an invariant that steps meeting the
second of them preserve, hold along the same runs. -/
theorem stepsMeet_congr {H P Q : σ → α → Prop} {I : σ → Prop}
    (agree : ∀ s a t, I s → H s a → S.step s a = some t → (P s a ↔ Q s a))
    (preserved : ∀ s a t, I s → H s a → Q s a → S.step s a = some t → I t)
    {s u : σ} {as : List α} (hI : I s) (hH : StepsMeet S H s as) (hu : runFrom S s as = some u) :
    StepsMeet S P s as ↔ StepsMeet S Q s as := by
  induction as generalizing s with
  | nil => exact Iff.rfl
  | cons a as ih =>
    obtain ⟨t, ht, hu⟩ := (runFrom_cons_iff S s u a as).mp hu
    obtain ⟨hHs, hHt⟩ := (stepsMeet_cons_iff ht as).mp hH
    have hstep := agree s a t hI hHs ht
    rw [stepsMeet_cons_iff ht, stepsMeet_cons_iff ht]
    constructor
    · rintro ⟨hP, h⟩
      have hQ := hstep.mp hP
      exact ⟨hQ, (ih (preserved s a t hI hHs hQ ht) hHt hu).mp h⟩
    · rintro ⟨hQ, h⟩
      exact ⟨hstep.mpr hQ, (ih (preserved s a t hI hHs hQ ht) hHt hu).mpr h⟩

theorem StepsMeet.of_append {P : σ → α → Prop} {s t : σ} {as bs : List α}
    (h : StepsMeet S P s (as ++ bs)) (ht : runFrom S s as = some t) : StepsMeet S P t bs := by
  induction as generalizing s with
  | nil =>
    cases ht
    exact h
  | cons a as ih =>
    obtain ⟨u, hu, ht⟩ := (runFrom_cons_iff S s t a as).mp ht
    exact ih (h.2 u hu) ht

theorem StepsMeet.append_left {P : σ → α → Prop} {s : σ} {as bs : List α}
    (h : StepsMeet S P s (as ++ bs)) : StepsMeet S P s as := by
  induction as generalizing s with
  | nil => trivial
  | cons a as ih => exact ⟨h.1, fun t ht => ih (h.2 t ht)⟩

section Order
variable {R : σ → σ → Prop} (refl : ∀ s, R s s) (trans : ∀ s t u, R s t → R t u → R s u)
include refl trans

/-- Steps that climb, in some reflexive and transitive order, add up to runs that climb. -/
theorem related_of_stepsMeet {s u : σ} {as : List α}
    (h : StepsMeet S (fun s a => ∀ t ∈ S.step s a, R s t) s as)
    (hu : runFrom S s as = some u) : R s u := by
  induction as generalizing s with
  | nil =>
    cases hu
    exact refl u
  | cons a as ih =>
    obtain ⟨t, ht, hu⟩ := (runFrom_cons_iff S s u a as).mp hu
    exact trans s t u (h.1 t ht) (ih (h.2 t ht) hu)

/-- Of any two states that a run passes through the later one is above the earlier one
exactly when every step climbs. -/
theorem related_iff_stepsMeet {s u : σ} {as : List α} (hu : runFrom S s as = some u) :
    (∀ bs cs ds t v, as = bs ++ cs ++ ds → runFrom S s bs = some t → runFrom S t cs = some v →
      R t v) ↔ StepsMeet S (fun s a => ∀ t ∈ S.step s a, R s t) s as := by
  constructor
  · intro h
    induction as generalizing s with
    | nil => trivial
    | cons a as ih =>
      obtain ⟨t, ht, hu⟩ := (runFrom_cons_iff S s u a as).mp hu
      have first : R s t :=
        h [] [a] as s t rfl rfl ((runFrom_cons_iff S s t a []).mpr ⟨t, ht, rfl⟩)
      have rest : StepsMeet S (fun s a => ∀ t ∈ S.step s a, R s t) t as := by
        apply ih hu
        intro bs cs ds v w has hbs hcs
        have hstart : runFrom S s (a :: bs) = some v :=
          (runFrom_cons_iff S s v a bs).mpr ⟨t, ht, hbs⟩
        exact h (a :: bs) cs ds v w (by rw [has]; rfl) hstart hcs
      refine (stepsMeet_cons_iff ht as).mpr ⟨?_, rest⟩
      simpa [ht] using first
  · intro h bs cs ds t v has hbs hcs
    subst has
    rw [List.append_assoc] at h
    exact related_of_stepsMeet refl trans ((h.of_append hbs).append_left) hcs

end Order

end Invariants

section TwoRuns
variable {τ : Type*} {β : Type*} {T : System τ β} {S} {f : σ → τ} {g : α → β}

/-- A map that commutes with every step, enabled or not, commutes with every run. -/
theorem runFrom_map (hom : ∀ s a, T.step (f s) (g a) = (S.step s a).map f)
    (s : σ) (as : List α) : runFrom T (f s) (as.map g) = (runFrom S s as).map f := by
  induction as generalizing s with
  | nil => rfl
  | cons a as ih =>
    simp only [List.map_cons, runFrom, hom]
    cases S.step s a with
    | none => rfl
    | some t => exact ih t

/-- Two runs whose actions have the same image end in states with the same image. -/
theorem run_map_eq (hom : ∀ s a, T.step (f s) (g a) = (S.step s a).map f)
    {as bs : List α} (hab : as.map g = bs.map g) : (run S as).map f = (run S bs).map f := by
  rw [run, run, ← runFrom_map hom, ← runFrom_map hom, hab]

/-- A map that sends each step to one step or to none sends each run to a run. Only the
states that meet an invariant have to be looked at. -/
theorem runFrom_simulates {I : σ → Prop} (preserved : ∀ s a t, I s → S.step s a = some t → I t)
    (sim : ∀ s a t, I s → S.step s a = some t → f t = f s ∨ ∃ b, T.step (f s) b = some (f t))
    {s u : σ} {as : List α} (hI : I s) (hu : runFrom S s as = some u) :
    ∃ bs, runFrom T (f s) bs = some (f u) := by
  induction as generalizing s with
  | nil =>
    cases hu
    exact ⟨[], rfl⟩
  | cons a as ih =>
    obtain ⟨t, ht, hu⟩ := (runFrom_cons_iff S s u a as).mp hu
    obtain ⟨bs, hbs⟩ := ih (preserved s a t hI ht) hu
    rcases sim s a t hI ht with hskip | ⟨b, hb⟩
    · exact ⟨bs, hskip ▸ hbs⟩
    · exact ⟨b :: bs, (runFrom_cons_iff T (f s) (f u) b bs).mpr ⟨f t, hb, hbs⟩⟩

theorem run_simulates (init : f S.init = T.init)
    (sim : ∀ s a t, S.step s a = some t → f t = f s ∨ ∃ b, T.step (f s) b = some (f t))
    {u : σ} {as : List α} (hu : run S as = some u) : ∃ bs, run T bs = some (f u) := by
  rw [run] at hu
  have hruns := runFrom_simulates (I := fun _ => True) (fun _ _ _ _ _ => trivial)
    (fun s a t _ ht => sim s a t ht) trivial hu
  rwa [init] at hruns

end TwoRuns

end LabelledSystem
