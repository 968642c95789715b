import ChipChat.LabelledSystem
import Mathlib.Data.List.Nodup

/-!
# Mailboxes

An item is posted to a box once, behind whatever was posted before, and stays there.
A box holds what was posted to it, in that order.
-/

namespace Mailboxes

open LabelledSystem

set_option autoImplicit false

universe u v

variable {β : Type u} {μ : Type v} [DecidableEq β]

def box (posted : List (β × μ)) (b : β) : List μ :=
  (posted.filter fun e => decide (e.1 = b)).map Prod.snd

theorem box_prefix {s t : List (β × μ)} (h : s <+: t) (b : β) : box s b <+: box t b := by
  obtain ⟨more, rfl⟩ := h
  simp [box, List.filter_append]

theorem mem_box_iff (s : List (β × μ)) (b : β) (x : μ) : x ∈ box s b ↔ (b, x) ∈ s := by
  simp [box]

theorem box_nodup {s : List (β × μ)} (h : s.Nodup) (b : β) : (box s b).Nodup := by
  apply (h.filter _).map_on
  rintro ⟨c, x⟩ hx ⟨d, y⟩ hy rfl
  have hc := of_decide_eq_true (List.mem_filter.mp hx).2
  have hd := of_decide_eq_true (List.mem_filter.mp hy).2
  exact Prod.ext (hc.trans hd.symm) rfl

variable [DecidableEq μ]

/-- The state is the list of all that was posted, each item with its box. -/
def system : System (List (β × μ)) (β × μ) where
  init := []
  step posted e := if e ∈ posted then none else some (posted ++ [e])

theorem step_iff {s t : List (β × μ)} {e : β × μ} :
    (system (β := β) (μ := μ)).step s e = some t ↔ e ∉ s ∧ t = s ++ [e] := by
  simp only [system, Option.ite_none_left_eq_some, Option.some.injEq]
  exact and_congr_right fun _ => eq_comm

theorem nodup_run {s : List (β × μ)} {es : List (β × μ)} (h : run system es = some s) : s.Nodup := by
  refine invariant (S := system) List.nodup_nil ?_ h
  intro s e t hs ht
  obtain ⟨hnew, rfl⟩ := step_iff.mp ht
  exact List.nodup_append.mpr ⟨hs, List.nodup_singleton e, fun x hx y hy hxy =>
    hnew (List.mem_singleton.mp hy ▸ hxy ▸ hx)⟩

/-- A run only adds to what was posted. -/
theorem prefix_runFrom {s t : List (β × μ)} {es : List (β × μ)}
    (h : runFrom system s es = some t) : s <+: t := by
  induction es generalizing s with
  | nil =>
    cases h
    exact List.prefix_refl t
  | cons e es ih =>
    obtain ⟨u, hu, ht⟩ := (runFrom_cons_iff system s t e es).mp h
    obtain ⟨-, hu⟩ := step_iff.mp hu
    subst hu
    exact (List.prefix_append s [e]).trans (ih ht)

end Mailboxes
