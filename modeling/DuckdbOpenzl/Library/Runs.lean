import Mathlib.Logic.Relation
import Mathlib.Order.Nat
import Mathlib.Data.Nat.Notation

/-!
# Invariants of runs

A run is a finite sequence of steps. What holds at its start and is kept by
every step holds wherever the run gets to. Where steps are determined there is
one run, and it ends in one state. `During` is about a value that changes from
instant to instant of a run.
-/

set_option autoImplicit false

namespace Runs

open Relation

variable {σ : Type} {step : σ → σ → Prop} {inv : σ → Prop} {s t : σ}

theorem invariant (hstep : ∀ s t, inv s → step s t → inv t) (hs : inv s)
    (hrun : ReflTransGen step s t) : inv t := by
  induction hrun with
  | refl => exact hs
  | tail _ hlast ih => exact hstep _ _ ih hlast

/-! ## Deterministic steps -/

/-- A state that steps to no other is not left. -/
theorem stays {last : σ} (hlast : ∀ u, step last u → u = last) (hrun : ReflTransGen step last t) :
    t = last := by
  induction hrun with
  | refl => rfl
  | tail _ hstep ih => exact hlast _ (ih ▸ hstep)

/-- Where steps are determined, whatever a run gets to lies on the way to the state it ends in. -/
theorem leads_to_end {last : σ} (hunique : Relator.RightUnique step)
    (hlast : ∀ u, step last u → u = last) (hend : ReflTransGen step s last)
    (hrun : ReflTransGen step s t) : ReflTransGen step t last := by
  rcases hrun.total_of_right_unique hunique hend with hleads | hpast
  · exact hleads
  · rw [stays hlast hpast]

/-! ## A value that changes while a run goes on -/

variable {α : Type} {history : ℕ → α} {a b a' b' : ℕ} {p : α → Prop}

/-- The value at some instant from `a` to `b`. -/
def During (history : ℕ → α) (a b : ℕ) (p : α → Prop) : Prop :=
  ∃ k, a ≤ k ∧ k ≤ b ∧ p (history k)

theorem During.mono (h : During history a b p) (ha : a' ≤ a) (hb : b ≤ b') :
    During history a' b' p := by
  obtain ⟨k, hak, hkb, hk⟩ := h
  exact ⟨k, ha.trans hak, hkb.trans hb, hk⟩

end Runs
