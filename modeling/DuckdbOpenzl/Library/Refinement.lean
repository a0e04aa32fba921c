import Mathlib.Logic.Basic
import Mathlib.Tactic.Common

/-!
# Refinement of a system that answers calls

A step takes a call and gives a reply. A run is seen from outside as the calls
made and the replies given; a system whose every step a specification can
match step for step shows nothing that the specification does not allow.
-/

set_option autoImplicit false

namespace Refinement

variable {σ τ κ ρ : Type} {step : σ → κ → ρ → σ → Prop} {spec : τ → κ → ρ → τ → Prop}

/-- A run, with what was called and replied on the way. -/
inductive Run (step : σ → κ → ρ → σ → Prop) : σ → List (κ × ρ) → σ → Prop
  | nil (s : σ) : Run step s [] s
  | cons {s t u : σ} {call : κ} {reply : ρ} {trace : List (κ × ρ)}
      (first : step s call reply t) (rest : Run step t trace u) :
      Run step s ((call, reply) :: trace) u

/-- A run may be told from its first step on, without the state it ends in. -/
theorem Run.exists_cons {s t : σ} {call : κ} {reply : ρ} {trace : List (κ × ρ)}
    (first : step s call reply t) (rest : ∃ u, Run step t trace u) :
    ∃ u, Run step s ((call, reply) :: trace) u := by
  obtain ⟨u, rest⟩ := rest
  exact ⟨u, .cons first rest⟩

/-- Every step is matched by a step of the specification, from related states to related states. -/
def Simulates (step : σ → κ → ρ → σ → Prop) (spec : τ → κ → ρ → τ → Prop)
    (rel : σ → τ → Prop) : Prop :=
  ∀ s a call reply t, rel s a → step s call reply t → ∃ b, spec a call reply b ∧ rel t b

/-- Whatever a run shows, the specification can show as well. -/
theorem Run.simulated {rel : σ → τ → Prop} (hsim : Simulates step spec rel) {s t : σ} {a : τ}
    {trace : List (κ × ρ)} (hrun : Run step s trace t) (hrel : rel s a) :
    ∃ b, Run spec a trace b ∧ rel t b := by
  induction hrun generalizing a with
  | nil s => exact ⟨a, .nil a, hrel⟩
  | cons first rest ih =>
      obtain ⟨b, hfirst, hb⟩ := hsim _ _ _ _ _ hrel first
      obtain ⟨c, hrest, hc⟩ := ih hb
      exact ⟨c, .cons hfirst hrest, hc⟩

end Refinement
