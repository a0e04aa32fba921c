import DuckdbOpenzl.Library.ExceptionState

/-!
# Programs with a ghost state

A ghost travels beside the state of a program, which writes to it and never
reads it. Forgetting the ghost gives the program back, so what the ghost says
about a run is said about the run of the program.
-/

set_option autoImplicit false

namespace GhostState

open ExceptionState

variable {ε σ γ τ α β : Type}

/-! ## Forgetting the ghost -/

def forget : EStateM.Result ε (σ × γ) α → EStateM.Result ε σ α
  | .ok a s => .ok a s.1
  | .error e s => .error e s.1

/-- Without its ghost `y` is `x`. -/
def Erases (y : EStateM ε (σ × γ) α) (x : EStateM ε σ α) : Prop :=
  ∀ s g, forget (y (s, g)) = x s

/-- Run `x` and leave the ghost alone. -/
def lift (x : EStateM ε σ α) : EStateM ε (σ × γ) α := zoom Prod.fst (fun t s ↦ (t, s.2)) x

theorem lift_apply (x : EStateM ε σ α) (s : σ) (g : γ) :
    lift x (s, g) = match x s with
      | .ok a t => .ok a (t, g)
      | .error e t => .error e (t, g) :=
  rfl

theorem lift_eq_ok_iff {x : EStateM ε σ α} {s t : σ} {g g' : γ} {a : α} :
    lift x (s, g) = .ok a (t, g') ↔ x s = .ok a t ∧ g' = g := by
  rw [lift_apply]
  cases x s with
  | ok b u => simp [and_assoc, eq_comm]
  | error e u => simp

theorem stateAfter_lift (x : EStateM ε σ α) (s : σ) (g : γ) :
    stateAfter (lift x) (s, g) = (stateAfter x s, g) := by
  simp only [stateAfter, lift_apply]
  cases x s <;> rfl

theorem erases_lift (x : EStateM ε σ α) : Erases (γ := γ) (lift x) x := by
  intro s g
  rw [lift_apply]
  cases x s <;> rfl

/-- Write to the ghost what the state says. -/
def tell (f : σ → γ → γ) : EStateM ε (σ × γ) PUnit := fun s ↦ .ok ⟨⟩ (s.1, f s.1 s.2)

theorem Erases.tell {y : EStateM ε (σ × γ) α} {x : EStateM ε σ α} (h : Erases y x)
    (f : σ → γ → γ) : Erases (tell f >>= fun _ ↦ y) x :=
  fun s g ↦ h s (f s g)

theorem Erases.bind {y : EStateM ε (σ × γ) α} {x : EStateM ε σ α}
    {k : α → EStateM ε (σ × γ) β} {f : α → EStateM ε σ β} (h : Erases y x)
    (hnext : ∀ a, Erases (k a) (f a)) : Erases (y >>= k) (x >>= f) := by
  intro s g
  rw [bind_apply, bind_apply, ← h s g]
  cases y (s, g) with
  | ok a t => exact hnext a t.1 t.2
  | error e t => rfl

theorem Erases.stateAfter {y : EStateM ε (σ × γ) α} {x : EStateM ε σ α} (h : Erases y x) (s : σ)
    (g : γ) : (stateAfter y (s, g)).1 = stateAfter x s := by
  rw [ExceptionState.stateAfter, ExceptionState.stateAfter, ← h s g]
  cases y (s, g) <;> rfl

/-! ## What an observer sees of a run -/

/-- However the run ends, the observer sees no change. -/
def Silent (obs : σ → τ) (x : EStateM ε σ α) : Prop :=
  ∀ s, obs (stateAfter x s) = obs s

/-- However the run ends, the observer sees at most one change, and it is an `event`. -/
def AtMostOnce (obs : σ → τ) (event : τ → τ → Prop) (x : EStateM ε σ α) : Prop :=
  ∀ s, obs (stateAfter x s) = obs s ∨ event (obs s) (obs (stateAfter x s))

variable {obs : σ → τ} {event : τ → τ → Prop} {x : EStateM ε σ α} {f : α → EStateM ε σ β}

theorem Silent.atMostOnce (h : Silent obs x) : AtMostOnce obs event x :=
  fun s ↦ .inl (h s)

theorem Silent.bind (h : Silent obs x) (hnext : ∀ a, Silent obs (f a)) : Silent obs (x >>= f) := by
  intro s
  rcases stateAfter_bind x f s with ⟨e, t, hx, hafter⟩ | ⟨a, t, hx, hafter⟩
  · rw [hafter, ← stateAfter_of_error hx, h s]
  · rw [hafter, hnext a t, ← stateAfter_of_ok hx, h s]

theorem Silent.bind_atMostOnce (h : Silent obs x) (hnext : ∀ a, AtMostOnce obs event (f a)) :
    AtMostOnce obs event (x >>= f) := by
  intro s
  have hs := h s
  rcases stateAfter_bind x f s with ⟨e, t, hx, hafter⟩ | ⟨a, t, hx, hafter⟩
  · rw [stateAfter_of_error hx] at hs
    exact .inl (by rw [hafter, hs])
  · rw [stateAfter_of_ok hx] at hs
    rw [hafter, ← hs]
    exact hnext a t

theorem AtMostOnce.bind_silent (h : AtMostOnce obs event x) (hnext : ∀ a, Silent obs (f a)) :
    AtMostOnce obs event (x >>= f) := by
  intro s
  have hs := h s
  rcases stateAfter_bind x f s with ⟨e, t, hx, hafter⟩ | ⟨a, t, hx, hafter⟩
  · rw [stateAfter_of_error hx] at hs
    rwa [hafter]
  · rw [stateAfter_of_ok hx] at hs
    rwa [hafter, hnext a t]

theorem AtMostOnce.ite (p : σ → Prop) [DecidablePred p] {y : EStateM ε σ α}
    (hx : AtMostOnce obs event x) (hy : AtMostOnce obs event y) :
    AtMostOnce obs event fun s ↦ if p s then x s else y s := by
  intro s
  by_cases hp : p s
  · simpa only [stateAfter, if_pos hp] using hx s
  · simpa only [stateAfter, if_neg hp] using hy s

/-- What the observer of a state sees, and the ghost. -/
def beside (obs : σ → τ) (s : σ × γ) : τ × γ := (obs s.1, s.2)

theorem Silent.lift (h : Silent obs x) : Silent (beside obs) (lift (γ := γ) x) := by
  rintro ⟨s, g⟩
  rw [stateAfter_lift]
  exact congrArg (·, g) (h s)

end GhostState
