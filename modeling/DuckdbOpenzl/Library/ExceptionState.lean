import Mathlib.Data.Nat.Notation
import Mathlib.Tactic.Basic
import Mathlib.Logic.Basic

/-!
# Programs with state and exceptions

An exception leaves the state it was thrown in behind, so a specification says
what holds after a normal return and what holds after each exception. The
inversion lemmas peel a run apart; the rules of `Triple` compose
specifications along the program text.
-/

set_option autoImplicit false

namespace ExceptionState

variable {ε ε' σ τ α β : Type}

/-! ## Inversion of runs -/

theorem bind_apply (x : EStateM ε σ α) (f : α → EStateM ε σ β) (s : σ) :
    (x >>= f) s = match x s with
      | .ok a t => f a t
      | .error e t => .error e t :=
  rfl

theorem bind_eq_ok_iff {x : EStateM ε σ α} {f : α → EStateM ε σ β} {s s' : σ} {b : β} :
    (x >>= f) s = .ok b s' ↔ ∃ a t, x s = .ok a t ∧ f a t = .ok b s' := by
  rw [bind_apply]
  cases x s with
  | ok a t => simp [and_assoc]
  | error e t => simp

theorem bind_eq_error_iff {x : EStateM ε σ α} {f : α → EStateM ε σ β} {s s' : σ} {e : ε} :
    (x >>= f) s = .error e s' ↔
      x s = .error e s' ∨ ∃ a t, x s = .ok a t ∧ f a t = .error e s' := by
  rw [bind_apply]
  cases x s with
  | ok a t => simp [and_assoc]
  | error e t => simp

/-- The same without a state. -/
theorem except_bind_eq_ok_iff {x : Except ε α} {f : α → Except ε β} {b : β} :
    (x >>= f) = .ok b ↔ ∃ a, x = .ok a ∧ f a = .ok b := by
  cases x with
  | ok a => simp [bind, Except.bind]
  | error e => simp [bind, Except.bind]

@[simp] theorem mapError_ok (f : ε → ε') (a : α) :
    (Except.ok a).mapError f = .ok a := rfl

@[simp] theorem mapError_error (f : ε → ε') (e : ε) :
    (Except.error e : Except ε α).mapError f = .error (f e) := rfl

theorem mapError_eq_ok_iff {x : Except ε α} {f : ε → ε'} {a : α} :
    x.mapError f = .ok a ↔ x = .ok a := by
  cases x with
  | ok b => simp
  | error e => simp

/-- The state a run leaves behind, however it ends. -/
def stateAfter (x : EStateM ε σ α) (s : σ) : σ :=
  match x s with
  | .ok _ t => t
  | .error _ t => t

theorem stateAfter_of_ok {x : EStateM ε σ α} {s t : σ} {a : α} (h : x s = .ok a t) :
    stateAfter x s = t := by
  rw [stateAfter, h]

theorem stateAfter_of_error {x : EStateM ε σ α} {s t : σ} {e : ε} (h : x s = .error e t) :
    stateAfter x s = t := by
  rw [stateAfter, h]

/-- Whether a run returns. -/
def returns (x : EStateM ε σ α) (s : σ) : Bool :=
  match x s with
  | .ok _ _ => true
  | .error _ _ => false

theorem returns_of_error {x : EStateM ε σ α} {s t : σ} {e : ε} (h : x s = .error e t) :
    returns x s = false := by
  rw [returns, h]

theorem exists_of_returns {x : EStateM ε σ α} {s : σ} (h : returns x s = true) :
    ∃ a t, x s = .ok a t := by
  unfold returns at h
  cases hx : x s with
  | ok a t => exact ⟨a, t, rfl⟩
  | error e t =>
      rw [hx] at h
      cases h

theorem stateAfter_bind (x : EStateM ε σ α) (f : α → EStateM ε σ β) (s : σ) :
    (∃ e t, x s = .error e t ∧ stateAfter (x >>= f) s = t) ∨
      ∃ a t, x s = .ok a t ∧ stateAfter (x >>= f) s = stateAfter (f a) t := by
  simp only [stateAfter, bind_apply]
  cases x s with
  | ok a t => exact .inr ⟨a, t, rfl, rfl⟩
  | error e t => simp

/-! ## Running a program on a component of a larger state -/

/-- Run `x` on the component read by `get` and written back by `put`, also when it throws. -/
def zoom (get : σ → τ) (put : τ → σ → σ) (x : EStateM ε τ α) : EStateM ε σ α := fun s ↦
  match x (get s) with
  | .ok a t => .ok a (put t s)
  | .error e t => .error e (put t s)

/-! ## Specifications -/

/-- Started in a state with `pre`, `x` returns into `post` or throws into `exc`. -/
def Triple (pre : σ → Prop) (x : EStateM ε σ α) (post : α → σ → Prop)
    (exc : ε → σ → Prop) : Prop :=
  ∀ s, pre s → match x s with
    | .ok a t => post a t
    | .error e t => exc e t

namespace Triple

variable {pre pre' : σ → Prop} {post : α → σ → Prop} {exc exc' : ε → σ → Prop}

theorem ok {x : EStateM ε σ α} (h : Triple pre x post exc) {s t : σ} {a : α}
    (hs : pre s) (hx : x s = .ok a t) : post a t := by
  have hh := h s hs
  rwa [hx] at hh

theorem error {x : EStateM ε σ α} (h : Triple pre x post exc) {s t : σ} {e : ε}
    (hs : pre s) (hx : x s = .error e t) : exc e t := by
  have hh := h s hs
  rwa [hx] at hh

theorem of_runs {x : EStateM ε σ α}
    (hok : ∀ s a t, pre s → x s = .ok a t → post a t)
    (herr : ∀ s e t, pre s → x s = .error e t → exc e t) : Triple pre x post exc := by
  intro s hs
  cases hx : x s with
  | ok a t => exact hok s a t hs hx
  | error e t => exact herr s e t hs hx

theorem pure (a : α) (h : ∀ s, pre s → post a s) :
    Triple pre (pure a : EStateM ε σ α) post exc :=
  fun s hs ↦ h s hs

theorem bind {mid : α → σ → Prop} {post : β → σ → Prop} {x : EStateM ε σ α}
    {f : α → EStateM ε σ β} (hx : Triple pre x mid exc)
    (hf : ∀ a, Triple (mid a) (f a) post exc) : Triple pre (x >>= f) post exc := by
  apply of_runs
  · intro s b t hs h
    obtain ⟨a, u, hxs, hfu⟩ := bind_eq_ok_iff.mp h
    exact (hf a).ok (hx.ok hs hxs) hfu
  · intro s e t hs h
    rcases bind_eq_error_iff.mp h with hxs | ⟨a, u, hxs, hfu⟩
    · exact hx.error hs hxs
    · exact (hf a).error (hx.ok hs hxs) hfu

/-- A loop over a list: the invariant speaks of the elements already processed. -/
theorem forM {γ : Type} (inv : List γ → σ → Prop) {f : γ → EStateM ε σ PUnit}
    (hf : ∀ done x, Triple (inv done) (f x) (fun _ ↦ inv (done ++ [x])) exc) (xs : List γ) :
    Triple (inv []) (xs.forM f) (fun _ ↦ inv xs) exc := by
  suffices h : ∀ done, Triple (inv done) (xs.forM f) (fun _ ↦ inv (done ++ xs)) exc by
    simpa using h []
  induction xs with
  | nil =>
      intro done
      exact pure _ fun s hs ↦ by simpa using hs
  | cons x xs ih =>
      intro done
      have hrest := ih (done ++ [x])
      rw [List.append_assoc] at hrest
      exact bind (hf done x) fun _ ↦ hrest

end Triple

/-! ## A program seen through a function of its state -/

def mapState (f : σ → τ) : EStateM.Result ε σ α → EStateM.Result ε τ α
  | .ok a s => .ok a (f s)
  | .error e s => .error e (f s)

/-- If `f` takes each half of one program to its half of another, it does so with both in a row. -/
theorem bind_mapState {f : σ → τ} {x : EStateM ε σ α} {y : EStateM ε τ α}
    {g : α → EStateM ε σ β} {k : α → EStateM ε τ β} {s : σ}
    (hx : y (f s) = mapState f (x s))
    (hg : ∀ a t, x s = .ok a t → k a (f t) = mapState f (g a t)) :
    (y >>= k) (f s) = mapState f ((x >>= g) s) := by
  rw [bind_apply, bind_apply, hx]
  cases h : x s with
  | ok a t => exact hg a t h
  | error e t => rfl

/-- Seen through `f` the run of `x` is that of `y`, and when it returns `post` holds. -/
structure Through (f : σ → τ) (post : α → σ → Prop) (x : EStateM ε σ α) (y : EStateM ε τ α)
    (s : σ) : Prop where
  seen : y (f s) = mapState f (x s)
  kept : ∀ a t, x s = .ok a t → post a t

namespace Through

variable {f : σ → τ} {post post' : α → σ → Prop} {s : σ}

theorem ok {x : EStateM ε σ α} {y : EStateM ε τ α} {a : α} {t : σ} (hx : x s = .ok a t)
    (hy : y (f s) = .ok a (f t)) (h : post a t) : Through f post x y s where
  seen := by
    rw [hx, hy]
    rfl
  kept := by
    intro b u hu
    cases hx.symm.trans hu
    exact h

theorem error {x : EStateM ε σ α} {y : EStateM ε τ α} {e : ε} {t : σ} (hx : x s = .error e t)
    (hy : y (f s) = .error e (f t)) : Through f post x y s where
  seen := by
    rw [hx, hy]
    rfl
  kept := by
    intro b u hu
    cases hx.symm.trans hu

theorem bind {post' : β → σ → Prop} {x : EStateM ε σ α} {y : EStateM ε τ α}
    {g : α → EStateM ε σ β} {k : α → EStateM ε τ β} (h : Through f post x y s)
    (hnext : ∀ a t, post a t → Through f post' (g a) (k a) t) :
    Through f post' (x >>= g) (y >>= k) s where
  seen := bind_mapState h.seen fun a t ht ↦ (hnext a t (h.kept a t ht)).seen
  kept := by
    intro b u hu
    obtain ⟨a, t, hx, hg⟩ := bind_eq_ok_iff.mp hu
    exact (hnext a t (h.kept a t hx)).kept b u hg

theorem mono {x : EStateM ε σ α} {y : EStateM ε τ α} (h : Through f post x y s)
    (himp : ∀ a t, post a t → post' a t) : Through f post' x y s :=
  ⟨h.seen, fun a t ht ↦ himp a t (h.kept a t ht)⟩

theorem of_eq {x x' : EStateM ε σ α} {y y' : EStateM ε τ α} (h : Through f post x y s)
    (hx : x' s = x s) (hy : y' (f s) = y (f s)) : Through f post x' y' s where
  seen := by
    rw [hx, hy]
    exact h.seen
  kept := by
    rw [hx]
    exact h.kept

/-- A loop over a list, with an invariant that knows how many elements are left. -/
theorem forM {γ : Type} {inv : ℕ → σ → Prop} {g : γ → EStateM ε σ PUnit}
    {k : γ → EStateM ε τ PUnit} (xs : List γ)
    (hstep : ∀ n, ∀ x ∈ xs, ∀ s, inv (n + 1) s → Through f (fun _ ↦ inv n) (g x) (k x) s)
    (h : inv xs.length s) : Through f (fun _ ↦ inv 0) (xs.forM g) (xs.forM k) s := by
  induction xs generalizing s with
  | nil => exact ok (a := PUnit.unit) rfl rfl h
  | cons x xs ih =>
      have hrest : ∀ n, ∀ x ∈ xs, ∀ s, inv (n + 1) s →
          Through f (fun _ ↦ inv n) (g x) (k x) s :=
        fun n y hy ↦ hstep n y (List.mem_cons_of_mem x hy)
      exact bind (hstep xs.length x List.mem_cons_self s h) fun _ t ht ↦ ih hrest ht

end Through

/-! ## Two programs in lock-step -/

/-- Both programs return, into related states and with one value, or both throw. -/
def Together {ε' : Type} (rel : σ → τ → Prop) (x : EStateM ε σ α) (y : EStateM ε' τ α) (s : σ)
    (t : τ) : Prop :=
  (∃ a s' t', x s = .ok a s' ∧ y t = .ok a t' ∧ rel s' t') ∨
    ∃ e e' s' t', x s = .error e s' ∧ y t = .error e' t'

namespace Together

variable {rel rel' : σ → τ → Prop} {s : σ} {t : τ}

theorem pure (a : α) (h : rel s t) :
    Together rel (pure a : EStateM ε σ α) (pure a : EStateM ε' τ α) s t :=
  .inl ⟨a, s, t, rfl, rfl, h⟩

theorem bind {x : EStateM ε σ α} {y : EStateM ε' τ α} {f : α → EStateM ε σ β}
    {g : α → EStateM ε' τ β} (h : Together rel x y s t)
    (hnext : ∀ a s' t', rel s' t' → Together rel' (f a) (g a) s' t') :
    Together rel' (x >>= f) (y >>= g) s t := by
  rcases h with ⟨a, s', t', hx, hy, hrel⟩ | ⟨e, e', s', t', hx, hy⟩
  · rcases hnext a s' t' hrel with ⟨b, s'', t'', hf, hg, hrel'⟩ | ⟨e, e', s'', t'', hf, hg⟩
    · exact .inl ⟨b, s'', t'', bind_eq_ok_iff.mpr ⟨a, s', hx, hf⟩,
        bind_eq_ok_iff.mpr ⟨a, t', hy, hg⟩, hrel'⟩
    · exact .inr ⟨e, e', s'', t'', bind_eq_error_iff.mpr (.inr ⟨a, s', hx, hf⟩),
        bind_eq_error_iff.mpr (.inr ⟨a, t', hy, hg⟩)⟩
  · exact .inr ⟨e, e', s', t', bind_eq_error_iff.mpr (.inl hx), bind_eq_error_iff.mpr (.inl hy)⟩

/-- A loop over a list, with a relation that knows how many elements are left. -/
theorem forM {γ : Type} {rel : ℕ → σ → τ → Prop} {f : γ → EStateM ε σ PUnit}
    {g : γ → EStateM ε' τ PUnit}
    (hstep : ∀ n x s t, rel (n + 1) s t → Together (rel n) (f x) (g x) s t) (xs : List γ)
    (h : rel xs.length s t) : Together (rel 0) (xs.forM f) (xs.forM g) s t := by
  induction xs generalizing s t with
  | nil => exact pure _ h
  | cons x xs ih => exact bind (hstep xs.length x s t h) fun _ s' t' h' ↦ ih h'

end Together

end ExceptionState
