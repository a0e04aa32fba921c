import DuckdbOpenzl.Library.Runs
import Mathlib.Logic.Function.Basic

/-!
# Parties that share a state

Any number of parties, each with a state of its own, take turns on a state they
share. What a party relies on is kept by its own moves, and by the moves of
every party that is apart from it; a party that is apart stays so.
-/

set_option autoImplicit false

namespace SharedState

open Relation

variable {ι σ τ : Type} [DecidableEq ι]

structure System (ι σ τ : Type) where
  shared : σ
  parties : ι → τ

/-- Party `i` moves. -/
inductive Step (move : σ × τ → σ × τ → Prop) : System ι σ τ → System ι σ τ → Prop
  | move {s : System ι σ τ} {i : ι} {shared : σ} {party : τ}
      (moved : move (s.shared, s.parties i) (shared, party)) :
      Step move s ⟨shared, Function.update s.parties i party⟩

variable {move : σ × τ → σ × τ → Prop}

/-- Each party has what it relies on, and no two get in each other's way. -/
structure Settled (relies : ι → σ → τ → Prop) (apart : τ → τ → Prop) (s : System ι σ τ) :
    Prop where
  each : ∀ i, relies i s.shared (s.parties i)
  pairs : ∀ i j, i ≠ j → apart (s.parties i) (s.parties j)

/-- What a move does to the party itself and to those it is apart from. -/
structure Rules (move : σ × τ → σ × τ → Prop) (relies : ι → σ → τ → Prop) (apart : τ → τ → Prop) :
    Prop where
  symm : ∀ l m, apart l m → apart m l
  self : ∀ i a l b l', relies i a l → move (a, l) (b, l') → relies i b l'
  others : ∀ i j a l b l' m, relies i a l → relies j a m → apart l m → move (a, l) (b, l') →
    relies j b m ∧ apart l' m

variable {relies : ι → σ → τ → Prop} {apart : τ → τ → Prop} {s t : System ι σ τ}

theorem Settled.step (hrules : Rules move relies apart) (hs : Settled relies apart s)
    (hstep : Step move s t) : Settled relies apart t := by
  cases hstep with
  | @move i shared party moved =>
      have hothers := fun j (hj : i ≠ j) ↦
        hrules.others _ _ _ _ _ _ _ (hs.each i) (hs.each j) (hs.pairs i j hj) moved
      constructor
      · intro j
        rcases eq_or_ne j i with rfl | hj
        · simpa using hrules.self _ _ _ _ _ (hs.each j) moved
        · simpa [hj] using (hothers j hj.symm).1
      · intro j k hjk
        rcases eq_or_ne j i with rfl | hj
        · simpa [hjk.symm] using (hothers k hjk).2
        · rcases eq_or_ne k i with rfl | hk
          · simpa [hj] using hrules.symm _ _ (hothers j hj.symm).2
          · simpa [hj, hk] using hs.pairs j k hjk

theorem Settled.run (hrules : Rules move relies apart) (hs : Settled relies apart s)
    (hrun : ReflTransGen (Step move) s t) : Settled relies apart t :=
  Runs.invariant (fun _ _ ↦ Settled.step hrules) hs hrun

/-- What every move keeps of the shared state, a run keeps. -/
theorem Settled.shared (hrules : Rules move relies apart) (hs : Settled relies apart s)
    (kept : σ → Prop) (hmove : ∀ i a l b l', relies i a l → move (a, l) (b, l') → kept a → kept b)
    (hkept : kept s.shared) (hrun : ReflTransGen (Step move) s t) : kept t.shared := by
  induction hrun with
  | refl => exact hkept
  | tail hrun hstep ih =>
      have hsettled := hs.run hrules hrun
      cases hstep with
      | @move i shared party moved => exact hmove i _ _ _ _ (hsettled.each i) moved ih

end SharedState
