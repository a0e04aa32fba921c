import Mathlib.Data.List.Forall2
import Mathlib.Data.Set.Function
import DuckdbOpenzl.Library.ExceptionState

/-!
# Loops of programs with state and exceptions

A loop over a list runs its steps one after another and ends at the first that
throws. When every step writes under a name of its own, what a step has left
there is still there when the loop ends, and all other names are as they were.
-/

set_option autoImplicit false

namespace ExceptionState

variable {ε σ α β γ κ : Type} {f : α → EStateM ε σ β} {s t u : σ} {x : α} {y : β} {xs done : List α}
  {ys : List β} {e : ε}

/-- The steps of a loop, all of which returned. -/
inductive Steps (f : α → EStateM ε σ β) : σ → List α → List β → σ → Prop
  | nil (s : σ) : Steps f s [] [] s
  | cons {s t u : σ} {x : α} {xs : List α} {y : β} {ys : List β} :
      f x s = .ok y t → Steps f t xs ys u → Steps f s (x :: xs) (y :: ys) u

theorem mapM_eq_ok_iff : xs.mapM f s = .ok ys t ↔ Steps f s xs ys t := by
  induction xs generalizing s ys with
  | nil =>
      rw [List.mapM_nil]
      constructor
      · intro h
        obtain ⟨rfl, rfl⟩ := EStateM.Result.ok.inj h
        exact .nil s
      · rintro ⟨⟩
        rfl
  | cons x xs ih =>
      rw [List.mapM_cons]
      constructor
      · intro h
        obtain ⟨y, u, hx, h⟩ := bind_eq_ok_iff.mp h
        obtain ⟨zs, v, hxs, h⟩ := bind_eq_ok_iff.mp h
        obtain ⟨rfl, rfl⟩ := EStateM.Result.ok.inj h
        exact .cons hx (ih.mp hxs)
      · intro h
        cases h with
        | cons hx hxs =>
            exact bind_eq_ok_iff.mpr ⟨_, _, hx, bind_eq_ok_iff.mpr ⟨_, _, ih.mpr hxs, rfl⟩⟩

/-- A loop that throws has made all steps before the one that did. -/
theorem mapM_eq_error_iff : xs.mapM f s = .error e u ↔ ∃ done x rest ys t,
    xs = done ++ x :: rest ∧ Steps f s done ys t ∧ f x t = .error e u := by
  induction xs generalizing s with
  | nil =>
      constructor
      · intro h
        cases h
      · rintro ⟨done, x, rest, ys, t, hxs, -⟩
        cases done <;> cases hxs
  | cons x xs ih =>
      rw [List.mapM_cons]
      constructor
      · intro h
        rcases bind_eq_error_iff.mp h with hx | ⟨y, v, hx, h⟩
        · exact ⟨[], x, xs, [], s, rfl, .nil s, hx⟩
        · rcases bind_eq_error_iff.mp h with hxs | ⟨zs, w, hxs, h⟩
          · obtain ⟨done, z, rest, ys, t, rfl, hdone, hz⟩ := ih.mp hxs
            exact ⟨x :: done, z, rest, y :: ys, t, rfl, .cons hx hdone, hz⟩
          · cases h
      · rintro ⟨done, z, rest, ys, t, hxs, hdone, hz⟩
        cases hdone with
        | nil =>
            obtain ⟨rfl, rfl⟩ := List.cons.inj hxs
            exact bind_eq_error_iff.mpr (.inl hz)
        | cons hx hdone =>
            obtain ⟨rfl, rfl⟩ := List.cons.inj hxs
            have hrest := ih.mpr ⟨_, z, rest, _, t, rfl, hdone, hz⟩
            exact bind_eq_error_iff.mpr (.inr ⟨_, _, hx, bind_eq_error_iff.mpr (.inl hrest)⟩)

/-- Steps with footprints: none reads or writes what an earlier one has written. What a step has
done, between the contents it found and those it left, is what the whole loop has done. -/
theorem Steps.frames (get : σ → κ → γ) (reads writes : α → Set κ) {inv : σ → Prop}
    (holds : α → β → (κ → γ) → (κ → γ) → Prop)
    (hlocal : ∀ x y g g' h h', Set.EqOn g g' (reads x) → Set.EqOn h h' (writes x) →
      holds x y g h → holds x y g' h')
    (hstep : ∀ x ∈ xs, ∀ s y t, inv s → f x s = .ok y t →
      inv t ∧ holds x y (get s) (get t) ∧ ∀ k ∉ writes x, get t k = get s k)
    (hapart : xs.Pairwise fun a b ↦ ∀ k ∈ writes a, k ∉ reads b ∧ k ∉ writes b)
    (h : Steps f s xs ys t) (hs : inv s) :
    inv t ∧ List.Forall₂ (fun x y ↦ holds x y (get s) (get t)) xs ys ∧
      ∀ k, (∀ x ∈ xs, k ∉ writes x) → get t k = get s k := by
  induction h with
  | nil s => exact ⟨hs, .nil, fun _ _ ↦ rfl⟩
  | @cons s u t x xs y ys hx _ ih =>
      rw [List.pairwise_cons] at hapart
      obtain ⟨hu, hholds, hothers⟩ := hstep x List.mem_cons_self s y u hs hx
      obtain ⟨ht, hall, hrest⟩ := ih (fun z hz ↦ hstep z (List.mem_cons_of_mem x hz)) hapart.2 hu
      refine ⟨ht, .cons ?_ ?_, ?_⟩
      · apply hlocal x y _ _ _ _ (Set.eqOn_refl _ _) _ hholds
        intro k hk
        exact (hrest k fun z hz ↦ (hapart.1 z hz k hk).2).symm
      · -- an earlier write is outside the reads of every later step
        have hkept : ∀ z ∈ xs, Set.EqOn (get u) (get s) (reads z) := by
          intro z hz k hk
          exact hothers k fun hwritten ↦ (hapart.1 z hz k hwritten).1 hk
        apply ((List.forall₂_and_left _ _).mpr ⟨hkept, hall⟩).imp
        rintro z y ⟨hz, hz'⟩
        exact hlocal z y _ _ _ _ hz (Set.eqOn_refl _ _) hz'
      · intro k hk
        rw [hrest k fun z hz ↦ hk z (List.mem_cons_of_mem x hz),
          hothers k (hk x List.mem_cons_self)]

/-- Steps that write under names of their own. -/
theorem Steps.fills {get : σ → κ → γ} {key : α → κ} {inv : σ → Prop} {holds : α → β → γ → Prop}
    (hstep : ∀ x ∈ xs, ∀ s y t, inv s → f x s = .ok y t →
      inv t ∧ holds x y (get t (key x)) ∧ ∀ k, k ≠ key x → get t k = get s k)
    (hkeys : (xs.map key).Nodup) (h : Steps f s xs ys t) (hs : inv s) :
    inv t ∧ List.Forall₂ (fun x y ↦ holds x y (get t (key x))) xs ys ∧
      ∀ k, k ∉ xs.map key → get t k = get s k := by
  have hapart : xs.Pairwise fun a b ↦ ∀ k ∈ ({key a} : Set κ),
      k ∉ (∅ : Set κ) ∧ k ∉ ({key b} : Set κ) := by
    rw [List.Nodup, List.pairwise_map] at hkeys
    apply hkeys.imp
    rintro a b hne k rfl
    exact ⟨Set.notMem_empty _, hne⟩
  have hlocal : ∀ x y (g g' h h' : κ → γ), Set.EqOn g g' (∅ : Set κ) → Set.EqOn h h' {key x} →
      holds x y (h (key x)) → holds x y (h' (key x)) := by
    intro x y g g' h h' _ hafter hholds
    rwa [← hafter rfl]
  obtain ⟨ht, hall, hothers⟩ := h.frames get (fun _ ↦ ∅) (fun x ↦ {key x})
    (fun x y _ g ↦ holds x y (g (key x))) hlocal hstep hapart hs
  refine ⟨ht, hall, fun k hk ↦ hothers k fun x hx hkey ↦ hk ?_⟩
  rw [Set.mem_singleton_iff.mp hkey]
  exact List.mem_map_of_mem hx

end ExceptionState
