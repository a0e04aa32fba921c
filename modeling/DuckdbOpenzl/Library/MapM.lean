import Mathlib.Data.List.Forall2

/-!
# Traversals that may fail

A traversal succeeds with `ys` exactly when every element succeeds with the
element of `ys` at its place.
-/

set_option autoImplicit false

namespace MapM

open List

variable {α β ε : Type} {xs : List α} {ys : List β}

theorem except_iff {f : α → Except ε β} :
    xs.mapM f = .ok ys ↔ Forall₂ (fun x y ↦ f x = .ok y) xs ys := by
  induction xs generalizing ys with
  | nil =>
      rw [mapM_nil, forall₂_nil_left_iff]
      exact ⟨fun h ↦ (Except.ok.inj h).symm, fun h ↦ by rw [h]; rfl⟩
  | cons x xs ih =>
      rw [mapM_cons, forall₂_cons_left_iff]
      constructor
      · intro h
        cases hx : f x with
        | error e =>
            rw [hx] at h
            cases h
        | ok y =>
            rw [hx] at h
            cases hxs : xs.mapM f with
            | error e =>
                rw [hxs] at h
                cases h
            | ok zs =>
                rw [hxs] at h
                exact ⟨y, zs, rfl, ih.mp hxs, (Except.ok.inj h).symm⟩
      · rintro ⟨y, zs, hx, hxs, rfl⟩
        rw [hx, ih.mpr hxs]
        rfl

theorem option_iff {f : α → Option β} :
    xs.mapM f = some ys ↔ Forall₂ (fun x y ↦ f x = some y) xs ys := by
  induction xs generalizing ys with
  | nil =>
      rw [mapM_nil, forall₂_nil_left_iff]
      exact ⟨fun h ↦ (Option.some.inj h).symm, fun h ↦ by rw [h]; rfl⟩
  | cons x xs ih =>
      rw [mapM_cons, forall₂_cons_left_iff]
      constructor
      · intro h
        obtain ⟨y, hx, h⟩ := Option.bind_eq_some_iff.mp h
        obtain ⟨zs, hxs, h⟩ := Option.bind_eq_some_iff.mp h
        exact ⟨y, zs, hx, ih.mp hxs, (Option.some.inj h).symm⟩
      · rintro ⟨y, zs, hx, hxs, rfl⟩
        rw [hx, ih.mpr hxs]
        rfl

theorem exists_forall₂ {R S : α → β → Prop} (h : ∀ x ∈ xs, ∃ y, R x y ∧ S x y) :
    ∃ ys, Forall₂ R xs ys ∧ Forall₂ S xs ys := by
  induction xs with
  | nil => exact ⟨[], .nil, .nil⟩
  | cons x xs ih =>
      obtain ⟨y, hR, hS⟩ := h x mem_cons_self
      obtain ⟨ys, hRs, hSs⟩ := ih fun z hz ↦ h z (mem_cons_of_mem x hz)
      exact ⟨y :: ys, .cons hR hRs, .cons hS hSs⟩

theorem exists_option {f : α → Option β} {R : α → β → Prop}
    (h : ∀ x ∈ xs, ∃ y, f x = some y ∧ R x y) : ∃ ys, xs.mapM f = some ys ∧ Forall₂ R xs ys := by
  obtain ⟨ys, hf, hR⟩ := exists_forall₂ h
  exact ⟨ys, option_iff.mpr hf, hR⟩

theorem exists_between {γ : Type} {R : α → γ → Prop} {S : γ → β → Prop}
    (h : Forall₂ (fun x y ↦ ∃ z, R x z ∧ S z y) xs ys) :
    ∃ zs, Forall₂ R xs zs ∧ Forall₂ S zs ys := by
  induction h with
  | nil => exact ⟨[], .nil, .nil⟩
  | cons hxy _ ih =>
      obtain ⟨z, hR, hS⟩ := hxy
      obtain ⟨zs, hRs, hSs⟩ := ih
      exact ⟨z :: zs, .cons hR hRs, .cons hS hSs⟩

theorem eq_map_of_forall₂ {R : α → β → Prop} {g : α → β} (h : Forall₂ R xs ys)
    (hg : ∀ x ∈ xs, ∀ y, R x y → y = g x) : ys = xs.map g := by
  induction h with
  | nil => rfl
  | cons hxy _ ih =>
      rw [map_cons, ← hg _ mem_cons_self _ hxy, ← ih fun x hx ↦ hg x (mem_cons_of_mem _ hx)]

theorem mem_of_forall₂ {R : α → β → Prop} {x : α} (h : Forall₂ R xs ys) (hx : x ∈ xs) :
    ∃ y ∈ ys, R x y := by
  induction h with
  | nil => cases hx
  | cons hxy _ ih =>
      rcases mem_cons.mp hx with rfl | hx
      · exact ⟨_, mem_cons_self, hxy⟩
      · obtain ⟨y, hy, hR⟩ := ih hx
        exact ⟨y, mem_cons_of_mem _ hy, hR⟩

end MapM
