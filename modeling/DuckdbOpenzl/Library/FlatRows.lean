import Mathlib.Data.List.Basic
import Mathlib.Data.List.Nodup

/-!
# Flat rows and scattered writes

A flat row holds one block of `n` cells for each element of a list, so cell
`n * k + j` is cell `j` of the block of element `k`. Writing through a list of
distinct indices leaves at each of them the value written there.
-/

set_option autoImplicit false

namespace FlatRows

variable {α β : Type}

theorem getElem?_flatMap {f : α → List β} {n j : ℕ} {xs : List α}
    (hf : ∀ x ∈ xs, (f x).length = n) (hj : j < n) (k : ℕ) :
    (xs.flatMap f)[n * k + j]? = xs[k]?.bind fun x ↦ (f x)[j]? := by
  induction xs generalizing k with
  | nil => simp
  | cons x xs ih =>
      have hx : (f x).length = n := hf x List.mem_cons_self
      rw [List.flatMap_cons]
      cases k with
      | zero =>
          rw [Nat.mul_zero, Nat.zero_add, List.getElem?_append_left (by omega)]
          rfl
      | succ k =>
          have hlen : (f x).length ≤ n * (k + 1) + j := by
            rw [hx, Nat.mul_succ]
            omega
          have hrest : n * (k + 1) + j - (f x).length = n * k + j := by
            rw [hx, Nat.mul_succ]
            omega
          rw [List.getElem?_append_right hlen, hrest]
          exact ih (fun y hy ↦ hf y (List.mem_cons_of_mem x hy)) k

/-- Write each value at its index, in order. -/
def scatter (xs : List α) (writes : List (ℕ × α)) : List α :=
  writes.foldl (fun xs w ↦ xs.set w.1 w.2) xs

variable {xs : List α} {writes : List (ℕ × α)} {i : ℕ}

@[simp] theorem length_scatter : (scatter xs writes).length = xs.length := by
  induction writes generalizing xs with
  | nil => rfl
  | cons w writes ih =>
      rw [scatter, List.foldl_cons]
      exact ih.trans List.length_set

theorem getElem?_scatter_of_notMem (h : i ∉ writes.map Prod.fst) :
    (scatter xs writes)[i]? = xs[i]? := by
  induction writes generalizing xs with
  | nil => rfl
  | cons w writes ih =>
      rw [List.map_cons, List.mem_cons, not_or] at h
      rw [scatter, List.foldl_cons]
      exact (ih h.2).trans (List.getElem?_set_ne (Ne.symm h.1))

theorem getElem?_scatter_of_mem {v : α} (hnodup : (writes.map Prod.fst).Nodup)
    (hmem : (i, v) ∈ writes) (hi : i < xs.length) : (scatter xs writes)[i]? = some v := by
  induction writes generalizing xs with
  | nil => cases hmem
  | cons w writes ih =>
      rw [List.map_cons, List.nodup_cons] at hnodup
      rw [scatter, List.foldl_cons]
      rcases List.mem_cons.mp hmem with rfl | hmem
      · exact (getElem?_scatter_of_notMem hnodup.1).trans (List.getElem?_set_self hi)
      · exact ih hnodup.2 hmem (by simpa using hi)

/-- Whatever is in the result was there before or was written. -/
theorem mem_scatter {v : α} (h : v ∈ scatter xs writes) : v ∈ xs ∨ v ∈ writes.map Prod.snd := by
  induction writes generalizing xs with
  | nil => exact .inl h
  | cons w writes ih =>
      rw [scatter, List.foldl_cons] at h
      rcases ih h with hset | hlater
      · rcases List.mem_or_eq_of_mem_set hset with hmem | rfl
        · exact .inl hmem
        · exact .inr List.mem_cons_self
      · exact .inr (List.mem_cons_of_mem _ hlater)

end FlatRows
