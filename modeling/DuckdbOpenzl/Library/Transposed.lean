import Mathlib.Data.List.GetD

/-!
# Rows of columns

A list of columns that are equally long is the list of its rows, read the other
way. A missing element is filled in with `d`, which happens to columns of other
lengths only.
-/

set_option autoImplicit false

namespace Transposed

variable {α : Type} {d : α} {n : ℕ} {xs : List α} {columns : List (List α)}

/-- Row `k` holds the elements `k` of the columns. -/
def transposed (d : α) (n : ℕ) (columns : List (List α)) : List (List α) :=
  (List.range n).map fun k ↦ columns.map fun xs ↦ xs.getD k d

@[simp] theorem length_transposed : (transposed d n columns).length = n := by
  rw [transposed, List.length_map, List.length_range]

theorem getElem_transposed {k : ℕ} (hk : k < (transposed d n columns).length) :
    (transposed d n columns)[k] = columns.map fun xs ↦ xs.getD k d := by
  simp [transposed]

theorem map_getD_range (d : α) (xs : List α) :
    (List.range xs.length).map (fun k ↦ xs.getD k d) = xs := by
  apply List.ext_getElem
  · rw [List.length_map, List.length_range]
  · intro k _ hk
    rw [List.getElem_map, List.getElem_range, List.getD_eq_getElem xs d hk]

/-- Column `j` of the rows is column `j`. -/
theorem map_getD_transposed {j : ℕ} (hj : j < columns.length) (hn : columns[j].length = n) :
    (transposed d n columns).map (fun row ↦ row.getD j d) = columns[j] := by
  have hrow : ∀ k, (columns.map fun xs ↦ xs.getD k d).getD j d = columns[j].getD k d := by
    intro k
    rw [List.getD_eq_getElem _ d (by simpa using hj), List.getElem_map]
  rw [transposed, List.map_map, ← hn]
  simp only [Function.comp_def, hrow]
  exact map_getD_range d columns[j]

theorem transposed_transposed (h : ∀ xs ∈ columns, xs.length = n) :
    transposed d columns.length (transposed d n columns) = columns := by
  apply List.ext_getElem
  · exact length_transposed
  · intro j _ hj
    rw [getElem_transposed]
    exact map_getD_transposed hj (h _ (List.getElem_mem hj))

end Transposed
