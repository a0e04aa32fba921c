import Mathlib.Data.List.Basic
import Mathlib.Data.List.Infix

/-!
# The last occurrence of a marker in a list

`rfind` returns where the last occurrence of a marker starts. What comes after
it is read off a decomposition of the list: when the marker's first element
does not occur again behind an occurrence, that occurrence is the last.
-/

set_option autoImplicit false

namespace ListSearch

variable {α : Type} [DecidableEq α]

def rfind (marker : List α) : List α → Option ℕ
  | [] => none
  | x :: xs =>
      match rfind marker xs with
      | some i => some (i + 1)
      | none => if marker <+: x :: xs then some 0 else none

theorem prefix_of_rfind {marker xs : List α} {i : ℕ} (h : rfind marker xs = some i) :
    marker <+: xs.drop i := by
  induction xs generalizing i with
  | nil => cases h
  | cons x xs ih =>
      rw [rfind] at h
      cases hrest : rfind marker xs with
      | some j =>
          rw [hrest] at h
          obtain rfl : j + 1 = i := Option.some.inj h
          exact ih hrest
      | none =>
          rw [hrest] at h
          dsimp only at h
          split at h
          · rename_i hprefix
            obtain rfl : 0 = i := Option.some.inj h
            exact hprefix
          · cases h

theorem eq_of_rfind {marker xs : List α} {i : ℕ} (h : rfind marker xs = some i) :
    xs = xs.take i ++ (marker ++ xs.drop (i + marker.length)) := by
  obtain ⟨rest, hrest⟩ := prefix_of_rfind h
  have hdrop : xs.drop (i + marker.length) = rest := by
    rw [← List.drop_drop, ← hrest, List.drop_left]
  rw [hdrop, hrest, List.take_append_drop]

theorem rfind_eq_none_of_head_notMem {m : α} {marker xs : List α} (h : m ∉ xs) :
    rfind (m :: marker) xs = none := by
  induction xs with
  | nil => rfl
  | cons x xs ih =>
      rw [List.mem_cons, not_or] at h
      rw [rfind, ih h.2]
      dsimp only
      rw [if_neg]
      intro hprefix
      exact h.1 (List.cons_prefix_cons.mp hprefix).1

theorem rfind_append {marker xs ys : List α} {i : ℕ} (h : rfind marker ys = some i) :
    rfind marker (xs ++ ys) = some (xs.length + i) := by
  induction xs with
  | nil => simpa using h
  | cons x xs ih =>
      rw [List.cons_append, rfind, ih]
      simp only [List.length_cons, Option.some.injEq]
      omega

/-- Nothing behind this occurrence starts another one. -/
theorem rfind_of_last {m : α} {marker xs ys : List α} (hmarker : m ∉ marker) (hys : m ∉ ys) :
    rfind (m :: marker) (xs ++ ((m :: marker) ++ ys)) = some xs.length := by
  have hrest : rfind (m :: marker) (marker ++ ys) = none :=
    rfind_eq_none_of_head_notMem (by simp [hmarker, hys])
  have hhere : rfind (m :: marker) ((m :: marker) ++ ys) = some 0 := by
    rw [List.cons_append, rfind, hrest]
    exact if_pos (List.cons_prefix_cons.mpr ⟨rfl, List.prefix_append _ _⟩)
  exact rfind_append hhere

end ListSearch
