import Mathlib.Order.Basic
import Mathlib.Tactic.Common

/-!
# The content of a random-access file

A file is a list of items. `resize` and `overwrite` are the two edits a
program makes; a history of edits determines the length and every item, and
`lookup` says which edit an item comes from.
-/

set_option autoImplicit false

namespace FileContent

variable {α : Type} [Inhabited α]

/-- The `len` items from `off` on, fewer at the end of the file. -/
def slice (xs : List α) (off len : ℕ) : List α :=
  (xs.drop off).take len

/-- Cut the file at `n`, or grow it to `n` with default items. -/
def resize (xs : List α) (n : ℕ) : List α :=
  xs.take n ++ List.replicate (n - xs.length) default

/-- Replace the items from `off` on by `ys`. -/
def overwrite (xs : List α) (off : ℕ) (ys : List α) : List α :=
  xs.take off ++ ys ++ xs.drop (off + ys.length)

omit [Inhabited α] in
@[simp] theorem length_slice (xs : List α) (off len : ℕ) :
    (slice xs off len).length = min len (xs.length - off) := by
  simp [slice]

omit [Inhabited α] in
theorem slice_append_append (xs ys zs : List α) :
    slice (xs ++ ys ++ zs) xs.length ys.length = ys := by
  simp [slice]

omit [Inhabited α] in
theorem slice_append_slice (xs : List α) (off m n : ℕ) :
    slice xs off m ++ slice xs (off + m) n = slice xs off (m + n) := by
  rw [slice, slice, slice, ← List.drop_drop, List.take_add]

omit [Inhabited α] in
theorem slice_length (xs : List α) : slice xs 0 xs.length = xs := by
  simp [slice]

omit [Inhabited α] in
theorem take_append_slice (xs : List α) (off n : ℕ) :
    xs.take off ++ slice xs off n = xs.take (off + (slice xs off n).length) := by
  rw [List.take_add, length_slice, slice]
  congr 1
  rw [← List.length_drop, List.take_eq_take_min]

theorem getD_slice (xs : List α) (off : ℕ) {len i : ℕ} (hi : i < len) :
    (slice xs off len).getD i default = xs.getD (off + i) default := by
  simp [slice, List.getD_eq_getElem?_getD, hi]

@[simp] theorem length_resize (xs : List α) (n : ℕ) : (resize xs n).length = n := by
  simp only [resize, List.length_append, List.length_take, List.length_replicate]
  omega

theorem getD_resize (xs : List α) (n i : ℕ) :
    (resize xs n).getD i default = if i < n then xs.getD i default else default := by
  simp only [resize, List.getD_eq_getElem?_getD, List.getElem?_append, List.length_take,
    List.getElem?_take, List.getElem?_replicate]
  grind

omit [Inhabited α] in
theorem length_overwrite (xs ys : List α) (off : ℕ) (h : off + ys.length ≤ xs.length) :
    (overwrite xs off ys).length = xs.length := by
  simp only [overwrite, List.length_append, List.length_take, List.length_drop]
  omega

theorem getD_overwrite (xs ys : List α) (off i : ℕ) (h : off + ys.length ≤ xs.length) :
    (overwrite xs off ys).getD i default =
      if off ≤ i ∧ i < off + ys.length then ys.getD (i - off) default
      else xs.getD i default := by
  simp only [overwrite, List.getD_eq_getElem?_getD, List.getElem?_append, List.length_append,
    List.length_take, List.getElem?_take, List.getElem?_drop]
  grind

/-! ## Histories of edits -/

/-- One change of a file. -/
inductive Edit (α : Type) where
  | write (off : ℕ) (items : List α)
  | truncate (n : ℕ)

/-- What an edit does to the content: a write grows the file first when it has to. -/
def Edit.apply (xs : List α) : Edit α → List α
  | .write off items =>
      overwrite (if off + items.length > xs.length then resize xs (off + items.length) else xs)
        off items
  | .truncate n => resize xs n

/-- The length after a history, latest edit first: the last truncation, raised to the
end of every write after it. -/
def lengthAfter : List (Edit α) → ℕ
  | [] => 0
  | .write off items :: before => max (off + items.length) (lengthAfter before)
  | .truncate n :: _ => n

/-- The item at `i` after a history, latest edit first: the last one written there since
the last truncation to a length of at most `i`. -/
def lookup (i : ℕ) : List (Edit α) → α
  | [] => default
  | .write off items :: before =>
      if off ≤ i ∧ i < off + items.length then items.getD (i - off) default
      else lookup i before
  | .truncate n :: before => if n ≤ i then default else lookup i before

/-- The content after a history, latest edit first. -/
def replay : List (Edit α) → List α
  | [] => []
  | e :: before => e.apply (replay before)

theorem getD_grow (xs : List α) (n i : ℕ) :
    (if n > xs.length then resize xs n else xs).getD i default = xs.getD i default := by
  split
  · rw [getD_resize]
    split
    · rfl
    · rw [List.getD_eq_getElem?_getD, List.getElem?_eq_none (by omega), Option.getD_none]
  · rfl

theorem length_grow (xs : List α) (n : ℕ) :
    (if n > xs.length then resize xs n else xs).length = max n xs.length := by
  split
  · rw [length_resize]
    omega
  · omega

theorem length_apply_write (xs items : List α) (off : ℕ) :
    (Edit.apply xs (.write off items)).length = max (off + items.length) xs.length := by
  have hgrow := length_grow xs (off + items.length)
  rw [Edit.apply, length_overwrite _ _ _ (by omega), hgrow]

/-- Writing at the end appends. -/
theorem apply_write_length (xs items : List α) :
    (Edit.write xs.length items).apply xs = xs ++ items := by
  rw [Edit.apply]
  by_cases h : xs.length + items.length > xs.length
  · have hgrown : resize xs (xs.length + items.length) =
        xs ++ List.replicate items.length default := by
      rw [resize, List.take_of_length_le (by omega), Nat.add_sub_cancel_left]
    rw [if_pos h, hgrown, overwrite, List.take_left, List.drop_eq_nil_of_le (by simp),
      List.append_nil]
  · have hitems : items = [] := List.eq_nil_of_length_eq_zero (by omega)
    simp [hitems, overwrite]

theorem length_replay (h : List (Edit α)) : (replay h).length = lengthAfter h := by
  induction h with
  | nil => rfl
  | cons e before ih =>
      cases e with
      | write off items => rw [replay, length_apply_write, ih, lengthAfter]
      | truncate n => simp [replay, Edit.apply, lengthAfter]

/-- Replaying a history edit by edit gives each position its latest item. -/
theorem getD_replay (h : List (Edit α)) (i : ℕ) : (replay h).getD i default = lookup i h := by
  induction h with
  | nil => rfl
  | cons e before ih =>
      cases e with
      | write off items =>
          have hgrow := length_grow (replay before) (off + items.length)
          rw [replay, Edit.apply, getD_overwrite _ _ _ _ (by omega), getD_grow, ih, lookup]
      | truncate n =>
          rw [replay, Edit.apply, getD_resize, ih, lookup]
          by_cases hi : i < n
          · rw [if_pos hi, if_neg (by omega)]
          · rw [if_neg hi, if_pos (by omega)]

/-- The `len` items from `off` on, each looked up in the history. -/
def lookupRange (h : List (Edit α)) (off len : ℕ) : List α :=
  (List.range len).map fun k ↦ lookup (off + k) h

theorem slice_replay (h : List (Edit α)) (off len : ℕ) :
    slice (replay h) off len = lookupRange h off (min len (lengthAfter h - off)) := by
  have hlength : (slice (replay h) off len).length = min len (lengthAfter h - off) := by
    rw [length_slice, length_replay]
  apply List.ext_getElem
  · rw [hlength, lookupRange, List.length_map, List.length_range]
  · intro k hk _
    have hlen : k < len := by omega
    have hget := getD_slice (replay h) off hlen
    rw [getD_replay, List.getD_eq_getElem?_getD, List.getElem?_eq_getElem hk,
      Option.getD_some] at hget
    rw [hget]
    simp [lookupRange]

end FileContent
