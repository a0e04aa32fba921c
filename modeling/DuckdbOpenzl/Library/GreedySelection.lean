import Mathlib.Data.Nat.Notation
import Mathlib.Tactic.Basic
import Mathlib.Logic.Basic

/-!
# Greedy selections

A list is gone through once: some elements are passed over, one may end the
selection, every other is taken. Whether an element ends it depends on those
taken before. Two rules of which one passes over more can be compared step by
step.
-/

set_option autoImplicit false

namespace GreedySelection

variable {α : Type}

structure Rule (α : Type) where
  skip : α → Bool
  stop : List α → α → Bool

namespace Rule

variable (r r' : Rule α)

/-- What is taken from a list after `taken`. -/
def select : List α → List α → List α
  | _, [] => []
  | taken, x :: xs =>
      if r.skip x then select taken xs
      else if r.stop taken x then []
      else x :: select (taken ++ [x]) xs

/-- The first element that is not passed over, if there is one, ends the selection. -/
def Ends (taken : List α) : List α → Prop
  | [] => True
  | x :: xs => if r.skip x then Ends taken xs else r.stop taken x = true

/-- Where `r` takes an element so does `r'`, and where `r` ends so does `r'` at once or at the
next element it does not pass over. -/
def Follows : List α → List α → Prop
  | _, [] => True
  | taken, x :: xs =>
      if r.skip x then Follows taken xs
      else if r.stop taken x then r'.Ends taken (x :: xs)
      else r'.skip x = false ∧ r'.stop taken x = false ∧ Follows (taken ++ [x]) xs

variable {r r'} {taken xs : List α} {x : α}

theorem select_eq_nil_iff : r.select taken xs = [] ↔ r.Ends taken xs := by
  induction xs with
  | nil => exact iff_of_true rfl trivial
  | cons x xs ih =>
      rw [select, Ends]
      by_cases hskip : r.skip x = true
      · rw [if_pos hskip, if_pos hskip]
        exact ih
      · rw [if_neg hskip, if_neg hskip]
        by_cases hstop : r.stop taken x = true
        · rw [if_pos hstop]
          exact iff_of_true rfl hstop
        · rw [if_neg hstop]
          exact iff_of_false (List.cons_ne_nil _ _) hstop

theorem not_skip_of_mem_select (h : x ∈ r.select taken xs) : r.skip x = false := by
  induction xs generalizing taken with
  | nil => exact absurd h List.not_mem_nil
  | cons y xs ih =>
      rw [select] at h
      by_cases hskip : r.skip y = true
      · rw [if_pos hskip] at h
        exact ih h
      · rw [if_neg hskip] at h
        by_cases hstop : r.stop taken y = true
        · rw [if_pos hstop] at h
          exact absurd h List.not_mem_nil
        · rw [if_neg hstop] at h
          rcases List.mem_cons.mp h with rfl | hrest
          · simpa using hskip
          · exact ih hrest

/-- A rule that passes over more selects the same exactly when it follows the other. -/
theorem select_eq_iff (hskip : ∀ x, r.skip x = true → r'.skip x = true) :
    r'.select taken xs = r.select taken xs ↔ r.Follows r' taken xs := by
  induction xs generalizing taken with
  | nil => exact iff_of_true rfl trivial
  | cons x xs ih =>
      rw [Follows]
      by_cases hx : r.skip x = true
      · rw [if_pos hx, ← ih, select, select, if_pos hx, if_pos (hskip x hx)]
      · rw [if_neg hx]
        by_cases hstop : r.stop taken x = true
        · have hnil : r.select taken (x :: xs) = [] := by
            rw [select, if_neg hx, if_pos hstop]
          rw [if_pos hstop, hnil, select_eq_nil_iff]
        · have htakes : r.select taken (x :: xs) = x :: r.select (taken ++ [x]) xs := by
            rw [select, if_neg hx, if_neg hstop]
          rw [if_neg hstop, htakes]
          -- what `r'` passes over or stops at here it never takes later
          constructor
          · intro heq
            have hmem : x ∈ r'.select taken (x :: xs) := by
              rw [heq]
              exact List.mem_cons_self
            have hskip' := not_skip_of_mem_select hmem
            have hstop' : r'.stop taken x = false := by
              cases hcase : r'.stop taken x with
              | false => rfl
              | true =>
                  rw [select, if_neg (by simp [hskip']), if_pos hcase] at heq
                  cases heq
            rw [select, if_neg (by simp [hskip']), if_neg (by simp [hstop'])] at heq
            exact ⟨hskip', hstop', ih.mp (List.cons.inj heq).2⟩
          · rintro ⟨hskip', hstop', hrest⟩
            rw [select, if_neg (by simp [hskip']), if_neg (by simp [hstop']), ih.mpr hrest]

/-- Two rules that decide alike after whatever `r` can have taken select the same. -/
theorem follows_of_agree (inv : List α → Prop)
    (hskip : ∀ x, r.skip x = false → r'.skip x = false)
    (hstop : ∀ ys x, inv ys → r.skip x = false → r'.stop ys x = r.stop ys x)
    (hinv : ∀ ys x, inv ys → r.skip x = false → r.stop ys x = false → inv (ys ++ [x]))
    (h : inv taken) : r.Follows r' taken xs := by
  induction xs generalizing taken with
  | nil => trivial
  | cons x xs ih =>
      rw [Follows]
      cases hx : r.skip x with
      | true => exact ih h
      | false =>
          have hsame := hstop taken x h hx
          cases hend : r.stop taken x with
          | true =>
              rw [if_neg nofun, if_pos rfl, Ends, if_neg (by simp [hskip x hx]), hsame]
              exact hend
          | false =>
              rw [if_neg nofun, if_neg nofun]
              exact ⟨hskip x hx, hsame.trans hend, ih (hinv taken x h hx hend)⟩

end Rule

end GreedySelection
