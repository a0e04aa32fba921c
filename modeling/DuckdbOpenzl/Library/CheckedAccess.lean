import DuckdbOpenzl.Library.FileContent
import Mathlib.Algebra.Group.Nat.Defs

/-!
# Arithmetic and memory accesses that report what goes wrong

A machine subtraction wraps and a copy runs over the end of its buffer without
notice. Here each of these is a computation that stops with a fault instead,
so that a program written with them finishes only if nothing went wrong.
-/

set_option autoImplicit false

namespace CheckedAccess

open FileContent

inductive Fault where
  | wraps
  | outOfBounds
  | tooLarge
  deriving DecidableEq, Repr

abbrev Checked := Except Fault

variable {α : Type}

/-- The sum of two unsigned numbers of `width` bits. -/
def add (width a b : ℕ) : Checked ℕ := if a + b < 2 ^ width then .ok (a + b) else .error .wraps

def sub (a b : ℕ) : Checked ℕ := if b ≤ a then .ok (a - b) else .error .wraps

def mul (width a b : ℕ) : Checked ℕ := if a * b < 2 ^ width then .ok (a * b) else .error .wraps

/-- Copy `len` items out of a buffer or a file. -/
def load (xs : List α) (off len : ℕ) : Checked (List α) :=
  if off + len ≤ xs.length then .ok (slice xs off len) else .error .outOfBounds

/-- Copy items over those a buffer holds from `off` on. -/
def store (xs : List α) (off : ℕ) (ys : List α) : Checked (List α) :=
  if off + ys.length ≤ xs.length then .ok (overwrite xs off ys) else .error .outOfBounds

/-- Make room for `n` items where `limit` are allowed. -/
def allocate (limit n : ℕ) : Checked Unit := if n ≤ limit then .ok () else .error .tooLarge

theorem add_of_lt {width a b : ℕ} (h : a + b < 2 ^ width) : add width a b = .ok (a + b) := if_pos h

theorem sub_of_le {a b : ℕ} (h : b ≤ a) : sub a b = .ok (a - b) := if_pos h

theorem mul_of_lt {width a b : ℕ} (h : a * b < 2 ^ width) : mul width a b = .ok (a * b) := if_pos h

theorem load_of_le {xs : List α} {off len : ℕ} (h : off + len ≤ xs.length) :
    load xs off len = .ok (slice xs off len) := if_pos h

theorem load_eq_ok_iff {xs ys : List α} {off len : ℕ} :
    load xs off len = .ok ys ↔ off + len ≤ xs.length ∧ ys = slice xs off len := by
  unfold load
  split
  · rename_i h
    simp [h, eq_comm]
  · rename_i h
    simp [h]

theorem store_eq_ok {xs ys zs : List α} {off : ℕ} (h : store xs off ys = .ok zs) :
    zs = overwrite xs off ys := by
  unfold store at h
  split at h
  · exact (Except.ok.inj h).symm
  · cases h

theorem store_of_le {xs ys : List α} {off : ℕ} (h : off + ys.length ≤ xs.length) :
    store xs off ys = .ok (overwrite xs off ys) := if_pos h

theorem store_of_lt {xs ys : List α} {off : ℕ} (h : xs.length < off + ys.length) :
    store xs off ys = .error .outOfBounds := if_neg (by omega)

theorem load_of_lt {xs : List α} {off len : ℕ} (h : xs.length < off + len) :
    load xs off len = .error .outOfBounds := if_neg (by omega)

theorem allocate_of_le {limit n : ℕ} (h : n ≤ limit) : allocate limit n = .ok () := if_pos h

end CheckedAccess
