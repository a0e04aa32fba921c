import Mathlib.Data.Nat.Digits.Lemmas
import Mathlib.Tactic.Ring
import Mathlib.Tactic.NormNum

/-!
# Little-endian integers of a fixed width

The bytes of a natural number, least significant first, and the number a list
of bytes stands for. The shift-and-mask loops that programs write are shown
equal to these two maps.
-/

set_option autoImplicit false

namespace LittleEndian

/-- The `w` lowest bytes of `n`. -/
def encode (w n : ℕ) : List UInt8 :=
  (List.range w).map fun i ↦ UInt8.ofNat (n / 256 ^ i)

/-- The number with the given bytes. -/
def decode (bytes : List UInt8) : ℕ :=
  Nat.ofDigits 256 (bytes.map UInt8.toNat)

@[simp] theorem decode_nil : decode [] = 0 := rfl

theorem decode_cons (b : UInt8) (bytes : List UInt8) :
    decode (b :: bytes) = b.toNat + 256 * decode bytes := by
  simp [decode, Nat.ofDigits_cons]

theorem encode_succ (w n : ℕ) :
    encode (w + 1) n = UInt8.ofNat n :: encode w (n / 256) := by
  have hdiv : ∀ i, n / 256 ^ (i + 1) = n / 256 / 256 ^ i := by
    intro i
    rw [Nat.div_div_eq_div_mul, pow_succ']
  simp [encode, List.range_succ_eq_map, Function.comp_def, hdiv]

theorem decode_lt (bytes : List UInt8) : decode bytes < 256 ^ bytes.length := by
  have h := Nat.ofDigits_lt_base_pow_length (b := 256) (l := bytes.map UInt8.toNat)
    (by norm_num) (by simpa using fun b _ ↦ b.toNat_lt)
  simpa [decode] using h

theorem decode_encode (w n : ℕ) : decode (encode w n) = n % 256 ^ w := by
  induction w generalizing n with
  | zero => simp [encode, Nat.mod_one]
  | succ w ih =>
      rw [encode_succ, decode_cons, ih, pow_succ', Nat.mod_mul]
      simp

theorem decode_encode_of_lt {w n : ℕ} (h : n < 256 ^ w) : decode (encode w n) = n := by
  rw [decode_encode, Nat.mod_eq_of_lt h]

theorem encode_decode (bytes : List UInt8) : encode bytes.length (decode bytes) = bytes := by
  induction bytes with
  | nil => rfl
  | cons b bytes ih =>
      have hdiv : (b.toNat + 256 * decode bytes) / 256 = decode bytes := by
        have hb := b.toNat_lt
        omega
      have hlow : UInt8.ofNat (b.toNat + 256 * decode bytes) = b := by
        apply UInt8.toNat.inj
        have hb := b.toNat_lt
        simp
      rw [List.length_cons, encode_succ, decode_cons, hdiv, hlow, ih]

/-! ## The loops programs write -/

theorem encode_eq_shift (w n : ℕ) :
    encode w n = (List.range w).map fun i ↦ UInt8.ofNat ((n >>> (8 * i)) &&& 0xff) := by
  apply List.map_congr_left
  intro i _
  have hpow : 256 ^ i = 2 ^ (8 * i) := by
    rw [pow_mul]
    norm_num
  apply UInt8.toNat.inj
  rw [Nat.shiftRight_eq_div_pow, ← hpow, show (0xff : ℕ) = 2 ^ 8 - 1 by norm_num,
    Nat.and_two_pow_sub_one_eq_mod]
  simp

theorem decode_take_succ (bytes : List UInt8) {k : ℕ} (hk : k < bytes.length) :
    decode (bytes.take (k + 1)) = decode (bytes.take k) + 256 ^ k * bytes[k].toNat := by
  rw [List.take_succ_eq_append_getElem hk]
  simp only [decode, List.map_append, Nat.ofDigits_append, List.length_map, List.length_take,
    Nat.min_eq_left hk.le, List.map_cons, List.map_nil, Nat.ofDigits_singleton]

/-- Or-ing in the shifted bytes one after the other computes `decode`. -/
theorem foldl_or_eq_decode (bytes : List UInt8) {k : ℕ} (hk : k ≤ bytes.length) :
    (List.range k).foldl (fun v i ↦ v ||| (bytes.getD i 0).toNat <<< (8 * i)) 0 =
      decode (bytes.take k) := by
  induction k with
  | zero => simp
  | succ k ih =>
      have hpow : 256 ^ k = 2 ^ (8 * k) := by
        rw [pow_mul]
        norm_num
      have hlt : decode (bytes.take k) < 2 ^ (8 * k) := by
        have h := decode_lt (bytes.take k)
        rwa [List.length_take, Nat.min_eq_left (by omega), hpow] at h
      rw [List.range_succ, List.foldl_append, ih (by omega), decode_take_succ bytes hk]
      simp only [List.foldl_cons, List.foldl_nil, Nat.shiftLeft_eq]
      rw [List.getD_eq_getElem?_getD, List.getElem?_eq_getElem hk, Option.getD_some,
        hpow, Nat.or_comm, Nat.mul_comm _ (2 ^ (8 * k)),
        ← Nat.two_pow_add_eq_or_of_lt hlt, Nat.add_comm]

end LittleEndian
