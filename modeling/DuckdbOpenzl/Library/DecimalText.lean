import Mathlib.Data.List.Induction
import Mathlib.Data.Rat.Cast.Order
import Mathlib.Data.Nat.Log
import Mathlib.Tactic.FieldSimp
import Mathlib.Tactic.Ring

/-!
# Numbers as decimal text

Digit strings, integers and decimals written with the digits 0 to 9, an
optional minus sign and an optional point. The value of a text is read off its
digits; printing a value gives back the text it was read from when that text
has no leading zeros, and up to padding otherwise.
-/

set_option autoImplicit false

namespace DecimalText

/-! ## Digit strings -/

def IsDigits (cs : List Char) : Prop := ∀ c ∈ cs, c.isDigit = true

instance (cs : List Char) : Decidable (IsDigits cs) :=
  decidable_of_iff (cs.all Char.isDigit = true) List.all_eq_true

/-- The number a digit string denotes. -/
def digitsValue (cs : List Char) : ℕ := Nat.ofDigitChars 10 cs 0

/-- Digits that do not start with a zero. -/
def IsPositive (cs : List Char) : Prop := cs ≠ [] ∧ cs.head? ≠ some '0' ∧ IsDigits cs

instance (cs : List Char) : Decidable (IsPositive cs) := inferInstanceAs (Decidable (_ ∧ _ ∧ _))

variable {a b cs : List Char} {c : Char} {n : ℕ}

theorem isDigits_append : IsDigits (a ++ b) ↔ IsDigits a ∧ IsDigits b := by
  simp only [IsDigits, List.mem_append, or_imp, forall_and]

theorem isDigits_cons : IsDigits (c :: cs) ↔ c.isDigit = true ∧ IsDigits cs :=
  List.forall_mem_cons

theorem toNat_of_isDigit (h : c.isDigit = true) : 48 ≤ c.toNat ∧ c.toNat ≤ 57 := by
  simpa [Char.isDigit, Char.le_def, UInt32.le_iff_toNat_le] using h

theorem digitChar_toNat (h : c.isDigit = true) : Nat.digitChar (c.toNat - 48) = c := by
  obtain ⟨hlo, hhi⟩ := toNat_of_isDigit h
  apply Char.toNat_inj.mp
  rw [Nat.toNat_digitChar_of_lt_ten (by omega)]
  omega

theorem digitsValue_append :
    digitsValue (a ++ b) = digitsValue a * 10 ^ b.length + digitsValue b := by
  rw [digitsValue, Nat.ofDigitChars_append, Nat.ofDigitChars_eq_ofDigitChars_zero, mul_comm]
  rfl

theorem digitsValue_concat :
    digitsValue (cs ++ [c]) = 10 * digitsValue cs + (c.toNat - 48) := by
  rw [digitsValue, Nat.ofDigitChars_append]
  rfl

theorem digitsValue_replicate_zero : digitsValue (List.replicate n '0') = 0 := by
  simp [digitsValue]

theorem digitsValue_zeros_append :
    digitsValue (List.replicate n '0' ++ cs) = digitsValue cs := by
  rw [digitsValue_append, digitsValue_replicate_zero, zero_mul, zero_add]

theorem digitsValue_lt (h : IsDigits cs) : digitsValue cs < 10 ^ cs.length := by
  induction cs using List.reverseRecOn with
  | nil => decide
  | append_singleton cs c ih =>
      obtain ⟨hcs, hc⟩ := isDigits_append.mp h
      have hdigit := toNat_of_isDigit (hc c List.mem_cons_self)
      have hlt := ih hcs
      rw [digitsValue_concat, List.length_append, List.length_singleton, pow_succ]
      omega

theorem digitsValue_pos (h : IsPositive cs) : 0 < digitsValue cs := by
  obtain ⟨hne, hhead, hdigits⟩ := h
  cases cs with
  | nil => exact absurd rfl hne
  | cons c cs =>
      obtain ⟨hc, -⟩ := isDigits_cons.mp hdigits
      have hdigit := toNat_of_isDigit hc
      have hzero : c.toNat ≠ 48 := by
        intro h
        apply hhead
        rw [List.head?_cons, (Char.toNat_inj.mp h : c = '0')]
      have hfirst : digitsValue [c] = c.toNat - 48 := by
        rw [← List.nil_append [c], digitsValue_concat, digitsValue, Nat.ofDigitChars_nil]
        omega
      rw [← List.singleton_append, digitsValue_append, hfirst]
      apply Nat.add_pos_left
      apply Nat.mul_pos
      · omega
      · exact Nat.pow_pos (by decide)

theorem isPositive_of_concat (h : IsPositive (cs ++ [c])) (hne : cs ≠ []) : IsPositive cs := by
  obtain ⟨-, hhead, hdigits⟩ := h
  refine ⟨hne, ?_, (isDigits_append.mp hdigits).1⟩
  rwa [List.head?_append_of_ne_nil _ hne] at hhead

/-- Printing a number gives the digits it was read from, unless they start with a zero. -/
theorem toDigits_digitsValue (h : IsPositive cs) : Nat.toDigits 10 (digitsValue cs) = cs := by
  induction cs using List.reverseRecOn with
  | nil => exact absurd rfl h.1
  | append_singleton cs c ih =>
      have hc : c.isDigit = true := h.2.2 c (List.mem_append_right cs List.mem_cons_self)
      have hdigit := toNat_of_isDigit hc
      have hlast : Nat.toDigits 10 (c.toNat - 48) = [c] := by
        rw [Nat.toDigits_of_lt_base (by omega), digitChar_toNat hc]
      rw [digitsValue_concat]
      by_cases hne : cs = []
      · subst hne
        simpa [digitsValue] using hlast
      · have hcs := isPositive_of_concat h hne
        rw [← Nat.toDigits_append_toDigits (by decide) (digitsValue_pos hcs) (by omega),
          ih hcs, hlast]

theorem exists_zeros_append (h : IsDigits cs) :
    ∃ n rest, cs = List.replicate n '0' ++ rest ∧ (rest = [] ∨ IsPositive rest) := by
  induction cs with
  | nil => exact ⟨0, [], rfl, .inl rfl⟩
  | cons c cs ih =>
      by_cases hc : c = '0'
      · obtain ⟨n, rest, hcs, hrest⟩ := ih (isDigits_cons.mp h).2
        refine ⟨n + 1, rest, ?_, hrest⟩
        rw [hc, hcs, List.replicate_succ, List.cons_append]
      · exact ⟨0, c :: cs, rfl, .inr ⟨List.cons_ne_nil c cs, by simpa using hc, h⟩⟩

theorem zeros_append_toDigits (h : IsDigits cs) (hne : cs ≠ []) :
    List.replicate (cs.length - (Nat.toDigits 10 (digitsValue cs)).length) '0' ++
      Nat.toDigits 10 (digitsValue cs) = cs := by
  obtain ⟨n, rest, rfl, hrest⟩ := exists_zeros_append h
  rw [digitsValue_zeros_append]
  rcases hrest with rfl | hrest
  · obtain ⟨m, rfl⟩ : ∃ m, n = m + 1 := Nat.exists_eq_succ_of_ne_zero (by rintro rfl; simp at hne)
    simp [digitsValue, List.replicate_succ']
  · rw [toDigits_digitsValue hrest]
    simp

/-! ## Integers -/

/-- The canonical text of an integer. -/
def intText (i : ℤ) : List Char := (toString i).toList

theorem intText_natCast (n : ℕ) : intText n = Nat.toDigits 10 n := Nat.toList_repr

theorem intText_neg (h : 0 < n) : intText (-n) = '-' :: Nat.toDigits 10 n := by
  obtain ⟨m, rfl⟩ := Nat.exists_eq_succ_of_ne_zero h.ne'
  have hneg : (-((m.succ : ℕ) : ℤ)) = Int.negSucc m := rfl
  have htext : toString (Int.negSucc m) = "-" ++ Nat.repr m.succ := rfl
  rw [intText, hneg, htext, String.toList_append, Nat.toList_repr]
  rfl

/-- `0`, or digits that do not start with a zero, with or without a minus sign. -/
def IsCanonicalInt (cs : List Char) : Prop :=
  cs = ['0'] ∨ IsPositive cs ∨ (cs.head? = some '-' ∧ IsPositive cs.tail)

instance (cs : List Char) : Decidable (IsCanonicalInt cs) := inferInstanceAs (Decidable (_ ∨ _ ∨ _))

theorem isDigits_toDigits (n : ℕ) : IsDigits (Nat.toDigits 10 n) :=
  fun _ hc ↦ Nat.isDigit_of_mem_toDigits (by decide) (by decide) hc

theorem isPositive_toDigits (h : 0 < n) : IsPositive (Nat.toDigits 10 n) := by
  refine ⟨Nat.toDigits_ne_nil, ?_, isDigits_toDigits n⟩
  induction n using Nat.strongRecOn with
  | ind n ih =>
      by_cases hn : n < 10
      · rw [Nat.toDigits_of_lt_base hn, List.head?_cons, Ne, Option.some.injEq,
          Nat.digitChar_eq_zero]
        exact h.ne'
      · rw [Nat.toDigits_of_base_le (by decide) (Nat.le_of_not_lt hn),
          List.head?_append_of_ne_nil _ Nat.toDigits_ne_nil]
        exact ih (n / 10) (by omega) (by omega)

theorem isCanonicalInt_intText (i : ℤ) : IsCanonicalInt (intText i) := by
  obtain ⟨n, rfl | rfl⟩ := Int.eq_nat_or_neg i
  · rw [intText_natCast]
    rcases Nat.eq_zero_or_pos n with rfl | hn
    · exact .inl (Nat.toDigits_zero 10)
    · exact .inr (.inl (isPositive_toDigits hn))
  · rcases Nat.eq_zero_or_pos n with rfl | hn
    · exact .inl (Nat.toDigits_zero 10)
    · rw [intText_neg hn]
      exact .inr (.inr ⟨rfl, isPositive_toDigits hn⟩)

/-! ## Plain decimals -/

/-- An optional minus sign, digits, and optionally a point and more digits. -/
structure PlainDecimal where
  negative : Bool
  whole : List Char
  fraction : List Char
  whole_digits : IsDigits whole
  fraction_digits : IsDigits fraction
  ne_nil : whole ≠ [] ∨ fraction ≠ []

/-- The value of digits with a sign. -/
def signed (negative : Bool) (n : ℕ) : ℤ := if negative then -n else n

theorem natAbs_signed (negative : Bool) (n : ℕ) : (signed negative n).natAbs = n := by
  cases negative <;> simp [signed]

namespace PlainDecimal

variable (d : PlainDecimal)

/-- There is a point exactly when there are digits behind it. -/
def text : List Char :=
  (if d.negative then ['-'] else []) ++ d.whole ++
    (if d.fraction = [] then [] else '.' :: d.fraction)

def value : ℚ :=
  signed d.negative (digitsValue (d.whole ++ d.fraction)) / 10 ^ d.fraction.length

/-- The value in units of `10 ^ -scale`, when it has at most `scale` digits behind the point. -/
def unscaled (scale : ℕ) : ℤ :=
  signed d.negative (digitsValue (d.whole ++ d.fraction) * 10 ^ (scale - d.fraction.length))

variable {d}

theorem value_mul_pow {scale : ℕ} (h : d.fraction.length ≤ scale) :
    d.value * 10 ^ scale = d.unscaled scale := by
  obtain ⟨k, rfl⟩ := Nat.exists_eq_add_of_le h
  rw [value, unscaled, Nat.add_sub_cancel_left, pow_add]
  cases d.negative <;> simp [signed] <;> field_simp

theorem natAbs_unscaled_lt {scale : ℕ} (h : d.fraction.length ≤ scale) :
    (d.unscaled scale).natAbs < 10 ^ (d.whole.length + scale) := by
  have hlt := digitsValue_lt (isDigits_append.mpr ⟨d.whole_digits, d.fraction_digits⟩)
  obtain ⟨k, rfl⟩ := Nat.exists_eq_add_of_le h
  rw [unscaled, natAbs_signed, Nat.add_sub_cancel_left]
  rw [List.length_append] at hlt
  calc digitsValue (d.whole ++ d.fraction) * 10 ^ k
      < 10 ^ (d.whole.length + d.fraction.length) * 10 ^ k :=
        Nat.mul_lt_mul_of_pos_right hlt (Nat.pow_pos (by decide))
    _ = 10 ^ (d.whole.length + (d.fraction.length + k)) := by ring

end PlainDecimal

/-- The digits of an integer text, without its sign. -/
def unsigned (cs : List Char) : List Char := if cs.head? = some '-' then cs.tail else cs

theorem length_unsigned_le : (unsigned cs).length ≤ cs.length := by
  unfold unsigned
  split
  · simp
  · exact le_refl _

/-! ## Integers as plain decimals -/

namespace PlainDecimal

/-- Digits with a sign and no point. -/
def ofDigits (negative : Bool) (cs : List Char) (h : IsDigits cs) (hne : cs ≠ []) :
    PlainDecimal where
  negative := negative
  whole := cs
  fraction := []
  whole_digits := h
  fraction_digits := by simp [IsDigits]
  ne_nil := .inl hne

variable (negative : Bool) (h : IsDigits cs) (hne : cs ≠ [])

theorem text_ofDigits :
    (ofDigits negative cs h hne).text = (if negative then ['-'] else []) ++ cs := by
  cases negative <;> simp [text, ofDigits]

theorem value_ofDigits :
    (ofDigits negative cs h hne).value = (signed negative (digitsValue cs) : ℤ) := by
  simp [value, ofDigits]

end PlainDecimal

theorem intText_signed (negative : Bool) (h : IsPositive cs) :
    intText (signed negative (digitsValue cs)) = (if negative then ['-'] else []) ++ cs := by
  cases negative with
  | false => exact (intText_natCast _).trans (toDigits_digitsValue h)
  | true =>
      refine (intText_neg (digitsValue_pos h)).trans ?_
      rw [toDigits_digitsValue h]
      rfl

theorem exists_ofDigits_of_isCanonicalInt (h : IsCanonicalInt cs) :
    ∃ (d : PlainDecimal) (i : ℤ), d.text = cs ∧ d.value = i ∧ intText i = cs ∧
      i.natAbs < 10 ^ (unsigned cs).length := by
  rcases h with rfl | h | ⟨hhead, h⟩
  · have hd : IsDigits ['0'] := by decide
    refine ⟨.ofDigits false ['0'] hd (by simp), 0, ?_, ?_, rfl, by decide⟩
    · exact PlainDecimal.text_ofDigits false hd (by simp)
    · exact PlainDecimal.value_ofDigits false hd (by simp)
  · refine ⟨.ofDigits false cs h.2.2 h.1, signed false (digitsValue cs), ?_, ?_, ?_, ?_⟩
    · exact PlainDecimal.text_ofDigits false h.2.2 h.1
    · exact PlainDecimal.value_ofDigits false h.2.2 h.1
    · exact intText_signed false h
    · have hhead : cs.head? ≠ some '-' := by
        intro hhead
        exact absurd (h.2.2 '-' (List.mem_of_head? hhead)) (by decide)
      rw [natAbs_signed, unsigned, if_neg hhead]
      exact digitsValue_lt h.2.2
  · obtain ⟨rest, rfl⟩ : ∃ rest, cs = '-' :: rest := List.head?_eq_some_iff.mp hhead
    rw [List.tail_cons] at h
    refine ⟨.ofDigits true rest h.2.2 h.1, signed true (digitsValue rest), ?_, ?_, ?_, ?_⟩
    · exact PlainDecimal.text_ofDigits true h.2.2 h.1
    · exact PlainDecimal.value_ofDigits true h.2.2 h.1
    · exact intText_signed true h
    · rw [natAbs_signed]
      exact digitsValue_lt h.2.2

/-! ## Reading a text -/

def denotesUnsigned (negative : Bool) (cs : List Char) : Option ℚ :=
  let whole := cs.takeWhile Char.isDigit
  match cs.dropWhile Char.isDigit with
  | [] => if whole = [] then none else some (signed negative (digitsValue whole) : ℚ)
  | c :: fraction =>
      if c = '.' ∧ fraction ≠ [] ∧ IsDigits fraction then
        some ((signed negative (digitsValue (whole ++ fraction)) : ℚ) / 10 ^ fraction.length)
      else none

/-- The number that a plain decimal denotes; `none` for every other text. -/
def denotes (cs : List Char) : Option ℚ := denotesUnsigned (cs.head? == some '-') (unsigned cs)

theorem span_isDigit (ha : IsDigits a) (hb : ∀ c ∈ b.head?, c.isDigit = false) :
    (a ++ b).takeWhile Char.isDigit = a ∧ (a ++ b).dropWhile Char.isDigit = b := by
  induction a with
  | nil =>
      cases b with
      | nil => exact ⟨rfl, rfl⟩
      | cons c b =>
          have hc : c.isDigit = false := hb c rfl
          simp [hc]
  | cons c a ih =>
      obtain ⟨hc, ha⟩ := isDigits_cons.mp ha
      obtain ⟨htake, hdrop⟩ := ih ha
      simp [hc, htake, hdrop]

namespace PlainDecimal

variable (d : PlainDecimal)

/-- The text behind the sign. -/
def unsignedText : List Char := d.whole ++ (if d.fraction = [] then [] else '.' :: d.fraction)

theorem denotesUnsigned_unsignedText (negative : Bool) :
    denotesUnsigned negative d.unsignedText =
      some ((signed negative (digitsValue (d.whole ++ d.fraction)) : ℚ) /
        10 ^ d.fraction.length) := by
  by_cases hf : d.fraction = []
  · have hw : d.whole ≠ [] := by simpa [hf] using d.ne_nil
    have hspan := span_isDigit d.whole_digits (b := []) (by simp)
    rw [List.append_nil] at hspan
    simp [denotesUnsigned, unsignedText, hf, hspan, hw]
  · have hspan := span_isDigit d.whole_digits (b := '.' :: d.fraction) (by simp)
    simp [denotesUnsigned, unsignedText, hf, hspan, d.fraction_digits]

theorem head?_unsignedText : d.unsignedText.head? ≠ some '-' := by
  intro h
  cases hw : d.whole with
  | nil =>
      have hf : d.fraction ≠ [] := by simpa [hw] using d.ne_nil
      simp [unsignedText, hw, hf] at h
  | cons c cs =>
      obtain rfl : c = '-' := by simpa [unsignedText, hw] using h
      exact absurd (d.whole_digits _ (by rw [hw]; exact List.mem_cons_self)) (by decide)

theorem text_eq : d.text = (if d.negative then ['-'] else []) ++ d.unsignedText :=
  List.append_assoc _ _ _

theorem denotes_text : denotes d.text = some d.value := by
  rw [text_eq, value]
  cases d.negative with
  | true => exact d.denotesUnsigned_unsignedText true
  | false =>
      have hhead : (d.unsignedText.head? == some '-') = false :=
        beq_eq_false_iff_ne.mpr d.head?_unsignedText
      refine Eq.trans ?_ (d.denotesUnsigned_unsignedText false)
      simp only [denotes, unsigned, Bool.false_eq_true, if_false, List.nil_append, hhead,
        if_neg d.head?_unsignedText]

end PlainDecimal

theorem denotesUnsigned_of_mem {negative : Bool} (h : '-' ∈ cs) :
    denotesUnsigned negative cs = none := by
  have hsplit := List.takeWhile_append_dropWhile (p := Char.isDigit) (l := cs)
  have hwhole : '-' ∉ cs.takeWhile Char.isDigit :=
    fun hmem ↦ absurd (List.all_eq_true.mp List.all_takeWhile _ hmem) (by decide)
  rw [← hsplit, List.mem_append] at h
  have hrest := h.resolve_left hwhole
  unfold denotesUnsigned
  dsimp only
  split
  · rename_i hnil
    rw [hnil] at hrest
    cases hrest
  · rename_i c fraction hcons
    rw [if_neg]
    rintro ⟨rfl, -, hfraction⟩
    rw [hcons] at hrest
    rcases List.mem_cons.mp hrest with hdot | hmem
    · exact absurd hdot (by decide)
    · exact absurd (hfraction _ hmem) (by decide)

/-- A minus sign behind a digit is no sign. -/
theorem denotes_sign (front back : List Char) (hc : c.isDigit = true) :
    denotes (front ++ c :: '-' :: back) = none := by
  apply denotesUnsigned_of_mem
  unfold unsigned
  split
  · rename_i hhead
    cases front with
    | nil =>
        obtain rfl : c = '-' := by simpa using hhead
        exact absurd hc (by decide)
    | cons d front => simp
  · simp

end DecimalText
