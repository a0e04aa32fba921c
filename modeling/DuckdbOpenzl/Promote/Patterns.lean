import DuckdbOpenzl.Promote.Promote

/-!
# What the patterns of `openzl_promote` match

The integer pattern matches canonical integer texts only; the decimal pattern
matches plain decimals whose digits fit the promised DECIMAL type.
-/

set_option autoImplicit false

namespace DuckdbOpenzl

open DecimalText TextPattern Pattern

namespace PromoteParams

variable {p : PromoteParams} {s : Text}

/-! ## Digits -/

theorem isDigit_iff (c : Char) : c.isDigit = true ↔ '0' ≤ c ∧ c ≤ '9' := by
  rw [Char.isDigit, Bool.and_eq_true, decide_eq_true_eq, decide_eq_true_eq]
  rfl

theorem fullMatch_digit (s : Text) :
    digit.fullMatch s = true ↔ ∃ c, s = [c] ∧ c.isDigit = true := by
  rw [digit, fullMatch_range (by decide)]
  simp only [isDigit_iff]

theorem fullMatch_digits {m n : ℕ} (hmn : m ≤ n) :
    (bounded digit m n).fullMatch s = true ↔ m ≤ s.length ∧ s.length ≤ n ∧ IsDigits s :=
  fullMatch_bounded fullMatch_digit hmn

theorem fullMatch_digitsRe : digitsRe.fullMatch s = true ↔ s ≠ [] ∧ IsDigits s :=
  fullMatch_plus fullMatch_digit

/-- `[1-9][0-9]{0,n}` -/
theorem fullMatch_positive {n : ℕ}
    (h : (seq (range '1' '9') (bounded digit 0 n)).fullMatch s = true) :
    IsPositive s ∧ s.length ≤ n + 1 := by
  obtain ⟨a, b, rfl, ha, hb⟩ := fullMatch_seq.mp h
  obtain ⟨c, rfl, hlo, hhi⟩ := (fullMatch_range (by decide)).mp ha
  obtain ⟨-, hlen, hdigits⟩ := (fullMatch_digits (Nat.zero_le n)).mp hb
  have hne : c ≠ '0' := by
    rintro rfl
    exact absurd hlo (by decide)
  have hzero : '0' ≤ '1' := by decide
  have hc : c.isDigit = true := (isDigit_iff c).mpr ⟨Char.le_trans hzero hlo, hhi⟩
  refine ⟨⟨by simp, by simpa using hne, isDigits_cons.mpr ⟨hc, hdigits⟩⟩, ?_⟩
  simpa using hlen

theorem fullMatch_signed {q : Pattern} (h : (seq (opt (char '-')) q).fullMatch s = true) :
    ∃ negative : Bool, ∃ t, s = (if negative then ['-'] else []) ++ t ∧ q.fullMatch t = true := by
  obtain ⟨a, t, rfl, ha, ht⟩ := fullMatch_seq.mp h
  rcases fullMatch_opt.mp ha with rfl | ha
  · exact ⟨false, t, rfl, ht⟩
  · rw [fullMatch_char] at ha
    exact ⟨true, t, by rw [ha]; rfl, ht⟩

/-! ## Integers -/

/-- A text that the integer pattern accepts is the canonical text of an integer, with at most
`maxIntDigits` digits. -/
theorem isCanonicalInt_of_intRe (h : p.intRe.fullMatch s = true) :
    IsCanonicalInt s ∧ (unsigned s).length ≤ p.maxIntDigits.toNat := by
  have hmax := p.maxIntDigits_range
  have hlen : (p.maxIntDigits - 1).toNat + 1 = p.maxIntDigits.toNat := by omega
  rw [intRe, fullMatch_group] at h
  rcases fullMatch_alt.mp h with h | h
  · rw [fullMatch_char] at h
    subst h
    refine ⟨.inl rfl, ?_⟩
    apply length_unsigned_le.trans
    rw [List.length_singleton]
    omega
  · obtain ⟨negative, t, rfl, ht⟩ := fullMatch_signed h
    obtain ⟨hpos, htlen⟩ := fullMatch_positive ht
    rw [hlen] at htlen
    cases negative with
    | false => exact ⟨.inr (.inl hpos), length_unsigned_le.trans htlen⟩
    | true => exact ⟨.inr (.inr ⟨rfl, hpos⟩), htlen⟩

/-! ## Decimals -/

theorem fullMatch_frac (hscale : 1 ≤ p.decScale) (h : (seq (char '.') p.frac).fullMatch s = true) :
    ∃ f, s = '.' :: f ∧ f ≠ [] ∧ IsDigits f ∧ f.length ≤ p.decScale.toNat := by
  obtain ⟨a, f, rfl, ha, hf⟩ := fullMatch_seq.mp h
  rw [fullMatch_char] at ha
  obtain ⟨hpos, hlen, hdigits⟩ := (fullMatch_digits (by omega)).mp hf
  exact ⟨f, by rw [ha]; rfl, List.ne_nil_of_length_pos hpos, hdigits, hlen⟩

theorem fullMatch_unsigned {n : ℕ} (hscale : 1 ≤ p.decScale)
    (h : (alt (seq (group (alt (char '0') (seq (range '1' '9') (bounded digit 0 n))))
        (opt (group (seq (char '.') p.frac)))) (seq (char '.') p.frac)).fullMatch s = true) :
    ∃ whole fraction, s = whole ++ (if fraction = [] then [] else '.' :: fraction) ∧
      IsDigits whole ∧ IsDigits fraction ∧ (whole ≠ [] ∨ fraction ≠ []) ∧
      whole.length ≤ n + 1 ∧ fraction.length ≤ p.decScale.toNat := by
  rcases fullMatch_alt.mp h with h | h
  · obtain ⟨whole, rest, rfl, hwhole, hrest⟩ := fullMatch_seq.mp h
    have hw : whole ≠ [] ∧ IsDigits whole ∧ whole.length ≤ n + 1 := by
      rw [fullMatch_group] at hwhole
      rcases fullMatch_alt.mp hwhole with hwhole | hwhole
      · rw [fullMatch_char] at hwhole
        subst hwhole
        exact ⟨by simp, by decide, by simp⟩
      · obtain ⟨hpos, hlen⟩ := fullMatch_positive hwhole
        exact ⟨hpos.1, hpos.2.2, hlen⟩
    rcases fullMatch_opt.mp hrest with rfl | hrest
    · exact ⟨whole, [], by simp, hw.2.1, by simp [IsDigits], .inl hw.1, hw.2.2, by simp⟩
    · rw [fullMatch_group] at hrest
      obtain ⟨f, rfl, hne, hdigits, hlen⟩ := fullMatch_frac hscale hrest
      exact ⟨whole, f, by rw [if_neg hne], hw.2.1, hdigits, .inl hw.1, hw.2.2, hlen⟩
  · obtain ⟨f, rfl, hne, hdigits, hlen⟩ := fullMatch_frac hscale h
    exact ⟨[], f, by rw [if_neg hne]; rfl, by simp [IsDigits], hdigits, .inr hne, by simp, hlen⟩

/-- A text that the decimal pattern accepts is a plain decimal whose digits fit. -/
theorem exists_plainDecimal_of_decRe (h : p.decRe.fullMatch s = true) :
    ∃ d : PlainDecimal, d.text = s ∧ d.whole.length ≤ p.decIntDigits.toNat ∧
      d.fraction.length ≤ p.decScale.toNat := by
  have hrange := p.decimal_range
  obtain ⟨negative, t, rfl, ht⟩ := fullMatch_signed h
  rw [fullMatch_group] at ht
  obtain ⟨whole, fraction, rfl, hwhole, hfraction, hne, hwlen, hflen⟩ :=
    fullMatch_unsigned (by omega) ht
  refine ⟨⟨negative, whole, fraction, hwhole, hfraction, hne⟩, ?_, ?_, hflen⟩
  · exact List.append_assoc _ _ _
  · have hint : (p.decIntDigits - 1).toNat + 1 = p.decIntDigits.toNat := by omega
    exact hint ▸ hwlen

end PromoteParams

end DuckdbOpenzl
