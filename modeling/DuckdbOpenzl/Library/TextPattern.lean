import Mathlib.Computability.RegularExpressions

/-!
# Patterns over text

The patterns that a program splices into its queries, as syntax with the text
they are written as. They are read as regular expressions over characters; a
pattern matches a text if the whole text belongs to its language.
-/

set_option autoImplicit false

namespace TextPattern

open RegularExpression

inductive Pattern where
  | char (c : Char)
  | range (lo hi : Char)
  | group (p : Pattern)
  | seq (p q : Pattern)
  | alt (p q : Pattern)
  | opt (p : Pattern)
  | plus (p : Pattern)
  | bounded (p : Pattern) (lo hi : ℕ)
  deriving DecidableEq, Repr

namespace Pattern

def text : Pattern → String
  | .char c => if c = '.' then "\\." else String.singleton c
  | .range lo hi => "[" ++ String.singleton lo ++ "-" ++ String.singleton hi ++ "]"
  | .group p => "(" ++ p.text ++ ")"
  | .seq p q => p.text ++ q.text
  | .alt p q => p.text ++ "|" ++ q.text
  | .opt p => p.text ++ "?"
  | .plus p => p.text ++ "+"
  | .bounded p lo hi => p.text ++ "\x7b" ++ toString lo ++ "," ++ toString hi ++ "\x7d"

/-- The largest repetition count in a pattern. -/
def maxRepeat : Pattern → ℕ
  | .char _ | .range _ _ => 0
  | .group p | .opt p | .plus p => p.maxRepeat
  | .seq p q | .alt p q => max p.maxRepeat q.maxRepeat
  | .bounded p _ hi => max p.maxRepeat hi

/-- The characters from `lo` to `hi`. -/
def chars (lo hi : Char) : List Char :=
  (List.range (hi.toNat + 1 - lo.toNat)).map fun i ↦ Char.ofNat (lo.toNat + i)

/-- Up to `n` copies. -/
def upTo (r : RegularExpression Char) : ℕ → RegularExpression Char
  | 0 => 1
  | n + 1 => 1 + r * upTo r n

def toRegular : Pattern → RegularExpression Char
  | .char c => RegularExpression.char c
  | .range lo hi => ((chars lo hi).map RegularExpression.char).foldr (· + ·) 0
  | .group p => p.toRegular
  | .seq p q => p.toRegular * q.toRegular
  | .alt p q => p.toRegular + q.toRegular
  | .opt p => 1 + p.toRegular
  | .plus p => p.toRegular * p.toRegular.star
  | .bounded p lo hi => p.toRegular ^ lo * upTo p.toRegular (hi - lo)

def fullMatch (p : Pattern) (s : List Char) : Bool := p.toRegular.rmatch s

/-! ## What each construct matches -/

variable {p q : Pattern} {s : List Char} {c lo hi : Char}

theorem fullMatch_char : (char c).fullMatch s = true ↔ s = [c] := char_rmatch_iff c s

theorem fullMatch_group : (group p).fullMatch s = p.fullMatch s := rfl

theorem fullMatch_seq : (seq p q).fullMatch s = true ↔
    ∃ a b, s = a ++ b ∧ p.fullMatch a = true ∧ q.fullMatch b = true :=
  mul_rmatch_iff p.toRegular q.toRegular s

theorem fullMatch_alt : (alt p q).fullMatch s = true ↔
    p.fullMatch s = true ∨ q.fullMatch s = true :=
  add_rmatch_iff p.toRegular q.toRegular s

theorem fullMatch_opt : (opt p).fullMatch s = true ↔ s = [] ∨ p.fullMatch s = true := by
  have h := add_rmatch_iff 1 p.toRegular s
  rw [one_rmatch_iff] at h
  exact h

theorem rmatch_foldr_char (cs s : List Char) :
    ((cs.map RegularExpression.char).foldr (· + ·) 0).rmatch s = true ↔ ∃ c ∈ cs, s = [c] := by
  induction cs with
  | nil => simp
  | cons c cs ih =>
      rw [List.map_cons, List.foldr_cons, add_rmatch_iff, char_rmatch_iff, ih]
      simp

theorem mem_chars_iff (hlo : lo.toNat + (hi.toNat - lo.toNat) < 55296) :
    c ∈ chars lo hi ↔ lo ≤ c ∧ c ≤ hi := by
  have hle : ∀ a b : Char, a ≤ b ↔ a.toNat ≤ b.toNat := fun a b ↦ Iff.rfl
  simp only [chars, List.mem_map, List.mem_range, hle]
  constructor
  · rintro ⟨i, hi', rfl⟩
    have hvalid : (lo.toNat + i).isValidChar := .inl (by omega)
    have hcode : (Char.ofNat (lo.toNat + i)).toNat = lo.toNat + i := by
      rw [Char.ofNat, dif_pos hvalid]
      rfl
    rw [hcode]
    omega
  · rintro ⟨h₁, h₂⟩
    refine ⟨c.toNat - lo.toNat, by omega, ?_⟩
    rw [Nat.add_sub_cancel' h₁, Char.ofNat_toNat]

theorem fullMatch_range (hlo : lo.toNat + (hi.toNat - lo.toNat) < 55296) :
    (range lo hi).fullMatch s = true ↔ ∃ c, s = [c] ∧ lo ≤ c ∧ c ≤ hi := by
  refine (rmatch_foldr_char (chars lo hi) s).trans ?_
  simp only [mem_chars_iff hlo]
  constructor
  · rintro ⟨c, hc, rfl⟩
    exact ⟨c, rfl, hc⟩
  · rintro ⟨c, rfl, hc⟩
    exact ⟨c, hc, rfl⟩

/-! ## Repetitions of one character class -/

section OneCharacter

variable {r : RegularExpression Char} {class' : Char → Prop}

theorem upTo_rmatch_iff (hr : ∀ s, r.rmatch s = true ↔ ∃ c, s = [c] ∧ class' c) (n : ℕ) :
    (upTo r n).rmatch s = true ↔ s.length ≤ n ∧ ∀ c ∈ s, class' c := by
  induction n generalizing s with
  | zero =>
      rw [upTo, one_rmatch_iff, Nat.le_zero, List.length_eq_zero_iff]
      constructor
      · rintro rfl
        simp
      · exact And.left
  | succ n ih =>
      rw [upTo, add_rmatch_iff, one_rmatch_iff, mul_rmatch_iff]
      constructor
      · rintro (rfl | ⟨a, b, rfl, ha, hb⟩)
        · simp
        · obtain ⟨c, rfl, hc⟩ := (hr a).mp ha
          obtain ⟨hlen, hall⟩ := ih.mp hb
          refine ⟨Nat.succ_le_succ hlen, ?_⟩
          intro x hx
          rcases List.mem_cons.mp hx with rfl | hx
          · exact hc
          · exact hall x hx
      · rintro ⟨hlen, hall⟩
        cases s with
        | nil => exact .inl rfl
        | cons c cs =>
            refine .inr ⟨[c], cs, rfl, (hr [c]).mpr ⟨c, rfl, hall c List.mem_cons_self⟩, ?_⟩
            apply ih.mpr
            exact ⟨Nat.le_of_succ_le_succ hlen, fun x hx ↦ hall x (List.mem_cons_of_mem c hx)⟩

theorem pow_rmatch_iff (hr : ∀ s, r.rmatch s = true ↔ ∃ c, s = [c] ∧ class' c) (n : ℕ) :
    (r ^ n).rmatch s = true ↔ s.length = n ∧ ∀ c ∈ s, class' c := by
  rw [rmatch_iff_matches', matches'_pow]
  have hmem : ∀ t, t ∈ r.matches' ↔ ∃ c, t = [c] ∧ class' c := by
    intro t
    rw [← rmatch_iff_matches', hr]
  induction n generalizing s with
  | zero =>
      rw [pow_zero, Language.mem_one, List.length_eq_zero_iff]
      constructor
      · rintro rfl
        simp
      · exact And.left
  | succ n ih =>
      rw [pow_succ', Language.mem_mul]
      constructor
      · rintro ⟨a, ha, b, hb, rfl⟩
        obtain ⟨c, rfl, hc⟩ := (hmem a).mp ha
        obtain ⟨hlen, hall⟩ := ih.mp hb
        refine ⟨by simp [hlen], ?_⟩
        intro x hx
        rcases List.mem_cons.mp hx with rfl | hx
        · exact hc
        · exact hall x hx
      · rintro ⟨hlen, hall⟩
        cases s with
        | nil => cases hlen
        | cons c cs =>
            refine ⟨[c], (hmem [c]).mpr ⟨c, rfl, hall c List.mem_cons_self⟩, cs, ?_, rfl⟩
            apply ih.mpr
            exact ⟨Nat.succ.inj hlen, fun x hx ↦ hall x (List.mem_cons_of_mem c hx)⟩

theorem star_class_rmatch_iff (hr : ∀ s, r.rmatch s = true ↔ ∃ c, s = [c] ∧ class' c) :
    r.star.rmatch s = true ↔ ∀ c ∈ s, class' c := by
  rw [star_rmatch_iff]
  constructor
  · rintro ⟨parts, rfl, hparts⟩ c hc
    obtain ⟨part, hpart, hmem⟩ := List.mem_flatten.mp hc
    obtain ⟨d, rfl, hd⟩ := (hr part).mp (hparts part hpart).2
    rwa [List.mem_singleton.mp hmem]
  · intro hall
    refine ⟨s.map fun c ↦ [c], ?_, ?_⟩
    · induction s with
      | nil => rfl
      | cons c cs ih =>
          rw [List.map_cons, List.flatten_cons, ← ih fun x hx ↦ hall x (List.mem_cons_of_mem c hx)]
          rfl
    · intro t ht
      obtain ⟨c, hc, rfl⟩ := List.mem_map.mp ht
      exact ⟨List.cons_ne_nil c [], (hr [c]).mpr ⟨c, rfl, hall c hc⟩⟩

theorem fullMatch_bounded (hp : ∀ s, p.fullMatch s = true ↔ ∃ c, s = [c] ∧ class' c) {m n : ℕ}
    (hmn : m ≤ n) : (bounded p m n).fullMatch s = true ↔
      m ≤ s.length ∧ s.length ≤ n ∧ ∀ c ∈ s, class' c := by
  refine (mul_rmatch_iff _ _ s).trans ?_
  simp only [pow_rmatch_iff hp, upTo_rmatch_iff hp]
  constructor
  · rintro ⟨a, b, rfl, ⟨ha, halla⟩, hb, hallb⟩
    refine ⟨by simp; omega, by simp; omega, ?_⟩
    intro c hc
    rcases List.mem_append.mp hc with hc | hc
    · exact halla c hc
    · exact hallb c hc
  · rintro ⟨hm, hn, hall⟩
    refine ⟨s.take m, s.drop m, (List.take_append_drop m s).symm, ⟨?_, ?_⟩, ?_, ?_⟩
    · simpa using hm
    · exact fun c hc ↦ hall c (List.mem_of_mem_take hc)
    · simp only [List.length_drop]
      omega
    · exact fun c hc ↦ hall c (List.mem_of_mem_drop hc)

theorem fullMatch_plus (hp : ∀ s, p.fullMatch s = true ↔ ∃ c, s = [c] ∧ class' c) :
    (plus p).fullMatch s = true ↔ s ≠ [] ∧ ∀ c ∈ s, class' c := by
  refine (mul_rmatch_iff _ _ s).trans ?_
  simp only [star_class_rmatch_iff hp]
  constructor
  · rintro ⟨a, b, rfl, ha, hallb⟩
    obtain ⟨c, rfl, hc⟩ := (hp a).mp ha
    refine ⟨by simp, ?_⟩
    intro x hx
    rcases List.mem_cons.mp hx with rfl | hx
    · exact hc
    · exact hallb x hx
  · rintro ⟨hne, hall⟩
    cases s with
    | nil => exact absurd rfl hne
    | cons c cs =>
        exact ⟨[c], cs, rfl, (hp [c]).mpr ⟨c, rfl, hall c List.mem_cons_self⟩,
          fun x hx ↦ hall x (List.mem_cons_of_mem c hx)⟩

end OneCharacter

end Pattern

end TextPattern
