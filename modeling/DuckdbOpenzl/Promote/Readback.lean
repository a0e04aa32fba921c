import DuckdbOpenzl.Promote.Restore

/-!
# What a chunk of a scan gives back

The casts of a bound statement may meet texts that the analysis never saw. A
chunk gives back what was read for it exactly when these texts are written the
way their new type prints them, or when one of them fails its cast and the
chunk with it.
-/

set_option autoImplicit false

namespace DuckdbOpenzl

open DecimalText

variable {β : Type}

/-- A chunk that was fetched: the select list, the rows read for it, and what came out. -/
structure FetchedChunk (β : Type) where
  items : List SelectItem
  rows : Table β
  result : Except Exception (List (Column β))

/-- The columns of a table with their types, which inserts and updates leave as they are. -/
def Table.schema (r : Table β) : List (String × LogicalType) :=
  r.columns.map fun c ↦ (c.name, c.data.type)

/-! ## What a chunk should give back -/

/-- The value that the cast to a type makes of a text. -/
def castText (host : HostFunctions) (type : LogicalType) (x : Text) : Option ℤ :=
  match type with
  | .bigint => host.toBigint x
  | .decimal width scale => host.toDecimal width scale x
  | _ => none

/-- The emitted value converts back to the text: a BIGINT and a `DECIMAL(L,0)` to the same text,
any other DECIMAL to the same number. -/
def GivesBack (host : HostFunctions) (type : LogicalType) (x : Text) (u : ℤ) : Prop :=
  match type with
  | .decimal width 0 => host.lpad (host.decimalToText width 0 u) width '0' = x
  | .decimal _ (scale + 1) => host.number x = some ((u : ℚ) / 10 ^ (scale + 1))
  | _ => intText u = x

/-- An emitted column against the column it was read from. -/
def ConvertsBack (host : HostFunctions) (c c' : Column β) : Prop :=
  c'.name = c.name ∧
    match c.data, c'.data with
    | .varchar values, .bigint results =>
        List.Forall₂ (Option.Rel (GivesBack host .bigint)) values results
    | .varchar values, .decimal width scale results =>
        List.Forall₂ (Option.Rel (GivesBack host (.decimal width scale))) values results
    | data, data' => data' = data

/-- The chunk fails, or everything in it converts back. -/
def FetchedChunk.GivesBack (host : HostFunctions) (chunk : FetchedChunk β) : Prop :=
  ∀ out, chunk.result = .ok out → List.Forall₂ (ConvertsBack host) chunk.rows.columns out

/-! ## When it does -/

/-- How the texts of a promoted column have to be written: a BIGINT canonically, a `DECIMAL(L,0)`
with `L` digits, or canonically with a minus sign and `L - 1` digits, and any other DECIMAL with a
number that its scale can hold. -/
def IsWritten (host : HostFunctions) (type : LogicalType) (x : Text) : Prop :=
  match type with
  | .decimal width 0 =>
      x.length = width ∧ (IsDigits x ∨ (x.head? = some '-' ∧ IsPositive x.tail))
  | .decimal _ (scale + 1) => ∃ (q : ℚ) (u : ℤ), host.number x = some q ∧ q * 10 ^ (scale + 1) = u
  | _ => IsCanonicalInt x

/-- Run on the table, the item casts the text `x` to `type`. -/
def SelectItem.Casts (item : SelectItem) (table : Table β) (type : LogicalType) (x : Text) : Prop :=
  ∃ c values, item = .castAs c.name type ∧ table.column? c.name = some c ∧
    c.data = .varchar values ∧ some x ∈ values

def FetchedChunk.Casts (chunk : FetchedChunk β) (type : LogicalType) (x : Text) : Prop :=
  ∃ item ∈ chunk.items, item.Casts chunk.rows type x

/-- Some text of the chunk in a promoted column fails its cast, or all of them are written as
their new type writes them. -/
def FetchedChunk.Safe (host : HostFunctions) (chunk : FetchedChunk β) : Prop :=
  (∃ type x, chunk.Casts type x ∧ castText host type x = none) ∨
    ∀ type x, chunk.Casts type x → IsWritten host type x

/-! ## One text -/

variable {host : HostFunctions} {x : Text} {u : ℤ}

/-- The types that promotion casts to. -/
def LogicalType.IsPromoted (type : LogicalType) : Prop :=
  type = .bigint ∨ ∃ width scale, type = .decimal width scale ∧ scale ≤ width ∧
    2 ≤ width ∧ width ≤ 18

theorem givesBack_bigint_iff (hhost : host.Documented) (h : host.toBigint x = some u) :
    intText u = x ↔ IsCanonicalInt x := by
  constructor
  · rintro rfl
    exact isCanonicalInt_intText u
  · intro hcanonical
    obtain ⟨d, i, rfl, hvalue, htext, -⟩ := exists_ofDigits_of_isCanonicalInt hcanonical
    rw [hhost.toBigint_plain d i hvalue] at h
    split at h
    · rw [← Option.some.inj h]
      exact htext
    · cases h

theorem givesBack_scale_iff (hhost : host.Documented) {width scale : ℕ} (hscale : scale + 1 ≤ width)
    (hwidth : width ≤ 38) (h : host.toDecimal width (scale + 1) x = some u) :
    host.number x = some ((u : ℚ) / 10 ^ (scale + 1)) ↔
      ∃ (q : ℚ) (v : ℤ), host.number x = some q ∧ q * 10 ^ (scale + 1) = v := by
  have hne : (10 : ℚ) ^ (scale + 1) ≠ 0 := by positivity
  constructor
  · intro hnumber
    exact ⟨_, u, hnumber, div_mul_cancel₀ _ hne⟩
  · rintro ⟨q, v, hnumber, hv⟩
    rw [hhost.toDecimal_exact _ _ _ _ _ hscale hwidth hnumber hv] at h
    split at h
    · obtain rfl := Option.some.inj h
      rw [hnumber, ← hv, mul_div_cancel_right₀ _ hne]
    · cases h

theorem eq_of_toDecimal_ofDigits (hhost : host.Documented) {width : ℕ} (hwidth : width ≤ 38)
    (negative : Bool) {cs : Text} (hdigits : IsDigits cs) (hne : cs ≠ [])
    (h : host.toDecimal width 0 ((if negative then ['-'] else []) ++ cs) = some u) :
    u = signed negative (digitsValue cs) := by
  have hnumber := hhost.number_plain (.ofDigits negative cs hdigits hne)
  rw [PlainDecimal.text_ofDigits, PlainDecimal.value_ofDigits] at hnumber
  rw [hhost.toDecimal_exact _ _ _ _ _ (Nat.zero_le _) hwidth hnumber (by rw [pow_zero, mul_one])]
    at h
  split at h
  · exact (Option.some.inj h).symm
  · cases h

theorem lpad_of_isWritten (hhost : host.Documented) {width : ℕ} (hlo : 2 ≤ width) (hhi : width ≤ 38)
    (h : host.toDecimal width 0 x = some u) (hlen : x.length = width)
    (hx : IsDigits x ∨ (x.head? = some '-' ∧ IsPositive x.tail)) :
    host.lpad (host.decimalToText width 0 u) width '0' = x := by
  rw [hhost.decimalToText_integral]
  rcases hx with hdigits | ⟨hhead, hpositive⟩
  · have hne : x ≠ [] := List.ne_nil_of_length_pos (by omega)
    obtain rfl := eq_of_toDecimal_ofDigits hhost hhi false hdigits hne h
    rw [← hlen]
    exact lpad_digitsValue hhost hdigits hne
  · obtain ⟨cs, rfl⟩ := List.head?_eq_some_iff.mp hhead
    rw [List.tail_cons] at hpositive
    obtain rfl := eq_of_toDecimal_ofDigits hhost hhi true hpositive.2.2 hpositive.1 h
    have htext : intText (signed true (digitsValue cs)) = '-' :: cs := intText_signed true hpositive
    rw [htext, hhost.lpad_of_le _ _ _ (le_of_eq hlen), hlen, Nat.sub_self]
    rfl

/-- A negative value is given back only by its canonical text: zeros would have to stand before
the sign, and a longer text is cut. -/
theorem isWritten_of_lpad_neg (hhost : host.Documented) {width n : ℕ} (hlo : 2 ≤ width)
    (hhi : width ≤ 38) (hn : 0 < n) (h : host.toDecimal width 0 x = some (-(n : ℤ)))
    (hx : host.lpad ('-' :: Nat.toDigits 10 n) width '0' = x) :
    x.length = width ∧ x.head? = some '-' ∧ IsPositive x.tail := by
  obtain ⟨hlt, hnumber⟩ := hhost.toDecimal_some width 0 x _ h
  rw [Int.natAbs_neg, Int.natAbs_natCast] at hlt
  have hdigits : (Nat.toDigits 10 n).length ≤ width :=
    (Nat.length_toDigits_le_iff (by decide) (by omega)).mpr hlt
  have hpositive := isPositive_toDigits hn
  have hlen : ('-' :: Nat.toDigits 10 n).length = (Nat.toDigits 10 n).length + 1 := rfl
  rcases Nat.lt_trichotomy ((Nat.toDigits 10 n).length + 1) width with hshort | hexact | hlong
  · rw [hhost.lpad_of_le _ _ _ (by omega)] at hx
    obtain ⟨k, hk⟩ : ∃ k, width - ('-' :: Nat.toDigits 10 n).length = k + 1 :=
      Nat.exists_eq_succ_of_ne_zero (by omega)
    rw [hk, List.replicate_succ', List.append_assoc] at hx
    rw [← hx] at hnumber
    exact absurd (hhost.number_sign _ _ '0' (by decide)) hnumber
  · rw [hhost.lpad_of_le _ _ _ (by omega), hlen, hexact, Nat.sub_self, List.replicate_zero,
      List.nil_append] at hx
    rw [← hx]
    exact ⟨hexact, rfl, hpositive⟩
  · obtain ⟨k, rfl⟩ : ∃ k, width = k + 1 := Nat.exists_eq_succ_of_ne_zero (by omega)
    rw [hhost.lpad_of_ge _ _ _ (by omega), List.take_succ_cons] at hx
    have hfew : IsDigits ((Nat.toDigits 10 n).take k) :=
      fun c hc ↦ hpositive.2.2 c (List.mem_of_mem_take hc)
    have hfewLen : ((Nat.toDigits 10 n).take k).length = k := by
      rw [List.length_take]
      omega
    rw [← hx] at h
    have hvalue := eq_of_toDecimal_ofDigits hhost hhi true hfew
      (List.ne_nil_of_length_pos (by omega)) h
    have hsmall := digitsValue_lt hfew
    have hnot : ¬n < 10 ^ k := by
      rw [← Nat.length_toDigits_le_iff (by decide) (by omega)]
      omega
    rw [hfewLen] at hsmall
    have hsame : n = digitsValue ((Nat.toDigits 10 n).take k) := by
      simp only [signed, if_true] at hvalue
      omega
    omega

theorem isWritten_of_lpad (hhost : host.Documented) {width : ℕ} (hlo : 2 ≤ width) (hhi : width ≤ 38)
    (h : host.toDecimal width 0 x = some u)
    (hx : host.lpad (host.decimalToText width 0 u) width '0' = x) :
    x.length = width ∧ (IsDigits x ∨ (x.head? = some '-' ∧ IsPositive x.tail)) := by
  rw [hhost.decimalToText_integral] at hx
  rcases lt_or_ge u 0 with hneg | hnonneg
  · obtain ⟨n, rfl⟩ : ∃ n : ℕ, u = -n := ⟨u.natAbs, by omega⟩
    have hn : 0 < n := by omega
    rw [intText_neg hn] at hx
    obtain ⟨hlen, hsigned⟩ := isWritten_of_lpad_neg hhost hlo hhi hn h hx
    exact ⟨hlen, .inr hsigned⟩
  · obtain ⟨n, rfl⟩ := Int.eq_ofNat_of_zero_le hnonneg
    have hlt := (hhost.toDecimal_some width 0 x _ h).1
    rw [Int.natAbs_natCast] at hlt
    have hfits : (Nat.toDigits 10 n).length ≤ width :=
      (Nat.length_toDigits_le_iff (by decide) (by omega)).mpr hlt
    rw [intText_natCast, hhost.lpad_of_le _ _ _ hfits] at hx
    rw [← hx]
    refine ⟨?_, .inl (isDigits_append.mpr ⟨?_, isDigits_toDigits n⟩)⟩
    · rw [List.length_append, List.length_replicate]
      omega
    · intro c hc
      rw [(List.mem_replicate.mp hc).2]
      decide

theorem givesBack_iff (hhost : host.Documented) {type : LogicalType} (htype : type.IsPromoted)
    (h : castText host type x = some u) : GivesBack host type x u ↔ IsWritten host type x := by
  rcases htype with rfl | ⟨width, scale, rfl, hscale, hlo, hhi⟩
  · exact givesBack_bigint_iff hhost h
  · cases scale with
    | zero =>
        constructor
        · exact isWritten_of_lpad hhost hlo (by omega) h
        · rintro ⟨hlen, hx⟩
          exact lpad_of_isWritten hhost hlo (by omega) h hlen hx
    | succ scale => exact givesBack_scale_iff hhost hscale (by omega) h

/-! ## One column -/

variable {c c₀ d : Column β} {t t₀ : Table β} {p : PromoteParams} {values : List (Option Text)}
  {type : LogicalType}

theorem castTexts_eq_none_iff {f : Text → Option ℤ} :
    castTexts f values = none ↔ ∃ x, some x ∈ values ∧ f x = none := by
  constructor
  · intro hnone
    by_contra hall
    push Not at hall
    have hcasts : EveryText (fun x ↦ ∃ i, f x = some i ∧ True) values := by
      intro x hx
      obtain ⟨i, hi⟩ := Option.ne_none_iff_exists'.mp (hall x hx)
      exact ⟨i, hi, trivial⟩
    obtain ⟨results, hresults, -⟩ := castTexts_of_everyText hcasts
    cases hnone.symm.trans hresults
  · rintro ⟨x, hx, hf⟩
    by_contra hsome
    obtain ⟨results, hresults⟩ := Option.ne_none_iff_exists'.mp hsome
    obtain ⟨result, -, hresult⟩ := MapM.mem_of_forall₂ (MapM.option_iff.mp hresults) hx
    rw [castValue, hf] at hresult
    cases hresult

theorem forall₂_rel_iff {f : Text → Option ℤ} {results : List (Option ℤ)} {R : Text → ℤ → Prop}
    {P : Text → Prop} (hcast : castTexts f values = some results)
    (hiff : ∀ x u, f x = some u → (R x u ↔ P x)) :
    List.Forall₂ (Option.Rel R) values results ↔ EveryText P values := by
  have hrows := MapM.option_iff.mp hcast
  clear hcast
  induction hrows with
  | nil =>
      constructor
      · rintro - x hx
        cases hx
      · exact fun _ ↦ .nil
  | @cons value result values results hrow _ ih =>
      have htail : EveryText P (value :: values) ↔
          (∀ x, value = some x → P x) ∧ EveryText P values := by
        simp only [EveryText, List.mem_cons, or_imp, forall_and, eq_comm]
      rw [List.forall₂_cons, htail]
      refine and_congr ?_ ih
      cases value with
      | none =>
          obtain rfl : none = result := Option.some.inj hrow
          constructor
          · rintro - x hx
            cases hx
          · exact fun _ ↦ .none
      | some x =>
          obtain ⟨u, hu, rfl⟩ := Option.map_eq_some_iff.mp hrow
          constructor
          · rintro (hR | _) y hy
            rw [← Option.some.inj hy]
            exact (hiff x u hu).mp hR
          · intro hP
            exact .some ((hiff x u hu).mpr (hP x rfl))

theorem castColumn_iff (hhost : host.Documented) (htype : type.IsPromoted)
    (hdata : c.data = .varchar values) (h : castColumn host c type = .ok d) :
    ConvertsBack host c d ↔ EveryText (IsWritten host type) values := by
  obtain ⟨name, data⟩ := c
  obtain rfl : data = .varchar values := hdata
  have hiff := fun x u ↦ givesBack_iff (x := x) (u := u) hhost htype
  rcases htype with rfl | ⟨width, scale, rfl, -⟩
  · cases hcast : castTexts host.toBigint values with
    | none => simp [castColumn, hcast] at h
    | some results =>
        obtain rfl : (⟨name, .bigint results⟩ : Column β) = d := by
          simpa [castColumn, hcast] using h
        simpa [ConvertsBack] using forall₂_rel_iff hcast hiff
  · cases hcast : castTexts (host.toDecimal width scale) values with
    | none => simp [castColumn, hcast] at h
    | some results =>
        obtain rfl : (⟨name, .decimal width scale results⟩ : Column β) = d := by
          simpa [castColumn, hcast] using h
        simpa [ConvertsBack] using forall₂_rel_iff hcast hiff

theorem castColumn_ok_iff (htype : type.IsPromoted) (hdata : c.data = .varchar values) :
    (∃ d, castColumn host c type = .ok d) ↔
      ∀ x, some x ∈ values → castText host type x ≠ none := by
  have hall : castTexts (castText host type) values ≠ none ↔
      ∀ x, some x ∈ values → castText host type x ≠ none := by
    rw [Ne, castTexts_eq_none_iff]
    push Not
    exact Iff.rfl
  rw [← hall, Option.ne_none_iff_exists']
  obtain ⟨name, data⟩ := c
  obtain rfl : data = .varchar values := hdata
  rcases htype with rfl | ⟨width, scale, rfl, -⟩
  · have hcast : castText host .bigint = host.toBigint := rfl
    rw [hcast]
    cases h : castTexts host.toBigint values <;> simp [castColumn, h]
  · have hcast : castText host (.decimal width scale) = host.toDecimal width scale := rfl
    rw [hcast]
    cases h : castTexts (host.toDecimal width scale) values <;> simp [castColumn, h]

/-! ## One item of the select list -/

/-- The same column, before and after commits. -/
def Column.SameType (c₀ c : Column β) : Prop := c.name = c₀.name ∧ c.data.type = c₀.data.type

theorem PromoteParams.isPromoted_of_ownVerdict (hp : p.Compiles) (h : p.ownVerdict c = some type) :
    type.IsPromoted := by
  have hrange := p.decimal_range
  obtain ⟨hsum, hdecType⟩ := decType_eq hp
  obtain ⟨values, hdata⟩ := exists_varchar_of_ownVerdict h
  rcases ownVerdict_cases hdata h with ⟨rfl, -⟩ | ⟨width, rfl, -, hlo, hhi, -⟩ | ⟨rfl, -⟩
  · exact .inl rfl
  · exact .inr ⟨width, 0, rfl, Nat.zero_le _, hlo, hhi⟩
  · exact .inr ⟨_, _, hdecType, by omega, by omega, by omega⟩

theorem SelectItem.eval_ownItem_eq (hsame : c₀.SameType c) (hc : c ∈ t.columns) :
    (p.ownItem c₀).eval host t = match p.ownVerdict c₀ with
      | none => .ok c
      | some type => castColumn host c type := by
  have hcolumn : t.column? c₀.name = some c := hsame.1 ▸ Table.column?_of_mem hc
  unfold PromoteParams.ownItem SelectItem.eval
  cases p.ownVerdict c₀ with
  | none => simp only [selectItem, SelectItem.name, Column.described, hcolumn]
  | some type => simp only [selectItem, SelectItem.name, Column.described, hcolumn]

theorem PromoteParams.data_of_ownVerdict (hsame : c₀.SameType c) (h : p.ownVerdict c₀ = some type) :
    ∃ values, c.data = .varchar values := by
  obtain ⟨values₀, hdata₀⟩ := exists_varchar_of_ownVerdict h
  apply ColumnData.type_eq_varchar_iff.mp
  rw [hsame.2, hdata₀]
  rfl

theorem SelectItem.casts_ownItem_iff (hsame : c₀.SameType c) (hc : c ∈ t.columns)
    (hdata : c.data = .varchar values) :
    (p.ownItem c₀).Casts t type x ↔ p.ownVerdict c₀ = some type ∧ some x ∈ values := by
  have hcolumn : t.column? c₀.name = some c := hsame.1 ▸ Table.column?_of_mem hc
  unfold SelectItem.Casts PromoteParams.ownItem
  constructor
  · rintro ⟨c', values', hitem, hc', hdata', hx⟩
    cases hverdict : p.ownVerdict c₀ with
    | none =>
        rw [hverdict] at hitem
        cases hitem
    | some type' =>
        rw [hverdict] at hitem
        obtain ⟨hname, rfl⟩ : c₀.name = c'.name ∧ type' = type := by
          simpa [selectItem, Column.described] using hitem
        rw [← hname, hcolumn] at hc'
        obtain rfl : c = c' := Option.some.inj hc'
        obtain rfl : values = values' := by simpa [hdata] using hdata'
        exact ⟨rfl, hx⟩
  · rintro ⟨hverdict, hx⟩
    refine ⟨c, values, ?_, Table.column?_of_mem hc, hdata, hx⟩
    rw [hverdict, hsame.1]
    rfl

theorem SelectItem.not_casts_ownItem (hverdict : p.ownVerdict c₀ = none) :
    ¬(p.ownItem c₀).Casts t type x := by
  rintro ⟨c', values', hitem, -⟩
  rw [PromoteParams.ownItem, hverdict] at hitem
  cases hitem

theorem ConvertsBack.rfl (host : HostFunctions) (c : Column β) : ConvertsBack host c c := by
  refine ⟨Eq.refl _, ?_⟩
  cases c.data <;> exact Eq.refl _

/-- What a column's item emits converts back exactly when its texts are written as they should. -/
theorem SelectItem.convertsBack_iff (hhost : host.Documented) (hsame : c₀.SameType c)
    (hc : c ∈ t.columns) (hp : p.ownVerdict c₀ ≠ none → p.Compiles)
    (h : (p.ownItem c₀).eval host t = .ok d) :
    ConvertsBack host c d ↔ ∀ type x, (p.ownItem c₀).Casts t type x → IsWritten host type x := by
  rw [eval_ownItem_eq hsame hc] at h
  cases hverdict : p.ownVerdict c₀ with
  | none =>
      rw [hverdict] at h
      obtain rfl : c = d := Except.ok.inj h
      exact ⟨fun _ type x hcasts ↦ absurd hcasts (not_casts_ownItem hverdict),
        fun _ ↦ .rfl host c⟩
  | some type =>
      rw [hverdict] at h
      obtain ⟨values, hdata⟩ := PromoteParams.data_of_ownVerdict hsame hverdict
      have htype := PromoteParams.isPromoted_of_ownVerdict (hp (by simp [hverdict])) hverdict
      refine (castColumn_iff hhost htype hdata h).trans ?_
      simp only [casts_ownItem_iff hsame hc hdata, hverdict, Option.some.injEq]
      constructor
      · rintro hwritten _ x ⟨rfl, hx⟩
        exact hwritten x hx
      · exact fun hwritten x hx ↦ hwritten type x ⟨rfl, hx⟩

theorem SelectItem.eval_ok_iff (hsame : c₀.SameType c) (hc : c ∈ t.columns)
    (hp : p.ownVerdict c₀ ≠ none → p.Compiles) :
    (∃ d, (p.ownItem c₀).eval host t = .ok d) ↔
      ∀ type x, (p.ownItem c₀).Casts t type x → castText host type x ≠ none := by
  rw [eval_ownItem_eq hsame hc]
  cases hverdict : p.ownVerdict c₀ with
  | none => exact ⟨fun _ type x hcasts ↦ absurd hcasts (not_casts_ownItem hverdict),
      fun _ ↦ ⟨c, rfl⟩⟩
  | some type =>
      obtain ⟨values, hdata⟩ := PromoteParams.data_of_ownVerdict hsame hverdict
      have htype := PromoteParams.isPromoted_of_ownVerdict (hp (by simp [hverdict])) hverdict
      refine (castColumn_ok_iff htype hdata).trans ?_
      simp only [casts_ownItem_iff hsame hc hdata, hverdict, Option.some.injEq]
      constructor
      · rintro hcasts _ x ⟨rfl, hx⟩
        exact hcasts x hx
      · exact fun hcasts x hx ↦ hcasts type x ⟨rfl, hx⟩

/-! ## A chunk -/

theorem select_convertsBack_iff (hhost : host.Documented) {cs₀ cs out : List (Column β)}
    (hsame : List.Forall₂ Column.SameType cs₀ cs) (hmem : ∀ c ∈ cs, c ∈ t.columns)
    (hp : ∀ c₀ ∈ cs₀, p.ownVerdict c₀ ≠ none → p.Compiles)
    (hout : List.Forall₂ (fun c₀ d ↦ (p.ownItem c₀).eval host t = .ok d) cs₀ out) :
    List.Forall₂ (ConvertsBack host) cs out ↔
      ∀ c₀ ∈ cs₀, ∀ type x, (p.ownItem c₀).Casts t type x → IsWritten host type x := by
  induction hsame generalizing out with
  | nil =>
      cases hout
      simp
  | @cons c₀ c cs₀ cs hc _ ih =>
      cases hout with
      | cons hd hout =>
          rw [List.forall₂_cons, List.forall_mem_cons]
          refine and_congr ?_ ?_
          · exact SelectItem.convertsBack_iff hhost hc (hmem c List.mem_cons_self)
              (hp c₀ List.mem_cons_self) hd
          · exact ih (fun c' hc' ↦ hmem c' (List.mem_cons_of_mem c hc'))
              (fun c' hc' ↦ hp c' (List.mem_cons_of_mem c₀ hc')) hout

/-- The select list comes from a bind on a table with the columns of `t`. -/
def PreparedFor (t : Table β) (items : List SelectItem) : Prop :=
  ∃ (p : PromoteParams) (t₀ : Table β), t₀.schema = t.schema ∧ items = t₀.columns.map p.ownItem ∧
    ∀ c₀ ∈ t₀.columns, p.ownVerdict c₀ ≠ none → p.Compiles

structure FetchedChunk.Prepared (host : HostFunctions) (chunk : FetchedChunk β) : Prop where
  items : PreparedFor chunk.rows chunk.items
  result : ∀ out, chunk.result = .ok out ↔ select host chunk.items chunk.rows = .ok out

theorem Table.sameType_of_schema (h : t₀.schema = t.schema) :
    List.Forall₂ Column.SameType t₀.columns t.columns := by
  have hpairs : List.Forall₂ (fun a b : String × LogicalType ↦ b = a) t₀.schema t.schema := by
    rw [h, List.forall₂_same]
    exact fun _ _ ↦ rfl
  rw [Table.schema, Table.schema, List.forall₂_map_left_iff, List.forall₂_map_right_iff] at hpairs
  exact hpairs.imp fun c₀ c hcc ↦ Prod.mk.inj hcc

/-- A chunk gives back what was read for it exactly when it is safe. -/
theorem FetchedChunk.givesBack_iff (hhost : host.Documented) {chunk : FetchedChunk β}
    (h : chunk.Prepared host) : chunk.GivesBack host ↔ chunk.Safe host := by
  obtain ⟨⟨p, t₀, hschema, hitems, hp⟩, hresult⟩ := h
  have hsame := Table.sameType_of_schema hschema
  have hout : ∀ out, chunk.result = .ok out ↔
      List.Forall₂ (fun c₀ d ↦ (p.ownItem c₀).eval host chunk.rows = .ok d) t₀.columns out := by
    intro out
    rw [hresult, hitems]
    exact select_map_eq_ok_iff
  have hcasts : ∀ type x, chunk.Casts type x ↔
      ∃ c₀ ∈ t₀.columns, (p.ownItem c₀).Casts chunk.rows type x := by
    intro type x
    rw [Casts, hitems]
    constructor
    · rintro ⟨item, hitem, hx⟩
      obtain ⟨c₀, hc₀, rfl⟩ := List.mem_map.mp hitem
      exact ⟨c₀, hc₀, hx⟩
    · rintro ⟨c₀, hc₀, hx⟩
      exact ⟨_, List.mem_map_of_mem hc₀, hx⟩
  constructor
  · intro hback
    by_cases hfails : ∃ type x, chunk.Casts type x ∧ castText host type x = none
    · exact .inl hfails
    · right
      push Not at hfails
      have hevals : ∀ c₀ ∈ t₀.columns, ∃ d,
          (p.ownItem c₀).eval host chunk.rows = .ok d ∧ True := by
        intro c₀ hc₀
        obtain ⟨c, hc, hsameType⟩ := MapM.mem_of_forall₂ hsame hc₀
        obtain ⟨d, hd⟩ := (SelectItem.eval_ok_iff hsameType hc (hp c₀ hc₀)).mpr
          fun type x hx ↦ hfails type x ((hcasts type x).mpr ⟨c₀, hc₀, hx⟩)
        exact ⟨d, hd, trivial⟩
      obtain ⟨out, heval, -⟩ := MapM.exists_forall₂ hevals
      have hwritten := (select_convertsBack_iff hhost hsame (fun _ h ↦ h) hp heval).mp
        (hback out ((hout out).mpr heval))
      intro type x hx
      obtain ⟨c₀, hc₀, hitem⟩ := (hcasts type x).mp hx
      exact hwritten c₀ hc₀ type x hitem
  · intro hsafe out hok
    have heval := (hout out).mp hok
    rcases hsafe with ⟨type, x, hx, hnone⟩ | hwritten
    · obtain ⟨c₀, hc₀, hitem⟩ := (hcasts type x).mp hx
      obtain ⟨c, hc, hsameType⟩ := MapM.mem_of_forall₂ hsame hc₀
      obtain ⟨d, -, hd⟩ := MapM.mem_of_forall₂ heval hc₀
      exact absurd hnone
        ((SelectItem.eval_ok_iff hsameType hc (hp c₀ hc₀)).mp ⟨d, hd⟩ type x hitem)
    · rw [select_convertsBack_iff hhost hsame (fun _ h ↦ h) hp heval]
      intro c₀ hc₀ type x hitem
      exact hwritten type x ((hcasts type x).mpr ⟨c₀, hc₀, hitem⟩)

end DuckdbOpenzl
