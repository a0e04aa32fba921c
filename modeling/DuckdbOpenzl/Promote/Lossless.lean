import DuckdbOpenzl.Promote.Analysis

/-!
# Promotion keeps the values

On a table that does not change between the analysis and the scan no cast
fails, integers print back as the texts they were read from, and decimals are
the numbers that the texts denote.
-/

set_option autoImplicit false

namespace DuckdbOpenzl

open DecimalText TextPattern

variable {β : Type} {p : PromoteParams} {r : Table β} {c : Column β} {host : HostFunctions}

/-! ## The casts -/

theorem castTexts_of_everyText {f : Text → Option ℤ} {R : Text → ℤ → Prop}
    {values : List (Option Text)} (h : EveryText (fun x ↦ ∃ i, f x = some i ∧ R x i) values) :
    ∃ results, castTexts f values = some results ∧
      List.Forall₂ (Option.Rel R) values results := by
  apply MapM.exists_option
  intro value hvalue
  cases value with
  | none => exact ⟨none, rfl, .none⟩
  | some x =>
      obtain ⟨i, hi, hR⟩ := h x hvalue
      exact ⟨some i, by simp [castValue, hi], .some hR⟩

/-- The integer pattern only lets through texts that the BIGINT cast gives back. -/
theorem toBigint_of_intRe (hhost : host.Documented) {x : Text} (h : p.intRe.fullMatch x = true) :
    ∃ i, host.toBigint x = some i ∧ intText i = x := by
  obtain ⟨hcanonical, hlen⟩ := PromoteParams.isCanonicalInt_of_intRe h
  obtain ⟨d, i, rfl, hvalue, htext, hlt⟩ := exists_ofDigits_of_isCanonicalInt hcanonical
  refine ⟨i, ?_, htext⟩
  have hmax := p.maxIntDigits_range
  have hpow : 10 ^ (unsigned d.text).length ≤ 10 ^ 18 :=
    Nat.pow_le_pow_right (by decide) (by omega)
  rw [hhost.toBigint_plain d i hvalue, if_pos]
  omega

theorem toDecimal_of_plainDecimal (hhost : host.Documented) (d : PlainDecimal) {width scale : ℕ}
    (hwidth : width ≤ 38) (hwhole : d.whole.length + scale ≤ width)
    (hfraction : d.fraction.length ≤ scale) :
    host.toDecimal width scale d.text = some (d.unscaled scale) ∧
      denotes d.text = some ((d.unscaled scale : ℚ) / 10 ^ scale) := by
  have hvalue := PlainDecimal.value_mul_pow hfraction
  constructor
  · have hlt := PlainDecimal.natAbs_unscaled_lt hfraction
    have hpow : 10 ^ (d.whole.length + scale) ≤ 10 ^ width :=
      Nat.pow_le_pow_right (by decide) hwhole
    rw [hhost.toDecimal_exact width scale _ _ _ (by omega) hwidth (hhost.number_plain d) hvalue,
      if_pos (by omega)]
  · rw [d.denotes_text, ← hvalue]
    have hne : (10 : ℚ) ^ scale ≠ 0 := by positivity
    rw [mul_div_cancel_right₀ _ hne]

theorem PromoteParams.decType_eq (h : p.Compiles) : p.decIntDigits + p.decScale ≤ 18 ∧
    p.decType = .decimal (p.decIntDigits.toNat + p.decScale.toNat) p.decScale.toNat := by
  have hrange := p.decimal_range
  have hrepeat : p.decRe.maxRepeat ≤ 1000 := h.2
  simp only [decRe, frac, digit, Pattern.maxRepeat] at hrepeat
  have hwrap : wrap64 (p.decIntDigits + p.decScale) = p.decIntDigits + p.decScale := by
    unfold wrap64
    rw [Int.bmod_eq_of_le] <;> omega
  rw [hwrap] at hrange
  refine ⟨by omega, ?_⟩
  rw [decType, hwrap]
  congr 1
  omega

theorem PromoteParams.compiles_of_sum_le (h : p.decIntDigits + p.decScale ≤ 18) : p.Compiles := by
  have hmax := p.maxIntDigits_range
  have hrange := p.decimal_range
  simp only [Compiles, intRe, decRe, frac, digit, Pattern.maxRepeat, maxPatternRepeat]
  omega

/-! ## One column -/

/-- What promotion makes of a column. -/
inductive Promoted (p : PromoteParams) : Column β → Column β → Prop where
  | unchanged {c : Column β} (verdict : p.ownVerdict c = none) : Promoted p c c
  | bigint {name : String} {values : List (Option Text)} {results : List (Option ℤ)}
      (verdict : p.ownVerdict (⟨name, .varchar values⟩ : Column β) = some .bigint)
      (values_eq :
        List.Forall₂ (Option.Rel fun (x : Text) (i : ℤ) ↦ intText i = x) values results) :
      Promoted p ⟨name, .varchar values⟩ ⟨name, .bigint results⟩
  | decimal {name : String} {values : List (Option Text)} {width scale : ℕ}
      {results : List (Option ℤ)}
      (verdict : p.ownVerdict (⟨name, .varchar values⟩ : Column β) = some (.decimal width scale))
      (values_eq : List.Forall₂ (Option.Rel fun (x : Text) (u : ℤ) ↦
        denotes x = some ((u : ℚ) / 10 ^ scale)) values results) :
      Promoted p ⟨name, .varchar values⟩ ⟨name, .decimal width scale results⟩

/-- The column as DESCRIBE reports it. -/
def Column.described (c : Column β) : DescribedColumn := ⟨c.name, c.data.type.name⟩

/-- The item that the column's own verdict asks for. -/
def PromoteParams.ownItem (p : PromoteParams) (c : Column β) : SelectItem :=
  selectItem c.described (p.ownVerdict c)

theorem PromoteParams.exists_varchar_of_ownVerdict {type : LogicalType}
    (h : p.ownVerdict c = some type) : ∃ values, c.data = .varchar values := by
  unfold ownVerdict at h
  split at h
  · exact ⟨_, ‹_›⟩
  · cases h

theorem SelectItem.eval_castAs {type : LogicalType} (hc : c ∈ r.columns) :
    (SelectItem.castAs c.name type).eval host r = castColumn host c type := by
  unfold SelectItem.eval
  rw [SelectItem.name, Table.column?_of_mem hc]

theorem castColumn_of_ownVerdict (hhost : host.Documented) (hp : p.Compiles) {type : LogicalType}
    (h : p.ownVerdict c = some type) :
    ∃ c', castColumn host c type = .ok c' ∧ Promoted p c c' := by
  obtain ⟨values, hdata⟩ := PromoteParams.exists_varchar_of_ownVerdict h
  obtain ⟨name, data⟩ := c
  obtain rfl : data = .varchar values := hdata
  obtain ⟨hsum, hdecType⟩ := PromoteParams.decType_eq hp
  rcases PromoteParams.ownVerdict_cases rfl h with
    ⟨rfl, hint⟩ | ⟨width, rfl, -, hlo, hhi, hdigits⟩ | ⟨rfl, hdec⟩
  · obtain ⟨results, hcast, hR⟩ := castTexts_of_everyText fun x hx ↦
      toBigint_of_intRe hhost (hint x hx)
    exact ⟨⟨name, .bigint results⟩, by simp [castColumn, hcast], .bigint h hR⟩
  · have hcasts : EveryText (fun x ↦ ∃ i, host.toDecimal width 0 x = some i ∧
        denotes x = some ((i : ℚ) / 10 ^ 0)) values := by
      intro x hx
      obtain ⟨hd, hlen⟩ := hdigits x hx
      have hne : x ≠ [] := List.ne_nil_of_length_pos (by omega)
      have htext := PlainDecimal.text_ofDigits false hd hne
      have hcast := toDecimal_of_plainDecimal hhost (.ofDigits false x hd hne)
        (show width ≤ 38 by omega) (le_of_eq hlen) (Nat.zero_le 0)
      rw [htext] at hcast
      exact ⟨_, hcast⟩
    obtain ⟨results, hcast, hR⟩ := castTexts_of_everyText hcasts
    exact ⟨⟨name, .decimal width 0 results⟩, by simp [castColumn, hcast], .decimal h hR⟩
  · have hrange := p.decimal_range
    rw [hdecType] at h ⊢
    have hcasts : EveryText (fun x ↦ ∃ i,
        host.toDecimal (p.decIntDigits.toNat + p.decScale.toNat) p.decScale.toNat x = some i ∧
          denotes x = some ((i : ℚ) / 10 ^ p.decScale.toNat)) values := by
      intro x hx
      obtain ⟨d, rfl, hwhole, hfraction⟩ := PromoteParams.exists_plainDecimal_of_decRe (hdec x hx)
      exact ⟨_, toDecimal_of_plainDecimal hhost d (by omega) (by omega) hfraction⟩
    obtain ⟨results, hcast, hR⟩ := castTexts_of_everyText hcasts
    exact ⟨⟨name, .decimal _ _ results⟩, by simp [castColumn, hcast], .decimal h hR⟩

theorem SelectItem.eval_ownItem (hhost : host.Documented) (hc : c ∈ r.columns)
    (hp : p.ownVerdict c ≠ none → p.Compiles) :
    ∃ c', (p.ownItem c).eval host r = .ok c' ∧ Promoted p c c' := by
  cases hverdict : p.ownVerdict c with
  | none =>
      refine ⟨c, ?_, .unchanged hverdict⟩
      unfold PromoteParams.ownItem SelectItem.eval
      rw [hverdict]
      simp only [selectItem, SelectItem.name, Column.described, Table.column?_of_mem hc]
  | some type =>
      obtain ⟨c', hcast, hpromoted⟩ :=
        castColumn_of_ownVerdict hhost (hp (by simp [hverdict])) hverdict
      refine ⟨c', ?_, hpromoted⟩
      rw [PromoteParams.ownItem, hverdict]
      exact (SelectItem.eval_castAs hc).trans hcast

/-! ## The bind -/

/-- The name and the type that the query announces for a column. -/
def PromoteParams.Announces (p : PromoteParams) (c c' : Column β) : Prop :=
  c'.name = c.name ∧ c'.data.type = (p.ownVerdict c).getD c.data.type

theorem Promoted.announces {c c' : Column β} (h : Promoted p c c') : p.Announces c c' := by
  cases h with
  | unchanged verdict => exact ⟨rfl, by rw [verdict]; rfl⟩
  | bigint verdict => exact ⟨rfl, by rw [verdict]; rfl⟩
  | decimal verdict => exact ⟨rfl, by rw [verdict]; rfl⟩

theorem castColumn_varchar_nil (host : HostFunctions) (name : String) {type : LogicalType}
    (h : type = .bigint ∨ ∃ width scale, type = .decimal width scale) :
    ∃ c', castColumn (β := β) host ⟨name, .varchar []⟩ type = .ok c' ∧ c'.name = name ∧
      c'.data.type = type := by
  rcases h with rfl | ⟨width, scale, rfl⟩
  · exact ⟨⟨name, .bigint []⟩, rfl, rfl, rfl⟩
  · exact ⟨⟨name, .decimal width scale []⟩, rfl, rfl, rfl⟩

theorem PromoteParams.type_of_ownVerdict {type : LogicalType} (h : p.ownVerdict c = some type) :
    type = .bigint ∨ ∃ width scale, type = .decimal width scale := by
  obtain ⟨values, hdata⟩ := exists_varchar_of_ownVerdict h
  rcases ownVerdict_cases hdata h with ⟨rfl, -⟩ | ⟨width, rfl, -⟩ | ⟨rfl, -⟩
  · exact .inl rfl
  · exact .inr ⟨width, 0, rfl⟩
  · exact .inr ⟨_, _, rfl⟩

theorem SelectItem.eval_ownItem_limitZero (host : HostFunctions) (p : PromoteParams)
    (hc : c ∈ r.columns) :
    ∃ c', (p.ownItem c).eval host r.limitZero = .ok c' ∧ p.Announces c c' := by
  have hmem : ({ c with data := c.data.limitZero } : Column β) ∈ r.limitZero.columns :=
    List.mem_map.mpr ⟨c, hc, rfl⟩
  cases hverdict : p.ownVerdict c with
  | none =>
      refine ⟨{ c with data := c.data.limitZero }, ?_, rfl, ?_⟩
      · unfold PromoteParams.ownItem SelectItem.eval
        rw [hverdict]
        simp only [selectItem, SelectItem.name, Column.described]
        rw [Table.column?_of_mem hmem]
      · rw [hverdict, Option.getD_none]
        cases c.data <;> rfl
  | some type =>
      obtain ⟨values, hdata⟩ := PromoteParams.exists_varchar_of_ownVerdict hverdict
      obtain ⟨c', hcast, hname, htype⟩ := castColumn_varchar_nil (β := β) host c.name
        (PromoteParams.type_of_ownVerdict hverdict)
      refine ⟨c', ?_, hname, by rw [hverdict, htype]; rfl⟩
      rw [PromoteParams.ownItem, hverdict]
      refine (SelectItem.eval_castAs hmem).trans ?_
      rw [hdata]
      exact hcast

theorem promoteBindData_own :
    promoteBindData p r.described (r.columns.map p.ownVerdict) =
      ⟨r.columns.map p.ownItem, p.table⟩ := by
  rw [promoteBindData, Table.described, List.zipWith_map, List.zipWith_self]
  rfl

theorem describePromote_eq {db : Database β} (hdb : db p.table = some r) :
    describePromote host p db = .ok r.described := by
  rw [describePromote, describe, hdb]
  rfl

theorem bindSchema_own (host : HostFunctions) (function : String) {db : Database β}
    (hdb : db p.table = some r) :
    ∃ bound, bindSchema host function ⟨r.columns.map p.ownItem, p.table⟩ db = .ok bound ∧
      bound.bindData = ⟨r.columns.map p.ownItem, p.table⟩ ∧
      bound.names = r.columns.map Column.name ∧
      bound.returnTypes = r.columns.map fun c ↦ (p.ownVerdict c).getD c.data.type := by
  obtain ⟨cols, heval, hannounces⟩ := MapM.exists_forall₂
    fun (c : Column β) (hc : c ∈ r.columns) ↦ SelectItem.eval_ownItem_limitZero host p hc
  refine ⟨_, bindSchema_of_select function hdb (select_map_eq_ok_iff.mpr heval), rfl, ?_, ?_⟩
  · have hnames : List.Forall₂ (fun c name ↦ name = c.name) r.columns (cols.map Column.name) :=
      List.forall₂_map_right_iff.mpr (hannounces.imp fun c c' h ↦ h.1)
    exact MapM.eq_map_of_forall₂ hnames fun c _ name h ↦ h
  · have htypes : List.Forall₂ (fun c type ↦ type = (p.ownVerdict c).getD c.data.type) r.columns
        (cols.map fun c ↦ c.data.type) :=
      List.forall₂_map_right_iff.mpr (hannounces.imp fun c c' h ↦ h.2)
    exact MapM.eq_map_of_forall₂ htypes fun c _ type h ↦ h

theorem openzlPromoteBind_eq {input : PromoteInput} {db : Database β}
    (hp : promoteParams input = .ok p) (hdb : db p.table = some r) :
    openzlPromoteBind host input db db db =
      analyzePromote host p r.described db >>= fun verdict ↦
        bindSchema host "openzl_promote" (promoteBindData p r.described verdict) db := by
  rw [openzlPromoteBind, hp]
  change describePromote host p db >>= _ = _
  rw [describePromote_eq hdb]
  rfl

theorem PromoteParams.compiles_of_aggs (h : ∀ a ∈ aggs p r.described, a.Compiles)
    (hc : c ∈ r.columns) (hverdict : p.ownVerdict c ≠ none) : p.Compiles := by
  obtain ⟨type, htype⟩ := Option.ne_none_iff_exists'.mp hverdict
  obtain ⟨values, hdata⟩ := exists_varchar_of_ownVerdict htype
  apply (compiles_iff c.name).mp
  intro a ha
  exact h a (mem_aggs_iff.mpr ⟨c, values, hc, hdata, ha⟩)

/-- An accepted bind on an unchanged table: the select list follows the columns' own verdicts. -/
theorem bindData_of_openzlPromoteBind {input : PromoteInput} {db : Database β}
    {bound : BoundFunction} (hp : promoteParams input = .ok p) (hdb : db p.table = some r)
    (h : openzlPromoteBind host input db db db = .ok bound) :
    bound.bindData = ⟨r.columns.map p.ownItem, p.table⟩ ∧
      bound.names = r.columns.map Column.name ∧
      (bound.returnTypes = r.columns.map fun c ↦ (p.ownVerdict c).getD c.data.type) ∧
      ∀ c ∈ r.columns, p.ownVerdict c ≠ none → p.Compiles := by
  rw [openzlPromoteBind_eq hp hdb] at h
  cases hanalysis : analyzePromote host p r.described db with
  | error e =>
      rw [hanalysis] at h
      cases h
  | ok verdict =>
      rw [hanalysis] at h
      change bindSchema host "openzl_promote" (promoteBindData p r.described verdict) db = _ at h
      obtain ⟨hcompiles, rfl⟩ := (analyzePromote_eq_ok_iff hdb).mp hanalysis
      obtain ⟨bound', hbind, hdata, hnames, htypes⟩ :=
        bindSchema_own host "openzl_promote" hdb
      rw [promoteBindData_own, hbind] at h
      obtain rfl := Except.ok.inj h
      exact ⟨hdata, hnames, htypes, fun c hc ↦ PromoteParams.compiles_of_aggs hcompiles hc⟩

theorem openzlPromoteBind_of_sum_le (host : HostFunctions) {input : PromoteInput} {db : Database β}
    (hp : promoteParams input = .ok p) (hdb : db p.table = some r)
    (hsum : p.decIntDigits + p.decScale ≤ 18) :
    ∃ bound, openzlPromoteBind host input db db db = .ok bound := by
  have hcompiles : ∀ a ∈ aggs p r.described, a.Compiles := by
    intro a ha
    obtain ⟨c, values, hc, hdata, hmem⟩ := mem_aggs_iff.mp ha
    exact (PromoteParams.compiles_iff c.name).mpr (PromoteParams.compiles_of_sum_le hsum) a hmem
  obtain ⟨bound, hbind, -⟩ := bindSchema_own host "openzl_promote" hdb
  refine ⟨bound, ?_⟩
  rw [openzlPromoteBind_eq hp hdb, (analyzePromote_eq_ok_iff hdb).mpr ⟨hcompiles, rfl⟩]
  change bindSchema host "openzl_promote" (promoteBindData p r.described _) db = _
  rw [promoteBindData_own, hbind]

/-! ## The scan -/

theorem openzlPromoteScan_own (hhost : host.Documented) {db : Database β}
    (hdb : db p.table = some r) (hp : ∀ c ∈ r.columns, p.ownVerdict c ≠ none → p.Compiles) :
    ∃ out, openzlPromoteScan host ⟨r.columns.map p.ownItem, p.table⟩ db = .ok out ∧
      List.Forall₂ (Promoted p) r.columns out := by
  obtain ⟨out, heval, hpromoted⟩ := MapM.exists_forall₂
    fun (c : Column β) (hc : c ∈ r.columns) ↦ SelectItem.eval_ownItem hhost hc (hp c hc)
  exact ⟨out, (openzlPromoteScan_eq_ok_iff hdb).mpr (select_map_eq_ok_iff.mpr heval), hpromoted⟩

/-- On a table that does not change `openzl_promote` applies to every column the verdict of that
column's own aggregates, and no cast fails or changes a value. -/
theorem promote_keeps_values (hhost : host.Documented) {input : PromoteInput} {db : Database β}
    (hp : promoteParams input = .ok p) (hdb : db p.table = some r) :
    (p.decIntDigits + p.decScale ≤ 18 →
      ∃ bound, openzlPromoteBind host input db db db = .ok bound) ∧
    (∀ c ∈ r.columns, c.data.type ≠ .varchar ∨ c.data.count = 0 → p.ownVerdict c = none) ∧
    ∀ bound, openzlPromoteBind host input db db db = .ok bound →
      bound.bindData.selectList = r.columns.map (fun c ↦ selectItem c.described (p.ownVerdict c)) ∧
      ∃ out, openzlPromoteScan host bound.bindData db = .ok out ∧
        List.Forall₂ (Promoted p) r.columns out ∧
        bound.names = r.columns.map Column.name ∧ out.map Column.name = bound.names ∧
        bound.returnTypes = out.map fun c ↦ c.data.type := by
  refine ⟨openzlPromoteBind_of_sum_le host hp hdb, ?_, ?_⟩
  · rintro c - (htype | hcount)
    · by_contra hverdict
      obtain ⟨type, hverdict⟩ := Option.ne_none_iff_exists'.mp hverdict
      obtain ⟨values, hdata⟩ := PromoteParams.exists_varchar_of_ownVerdict hverdict
      exact htype (by rw [hdata]; rfl)
    · exact PromoteParams.ownVerdict_of_count_eq_zero hcount
  · intro bound hbound
    obtain ⟨hdata, hnames, htypes, hcompiles⟩ := bindData_of_openzlPromoteBind hp hdb hbound
    obtain ⟨out, hscan, hpromoted⟩ := openzlPromoteScan_own hhost hdb hcompiles
    have hannounces := hpromoted.imp fun c c' h ↦ Promoted.announces h
    have houtNames : out.map Column.name = r.columns.map Column.name :=
      MapM.eq_map_of_forall₂ (List.forall₂_map_right_iff.mpr (hannounces.imp fun c c' h ↦ h.1))
        fun c _ name h ↦ h
    have houtTypes : (out.map fun c ↦ c.data.type) =
        r.columns.map fun c ↦ (p.ownVerdict c).getD c.data.type :=
      MapM.eq_map_of_forall₂ (List.forall₂_map_right_iff.mpr (hannounces.imp fun c c' h ↦ h.2))
        fun c _ type h ↦ h
    refine ⟨by rw [hdata]; rfl, out, by rw [hdata]; exact hscan, hpromoted, hnames, ?_, ?_⟩
    · rw [houtNames, hnames]
    · rw [houtTypes, htypes]

/-! ## A table with columns of every kind -/

def mixedColumns : Table Unit where
  columns :=
    [⟨"id", .varchar [some "1".toList, some "-20".toList, none]⟩,
     ⟨"n", .bigint [some 5, none, some 6]⟩,
     ⟨"price", .varchar [some "4.16".toList, some ".5".toList, some "100".toList]⟩,
     ⟨"code", .varchar [some "007".toList, some "120".toList, none]⟩,
     ⟨"empty", .varchar [none, none, none]⟩]
  rows := 3
  rows_eq := by simp [ColumnData.rows]
  names_nodup := by decide

def mixedDatabase : Database Unit := fun source ↦
  if source = "mixed" then some mixedColumns else none

/-- The defaults, with `fixed_width`. -/
def fixedWidthParams : PromoteParams where
  table := "mixed"
  maxIntDigits := 18
  decIntDigits := 12
  decScale := 6
  promoteDecimal := true
  fixedWidth := true
  maxIntDigits_range := by decide
  decimal_range := by decide

example : fixedWidthParams.intRe.text = "(0|-?[1-9][0-9]\x7b0,17\x7d)" := by decide +kernel

example : fixedWidthParams.decRe.text =
    "-?((0|[1-9][0-9]\x7b0,11\x7d)(\\.[0-9]\x7b1,6\x7d)?|\\.[0-9]\x7b1,6\x7d)" := by
  decide +kernel

example : mixedColumns.columns.map (fun c ↦ (fixedWidthParams.ownVerdict c).map LogicalType.name) =
    [some "BIGINT", none, some "DECIMAL(18,6)", some "DECIMAL(3,0)", none] := by
  decide +kernel

theorem promote_keeps_values_mixed :
    ∃ bound out,
      openzlPromoteBind .plain { table := some "mixed", fixedWidth := some true } mixedDatabase
        mixedDatabase mixedDatabase = .ok bound ∧
      openzlPromoteScan .plain bound.bindData mixedDatabase = .ok out ∧
      List.Forall₂ (Promoted fixedWidthParams) mixedColumns.columns out := by
  have hp : promoteParams { table := some "mixed", fixedWidth := some true } =
      .ok fixedWidthParams := rfl
  have hdb : mixedDatabase fixedWidthParams.table = some mixedColumns := rfl
  obtain ⟨hbinds, -, hkeeps⟩ := promote_keeps_values HostFunctions.plain_documented hp hdb
  obtain ⟨bound, hbound⟩ := hbinds (by decide)
  obtain ⟨-, out, hscan, hpromoted, -⟩ := hkeeps bound hbound
  exact ⟨bound, out, hbound, hscan, hpromoted⟩

end DuckdbOpenzl
