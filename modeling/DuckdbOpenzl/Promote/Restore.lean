import DuckdbOpenzl.Promote.Lossless

/-!
# `openzl_restore` undoes the fixed-width promotion

The promotion leaves the width of a column in the printed type, and nothing
else. The type is recognised by slicing its text, so it must be shown that the
slices pick out `DECIMAL(L,0)` and no other type.
-/

set_option autoImplicit false

namespace DuckdbOpenzl

open DecimalText

variable {β : Type} {p : PromoteParams} {r : Table β} {c c' : Column β} {host : HostFunctions}

/-! ## Recognising the type -/

theorem atoi_toDigits (n : ℕ) : atoi (Nat.toDigits 10 n) = n := by
  have hdigits := isDigits_toDigits n
  have hhead : ∀ c, (Nat.toDigits 10 n).head? = some c → c.isDigit = true :=
    fun c hc ↦ hdigits c (List.mem_of_head? hc)
  have hspace : (Nat.toDigits 10 n).dropWhile Char.isWhitespace = Nat.toDigits 10 n := by
    cases hn : Nat.toDigits 10 n with
    | nil => rfl
    | cons c cs =>
        have hc := toNat_of_isDigit (hhead c (by rw [hn]; rfl))
        have hnot : c.isWhitespace = false := by
          rw [Char.isWhitespace, Bool.eq_false_iff, Ne]
          simp only [Bool.or_eq_true, decide_eq_true_eq]
          rintro (((rfl | rfl) | rfl) | rfl) <;> revert hc <;> decide
        rw [List.dropWhile_cons_of_neg (by simp [hnot])]
  have hminus : ((Nat.toDigits 10 n).head? == some '-') = false :=
    beq_eq_false_iff_ne.mpr fun h ↦ absurd (hhead _ h) (by decide)
  have hplus : ((Nat.toDigits 10 n).head? == some '+') = false :=
    beq_eq_false_iff_ne.mpr fun h ↦ absurd (hhead _ h) (by decide)
  have htake : (Nat.toDigits 10 n).takeWhile Char.isDigit = Nat.toDigits 10 n := by
    simpa using (span_isDigit (b := []) hdigits (by simp)).1
  unfold atoi
  simp only [hspace, hminus, hplus, Bool.or_self, Bool.false_eq_true, if_false, htake]
  rw [digitsValue, Nat.ofDigitChars_ten_toDigits]
  rfl

theorem toList_name_decimal (width scale : ℕ) : (LogicalType.decimal width scale).name.toList =
    "DECIMAL(".toList ++ Nat.toDigits 10 width ++ ',' :: Nat.toDigits 10 scale ++ [')'] := by
  simp [LogicalType.name]

/-- The text ends in `,0)` only for scale 0: a longer scale has a digit before its last one. -/
theorem scale_of_suffix {front : List Char} {scale : ℕ}
    (h : [',', '0', ')'] <:+ front ++ ',' :: Nat.toDigits 10 scale ++ [')']) : scale = 0 := by
  obtain ⟨start, hstart⟩ := h
  have hcut : start ++ [',', '0'] = front ++ ',' :: Nat.toDigits 10 scale := by
    have hsnoc : (start ++ [',', '0']) ++ [')'] =
        (front ++ ',' :: Nat.toDigits 10 scale) ++ [')'] := by
      rw [← hstart]
      simp
    exact List.append_cancel_right hsnoc
  by_contra hscale
  have hpositive := isPositive_toDigits (Nat.pos_of_ne_zero hscale)
  obtain ⟨digits, last, hdigits⟩ :=
    List.eq_nil_or_concat (Nat.toDigits 10 scale) |>.resolve_left hpositive.1
  rw [hdigits, List.concat_eq_append] at hcut hpositive
  have hlast : (start ++ [',']) ++ ['0'] = (front ++ ',' :: digits) ++ [last] := by
    simpa using hcut
  obtain ⟨hrest, hzero⟩ := List.append_inj' hlast rfl
  obtain rfl : '0' = last := List.singleton_inj.mp hzero
  rcases List.eq_nil_or_concat digits with rfl | ⟨init, digit, rfl⟩
  · exact hpositive.2.1 rfl
  · have hcomma : start ++ [','] = (front ++ ',' :: init) ++ [digit] := by
      simpa using hrest
    have hdigit : digit.isDigit = true := hpositive.2.2 digit (by simp)
    rw [← List.singleton_inj.mp (List.append_inj' hcomma rfl).2] at hdigit
    exact absurd hdigit (by decide)

theorem restoreWidth_decimal_zero (width : ℕ) :
    restoreWidth (LogicalType.decimal width 0).name = width := by
  have hpos := Nat.length_toDigits_pos (b := 10) (n := width)
  have hname : (LogicalType.decimal width 0).name.toList =
      "DECIMAL(".toList ++ (Nat.toDigits 10 width ++ ",0)".toList) := by
    rw [toList_name_decimal, Nat.toDigits_zero]
    simp
  have hlen : (LogicalType.decimal width 0).name.toList.length =
      8 + (Nat.toDigits 10 width).length + 3 := by
    rw [hname, List.length_append, List.length_append, ← Nat.add_assoc]
    rfl
  have hfront : (LogicalType.decimal width 0).name.toList.take 8 = "DECIMAL(".toList := by
    rw [hname]
    exact List.take_left' rfl
  have hback : (LogicalType.decimal width 0).name.toList.drop 8 =
      Nat.toDigits 10 width ++ ",0)".toList := by
    rw [hname]
    exact List.drop_left' rfl
  have hend : (LogicalType.decimal width 0).name.toList.drop
      ((LogicalType.decimal width 0).name.toList.length - 3) = ",0)".toList := by
    rw [hlen, Nat.add_sub_cancel, ← List.drop_drop, hback]
    exact List.drop_left' rfl
  have hmiddle : ((LogicalType.decimal width 0).name.toList.drop 8).take
      ((LogicalType.decimal width 0).name.toList.length - 11) = Nat.toDigits 10 width := by
    rw [hback, hlen]
    exact List.take_left' (by omega)
  refine (if_pos ⟨by omega, hfront, hend⟩).trans ?_
  rw [hmiddle, atoi_toDigits]

theorem restoreWidth_name (type : LogicalType) : restoreWidth type.name =
    match type with
    | .decimal width 0 => (width : ℤ)
    | _ => 0 := by
  have hsuffix : ∀ t : List Char, t.drop (t.length - 3) = ",0)".toList → [',', '0', ')'] <:+ t := by
    intro t h
    have hdrop : t.drop (t.length - 3) <:+ t := List.drop_suffix _ _
    rwa [h] at hdrop
  cases type with
  | varchar => decide
  | bigint => decide
  | other type =>
      refine if_neg ?_
      rintro ⟨-, hfront, hend⟩
      have hparen : [')'] <:+ [',', '0', ')'] := by decide
      refine type.notDecimal ?_ (hparen.trans (hsuffix _ hend))
      exact hfront ▸ List.take_prefix 8 _
  | decimal width scale =>
      cases scale with
      | zero => exact restoreWidth_decimal_zero width
      | succ scale =>
          refine if_neg ?_
          rintro ⟨-, -, hend⟩
          have hcomma := hsuffix _ hend
          rw [toList_name_decimal] at hcomma
          exact absurd (scale_of_suffix hcomma) (Nat.succ_ne_zero scale)

theorem restoreItem_eq (c : Column β) :
    (∃ width, 2 ≤ width ∧ width ≤ 18 ∧ c.data.type = .decimal width 0 ∧
      restoreItem c.described = .lpad c.name width) ∨
    ((∀ width, 2 ≤ width → width ≤ 18 → c.data.type ≠ .decimal width 0) ∧
      restoreItem c.described = .column c.name) := by
  have hwidth := restoreWidth_name c.data.type
  have hitem : restoreItem c.described =
      if 2 ≤ restoreWidth c.data.type.name ∧ restoreWidth c.data.type.name ≤ 18 then
        .lpad c.name (restoreWidth c.data.type.name).toNat else .column c.name := rfl
  rw [hitem]
  split
  · rename_i hcond
    left
    split at hwidth
    · rename_i width htype
      rw [hwidth] at hcond ⊢
      exact ⟨width, by omega, by omega, htype, rfl⟩
    · omega
  · rename_i hcond
    right
    refine ⟨?_, rfl⟩
    intro width hlo hhi htype
    apply hcond
    rw [htype, restoreWidth_decimal_zero]
    omega

/-! ## Padding -/

theorem lpad_digitsValue (hhost : host.Documented) {x : Text} (hdigits : IsDigits x)
    (hne : x ≠ []) : host.lpad (intText (digitsValue x)) x.length '0' = x := by
  have hfits : (Nat.toDigits 10 (digitsValue x)).length ≤ x.length := by
    rw [Nat.length_toDigits_le_iff (by decide) (List.length_pos_iff.mpr hne)]
    exact digitsValue_lt hdigits
  rw [intText_natCast, hhost.lpad_of_le _ _ _ hfits]
  exact zeros_append_toDigits hdigits hne

theorem lpad_decimalToText (hhost : host.Documented) {x : Text} {u : ℤ} {width : ℕ}
    (hdigits : IsDigits x) (hlen : x.length = width) (hwidth : 0 < width)
    (hu : denotes x = some ((u : ℚ) / 10 ^ 0)) :
    host.lpad (host.decimalToText width 0 u) width '0' = x := by
  have hne : x ≠ [] := List.ne_nil_of_length_pos (by omega)
  have hvalue := (PlainDecimal.ofDigits false x hdigits hne).denotes_text
  rw [PlainDecimal.text_ofDigits, PlainDecimal.value_ofDigits] at hvalue
  have hvalue' : denotes x = some ((digitsValue x : ℤ) : ℚ) := hvalue
  rw [hvalue', pow_zero, div_one, Option.some.injEq, Int.cast_inj] at hu
  rw [hhost.decimalToText_integral, ← hu, ← hlen]
  exact lpad_digitsValue hhost hdigits hne

theorem map_eq_of_everyText {R : Text → ℤ → Prop} {f : ℤ → Text} {values : List (Option Text)}
    {results : List (Option ℤ)} (h : List.Forall₂ (Option.Rel R) values results)
    (hf : EveryText (fun x ↦ ∀ u, R x u → f u = x) values) :
    results.map (fun value ↦ value.map f) = values := by
  induction h with
  | nil => rfl
  | cons hvalue _ ih =>
      rw [List.map_cons, ih fun x hx ↦ hf x (List.mem_cons_of_mem _ hx)]
      cases hvalue with
      | none => rfl
      | some hR => rw [Option.map_some, hf _ List.mem_cons_self _ hR]

/-- The fixed-width rule decided on this column. -/
def PromoteParams.isFixedWidth (p : PromoteParams) (c : Column β) : Bool :=
  match p.ownVerdict c with
  | some (.decimal _ 0) => true
  | _ => false

/-- Padding undoes the fixed-width promotion of a column. -/
theorem padColumn_of_promoted (hhost : host.Documented) (hp : p.ownVerdict c ≠ none → p.Compiles)
    (h : Promoted p c c') {width : ℕ} (htype : c'.data.type = .decimal width 0)
    (hfixed : p.isFixedWidth c = true) : padColumn host c' width = .ok c := by
  cases h with
  | unchanged verdict => simp [PromoteParams.isFixedWidth, verdict] at hfixed
  | bigint verdict => simp [PromoteParams.isFixedWidth, verdict] at hfixed
  | @decimal name values w scale results verdict hvalues =>
      obtain ⟨rfl, rfl⟩ : w = width ∧ scale = 0 := by
        simpa [ColumnData.type] using htype
      have hdecType := PromoteParams.decType_eq (hp (by rw [verdict]; simp))
      have hrange := p.decimal_range
      rcases PromoteParams.ownVerdict_cases rfl verdict with ⟨hbigint, -⟩ |
        ⟨width, hwidth, -, hlo, -, hdigits⟩ | ⟨hdec, -⟩
      · cases hbigint
      · obtain ⟨rfl, -⟩ := LogicalType.decimal.inj hwidth
        have hpadded : (results.map fun value ↦
            value.map fun u ↦ host.lpad (host.decimalToText w 0 u) w '0') = values := by
          apply map_eq_of_everyText hvalues
          intro x hx u hu
          obtain ⟨hd, hlen⟩ := hdigits x hx
          exact lpad_decimalToText hhost hd hlen (by omega) hu
        rw [padColumn]
        dsimp only
        rw [hpadded]
      · rw [hdecType.2] at hdec
        have hscale := (LogicalType.decimal.inj hdec).2
        omega

/-! ## Promoted columns are a table -/

theorem Promoted.rows_eq (h : Promoted p c c') : c'.data.rows = c.data.rows := by
  cases h with
  | unchanged verdict => rfl
  | bigint verdict hvalues => exact hvalues.length_eq.symm
  | decimal verdict hvalues => exact hvalues.length_eq.symm

theorem Table.exists_of_promoted {out : List (Column β)}
    (h : List.Forall₂ (Promoted p) r.columns out) : ∃ a : Table β, a.columns = out := by
  have hnames : out.map Column.name = r.columns.map Column.name :=
    MapM.eq_map_of_forall₂ (List.forall₂_map_right_iff.mpr (h.imp fun c c' h ↦ h.announces.1))
      fun c _ name h ↦ h
  have hrows : ∀ c' ∈ out, c'.data.rows = r.rows := by
    intro c' hc'
    obtain ⟨c, hc, hpromoted⟩ := MapM.mem_of_forall₂ h.flip hc'
    exact hpromoted.rows_eq.trans (r.rows_eq c hc)
  exact ⟨⟨out, r.rows, hrows, hnames ▸ r.names_nodup⟩, rfl⟩

/-! ## The restored table -/

/-- Promotion leaves a type to pad on exactly the columns of the fixed-width rule. -/
theorem Promoted.type_eq_iff (h : Promoted p c c') (hp : p.ownVerdict c ≠ none → p.Compiles)
    (hown : ∀ width, 2 ≤ width → width ≤ 18 → c.data.type ≠ .decimal width 0) :
    (∃ width, 2 ≤ width ∧ width ≤ 18 ∧ c'.data.type = .decimal width 0) ↔
      p.isFixedWidth c = true := by
  cases h with
  | unchanged verdict =>
      constructor
      · rintro ⟨width, hlo, hhi, htype⟩
        exact absurd htype (hown width hlo hhi)
      · intro hfixed
        simp [PromoteParams.isFixedWidth, verdict] at hfixed
  | bigint verdict => simp [PromoteParams.isFixedWidth, verdict, ColumnData.type]
  | @decimal name values w scale results verdict =>
      constructor
      · rintro ⟨width, -, -, htype⟩
        obtain ⟨rfl, rfl⟩ : w = width ∧ scale = 0 := by simpa [ColumnData.type] using htype
        simp [PromoteParams.isFixedWidth, verdict]
      · intro hfixed
        have hdecType := PromoteParams.decType_eq (hp (by rw [verdict]; simp))
        have hrange := p.decimal_range
        rcases PromoteParams.ownVerdict_cases rfl verdict with ⟨hbigint, -⟩ |
          ⟨width, hwidth, -, hlo, hhi, -⟩ | ⟨hdec, -⟩
        · cases hbigint
        · exact ⟨width, hlo, hhi, hwidth⟩
        · rw [hdecType.2] at hdec
          obtain ⟨-, rfl⟩ := LogicalType.decimal.inj hdec
          obtain ⟨k, hk⟩ : ∃ k, p.decScale.toNat = k + 1 :=
            Nat.exists_eq_succ_of_ne_zero (by omega)
          simp [PromoteParams.isFixedWidth, verdict, hk] at hfixed

theorem eval_restoreItem (hhost : host.Documented) {a : Table β} (hmem : c' ∈ a.columns)
    (h : Promoted p c c') (hp : p.ownVerdict c ≠ none → p.Compiles)
    (hown : ∀ width, 2 ≤ width → width ≤ 18 → c.data.type ≠ .decimal width 0) :
    (restoreItem c'.described).eval host a =
      .ok (if p.isFixedWidth c then c else c') := by
  have htype := h.type_eq_iff hp hown
  rcases restoreItem_eq c' with ⟨width, hlo, hhi, hdecimal, hitem⟩ | ⟨hother, hitem⟩
  · have hfixed : p.isFixedWidth c = true := htype.mp ⟨width, hlo, hhi, hdecimal⟩
    rw [hitem, if_pos hfixed]
    unfold SelectItem.eval
    rw [SelectItem.name, Table.column?_of_mem hmem]
    exact padColumn_of_promoted hhost hp h hdecimal hfixed
  · have hfixed : ¬p.isFixedWidth c = true := by
      intro hfixed
      obtain ⟨width, hlo, hhi, hdecimal⟩ := htype.mpr hfixed
      exact hother width hlo hhi hdecimal
    rw [hitem, if_neg hfixed]
    unfold SelectItem.eval
    rw [SelectItem.name, Table.column?_of_mem hmem]

theorem exists_eval_restoreItem {a : Table β} (hmem : c' ∈ a.columns) :
    ∃ d, (restoreItem c'.described).eval host a = .ok d := by
  rcases restoreItem_eq c' with ⟨width, -, -, hdecimal, hitem⟩ | ⟨-, hitem⟩
  · rw [hitem]
    unfold SelectItem.eval
    rw [SelectItem.name, Table.column?_of_mem hmem]
    obtain ⟨name, data⟩ := c'
    cases data with
    | decimal w scale values => exact ⟨_, rfl⟩
    | varchar values => cases hdecimal
    | bigint values => cases hdecimal
    | other type values => cases hdecimal
  · rw [hitem]
    unfold SelectItem.eval
    rw [SelectItem.name, Table.column?_of_mem hmem]
    exact ⟨c', rfl⟩

theorem described_limitZero (a : Table β) : a.limitZero.described = a.described := by
  unfold Table.described Table.limitZero
  rw [List.map_map]
  apply List.map_congr_left
  rintro ⟨name, data⟩ -
  cases data <;> rfl

theorem map_restoreItem_described (a : Table β) :
    a.described.map restoreItem = a.columns.map fun c ↦ restoreItem c.described :=
  List.map_map

theorem openzlRestoreBind_ok (host : HostFunctions) {db : Database β} {path : String} {a : Table β}
    (hdb : db (restoreSource path) = some a) :
    ∃ restored, openzlRestoreBind host (some path) db db = .ok restored ∧
      restored.bindData =
        ⟨a.columns.map fun c ↦ restoreItem c.described, restoreSource path⟩ := by
  have hitems : ∀ d ∈ a.limitZero.columns, ∃ e,
      (restoreItem d.described).eval host a.limitZero = .ok e ∧ True :=
    fun d hd ↦ (exists_eval_restoreItem hd).imp fun e he ↦ ⟨he, trivial⟩
  obtain ⟨cols, hcols, -⟩ := MapM.exists_forall₂ hitems
  have hselect : select host (a.columns.map fun c ↦ restoreItem c.described) a.limitZero =
      .ok cols := by
    rw [← map_restoreItem_described, ← described_limitZero, map_restoreItem_described]
    exact select_map_eq_ok_iff.mpr hcols
  have hschema := bindSchema_of_select "openzl_restore" hdb hselect
  refine ⟨⟨_, cols.map fun c ↦ c.data.type, cols.map Column.name⟩, ?_, rfl⟩
  rw [← hschema, ← map_restoreItem_described, openzlRestoreBind, describe, hdb]
  rfl

theorem eval_restoreItems (hhost : host.Documented) {a : Table β} {cs cs' : List (Column β)}
    (h : List.Forall₂ (Promoted p) cs cs') (hmem : ∀ c' ∈ cs', c' ∈ a.columns)
    (hp : ∀ c ∈ cs, p.ownVerdict c ≠ none → p.Compiles)
    (hown : ∀ c ∈ cs, ∀ width, 2 ≤ width → width ≤ 18 → c.data.type ≠ .decimal width 0) :
    List.Forall₂ (fun c' d ↦ (restoreItem c'.described).eval host a = .ok d) cs'
      (List.zipWith (fun c c' ↦ if p.isFixedWidth c then c else c') cs cs') := by
  induction h with
  | nil => exact .nil
  | @cons c c' cs cs' hc _ ih =>
      apply List.Forall₂.cons
      · exact eval_restoreItem hhost (hmem c' List.mem_cons_self) hc (hp c List.mem_cons_self)
          (hown c List.mem_cons_self)
      · exact ih (fun d hd ↦ hmem d (List.mem_cons_of_mem c' hd))
          (fun d hd ↦ hp d (List.mem_cons_of_mem c hd))
          (fun d hd ↦ hown d (List.mem_cons_of_mem c hd))

/-- Reading a promoted table back with `openzl_restore` gives every column of the fixed-width rule
as it was, and every other column as it was promoted. -/
theorem restore_promoted (hhost : host.Documented) {input : PromoteInput} {db : Database β}
    {bound : BoundFunction} (hp : promoteParams input = .ok p) (hdb : db p.table = some r)
    (hown : ∀ c ∈ r.columns, ∀ width, 2 ≤ width → width ≤ 18 → c.data.type ≠ .decimal width 0)
    (hbound : openzlPromoteBind host input db db db = .ok bound) :
    ∃ out, openzlPromoteScan host bound.bindData db = .ok out ∧
      ∀ (archives : Database β) (path : String) (a : Table β),
        archives (restoreSource path) = some a → a.columns = out →
        ∃ restored, openzlRestoreBind host (some path) archives archives = .ok restored ∧
          openzlPromoteScan host restored.bindData archives = .ok
            (List.zipWith (fun c c' ↦ if p.isFixedWidth c then c else c') r.columns out) := by
  obtain ⟨hdata, -, -, hcompiles⟩ := bindData_of_openzlPromoteBind hp hdb hbound
  obtain ⟨out, hout, hpromoted⟩ := openzlPromoteScan_own hhost hdb hcompiles
  refine ⟨out, by rw [hdata, hout], ?_⟩
  rintro archives path a harchive rfl
  obtain ⟨restored, hrestored, hrestoredData⟩ := openzlRestoreBind_ok host harchive
  refine ⟨restored, hrestored, ?_⟩
  have hselect := eval_restoreItems hhost hpromoted (fun _ h ↦ h) hcompiles hown
  rw [hrestoredData, openzlPromoteScan_eq_ok_iff harchive]
  exact select_map_eq_ok_iff.mpr hselect

theorem restore_promoted_mixed :
    ∃ (bound : BoundFunction) (out : List (Column Unit)) (a : Table Unit)
        (archives : Database Unit) (restored : BoundFunction),
      openzlPromoteBind .plain { table := some "mixed", fixedWidth := some true } mixedDatabase
        mixedDatabase mixedDatabase = .ok bound ∧
      openzlPromoteScan .plain bound.bindData mixedDatabase = .ok out ∧
      archives (restoreSource "mixed.zl") = some a ∧ a.columns = out ∧
      openzlRestoreBind .plain (some "mixed.zl") archives archives = .ok restored ∧
      openzlPromoteScan .plain restored.bindData archives = .ok
        (List.zipWith (fun c c' ↦ if fixedWidthParams.isFixedWidth c then c else c')
          mixedColumns.columns out) := by
  have hp : promoteParams { table := some "mixed", fixedWidth := some true } =
      .ok fixedWidthParams := rfl
  have hdb : mixedDatabase fixedWidthParams.table = some mixedColumns := rfl
  have hhost := HostFunctions.plain_documented
  obtain ⟨bound, hbound⟩ := openzlPromoteBind_of_sum_le .plain hp hdb (by decide)
  obtain ⟨hdata, -, -, hcompiles⟩ := bindData_of_openzlPromoteBind hp hdb hbound
  obtain ⟨promoted, hpromotedScan, hpromoted⟩ := openzlPromoteScan_own hhost hdb hcompiles
  obtain ⟨a, ha⟩ := Table.exists_of_promoted hpromoted
  have hown : ∀ c ∈ mixedColumns.columns, ∀ width, 2 ≤ width → width ≤ 18 →
      c.data.type ≠ .decimal width 0 := by
    simp [mixedColumns, ColumnData.type]
  obtain ⟨out, hout, hrestore⟩ := restore_promoted hhost hp hdb hown hbound
  have hsame := hout
  rw [hdata, hpromotedScan] at hsame
  obtain rfl : promoted = out := Except.ok.inj hsame
  obtain ⟨restored, hrestored, hscan⟩ := hrestore
    (fun source ↦ if source = restoreSource "mixed.zl" then some a else none) "mixed.zl" a
    (if_pos rfl) ha
  exact ⟨bound, promoted, a, _, restored, hbound, hout, if_pos rfl, ha, hrestored, hscan⟩

end DuckdbOpenzl
