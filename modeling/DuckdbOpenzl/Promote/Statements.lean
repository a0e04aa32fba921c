import DuckdbOpenzl.Library.SqlText
import DuckdbOpenzl.Promote.Restore

/-!
# The statements that promotion sends

The queries are spliced together from column names, printed types, patterns and
a path. Names and paths go in as quoted text, so that a statement reads back as
the select list or the aggregates it was made from, whatever the columns and
the file are called.
-/

set_option autoImplicit false

namespace DuckdbOpenzl

open SqlText DecimalText TextPattern FlatRows

variable {β : Type}

/-! ## The texts -/

def openzlPromoteIdent (name : String) : String := writeQuoted name '"'

/-- An entry of `select_list`. -/
def SelectItem.text : SelectItem → String
  | .column name => openzlPromoteIdent name
  | .castAs name type =>
      "CAST(" ++ openzlPromoteIdent name ++ " AS " ++ type.name ++ ") AS " ++
        openzlPromoteIdent name
  | .lpad name width =>
      "lpad(CAST(" ++ openzlPromoteIdent name ++ " AS VARCHAR), " ++ toString width ++
        ", '0') AS " ++ openzlPromoteIdent name

/-- `select_list`, column by column. -/
def selectListText (items : List SelectItem) : String :=
  items.zipIdx.foldl (fun list item ↦
    (if 0 < item.2 then list ++ ", " else list) ++ item.1.text) ""

/-- `select_sql` -/
def OpenzlPromoteBindData.selectSql (data : OpenzlPromoteBindData) : String :=
  "SELECT " ++ selectListText data.selectList ++ " FROM " ++ data.source

namespace PromoteParams

variable (p : PromoteParams)

/-- `int_re` -/
def intReText : String := "(0|-?[1-9][0-9]\x7b0," ++ toString (p.maxIntDigits - 1) ++ "\x7d)"

def fracText : String := "[0-9]\x7b1," ++ toString p.decScale ++ "\x7d"

/-- `dec_re` -/
def decReText : String :=
  "-?((0|[1-9][0-9]\x7b0," ++ toString (p.decIntDigits - 1) ++ "\x7d)(\\." ++ p.fracText ++
    ")?|\\." ++ p.fracText ++ ")"

/-- What one VARCHAR column adds to `aggs`. -/
def aggregatesText (name : String) : String :=
  let c := openzlPromoteIdent name
  "count(" ++ c ++ "), bool_and(" ++ c ++ " IS NULL OR regexp_full_match(" ++ c ++ ", '" ++
    p.intReText ++ "')), " ++ "bool_and(" ++ c ++ " IS NULL OR regexp_full_match(" ++ c ++ ", '" ++
    p.decReText ++ "'))" ++
    if p.fixedWidth then
      ", bool_and(" ++ c ++ " IS NULL OR regexp_full_match(" ++ c ++ ", '[0-9]+')), min(length(" ++
        c ++ ")), max(length(" ++ c ++ "))"
    else ""

end PromoteParams

/-- `aggs`, column by column. -/
def aggsText (p : PromoteParams) (cols : List DescribedColumn) : String :=
  cols.foldl (fun aggs c ↦
    if c.isVarchar then
      (if aggs = "" then aggs else aggs ++ ", ") ++ p.aggregatesText c.name
    else aggs) ""

def analysisSql (p : PromoteParams) (cols : List DescribedColumn) : String :=
  "SELECT " ++ aggsText p cols ++ " FROM " ++ p.table

/-! ## Reading them -/

def readNumber (text : String) : Option ℕ :=
  if text.toList ≠ [] ∧ text.toList.all Char.isDigit then some (digitsValue text.toList) else none

def readType (ts : List Token) : Option (LogicalType × List Token) := do
  let (type, ts) ← readWord ts
  if type = "BIGINT" then
    return (.bigint, ts)
  else if type = "DECIMAL" then
    let ts ← expect (.symbol '(') ts
    let (width, ts) ← readWord ts
    let ts ← expect (.symbol ',') ts
    let (scale, ts) ← readWord ts
    let ts ← expect (.symbol ')') ts
    return (.decimal (← readNumber width) (← readNumber scale), ts)
  else none

/-- `AS name`, for the column that was read before. -/
def readAlias (name : String) (ts : List Token) : Option (List Token) := do
  let ts ← expect (.word "AS") ts
  expect (.quoted .name name) ts

/-- A plain column, a cast, or padding to a width. -/
def readItem (ts : List Token) : Option (SelectItem × List Token) :=
  match readWord ts with
  | none => do
      let (name, ts) ← readQuoted .name ts
      return (.column name, ts)
  | some (function, ts) => do
      let ts ← expect (.symbol '(') ts
      if function = "CAST" then
        let (name, ts) ← readQuoted .name ts
        let ts ← expect (.word "AS") ts
        let (type, ts) ← readType ts
        let ts ← expect (.symbol ')') ts
        let ts ← readAlias name ts
        return (.castAs name type, ts)
      else if function = "lpad" then
        let ts ← expect (.word "CAST") ts
        let ts ← expect (.symbol '(') ts
        let (name, ts) ← readQuoted .name ts
        let ts ← expect (.word "AS") ts
        let ts ← expect (.word "VARCHAR") ts
        let ts ← expect (.symbol ')') ts
        let ts ← expect (.symbol ',') ts
        let (width, ts) ← readWord ts
        let ts ← expect (.symbol ',') ts
        let ts ← expect (.quoted .literal "0") ts
        let ts ← expect (.symbol ')') ts
        let ts ← readAlias name ts
        return (.lpad name (← readNumber width), ts)
      else none

/-- An aggregate as it is written: of its pattern there is only the text. -/
inductive WrittenAggregate where
  | count (name : String)
  | allMatch (name pattern : String)
  | minLength (name : String)
  | maxLength (name : String)
  deriving DecidableEq

def Aggregate.written : Aggregate → WrittenAggregate
  | .count name => .count name
  | .allMatch name pattern => .allMatch name pattern.text
  | .minLength name => .minLength name
  | .maxLength name => .maxLength name

def readLengthOf (ts : List Token) : Option (String × List Token) := do
  let ts ← expect (.word "length") ts
  let ts ← expect (.symbol '(') ts
  let (name, ts) ← readQuoted .name ts
  let ts ← expect (.symbol ')') ts
  return (name, ts)

def readAggregate (ts : List Token) : Option (WrittenAggregate × List Token) := do
  let (function, ts) ← readWord ts
  let ts ← expect (.symbol '(') ts
  if function = "count" then
    let (name, ts) ← readQuoted .name ts
    let ts ← expect (.symbol ')') ts
    return (.count name, ts)
  else if function = "bool_and" then
    let (name, ts) ← readQuoted .name ts
    let ts ← expect (.word "IS") ts
    let ts ← expect (.word "NULL") ts
    let ts ← expect (.word "OR") ts
    let ts ← expect (.word "regexp_full_match") ts
    let ts ← expect (.symbol '(') ts
    let ts ← expect (.quoted .name name) ts
    let ts ← expect (.symbol ',') ts
    let (pattern, ts) ← readQuoted .literal ts
    let ts ← expect (.symbol ')') ts
    let ts ← expect (.symbol ')') ts
    return (.allMatch name pattern, ts)
  else if function = "min" then
    let (name, ts) ← readLengthOf ts
    let ts ← expect (.symbol ')') ts
    return (.minLength name, ts)
  else if function = "max" then
    let (name, ts) ← readLengthOf ts
    let ts ← expect (.symbol ')') ts
    return (.maxLength name, ts)
  else none

/-! ## Select lists -/

def LogicalType.spaced : LogicalType → Spaced
  | .bigint => [(Token.word "BIGINT").tight]
  | .decimal width scale =>
      [(Token.word "DECIMAL").tight, (Token.symbol '(').tight, (Token.word (toString width)).tight,
        (Token.symbol ',').tight, (Token.word (toString scale)).tight, (Token.symbol ')').tight]
  | .varchar | .other _ => []

def SelectItem.phrase : SelectItem → Phrase
  | .column name => ⟨[], .quoted .name name⟩
  | .castAs name type =>
      ⟨[(Token.word "CAST").tight, (Token.symbol '(').tight, (Token.quoted .name name).blank,
          (Token.word "AS").blank] ++ type.spaced ++
        [(Token.symbol ')').blank, (Token.word "AS").blank], .quoted .name name⟩
  | .lpad name width =>
      ⟨[(Token.word "lpad").tight, (Token.symbol '(').tight, (Token.word "CAST").tight,
          (Token.symbol '(').tight, (Token.quoted .name name).blank, (Token.word "AS").blank,
          (Token.word "VARCHAR").tight, (Token.symbol ')').tight, (Token.symbol ',').blank,
          (Token.word (toString width)).tight, (Token.symbol ',').blank,
          (Token.quoted .literal "0").tight, (Token.symbol ')').blank, (Token.word "AS").blank],
        .quoted .name name⟩

/-- Casts go to the types that promotion chooses from. -/
def SelectItem.Writable : SelectItem → Prop
  | .castAs _ type => type = .bigint ∨ ∃ width scale, type = .decimal width scale
  | _ => True

theorem openzlPromoteIdent_eq (name : String) :
    (openzlPromoteIdent name).toList = (Token.quoted .name name).text := by
  rw [openzlPromoteIdent, writeQuoted, String.toList_ofList]
  rfl

theorem readNumber_repr (n : ℕ) : readNumber n.repr = some n := by
  have hdigits : n.repr.toList = Nat.toDigits 10 n := Nat.toList_repr
  have hall : n.repr.toList.all Char.isDigit = true := by
    rw [hdigits, List.all_eq_true]
    exact isDigits_toDigits n
  rw [readNumber, if_pos ⟨(valid_repr n).1, hall⟩, hdigits, digitsValue,
    Nat.ofDigitChars_ten_toDigits]

section Items

variable {item : SelectItem} {type : LogicalType}

theorem LogicalType.render_spaced
    (h : type = .bigint ∨ ∃ width scale, type = .decimal width scale) :
    render type.spaced = type.name.toList := by
  rcases h with rfl | ⟨width, scale, rfl⟩
  · rfl
  · simp [LogicalType.spaced, LogicalType.name, Token.text]

theorem readType_spaced (h : type = .bigint ∨ ∃ width scale, type = .decimal width scale)
    (rest : List Token) : readType (tokens type.spaced ++ rest) = some (type, rest) := by
  rcases h with rfl | ⟨width, scale, rfl⟩
  · simp [LogicalType.spaced, readType]
  · simp [LogicalType.spaced, readType, readNumber_repr]

theorem SelectItem.text_eq (h : item.Writable) : item.text.toList = item.phrase.text := by
  rw [Phrase.text_eq]
  cases item with
  | column name => exact openzlPromoteIdent_eq name
  | castAs name type =>
      have htype : render type.spaced = type.name.toList := LogicalType.render_spaced h
      simp only [SelectItem.text, phrase, String.toList_append, openzlPromoteIdent_eq,
        render_append, render_tight, render_blank, render_nil, htype]
      simp [Token.text]
  | lpad name width =>
      simp only [SelectItem.text, phrase, String.toList_append, openzlPromoteIdent_eq,
        render_tight, render_blank, render_nil]
      simp [Token.text, quote, Quote.char]

theorem SelectItem.legible_phrase (h : item.Writable) : item.phrase.Legible := by
  rw [Phrase.legible_iff]
  cases item with
  | column name => simp [phrase, Mode.Admits]
  | castAs name type =>
      rcases h with rfl | ⟨width, scale, rfl⟩
      · simp +decide [phrase, LogicalType.spaced, Mode.Admits, Token.mode]
      · simp +decide [phrase, LogicalType.spaced, Mode.Admits, Token.mode, valid_repr]
  | lpad name width => simp +decide [phrase, Mode.Admits, Token.mode, valid_repr]

theorem readItem_phrase (h : item.Writable) (rest : List Token) :
    readItem (item.phrase.tokens ++ rest) = some (item, rest) := by
  rw [Phrase.tokens_eq]
  cases item with
  | column name => simp [SelectItem.phrase, readItem, readWord]
  | castAs name type =>
      have htype : type = .bigint ∨ ∃ width scale, type = .decimal width scale := h
      simp [SelectItem.phrase, readItem, readAlias, readType_spaced htype]
  | lpad name width => simp [SelectItem.phrase, readItem, readAlias, readNumber_repr]

theorem foldl_selectList (items : List SelectItem) (list : String) (n : ℕ) :
    ((items.zipIdx (n + 1)).foldl (fun list item ↦
        (if 0 < item.2 then list ++ ", " else list) ++ item.1.text) list).toList =
      list.toList ++ items.flatMap fun item ↦ ", ".toList ++ item.text.toList := by
  induction items generalizing list n with
  | nil => simp
  | cons item items ih =>
      rw [List.zipIdx_cons, List.foldl_cons, ih, if_pos (Nat.succ_pos n)]
      simp

theorem selectListText_eq (items : List SelectItem) :
    (selectListText items).toList = commaText (items.map fun item ↦ item.text.toList) := by
  cases items with
  | nil => rfl
  | cons item items =>
      rw [selectListText, List.zipIdx_cons, List.foldl_cons, foldl_selectList, List.map_cons,
        commaText_cons, List.flatMap_map]
      rfl

end Items

/-! ## Patterns -/

namespace PromoteParams

variable (p : PromoteParams)

theorem text_bounded_digit (lo hi : ℕ) : (Pattern.bounded digit lo hi).text =
    "[0-9]\x7b" ++ toString lo ++ "," ++ toString hi ++ "\x7d" := rfl

theorem toString_of_nonneg {i : ℤ} (h : 0 ≤ i) : toString i = toString i.toNat := by
  obtain ⟨n, rfl⟩ := Int.eq_ofNat_of_zero_le h
  rfl

theorem fracText_eq : p.fracText = p.frac.text := by
  have hrange := p.decimal_range
  have hscale : toString p.decScale = toString p.decScale.toNat := toString_of_nonneg (by omega)
  have hone : Nat.toDigits 10 1 = ['1'] := by decide
  rw [fracText, frac, text_bounded_digit, hscale]
  apply String.toList_inj.mp
  simp [hone]

theorem intReText_eq : p.intReText = p.intRe.text := by
  have hrange := p.maxIntDigits_range
  have hdigits : toString (p.maxIntDigits - 1) = toString (p.maxIntDigits - 1).toNat :=
    toString_of_nonneg (by omega)
  have hzero : Nat.toDigits 10 0 = ['0'] := by decide
  have htext : p.intRe.text = "(" ++ (String.singleton '0' ++ "|" ++ (String.singleton '-' ++ "?" ++
      ("[" ++ String.singleton '1' ++ "-" ++ String.singleton '9' ++ "]" ++
        (Pattern.bounded digit 0 (p.maxIntDigits - 1).toNat).text))) ++ ")" := rfl
  unfold intReText
  rw [htext, text_bounded_digit, hdigits]
  apply String.toList_inj.mp
  simp [hzero]

theorem decReText_eq : p.decReText = p.decRe.text := by
  have hrange := p.decimal_range
  have hdigits : toString (p.decIntDigits - 1) = toString (p.decIntDigits - 1).toNat :=
    toString_of_nonneg (by omega)
  have hzero : Nat.toDigits 10 0 = ['0'] := by decide
  have htext : p.decRe.text = String.singleton '-' ++ "?" ++ ("(" ++
      ("(" ++ (String.singleton '0' ++ "|" ++
        ("[" ++ String.singleton '1' ++ "-" ++ String.singleton '9' ++ "]" ++
          (Pattern.bounded digit 0 (p.decIntDigits - 1).toNat).text)) ++ ")" ++
        ("(" ++ ("\\." ++ p.frac.text) ++ ")" ++ "?") ++ "|" ++ ("\\." ++ p.frac.text)) ++
          ")") := rfl
  unfold decReText
  rw [htext, text_bounded_digit, hdigits, fracText_eq]
  apply String.toList_inj.mp
  simp [hzero]

theorem quote_notMem_toDigits (n : ℕ) : '\'' ∉ Nat.toDigits 10 n := by
  intro hmem
  have hdigit := isDigits_toDigits n _ hmem
  revert hdigit
  decide

theorem quote_notMem_intRe : '\'' ∉ p.intRe.text.toList := by
  simp [intRe, digit, Pattern.text, quote_notMem_toDigits]

theorem quote_notMem_decRe : '\'' ∉ p.decRe.text.toList := by
  simp [decRe, frac, digit, Pattern.text, quote_notMem_toDigits]

end PromoteParams

/-! ## Aggregates -/

def WrittenAggregate.phrase : WrittenAggregate → Phrase
  | .count name =>
      ⟨[(Token.word "count").tight, (Token.symbol '(').tight, (Token.quoted .name name).tight],
        .symbol ')'⟩
  | .allMatch name pattern =>
      ⟨[(Token.word "bool_and").tight, (Token.symbol '(').tight, (Token.quoted .name name).blank,
          (Token.word "IS").blank, (Token.word "NULL").blank, (Token.word "OR").blank,
          (Token.word "regexp_full_match").tight, (Token.symbol '(').tight,
          (Token.quoted .name name).tight, (Token.symbol ',').blank,
          (Token.quoted .literal pattern).tight, (Token.symbol ')').tight], .symbol ')'⟩
  | .minLength name =>
      ⟨[(Token.word "min").tight, (Token.symbol '(').tight, (Token.word "length").tight,
          (Token.symbol '(').tight, (Token.quoted .name name).tight, (Token.symbol ')').tight],
        .symbol ')'⟩
  | .maxLength name =>
      ⟨[(Token.word "max").tight, (Token.symbol '(').tight, (Token.word "length").tight,
          (Token.symbol '(').tight, (Token.quoted .name name).tight, (Token.symbol ')').tight],
        .symbol ')'⟩

section Aggregates

variable {p : PromoteParams} {cols : List DescribedColumn}

theorem WrittenAggregate.legible_phrase (a : WrittenAggregate) : a.phrase.Legible := by
  rw [Phrase.legible_iff]
  cases a <;> simp +decide [phrase, Mode.Admits, Token.mode]

theorem readAggregate_phrase (a : WrittenAggregate) (rest : List Token) :
    readAggregate (a.phrase.tokens ++ rest) = some (a, rest) := by
  rw [Phrase.tokens_eq]
  cases a <;> simp [WrittenAggregate.phrase, readAggregate, readLengthOf]

theorem text_allMatch (name : String) {pattern : String} (h : '\'' ∉ pattern.toList) :
    (WrittenAggregate.allMatch name pattern).phrase.text = "bool_and(".toList ++
      (openzlPromoteIdent name).toList ++ " IS NULL OR regexp_full_match(".toList ++
      (openzlPromoteIdent name).toList ++ ", '".toList ++ pattern.toList ++ "'))".toList := by
  have hquote : quote Quote.literal.char pattern.toList = '\'' :: pattern.toList ++ ['\''] :=
    quote_of_notMem h
  rw [Phrase.text_eq, openzlPromoteIdent_eq]
  simp only [WrittenAggregate.phrase, render_tight, render_blank, render_nil]
  simp [Token.text, hquote]

theorem text_count (name : String) : (WrittenAggregate.count name).phrase.text =
    "count(".toList ++ (openzlPromoteIdent name).toList ++ ")".toList := by
  rw [Phrase.text_eq, openzlPromoteIdent_eq]
  simp [WrittenAggregate.phrase, Token.text]

theorem text_minLength (name : String) : (WrittenAggregate.minLength name).phrase.text =
    "min(length(".toList ++ (openzlPromoteIdent name).toList ++ "))".toList := by
  rw [Phrase.text_eq, openzlPromoteIdent_eq]
  simp [WrittenAggregate.phrase, Token.text]

theorem text_maxLength (name : String) : (WrittenAggregate.maxLength name).phrase.text =
    "max(length(".toList ++ (openzlPromoteIdent name).toList ++ "))".toList := by
  rw [Phrase.text_eq, openzlPromoteIdent_eq]
  simp [WrittenAggregate.phrase, Token.text]

theorem PromoteParams.aggregatesText_eq (p : PromoteParams) (name : String) :
    (p.aggregatesText name).toList =
      commaText ((p.aggregatesOf name).map fun a ↦ a.written.phrase.text) := by
  have hint := text_allMatch name p.quote_notMem_intRe
  have hdec := text_allMatch name p.quote_notMem_decRe
  have hplus : digitsRe.text.toList = "[0-9]+".toList := rfl
  have hplain : '\'' ∉ digitsRe.text.toList := by decide
  have hdigits := text_allMatch name hplain
  rw [hplus] at hdigits
  unfold aggregatesText
  dsimp only
  rw [intReText_eq, decReText_eq]
  cases hfixed : p.fixedWidth with
  | false =>
      simp only [aggregatesOf, hfixed]
      simp [commaText_cons, Aggregate.written, text_count, hint, hdec]
  | true =>
      simp only [aggregatesOf, hfixed]
      simp [commaText_cons, Aggregate.written, text_count, hint, hdec, hdigits, text_minLength,
        text_maxLength]

theorem WrittenAggregate.text_ne_nil (a : WrittenAggregate) : a.phrase.text ≠ [] := by
  rw [Phrase.text_eq]
  cases a <;> simp [phrase, Token.text]

theorem foldl_aggs (cols : List DescribedColumn) {list : String} (done : List Aggregate)
    (h : list.toList = commaText (done.map fun a ↦ a.written.phrase.text)) :
    (cols.foldl (fun aggs c ↦
        if c.isVarchar then
          (if aggs = "" then aggs else aggs ++ ", ") ++ p.aggregatesText c.name
        else aggs) list).toList =
      commaText ((done ++ (cols.filter DescribedColumn.isVarchar).flatMap fun c ↦
        p.aggregatesOf c.name).map fun a ↦ a.written.phrase.text) := by
  induction cols generalizing list done with
  | nil => simpa using h
  | cons c cols ih =>
      rw [List.foldl_cons]
      by_cases hc : c.isVarchar = true
      · rw [if_pos hc, List.filter_cons_of_pos hc, List.flatMap_cons, ← List.append_assoc]
        apply ih (done ++ p.aggregatesOf c.name)
        have hsome : (p.aggregatesOf c.name).map (fun a ↦ a.written.phrase.text) ≠ [] := by
          simp [PromoteParams.aggregatesOf]
        rw [String.toList_append, PromoteParams.aggregatesText_eq, List.map_append]
        cases done with
        | nil =>
            obtain rfl : list = "" := String.toList_inj.mp h
            rfl
        | cons a done =>
            have hlist : list ≠ "" := by
              rintro rfl
              rw [List.map_cons, commaText_cons] at h
              exact a.written.text_ne_nil (List.append_eq_nil_iff.mp h.symm).1
            have hdone : (a :: done).map (fun a ↦ a.written.phrase.text) ≠ [] :=
              List.cons_ne_nil _ _
            rw [if_neg hlist, String.toList_append, h, commaText_append hdone hsome]
            simp
      · rw [if_neg hc, List.filter_cons_of_neg hc]
        exact ih done h

theorem aggs_eq_flatMap (p : PromoteParams) (cols : List DescribedColumn) :
    aggs p cols = (cols.filter DescribedColumn.isVarchar).flatMap fun c ↦
      p.aggregatesOf c.name := by
  induction cols with
  | nil => rfl
  | cons c cols ih =>
      have hrest : aggs p (c :: cols) =
          (if c.isVarchar then p.aggregatesOf c.name else []) ++ aggs p cols := by
        unfold aggs aggCol
        rw [List.length_cons, List.range_succ_eq_map, List.filter_cons, List.filter_map]
        cases hc : c.isVarchar <;>
          simp [hc, List.flatMap_map, Function.comp_def]
      rw [hrest, ih, List.filter_cons]
      cases hc : c.isVarchar <;> simp

theorem aggsText_eq (p : PromoteParams) (cols : List DescribedColumn) :
    (aggsText p cols).toList = commaText ((aggs p cols).map fun a ↦ a.written.phrase.text) := by
  rw [aggs_eq_flatMap]
  exact foldl_aggs cols [] rfl

end Aggregates

/-! ## The whole statements -/

section Statements

variable {p : PromoteParams} {cols : List DescribedColumn} {verdict : List (Option LogicalType)}

theorem readSelect_selectSql {data : OpenzlPromoteBindData} (hne : data.selectList ≠ [])
    (hitems : ∀ item ∈ data.selectList, item.Writable) (tail : Text) :
    (lex (data.selectSql.toList ++ tail)).bind (readSelect readItem) =
      (lex (data.source.toList ++ tail)).map (data.selectList, ·) := by
  have htexts : data.selectList.map (fun item ↦ item.text.toList) =
      data.selectList.map fun item ↦ item.phrase.text :=
    List.map_congr_left fun item hitem ↦ SelectItem.text_eq (hitems item hitem)
  have hsql : data.selectSql.toList ++ tail =
      selectText (data.selectList.map fun item ↦ item.phrase.text)
        (data.source.toList ++ tail) := by
    unfold OpenzlPromoteBindData.selectSql selectText
    simp only [String.toList_append, selectListText_eq, htexts, List.append_assoc]
  rw [hsql]
  apply readSelect_selectText hne
  · exact fun item hitem ↦ SelectItem.legible_phrase (hitems item hitem)
  · exact fun item hitem ↦ readItem_phrase (hitems item hitem)

theorem PromoteParams.verdictOf_cases {cell : ℕ → Cell} {type : LogicalType}
    (h : p.verdictOf cell = some type) :
    type = .bigint ∨ ∃ width scale, type = .decimal width scale := by
  unfold verdictOf at h
  split at h
  · cases h
  split at h
  · exact .inl (Option.some.inj h).symm
  split at h
  · exact .inr ⟨_, 0, (Option.some.inj h).symm⟩
  · split at h
    · exact .inr ⟨_, _, (Option.some.inj h).symm⟩
    · cases h

/-- The analysis decides on nothing but a BIGINT or a DECIMAL. -/
theorem writable_of_analyzePromote {host : HostFunctions} {db : Database β}
    (h : analyzePromote host p cols db = .ok verdict) {item : SelectItem}
    (hitem : item ∈ (promoteBindData p cols verdict).selectList) : item.Writable := by
  have hverdict : ∀ type, some type ∈ verdict →
      type = .bigint ∨ ∃ width scale, type = .decimal width scale := by
    intro type hmem
    unfold analyzePromote at h
    dsimp only at h
    split at h
    · obtain rfl := Except.ok.inj h
      cases List.eq_of_mem_replicate hmem
    · split at h
      · obtain rfl := Except.ok.inj h
        rcases mem_scatter hmem with hnone | hwritten
        · cases List.eq_of_mem_replicate hnone
        · rw [List.map_map] at hwritten
          obtain ⟨ik, -, hik⟩ := List.mem_map.mp hwritten
          have hat : verdictAt p _ ik.2 = some type := hik
          exact PromoteParams.verdictOf_cases hat
      · cases h
  obtain ⟨c, v, hzip, rfl⟩ : ∃ c v, (c, v) ∈ cols.zip verdict ∧ selectItem c v = item := by
    have hmap : (promoteBindData p cols verdict).selectList =
        (cols.zip verdict).map fun cv ↦ selectItem cv.1 cv.2 :=
      List.map_uncurry_zip_eq_zipWith.symm
    rw [hmap] at hitem
    obtain ⟨cv, hmem, hcv⟩ := List.mem_map.mp hitem
    exact ⟨cv.1, cv.2, hmem, hcv⟩
  cases v with
  | none => exact trivial
  | some type => exact hverdict type (List.of_mem_zip hzip).2

theorem length_of_analyzePromote {host : HostFunctions} {db : Database β}
    (h : analyzePromote host p cols db = .ok verdict) : verdict.length = cols.length := by
  unfold analyzePromote at h
  dsimp only at h
  split at h
  · obtain rfl := Except.ok.inj h
    exact List.length_replicate
  · split at h
    · obtain rfl := Except.ok.inj h
      rw [length_scatter, List.length_replicate]
    · cases h

theorem readSelect_analysisSql (h : aggs p cols ≠ []) :
    (lex (analysisSql p cols).toList).bind (readSelect readAggregate) =
      (lex p.table.toList).map ((aggs p cols).map Aggregate.written, ·) := by
  have hsql : (analysisSql p cols).toList =
      selectText (((aggs p cols).map Aggregate.written).map fun a ↦ a.phrase.text)
        p.table.toList := by
    unfold analysisSql selectText
    simp only [String.toList_append, aggsText_eq, List.map_map, List.append_assoc]
    rfl
  rw [hsql]
  apply readSelect_selectText (List.map_eq_nil_iff.not.mpr h)
  · exact fun a _ ↦ a.legible_phrase
  · exact fun a _ ↦ readAggregate_phrase a

theorem lex_restoreSource (path : String) (tail : Text) :
    lex ((restoreSource path).toList ++ tail) = (lex tail).map
      ([.word "read_openzl", .symbol '(', .quoted .literal path, .symbol ')'] ++ ·) := by
  have hlegible : Legible .between [(Token.word "read_openzl").tight, (Token.symbol '(').tight,
      (Token.quoted .literal path).tight, (Token.symbol ')').tight] := by
    simp +decide [Mode.Admits, Token.mode]
  have htext : (restoreSource path).toList = render [(Token.word "read_openzl").tight,
      (Token.symbol '(').tight, (Token.quoted .literal path).tight, (Token.symbol ')').tight] := by
    have hquoted : (writeQuoted path '\'').toList = (Token.quoted .literal path).text := by
      rw [writeQuoted, String.toList_ofList]
      rfl
    simp only [restoreSource, String.toList_append, hquoted, render_tight, render_nil]
    simp [Token.text]
  rw [htext]
  exact lex_render_append hlegible rfl tail

/-- The two statements of a promotion and the statement of a restoration read back as what they
were made from, whatever the columns and the file are called. -/
theorem statements_read_back {host : HostFunctions} {db : Database β} (path : String)
    (hcols : cols ≠ []) (hverdict : analyzePromote host p cols db = .ok verdict) :
    (aggs p cols ≠ [] → (lex (analysisSql p cols).toList).bind (readSelect readAggregate) =
      (lex p.table.toList).map ((aggs p cols).map Aggregate.written, ·)) ∧
    (∀ tail : Text, (lex ((promoteBindData p cols verdict).selectSql.toList ++ tail)).bind
        (readSelect readItem) =
      (lex (p.table.toList ++ tail)).map ((promoteBindData p cols verdict).selectList, ·)) ∧
    ∀ tail : Text, (lex ((OpenzlPromoteBindData.mk (cols.map restoreItem)
        (restoreSource path)).selectSql.toList ++ tail)).bind (readSelect readItem) =
      (lex tail).map fun ts ↦ (cols.map restoreItem,
        .word "read_openzl" :: .symbol '(' :: .quoted .literal path :: .symbol ')' :: ts) := by
  refine ⟨readSelect_analysisSql, fun tail ↦ ?_, fun tail ↦ ?_⟩
  · apply readSelect_selectSql
    · have hlen := length_of_analyzePromote hverdict
      intro hnil
      have hzero := congrArg List.length hnil
      rw [promoteBindData, List.length_zipWith, hlen, Nat.min_self] at hzero
      exact hcols (List.eq_nil_of_length_eq_zero hzero)
    · exact fun item hitem ↦ writable_of_analyzePromote hverdict hitem
  · have hwritable : ∀ item ∈ cols.map restoreItem, item.Writable := by
      intro item hitem
      obtain ⟨c, -, rfl⟩ := List.mem_map.mp hitem
      unfold restoreItem
      dsimp only
      split <;> exact trivial
    refine (readSelect_selectSql (List.map_eq_nil_iff.not.mpr hcols) hwritable tail).trans ?_
    dsimp only
    rw [lex_restoreSource, Option.map_map]
    rfl

end Statements

/-- A column with a quote in its name. -/
def quotedName : Table Unit where
  columns := [⟨"a\"b", .varchar [some "7".toList, none]⟩]
  rows := 2
  rows_eq := by simp [ColumnData.rows]
  names_nodup := List.nodup_singleton _

theorem statements_read_back_quotedName :
    (lex ((promoteBindData fixedWidthParams quotedName.described [some .bigint]).selectSql.toList ++
        " LIMIT 0".toList)).bind (readSelect readItem) =
      some ([.castAs "a\"b" .bigint], [.word "mixed", .word "LIMIT", .word "0"]) ∧
    (lex (OpenzlPromoteBindData.mk (quotedName.described.map restoreItem)
        (restoreSource "it's.zl")).selectSql.toList).bind (readSelect readItem) =
      some ([.column "a\"b"], [.word "read_openzl", .symbol '(', .quoted .literal "it's.zl",
        .symbol ')']) := by
  have hcols : quotedName.described ≠ [] := by decide
  have hverdict : analyzePromote .plain fixedWidthParams quotedName.described
      (fun _ ↦ some quotedName) = .ok [some .bigint] := rfl
  obtain ⟨-, hselect, hrestore⟩ := statements_read_back "it's.zl" hcols hverdict
  have hlast := hrestore []
  rw [List.append_nil] at hlast
  exact ⟨hselect " LIMIT 0".toList, hlast⟩

end DuckdbOpenzl
