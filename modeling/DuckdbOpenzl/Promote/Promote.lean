import DuckdbOpenzl.FileSystem.OpenFile
import DuckdbOpenzl.Library.FlatRows
import DuckdbOpenzl.Library.MapM
import DuckdbOpenzl.Promote.Table

/-!
# `openzl_promote` and `openzl_restore`

Binding `openzl_promote` sends three queries, each of which reads what is
committed at that moment: DESCRIBE, one row of aggregates over the VARCHAR
columns, and the select list with `LIMIT 0`. The scan then runs the select
list. `openzl_restore` decides from the printed types alone.
-/

set_option autoImplicit false

namespace DuckdbOpenzl

open TextPattern FlatRows

variable {β : Type}

/-- `int64_t` addition. -/
def wrap64 (v : ℤ) : ℤ := v.bmod (2 ^ 64)

/-! ## Parameters -/

/-- A NULL argument is `none`, and so is a named parameter that is missing or NULL. -/
structure PromoteInput where
  table : Option String
  maxIntDigits : Option ℤ := none
  decimalIntDigits : Option ℤ := none
  decimalScale : Option ℤ := none
  promoteDecimal : Option Bool := none
  fixedWidth : Option Bool := none

/-- The parameters of an accepted call. -/
structure PromoteParams where
  table : String
  maxIntDigits : ℤ
  decIntDigits : ℤ
  decScale : ℤ
  promoteDecimal : Bool
  fixedWidth : Bool
  maxIntDigits_range : ¬(maxIntDigits < 1 ∨ 18 < maxIntDigits)
  decimal_range : ¬(decScale < 1 ∨ decIntDigits < 1 ∨ 18 < wrap64 (decIntDigits + decScale))

def promoteParams (input : PromoteInput) : Except Exception PromoteParams :=
  match input.table with
  | none => .error (.binder "openzl_promote: table name must not be NULL")
  | some table =>
      if table = "" ∨ ';' ∈ table.toList then
        .error (.binder ("openzl_promote: expected a table or view name, got '" ++ table ++ "'"))
      else
        let maxIntDigits := input.maxIntDigits.getD 18
        let decIntDigits := input.decimalIntDigits.getD 12
        let decScale := input.decimalScale.getD 6
        if hmax : maxIntDigits < 1 ∨ 18 < maxIntDigits then
          .error (.binder "openzl_promote: max_int_digits must be between 1 and 18")
        else if hdec : decScale < 1 ∨ decIntDigits < 1 ∨ 18 < wrap64 (decIntDigits + decScale) then
          .error (.binder ("openzl_promote: decimal_scale and decimal_int_digits must be >= 1 " ++
            "and sum to at most 18"))
        else
          .ok { table := table
                maxIntDigits := maxIntDigits
                decIntDigits := decIntDigits
                decScale := decScale
                promoteDecimal := input.promoteDecimal.getD true
                fixedWidth := input.fixedWidth.getD false
                maxIntDigits_range := hmax
                decimal_range := hdec }

/-! ## Patterns and types -/

namespace PromoteParams

/-- `[0-9]` -/
def digit : Pattern := .range '0' '9'

variable (p : PromoteParams)

def intRe : Pattern :=
  .group (.alt (.char '0') (.seq (.opt (.char '-'))
    (.seq (.range '1' '9') (.bounded digit 0 (p.maxIntDigits - 1).toNat))))

def frac : Pattern := .bounded digit 1 p.decScale.toNat

def decRe : Pattern :=
  .seq (.opt (.char '-')) (.group (.alt
    (.seq (.group (.alt (.char '0')
        (.seq (.range '1' '9') (.bounded digit 0 (p.decIntDigits - 1).toNat))))
      (.opt (.group (.seq (.char '.') p.frac))))
    (.seq (.char '.') p.frac)))

def digitsRe : Pattern := .plus digit

-- a sum that wrapped never gets this far: its pattern does not compile
def decType : LogicalType :=
  .decimal (wrap64 (p.decIntDigits + p.decScale)).toNat p.decScale.toNat

/-! ## Verdicts -/

/-- The aggregates of one VARCHAR column. -/
def aggregatesOf (name : String) : List Aggregate :=
  [.count name, .allMatch name p.intRe, .allMatch name p.decRe] ++
    if p.fixedWidth then [.allMatch name digitsRe, .minLength name, .maxLength name] else []

def stride : ℕ := if p.fixedWidth then 6 else 3

/-- `width`, when `digits_fixed` holds. -/
def fixedWidthOf (cell : ℕ → Cell) : Option ℕ :=
  if p.fixedWidth then
    match (cell 4).int?, (cell 5).int? with
    | some minLen, some maxLen =>
        if (cell 3).isTrue ∧ minLen = maxLen ∧ 2 ≤ minLen ∧ minLen ≤ 18 then some minLen.toNat
        else none
    | _, _ => none
  else none

/-- The verdict on a column from the cells of its aggregates. -/
def verdictOf (cell : ℕ → Cell) : Option LogicalType :=
  if (cell 0).int? = none ∨ (cell 0).int? = some 0 then none
  else if (cell 1).isTrue then some .bigint
  else match p.fixedWidthOf cell with
    | some width => some (.decimal width 0)
    | none => if p.promoteDecimal ∧ (cell 2).isTrue then some p.decType else none

end PromoteParams

/-! ## Binding `openzl_promote` -/

/-- A column as DESCRIBE reports it. -/
structure DescribedColumn where
  name : String
  type : String

def describe (source : String) (db : Database β) : Except QueryError (List DescribedColumn) :=
  match db source with
  | none => .error (.noSuchTable source)
  | some r => .ok (r.columns.map fun c ↦ ⟨c.name, c.data.type.name⟩)

def DescribedColumn.isVarchar (c : DescribedColumn) : Bool := c.type == "VARCHAR"

/-- `col_names` and `is_varchar` -/
def describePromote (host : HostFunctions) (p : PromoteParams) (db : Database β) :
    Except Exception (List DescribedColumn) :=
  match describe p.table db with
  | .ok cols => .ok cols
  | .error e =>
      .error (.binder ("openzl_promote: cannot read '" ++ p.table ++ "': " ++ host.message e))

/-- `agg_col` -/
def aggCol (cols : List DescribedColumn) : List ℕ :=
  (List.range cols.length).filter fun i ↦ cols[i]?.any DescribedColumn.isVarchar

def aggs (p : PromoteParams) (cols : List DescribedColumn) : List Aggregate :=
  (aggCol cols).flatMap fun i ↦ (cols[i]?.map fun c ↦ p.aggregatesOf c.name).getD []

/-- `SELECT aggs FROM table`, one row. -/
def aggregate (items : List Aggregate) (source : String) (db : Database β) :
    Except QueryError (List Cell) :=
  match db source with
  | none => .error (.noSuchTable source)
  | some r => items.mapM (·.eval r)

/-- The verdict on the column of aggregate block `k`. -/
def verdictAt (p : PromoteParams) (stats : List Cell) (k : ℕ) : Option LogicalType :=
  p.verdictOf fun j ↦ stats[p.stride * k + j]?.getD .null

def analyzePromote (host : HostFunctions) (p : PromoteParams) (cols : List DescribedColumn)
    (db : Database β) : Except Exception (List (Option LogicalType)) :=
  let verdict := List.replicate cols.length none
  if aggs p cols = [] then .ok verdict
  else match aggregate (aggs p cols) p.table db with
    | .ok stats => .ok (scatter verdict ((aggCol cols).zipIdx.map fun ik ↦
        (ik.1, verdictAt p stats ik.2)))
    | .error e =>
        .error (.io ("openzl_promote: analysis of '" ++ p.table ++ "' failed: " ++ host.message e))

/-- `select_sql` -/
structure OpenzlPromoteBindData where
  selectList : List SelectItem
  source : String

structure BoundFunction where
  bindData : OpenzlPromoteBindData
  returnTypes : List LogicalType
  names : List String

def selectItem (c : DescribedColumn) : Option LogicalType → SelectItem
  | none => .column c.name
  | some type => .castAs c.name type

/-- Run a select list, as of some commit. -/
def OpenzlPromoteBindData.run (host : HostFunctions) (data : OpenzlPromoteBindData)
    (db : Database β) : Except QueryError (List (Column β)) :=
  match db data.source with
  | none => .error (.noSuchTable data.source)
  | some r => select host data.selectList r

def OpenzlPromoteBindData.runLimitZero (host : HostFunctions) (data : OpenzlPromoteBindData)
    (db : Database β) : Except QueryError (List (Column β)) :=
  match db data.source with
  | none => .error (.noSuchTable data.source)
  | some r => select host data.selectList r.limitZero

def bindSchema (host : HostFunctions) (function : String) (data : OpenzlPromoteBindData)
    (db : Database β) : Except Exception BoundFunction :=
  match data.runLimitZero host db with
  | .ok columns => .ok { bindData := data
                         returnTypes := columns.map fun c ↦ c.data.type
                         names := columns.map Column.name }
  | .error e => .error (.io (function ++ ": " ++ host.message e))

def promoteBindData (p : PromoteParams) (cols : List DescribedColumn)
    (verdict : List (Option LogicalType)) : OpenzlPromoteBindData where
  selectList := List.zipWith selectItem cols verdict
  source := p.table

/-- The three queries of the bind may see three different commits. -/
def openzlPromoteBind (host : HostFunctions) (input : PromoteInput)
    (atDescribe atAnalysis atSchema : Database β) : Except Exception BoundFunction := do
  let p ← promoteParams input
  let cols ← describePromote host p atDescribe
  let verdict ← analyzePromote host p cols atAnalysis
  bindSchema host "openzl_promote" (promoteBindData p cols verdict) atSchema

/-! ## The scan -/

/-- The query that a scan has sent, the rows that its connection sees, and how many of them were
fetched. -/
structure OpenzlPromoteGlobalState (β : Type) where
  items : List SelectItem
  table : Table β
  fetched : ℕ

def OpenzlPromoteGlobalState.rows (g : OpenzlPromoteGlobalState β) (count : ℕ) : Table β :=
  g.table.slice g.fetched count

/-- The query is planned when it is sent. -/
def openzlPromoteInitGlobal (host : HostFunctions) (data : OpenzlPromoteBindData)
    (db : Database β) : Except Exception (OpenzlPromoteGlobalState β) :=
  match db data.source with
  | none => .error (.io ("openzl_promote: " ++ host.message (.noSuchTable data.source)))
  | some r =>
      match select host data.selectList r.limitZero with
      | .ok _ => .ok ⟨data.selectList, r, 0⟩
      | .error e => .error (.io ("openzl_promote: " ++ host.message e))

/-- What the host does on `Fetch`: it takes the next rows, none at the end, or fails by itself. -/
inductive FetchReply where
  | chunk (count : ℕ)
  | failed (message : String)

/-- One chunk. It is handed on before the next one is fetched. -/
def openzlPromoteFunction (host : HostFunctions) (g : OpenzlPromoteGlobalState β) :
    FetchReply → Except Exception (List (Column β) × OpenzlPromoteGlobalState β)
  | .failed message => .error (.io ("openzl_promote: " ++ message))
  | .chunk count =>
      match select host g.items (g.rows count) with
      | .ok columns => .ok (columns, { g with fetched := g.fetched + count })
      | .error e => .error (.io ("openzl_promote: " ++ host.message e))

/-- A scan to its end, with all its chunks in one piece. -/
def openzlPromoteScan (host : HostFunctions) (data : OpenzlPromoteBindData) (db : Database β) :
    Except Exception (List (Column β)) :=
  match data.run host db with
  | .ok columns => .ok columns
  | .error e => .error (.io ("openzl_promote: " ++ host.message e))

/-! ## Binding `openzl_restore` -/

/-- `KeywordHelper::WriteQuoted` -/
def writeQuoted (text : String) (quote : Char) : String :=
  String.ofList (quote :: (text.toList.flatMap fun c ↦ if c = quote then [quote, quote] else [c]) ++
    [quote])

/-- `std::atoi` -/
def atoi (s : List Char) : ℤ :=
  let s := s.dropWhile Char.isWhitespace
  let negative := s.head? == some '-'
  let s := if negative || s.head? == some '+' then s.tail else s
  DecimalText.signed negative (DecimalText.digitsValue (s.takeWhile Char.isDigit))

/-- The `width` of a column to pad, 0 if its type is not printed like `DECIMAL(L,0)`. -/
def restoreWidth (type : String) : ℤ :=
  let t := type.toList
  if 11 < t.length ∧ t.take 8 = "DECIMAL(".toList ∧ t.drop (t.length - 3) = ",0)".toList then
    atoi ((t.drop 8).take (t.length - 11))
  else 0

def restoreItem (c : DescribedColumn) : SelectItem :=
  let width := restoreWidth c.type
  if 2 ≤ width ∧ width ≤ 18 then .lpad c.name width.toNat else .column c.name

def restoreSource (path : String) : String := "read_openzl(" ++ writeQuoted path '\'' ++ ")"

def openzlRestoreBind (host : HostFunctions) (path : Option String)
    (atDescribe atSchema : Database β) : Except Exception BoundFunction :=
  match path with
  | none => .error (.binder "openzl_restore: path must not be NULL")
  | some path =>
      match describe (restoreSource path) atDescribe with
      | .error e =>
          .error (.io ("openzl_restore: cannot read '" ++ path ++ "': " ++ host.message e))
      | .ok cols =>
          bindSchema host "openzl_restore" ⟨cols.map restoreItem, restoreSource path⟩ atSchema

/-! ## Running a select list -/

section SelectLists

variable {host : HostFunctions} {db : Database β} {r : Table β} {items : List SelectItem}
  {source : String} {out : List (Column β)}

theorem select_map_eq_ok_iff {ι : Type} {xs : List ι} {item : ι → SelectItem} :
    select host (xs.map item) r = .ok out ↔
      List.Forall₂ (fun x c ↦ (item x).eval host r = .ok c) xs out :=
  MapM.except_iff.trans List.forall₂_map_left_iff

theorem openzlPromoteScan_eq_ok_iff (hdb : db source = some r) :
    openzlPromoteScan host ⟨items, source⟩ db = .ok out ↔ select host items r = .ok out := by
  rw [openzlPromoteScan, OpenzlPromoteBindData.run]
  dsimp only
  rw [hdb]
  dsimp only
  cases select host items r with
  | ok columns => simp only [Except.ok.injEq]
  | error e => exact ⟨nofun, nofun⟩

theorem castTexts_slice {f : Text → Option ℤ} {values : List (Option Text)}
    {results : List (Option ℤ)} (first count : ℕ) (h : castTexts f values = some results) :
    castTexts f ((values.drop first).take count) = some ((results.drop first).take count) :=
  MapM.option_iff.mpr (List.forall₂_take count (List.forall₂_drop first (MapM.option_iff.mp h)))

theorem Table.column?_slice (r : Table β) (first count : ℕ) (name : String) :
    (r.slice first count).column? name = (r.column? name).map (Column.slice first count) := by
  rw [column?, slice, List.find?_map]
  rfl

variable {c d : Column β}

theorem castColumn_slice {type : LogicalType} (first count : ℕ)
    (h : castColumn host c type = .ok d) :
    castColumn host (c.slice first count) type = .ok (d.slice first count) := by
  obtain ⟨name, data⟩ := c
  cases type with
  | varchar | other => cases h
  | bigint =>
      cases data with
      | bigint | decimal | other => cases h
      | varchar values =>
          cases hcast : castTexts host.toBigint values with
          | none => simp [castColumn, hcast] at h
          | some results =>
              obtain rfl : (⟨name, .bigint results⟩ : Column β) = d := by
                simpa [castColumn, hcast] using h
              simp only [castColumn, Column.slice, ColumnData.slice,
                castTexts_slice first count hcast]
  | decimal width scale =>
      cases data with
      | bigint | decimal | other => cases h
      | varchar values =>
          cases hcast : castTexts (host.toDecimal width scale) values with
          | none => simp [castColumn, hcast] at h
          | some results =>
              obtain rfl : (⟨name, .decimal width scale results⟩ : Column β) = d := by
                simpa [castColumn, hcast] using h
              simp only [castColumn, Column.slice, ColumnData.slice,
                castTexts_slice first count hcast]

theorem padColumn_slice {width : ℕ} (first count : ℕ) (h : padColumn host c width = .ok d) :
    padColumn host (c.slice first count) width = .ok (d.slice first count) := by
  obtain ⟨name, data⟩ := c
  cases data with
  | varchar | bigint | other => cases h
  | decimal w scale values =>
      obtain rfl := Except.ok.inj h
      simp only [padColumn, Column.slice, ColumnData.slice, List.map_take, List.map_drop]

theorem SelectItem.eval_slice {item : SelectItem} (first count : ℕ)
    (h : item.eval host r = .ok d) :
    item.eval host (r.slice first count) = .ok (d.slice first count) := by
  unfold eval at h ⊢
  rw [r.column?_slice]
  cases hcolumn : r.column? item.name with
  | none =>
      rw [hcolumn] at h
      cases h
  | some c =>
      rw [hcolumn] at h
      cases item with
      | column name =>
          obtain rfl : c = d := Except.ok.inj h
          rfl
      | castAs name type => exact castColumn_slice first count h
      | lpad name width => exact padColumn_slice first count h

theorem select_slice (first count : ℕ) (h : select host items r = .ok out) :
    select host items (r.slice first count) = .ok (out.map (Column.slice first count)) := by
  refine MapM.except_iff.mpr (List.forall₂_map_right_iff.mpr ?_)
  exact (MapM.except_iff.mp h).imp fun item d hd ↦ SelectItem.eval_slice first count hd

/-- Where the whole table goes through, each chunk is a piece of what comes out. -/
theorem openzlPromoteFunction_of_scan (hdb : db source = some r) (fetched count : ℕ)
    (h : openzlPromoteScan host ⟨items, source⟩ db = .ok out) :
    openzlPromoteFunction host ⟨items, r, fetched⟩ (.chunk count) =
      .ok (out.map (Column.slice fetched count), ⟨items, r, fetched + count⟩) := by
  have hselect := select_slice fetched count ((openzlPromoteScan_eq_ok_iff hdb).mp h)
  simp only [openzlPromoteFunction, OpenzlPromoteGlobalState.rows, hselect]

theorem bindSchema_of_select (function : String) (hdb : db source = some r)
    (hselect : select host items r.limitZero = .ok out) :
    bindSchema host function ⟨items, source⟩ db =
      .ok ⟨⟨items, source⟩, out.map fun c ↦ c.data.type, out.map Column.name⟩ := by
  rw [bindSchema, OpenzlPromoteBindData.runLimitZero]
  dsimp only
  rw [hdb]
  dsimp only
  rw [hselect]

end SelectLists

end DuckdbOpenzl
