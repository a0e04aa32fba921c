import DuckdbOpenzl.Library.DecimalText
import DuckdbOpenzl.Library.TextPattern
import Mathlib.Data.Rat.Floor

/-!
# Tables, and the queries that promotion sends

Columns carry their values at their type, NULL as `none`. Values of the types
that promotion never touches are left abstract. What the host's casts and text
functions do is a parameter, with the documented part of it in
`HostFunctions.Documented`.
-/

set_option autoImplicit false

namespace DuckdbOpenzl

open DecimalText TextPattern

abbrev Text := List Char

/-! ## Types and columns -/

/-- A type other than VARCHAR, BIGINT and DECIMAL, by its printed name. Nested types such as
`DECIMAL(4,0)[]` may start like a DECIMAL but then do not end like one. -/
structure OtherType where
  name : String
  notVarchar : name ≠ "VARCHAR"
  notDecimal : "DECIMAL(".toList <+: name.toList → ¬ [')'] <:+ name.toList

inductive LogicalType where
  | varchar
  | bigint
  | decimal (width scale : ℕ)
  | other (type : OtherType)

/-- `LogicalType::ToString` -/
def LogicalType.name : LogicalType → String
  | .varchar => "VARCHAR"
  | .bigint => "BIGINT"
  | .decimal width scale => "DECIMAL(" ++ toString width ++ "," ++ toString scale ++ ")"
  | .other type => type.name

/-- The values of a column; a DECIMAL is stored in units of its last digit. -/
inductive ColumnData (β : Type) where
  | varchar (values : List (Option Text))
  | bigint (values : List (Option ℤ))
  | decimal (width scale : ℕ) (values : List (Option ℤ))
  | other (type : OtherType) (values : List (Option β))

structure Column (β : Type) where
  name : String
  data : ColumnData β

variable {β : Type}

namespace ColumnData

def type : ColumnData β → LogicalType
  | .varchar _ => .varchar
  | .bigint _ => .bigint
  | .decimal width scale _ => .decimal width scale
  | .other type _ => .other type

def rows : ColumnData β → ℕ
  | .varchar values => values.length
  | .bigint values => values.length
  | .decimal _ _ values => values.length
  | .other _ values => values.length

/-- `count(c)` -/
def count : ColumnData β → ℕ
  | .varchar values => values.countP Option.isSome
  | .bigint values => values.countP Option.isSome
  | .decimal _ _ values => values.countP Option.isSome
  | .other _ values => values.countP Option.isSome

/-- The column without its rows, as a query with `LIMIT 0` sees it. -/
def limitZero : ColumnData β → ColumnData β
  | .varchar _ => .varchar []
  | .bigint _ => .bigint []
  | .decimal width scale _ => .decimal width scale []
  | .other type _ => .other type []

/-- The rows `first`, ..., `first + count - 1`, as far as there are any. -/
def slice (first count : ℕ) : ColumnData β → ColumnData β
  | .varchar values => .varchar ((values.drop first).take count)
  | .bigint values => .bigint ((values.drop first).take count)
  | .decimal width scale values => .decimal width scale ((values.drop first).take count)
  | .other type values => .other type ((values.drop first).take count)

theorem rows_slice (first count : ℕ) (data : ColumnData β) :
    (data.slice first count).rows = min count (data.rows - first) := by
  cases data <;> simp only [slice, rows, List.length_take, List.length_drop]

theorem type_slice (first count : ℕ) (data : ColumnData β) :
    (data.slice first count).type = data.type := by
  cases data <;> rfl

end ColumnData

def Column.slice (first count : ℕ) (c : Column β) : Column β :=
  { c with data := c.data.slice first count }

/-- A table, or whatever else stands after FROM. -/
structure Table (β : Type) where
  columns : List (Column β)
  rows : ℕ
  rows_eq : ∀ c ∈ columns, c.data.rows = rows
  names_nodup : (columns.map Column.name).Nodup

def Table.column? (r : Table β) (name : String) : Option (Column β) :=
  r.columns.find? fun c ↦ c.name == name

def Table.limitZero (r : Table β) : Table β where
  columns := r.columns.map fun c ↦ { c with data := c.data.limitZero }
  rows := 0
  rows_eq := by
    intro c hc
    obtain ⟨d, -, rfl⟩ := List.mem_map.mp hc
    cases d.data <;> rfl
  names_nodup := by
    rw [List.map_map]
    exact r.names_nodup

/-- The rows of a chunk. -/
def Table.slice (r : Table β) (first count : ℕ) : Table β where
  columns := r.columns.map (Column.slice first count)
  rows := min count (r.rows - first)
  rows_eq := by
    intro c hc
    obtain ⟨d, hd, rfl⟩ := List.mem_map.mp hc
    rw [← r.rows_eq d hd]
    exact d.data.rows_slice first count
  names_nodup := by
    rw [List.map_map]
    exact r.names_nodup

/-- What the FROM clauses of the queries read, as of some commit. -/
abbrev Database (β : Type) := String → Option (Table β)

/-! ## The host -/

inductive QueryError where
  | noSuchTable (source : String)
  | noSuchColumn (name : String)
  | badPattern (pattern : String)
  | badArgument (name : String)
  | conversion (name : String) (type : String)

/-- The host's casts and text functions, `none` where a conversion fails. -/
structure HostFunctions where
  /-- The number that the cast to DECIMAL reads in a text, before it rounds. -/
  number : Text → Option ℚ
  toBigint : Text → Option ℤ
  toDecimal : (width scale : ℕ) → Text → Option ℤ
  decimalToText : (width scale : ℕ) → ℤ → Text
  lpad : Text → ℕ → Char → Text
  /-- The text of `GetError()`. -/
  message : QueryError → String

/-- Casts of plain decimal text are exact, or fail where the type has no room for the value. -/
structure HostFunctions.Documented (host : HostFunctions) : Prop where
  number_plain : ∀ d : PlainDecimal, host.number d.text = some d.value
  toBigint_plain : ∀ (d : PlainDecimal) (i : ℤ), d.value = i →
    host.toBigint d.text = if -2 ^ 63 ≤ i ∧ i < 2 ^ 63 then some i else none
  toDecimal_exact : ∀ (width scale : ℕ) (x : Text) (q : ℚ) (u : ℤ), scale ≤ width → width ≤ 38 →
    host.number x = some q → q * 10 ^ scale = u →
    host.toDecimal width scale x = if u.natAbs < 10 ^ width then some u else none
  toDecimal_some : ∀ (width scale : ℕ) (x : Text) (u : ℤ), host.toDecimal width scale x = some u →
    u.natAbs < 10 ^ width ∧ host.number x ≠ none
  /-- A sign in the middle of the digits is an error. -/
  number_sign : ∀ (front back : Text) (c : Char), c.isDigit = true →
    host.number (front ++ c :: '-' :: back) = none
  decimalToText_integral : ∀ (width : ℕ) (u : ℤ), host.decimalToText width 0 u = intText u
  lpad_of_le : ∀ (x : Text) (n : ℕ) (c : Char), x.length ≤ n →
    host.lpad x n c = List.replicate (n - x.length) c ++ x
  lpad_of_ge : ∀ (x : Text) (n : ℕ) (c : Char), n ≤ x.length → host.lpad x n c = x.take n

/-! ## A host that reads plain decimals -/

/-- Halves are rounded away from zero. -/
def roundAway (q : ℚ) : ℤ := if 0 ≤ q then ⌊q + 1 / 2⌋ else -⌊-q + 1 / 2⌋

theorem roundAway_intCast (i : ℤ) : roundAway i = i := by
  have hhalf : ⌊(1 / 2 : ℚ)⌋ = 0 := by norm_num
  unfold roundAway
  split
  · rw [Int.floor_intCast_add, hhalf, add_zero]
  · rw [← Int.cast_neg, Int.floor_intCast_add, hhalf]
    omega

/-- The digits of `u / 10 ^ scale`, with `scale` of them behind the point. -/
def decimalText (scale : ℕ) (u : ℤ) : Text :=
  if scale = 0 then intText u
  else
    let digits := Nat.toDigits 10 u.natAbs
    let digits := List.replicate (scale + 1 - digits.length) '0' ++ digits
    (if u < 0 then ['-'] else []) ++ digits.take (digits.length - scale) ++
      '.' :: digits.drop (digits.length - scale)

namespace HostFunctions

/-- Reads plain decimals, and no other text. -/
def plain : HostFunctions where
  number := denotes
  toBigint x := (denotes x).bind fun q ↦
    let i := roundAway q
    if -2 ^ 63 ≤ i ∧ i < 2 ^ 63 then some i else none
  toDecimal width scale x := (denotes x).bind fun q ↦
    let u := roundAway (q * 10 ^ scale)
    if u.natAbs < 10 ^ width then some u else none
  decimalToText _ scale u := decimalText scale u
  lpad x n c := (List.replicate (n - x.length) c ++ x).take n
  message _ := "query failed"

theorem plain_documented : plain.Documented where
  number_plain := PlainDecimal.denotes_text
  toBigint_plain := by
    intro d i hvalue
    simp [plain, d.denotes_text, hvalue, roundAway_intCast]
  toDecimal_exact := by
    intro width scale x q u _ _ hx hu
    have hx' : denotes x = some q := hx
    simp [plain, hx', hu, roundAway_intCast]
  toDecimal_some := by
    intro width scale x u h
    obtain ⟨q, hq, h⟩ := Option.bind_eq_some_iff.mp h
    dsimp only at h
    split at h
    · rename_i hlt
      refine ⟨(Option.some.inj h) ▸ hlt, ?_⟩
      intro hnone
      cases hq.symm.trans hnone
    · cases h
  number_sign := fun front back c hc ↦ denotes_sign front back hc
  decimalToText_integral := by
    intro width u
    rfl
  lpad_of_le := by
    intro x n c h
    apply List.take_of_length_le
    simp only [List.length_append, List.length_replicate]
    omega
  lpad_of_ge := by
    intro x n c h
    have hzero : n - x.length = 0 := by omega
    simp only [plain, hzero, List.replicate_zero, List.nil_append]

end HostFunctions

/-! ## Select lists -/

inductive SelectItem where
  | column (name : String)
  /-- `CAST(c AS type) AS c` -/
  | castAs (name : String) (type : LogicalType)
  /-- `lpad(CAST(c AS VARCHAR), width, '0') AS c` -/
  | lpad (name : String) (width : ℕ)

def SelectItem.name : SelectItem → String
  | .column name | .castAs name _ | .lpad name _ => name

/-- NULL stays NULL. -/
def castValue (f : Text → Option ℤ) : Option Text → Option (Option ℤ)
  | none => some none
  | some x => (f x).map some

/-- One text that does not convert fails the cast of the column. -/
def castTexts (f : Text → Option ℤ) (values : List (Option Text)) : Option (List (Option ℤ)) :=
  values.mapM (castValue f)

-- only columns that DESCRIBE reported as VARCHAR are ever cast
def castColumn (host : HostFunctions) (c : Column β) (type : LogicalType) :
    Except QueryError (Column β) :=
  let failed : QueryError := .conversion c.name type.name
  match type, c.data with
  | .bigint, .varchar values =>
      match castTexts host.toBigint values with
      | some results => .ok { c with data := .bigint results }
      | none => .error failed
  | .decimal width scale, .varchar values =>
      match castTexts (host.toDecimal width scale) values with
      | some results => .ok { c with data := .decimal width scale results }
      | none => .error failed
  | _, _ => .error failed

-- only columns whose type is printed as a DECIMAL are ever padded
def padColumn (host : HostFunctions) (c : Column β) (width : ℕ) : Except QueryError (Column β) :=
  match c.data with
  | .decimal w s values =>
      .ok { c with data := .varchar (values.map fun value ↦
        value.map fun u ↦ host.lpad (host.decimalToText w s u) width '0') }
  | _ => .error (.conversion c.name "VARCHAR")

def SelectItem.eval (host : HostFunctions) (r : Table β) (item : SelectItem) :
    Except QueryError (Column β) :=
  match r.column? item.name with
  | none => .error (.noSuchColumn item.name)
  | some c =>
      match item with
      | .column _ => .ok c
      | .castAs _ type => castColumn host c type
      | .lpad _ width => padColumn host c width

/-- `SELECT items FROM r` -/
def select (host : HostFunctions) (items : List SelectItem) (r : Table β) :
    Except QueryError (List (Column β)) :=
  items.mapM (·.eval host r)

/-! ## Aggregates -/

inductive Aggregate where
  /-- `count(c)` -/
  | count (name : String)
  /-- `bool_and(c IS NULL OR regexp_full_match(c, pattern))` -/
  | allMatch (name : String) (pattern : Pattern)
  /-- `min(length(c))` -/
  | minLength (name : String)
  /-- `max(length(c))` -/
  | maxLength (name : String)

def Aggregate.name : Aggregate → String
  | .count name | .allMatch name _ | .minLength name | .maxLength name => name

/-- A cell of a result row. -/
inductive Cell where
  | null
  | bigint (i : ℤ)
  | boolean (b : Bool)
  deriving DecidableEq

namespace Cell

/-- `!value.IsNull() && value.GetValue<bool>()` -/
def isTrue : Cell → Bool
  | .boolean b => b
  | _ => false

/-- `value.GetValue<int64_t>()` of a value that is not NULL. -/
def int? : Cell → Option ℤ
  | .bigint i => some i
  | _ => none

end Cell

/-- The largest repetition count that the host's regular expressions accept. -/
def maxPatternRepeat : ℕ := 1000

/-- `bool_and` of no rows is NULL. -/
def boolAndMatch (pattern : Pattern) (values : List (Option Text)) : Cell :=
  if values = [] then .null else .boolean (values.all fun value ↦ value.all pattern.fullMatch)

def lengths (values : List (Option Text)) : List ℕ :=
  values.filterMap fun value ↦ value.map List.length

def Aggregate.eval (r : Table β) (aggregate : Aggregate) : Except QueryError Cell :=
  match r.column? aggregate.name with
  | none => .error (.noSuchColumn aggregate.name)
  | some c =>
      match aggregate, c.data with
      | .count _, data => .ok (.bigint data.count)
      | .allMatch _ pattern, .varchar values =>
          if pattern.maxRepeat ≤ maxPatternRepeat then .ok (boolAndMatch pattern values)
          else .error (.badPattern pattern.text)
      | .minLength _, .varchar values => .ok ((lengths values).min?.elim .null fun n ↦ .bigint n)
      | .maxLength _, .varchar values => .ok ((lengths values).max?.elim .null fun n ↦ .bigint n)
      | _, _ => .error (.badArgument c.name)

end DuckdbOpenzl
