import Mathlib.Algebra.GroupWithZero.Nat
import Mathlib.Data.List.Lookmap
import Mathlib.Data.List.Nodup
import DuckdbOpenzl.DucklakePack.Catalog

/-!
# Data files

What a path holds and what a reader gets from it: the rows in order and the
field_ids of the columns. `parquet_schema` lists the root first and then every
column with all that is nested in it, each under its bare name. A path names one
file: symbolic links and glob patterns are left out.
-/

set_option autoImplicit false

namespace DuckdbOpenzl

namespace DucklakePack

/-! ## Parquet files -/

/-- A row of `parquet_schema`. -/
structure SchemaElement where
  name : String
  fieldId : Option ℤ
  numChildren : Option ℕ

def SchemaElement.IsLeaf (e : SchemaElement) : Prop := e.numChildren.getD 0 = 0

instance (e : SchemaElement) : Decidable e.IsLeaf := inferInstanceAs (Decidable (_ = _))

structure Column where
  element : SchemaElement
  nested : List SchemaElement
  leaf : element.IsLeaf → nested = []

/-- The columns of a table, so their names differ. -/
structure ParquetFile (ρ : Type) where
  root : SchemaElement
  columns : List Column
  rows : List ρ
  rooted : root.IsLeaf → columns = []
  distinct : (columns.map (·.element.name)).Nodup

structure ColumnIds where
  name : String
  fieldId : Option ℤ
  nested : List (String × Option ℤ)

/-- What a reader gets. -/
structure Content (ρ : Type) where
  columns : List ColumnIds
  rows : List ρ

variable {ρ : Type}

def Column.ids (c : Column) : ColumnIds where
  name := c.element.name
  fieldId := c.element.fieldId
  nested := c.nested.map fun e ↦ (e.name, e.fieldId)

namespace ParquetFile

def content (p : ParquetFile ρ) : Content ρ where
  columns := p.columns.map (·.ids)
  rows := p.rows

/-- `parquet_schema(path)`. -/
def schema (p : ParquetFile ρ) : List SchemaElement :=
  p.root :: p.columns.flatMap fun c ↦ c.element :: c.nested

end ParquetFile

/-! ## Field ids -/

/-- `ids[name] = int(fid)`. -/
def setId (name : String) (fid : ℤ) : List (String × ℤ) → List (String × ℤ)
  | [] => [(name, fid)]
  | entry :: ids => if entry.1 = name then (name, fid) :: ids else entry :: setId name fid ids

def addFieldId (ids : List (String × ℤ)) (e : SchemaElement) : Option (List (String × ℤ)) :=
  match e.fieldId with
  | none => none
  | some fid => if e.IsLeaf then some (setId e.name fid ids) else none

/-- The name that DuckDB gives the root. -/
def rootName : String := "duckdb_schema"

def fieldIds (p : ParquetFile ρ) : Option (List (String × ℤ)) :=
  let rows := p.schema.filter (·.name ≠ rootName)
  if rows.isEmpty then none else rows.foldlM addFieldId []

/-- The columns of the file that `COPY ... (FIELD_IDS ids)` writes. -/
def copiedColumns (ids : List (String × ℤ)) (p : ParquetFile ρ) : List ColumnIds :=
  p.columns.map fun c ↦
    { name := c.element.name
      fieldId := ids.lookup c.element.name
      nested := c.nested.map fun e ↦ (e.name, none) }

/-- `COPY` refuses a name in `FIELD_IDS` that is no column. -/
def FieldIdsAccepted (ids : List (String × ℤ)) (p : ParquetFile ρ) : Prop :=
  ∀ entry ∈ ids, entry.1 ∈ p.columns.map (·.element.name)

instance (ids : List (String × ℤ)) (p : ParquetFile ρ) : Decidable (FieldIdsAccepted ids p) :=
  inferInstanceAs (Decidable (∀ entry ∈ ids, entry.1 ∈ p.columns.map (·.element.name)))

/-! ## Stored files -/

/-- An archive, with the parquet image that it decompresses to. -/
structure Archive (ρ : Type) where
  whole : Content ρ
  chunk : ℕ → Option (Content ρ)
  image : List UInt8

inductive Stored (ρ : Type) where
  | parquet (p : ParquetFile ρ)
  | archive (a : Archive ρ)
  | damaged

/-- What `COPY` has written when it is done. Which rows the archive returns, and whether it can be
read at all, is for the fingerprints to find out. -/
def Stored.WrittenWith (columns : List ColumnIds) : Stored ρ → Prop
  | .parquet _ => False
  | .archive a => a.whole.columns = columns
  | .damaged => True

abbrev Disk (ρ : Type) := String → Option (Stored ρ)

/-- The file that a path names: of a chunk it is the archive. -/
@[irreducible] def location (cwd path : String) : String :=
  if canHandleFile path then
    let realPath := stripScheme path
    fixedPath cwd (((splitChunkSuffix realPath).map (·.1)).getD realPath)
  else fixedPath cwd path

/-- `read_parquet(path)` of a file that holds `stored`. -/
def readStored (path : String) : Stored ρ → Option (Content ρ)
  | .parquet p => if canHandleFile path then none else some p.content
  | .archive a =>
      if canHandleFile path then
        match splitChunkSuffix (stripScheme path) with
        | none => some a.whole
        | some (_, i) => a.chunk i
      else none
  | .damaged => none

def readParquet (cwd : String) (disk : Disk ρ) (path : String) : Option (Content ρ) :=
  (disk (location cwd path)).bind (readStored path)

/-- The number of rows and the sum of the hashes of the numbered rows. -/
def fingerprint (hash : ρ → ℕ → ℕ) (rows : List ρ) : ℕ × ℕ :=
  (rows.length, (rows.zipIdx.map fun row ↦ hash row.1 row.2).sum)

variable {cwd path src : String} {disk disk' : Disk ρ} {p : ParquetFile ρ} {a : Archive ρ}
  {ids ids' : List (String × ℤ)} {rows : List SchemaElement}

theorem location_packedPath (cwd src : String) :
    location cwd (packedPath (zlName src)) = fixedPath cwd (zlName src) := by
  simp [location, splitChunkSuffix_zlName]

theorem readParquet_packedPath (h : disk (fixedPath cwd (zlName src)) = some (.archive a)) :
    readParquet cwd disk (packedPath (zlName src)) = some a.whole := by
  simp [readParquet, location_packedPath, h, readStored, splitChunkSuffix_zlName]

theorem location_of_not_scheme (h : canHandleFile path = false) :
    location cwd path = fixedPath cwd path := by
  simp [location, h]

theorem readParquet_parquet (h : canHandleFile path = false)
    (hdisk : disk (fixedPath cwd path) = some (.parquet p)) :
    readParquet cwd disk path = some p.content := by
  simp [readParquet, location_of_not_scheme h, hdisk, readStored, h]

theorem readParquet_congr (h : disk' (location cwd path) = disk (location cwd path)) :
    readParquet cwd disk' path = readParquet cwd disk path := by
  rw [readParquet, h, readParquet]

/-! ## What a packed file keeps of the field ids -/

theorem lookup_cons_ite (key other : String) (fid : ℤ) (ids : List (String × ℤ)) :
    ((key, fid) :: ids).lookup other = if other = key then some fid else ids.lookup other := by
  rw [List.lookup_cons]
  by_cases h : other = key
  · simp [h]
  · rw [if_neg h, beq_false_of_ne h]

theorem lookup_setId (name other : String) (fid : ℤ) (ids : List (String × ℤ)) :
    (setId name fid ids).lookup other = if other = name then some fid else ids.lookup other := by
  induction ids with
  | nil => rw [setId, lookup_cons_ite]
  | cons entry ids ih =>
      obtain ⟨key, v⟩ := entry
      rw [setId, lookup_cons_ite]
      by_cases hkey : key = name
      · rw [if_pos hkey, lookup_cons_ite, hkey]
        by_cases hother : other = name <;> simp [hother]
      · rw [if_neg hkey, lookup_cons_ite, ih]
        by_cases hother : other = key
        · have hne : other ≠ name := hother ▸ hkey
          rw [if_pos hother, if_neg hne, if_pos hother]
        · simp [hother]

theorem addFieldId_eq_some {e : SchemaElement} (h : addFieldId ids e = some ids') :
    ∃ fid, e.fieldId = some fid ∧ e.IsLeaf ∧ ids' = setId e.name fid ids := by
  unfold addFieldId at h
  split at h
  · cases h
  · split at h
    · exact ⟨_, ‹_›, ‹_›, (Option.some.inj h).symm⟩
    · cases h

theorem leaf_of_foldlM (h : rows.foldlM addFieldId ids = some ids') :
    ∀ e ∈ rows, e.fieldId ≠ none ∧ e.IsLeaf := by
  induction rows generalizing ids with
  | nil => simp
  | cons e rows ih =>
      rw [List.foldlM_cons] at h
      obtain ⟨ids₁, hadd, hrest⟩ := Option.bind_eq_some_iff.mp h
      obtain ⟨fid, hfid, hleaf, -⟩ := addFieldId_eq_some hadd
      intro e' he'
      rcases List.mem_cons.mp he' with rfl | he'
      · exact ⟨by simp [hfid], hleaf⟩
      · exact ih hrest e' he'

/-- The id that all elements of a name have, or the one the name had before. -/
theorem lookup_of_foldlM (h : rows.foldlM addFieldId ids = some ids') {name : String}
    {fid : Option ℤ} (hrows : ∀ e ∈ rows, e.name = name → e.fieldId = fid)
    (hfid : ids.lookup name = fid ∨ ∃ e ∈ rows, e.name = name) : ids'.lookup name = fid := by
  induction rows generalizing ids with
  | nil =>
      obtain rfl : ids = ids' := Option.some.inj h
      simpa using hfid
  | cons e rows ih =>
      rw [List.foldlM_cons] at h
      obtain ⟨ids₁, hadd, hrest⟩ := Option.bind_eq_some_iff.mp h
      obtain ⟨v, hv, -, rfl⟩ := addFieldId_eq_some hadd
      apply ih hrest fun e' he' ↦ hrows e' (List.mem_cons_of_mem _ he')
      by_cases hname : e.name = name
      · left
        rw [lookup_setId, if_pos hname.symm, ← hv]
        exact hrows e List.mem_cons_self hname
      · rcases hfid with hfid | ⟨e', he', hname'⟩
        · left
          rwa [lookup_setId, if_neg (Ne.symm hname)]
        · rcases List.mem_cons.mp he' with rfl | he'
          · exact absurd hname' hname
          · exact .inr ⟨e', he', hname'⟩

theorem fieldIds_eq_some (h : fieldIds p = some ids) :
    (p.schema.filter (·.name ≠ rootName)).foldlM addFieldId [] = some ids := by
  unfold fieldIds at h
  dsimp only at h
  split at h
  · cases h
  · exact h

/-- A column under the root's name carries no field_id, and nothing nested in it does. -/
def ParquetFile.RootNameFree (p : ParquetFile ρ) : Prop :=
  ∀ c ∈ p.columns, c.element.name = rootName → ∀ e ∈ c.element :: c.nested, e.fieldId = none

theorem lookup_rootName (h : fieldIds p = some ids) : ids.lookup rootName = none := by
  refine lookup_of_foldlM (fieldIds_eq_some h) (fun e he hname ↦ ?_) (.inl rfl)
  exact absurd hname (of_decide_eq_true (List.mem_filter.mp he).2)

theorem mem_schema {c : Column} (hc : c ∈ p.columns) {e : SchemaElement}
    (he : e ∈ c.element :: c.nested) : e ∈ p.schema :=
  List.mem_cons_of_mem _ (List.mem_flatMap.mpr ⟨c, hc, he⟩)

/-- A column under another name is a leaf. -/
theorem nested_eq_nil (h : fieldIds p = some ids) {c : Column} (hc : c ∈ p.columns)
    (hname : c.element.name ≠ rootName) : c.nested = [] := by
  have hmem : c.element ∈ p.schema.filter (·.name ≠ rootName) :=
    List.mem_filter.mpr ⟨mem_schema hc List.mem_cons_self, decide_eq_true hname⟩
  exact c.leaf (leaf_of_foldlM (fieldIds_eq_some h) _ hmem).2

theorem lookup_column (h : fieldIds p = some ids) (hfree : p.RootNameFree) {c : Column}
    (hc : c ∈ p.columns) (hname : c.element.name ≠ rootName) :
    ids.lookup c.element.name = c.element.fieldId := by
  have hfold := fieldIds_eq_some h
  have hmem : c.element ∈ p.schema.filter (·.name ≠ rootName) :=
    List.mem_filter.mpr ⟨mem_schema hc List.mem_cons_self, decide_eq_true hname⟩
  refine lookup_of_foldlM hfold (fun e he heq ↦ ?_) (.inr ⟨_, hmem, rfl⟩)
  obtain ⟨hfid, hleaf⟩ := leaf_of_foldlM hfold e he
  obtain ⟨hschema, hne⟩ := List.mem_filter.mp he
  rcases List.mem_cons.mp hschema with rfl | hcolumn
  · rw [p.rooted hleaf] at hc
    cases hc
  · obtain ⟨c', hc', he'⟩ := List.mem_flatMap.mp hcolumn
    by_cases hname' : c'.element.name = rootName
    · exact absurd (hfree c' hc' hname' e he') hfid
    · rw [nested_eq_nil h hc' hname', List.mem_singleton] at he'
      subst he'
      rw [List.inj_on_of_nodup_map p.distinct hc' hc heq]

theorem copiedColumns_eq_iff (h : fieldIds p = some ids) :
    copiedColumns ids p = p.content.columns ↔ p.RootNameFree := by
  constructor
  · intro heq c hc hname e he
    have hids := List.map_inj_left.mp heq c hc
    rw [Column.ids, hname, lookup_rootName h] at hids
    obtain ⟨-, hfid, hnested⟩ := ColumnIds.mk.inj hids
    rcases List.mem_cons.mp he with rfl | he
    · exact hfid.symm
    · exact (congrArg Prod.snd (List.map_inj_left.mp hnested e he)).symm
  · intro hfree
    refine List.map_congr_left fun c hc ↦ ?_
    by_cases hname : c.element.name = rootName
    · have hnone := hfree c hc hname
      have hnested : c.nested.map (fun e ↦ (e.name, (none : Option ℤ))) =
          c.nested.map fun e ↦ (e.name, e.fieldId) :=
        List.map_congr_left fun e he ↦ by rw [hnone e (List.mem_cons_of_mem _ he)]
      rw [Column.ids, ← hnested, hnone _ List.mem_cons_self, hname, lookup_rootName h]
    · rw [Column.ids, lookup_column h hfree hc hname, nested_eq_nil h hc hname]
      rfl

end DucklakePack

end DuckdbOpenzl
