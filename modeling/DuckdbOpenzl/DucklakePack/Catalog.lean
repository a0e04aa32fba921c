import Mathlib.Data.List.DropRight
import Mathlib.Data.List.Infix
import Mathlib.Data.List.Sort
import DuckdbOpenzl.FileSystem.Paths

/-!
# The data files of a DuckLake catalog

`list_files` joins the data file rows with their table and schema and makes one
path of the three. A local path is normalised, a path with a scheme is not. The
catalog is repointed one row at a time, by its `data_file_id`.
-/

set_option autoImplicit false

namespace DuckdbOpenzl

namespace DucklakePack

/-! ## Paths -/

def resolve (base path : String) (isRel : Bool) : String :=
  if isRel then String.ofList (base.toList.rdropWhile (· == '/')) ++ "/" ++ path else path

/-- One component of `os.path.normpath`; the components before it come in reverse. -/
def normComponent (absolute : Bool) (comps : List (List Char)) (comp : List Char) :
    List (List Char) :=
  if comp = [] ∨ comp = ['.'] then comps
  else if comp ≠ ['.', '.'] then comp :: comps
  else match comps with
    | [] => if absolute then [] else [comp]
    | last :: rest => if last = ['.', '.'] then comp :: comps else rest

/-- `os.path.normpath`, which keeps exactly two leading slashes. -/
def normpath (path : String) : String :=
  let chars := path.toList
  let slashes :=
    if ¬ ['/'] <+: chars then 0
    else if ['/', '/'] <+: chars ∧ ¬ ['/', '/', '/'] <+: chars then 2
    else 1
  let comps := (chars.splitOn '/').foldl (normComponent (slashes != 0)) []
  let norm := List.replicate slashes '/' ++ ['/'].intercalate comps.reverse
  if norm = [] then "." else String.ofList norm

def abspath (cwd path : String) : String :=
  if ['/'] <+: path.toList then normpath path
  else if cwd = "" ∨ ['/'] <:+ cwd.toList then normpath (cwd ++ path)
  else normpath (cwd ++ "/" ++ path)

def hasScheme (path : String) : Bool := decide ("://".toList <:+: path.toList)

/-- Files are written and removed by the names that the operating system knows. To it a scheme is
a directory. -/
def isLocal (path : String) : Bool := !hasScheme path || decide (['/'] <+: path.toList)

/-- Only a local path is normalised. -/
@[irreducible] def fixedPath (cwd full : String) : String :=
  if hasScheme full then full else abspath cwd full

/-- `re.sub(r"\.parquet$", "", src)`: the dollar also matches before a newline at the end. -/
def withoutSuffix (src : String) : String :=
  let chars := src.toList
  if ".parquet".toList <:+ chars then String.ofList (chars.take (chars.length - 8))
  else if ".parquet\n".toList <:+ chars then String.ofList (chars.take (chars.length - 9)) ++ "\n"
  else src

def zlName (src : String) : String := withoutSuffix src ++ ".zl"

/-- What reads of a packed file are given. -/
def packedPath (zl : String) : String := "openzl://" ++ zl

/-! ## The catalog -/

structure SchemaRow where
  schemaId : ℕ
  path : String
  pathIsRelative : Bool

structure TableRow where
  tableId : ℕ
  schemaId : ℕ
  path : String
  pathIsRelative : Bool

structure DataFileRow where
  dataFileId : ℕ
  tableId : ℕ
  path : String
  pathIsRelative : Bool
  fileFormat : String
  fileSizeBytes : ℕ
  footerSize : ℕ
  recordCount : ℕ

structure Catalog where
  dataPath : String
  schemas : List SchemaRow
  tables : List TableRow
  dataFiles : List DataFileRow
  /-- `data_file_id` is the primary key. -/
  unique : (dataFiles.map (·.dataFileId)).Nodup

/-- What `list_files` says of a data file. -/
structure ListedFile where
  id : ℕ
  path : String
  fmt : String
  size : ℕ
  rows : ℕ
deriving DecidableEq

/-- What a worker says of a file that it packed. -/
structure PackResult where
  zl : String
  logical : ℕ
  footer : ℕ
  physical : ℕ

namespace Catalog

/-- `DISTINCT ON (f.data_file_id)`: one table and schema of the row. -/
def joined (catalog : Catalog) (row : DataFileRow) : Option (TableRow × SchemaRow) :=
  (catalog.tables.filter (·.tableId = row.tableId)).findSome? fun table ↦
    (catalog.schemas.find? (·.schemaId = table.schemaId)).map (table, ·)

def fullPath (catalog : Catalog) (cwd : String) (row : DataFileRow) (table : TableRow)
    (schema : SchemaRow) : String :=
  let full :=
    if row.pathIsRelative then
      let base := resolve catalog.dataPath schema.path schema.pathIsRelative
      let base := resolve base table.path table.pathIsRelative
      resolve base row.path true
    else row.path
  fixedPath cwd full

def listed (catalog : Catalog) (cwd : String) (row : DataFileRow) : Option ListedFile :=
  (catalog.joined row).map fun joined ↦
    { id := row.dataFileId
      path := catalog.fullPath cwd row joined.1 joined.2
      fmt := row.fileFormat
      size := row.fileSizeBytes
      rows := row.recordCount }

def listFiles (catalog : Catalog) (cwd : String) : List ListedFile :=
  (catalog.dataFiles.insertionSort (·.dataFileId ≤ ·.dataFileId)).filterMap (catalog.listed cwd)

/-- `files[:limit]`, where a limit of 0 is none and a negative one counts from the end. -/
def limited (limit : ℤ) (files : List ListedFile) : List ListedFile :=
  if limit = 0 then files
  else if 0 < limit then files.take limit.toNat
  else files.take (files.length - (-limit).toNat)

/-- The files that `main` submits to the pool. -/
def submitted (catalog : Catalog) (cwd : String) (limit : ℤ) (dryRun : Bool) : List ListedFile :=
  if dryRun then []
  else limited limit ((catalog.listFiles cwd).filter fun f ↦
    f.fmt == "parquet" && !canHandleFile f.path)

/-- The path that a row names. A row with a path of its own needs no table for it. -/
def named (catalog : Catalog) (cwd : String) (row : DataFileRow) : Option String :=
  if row.pathIsRelative then
    (catalog.joined row).map fun joined ↦ catalog.fullPath cwd row joined.1 joined.2
  else some (fixedPath cwd row.path)

/-- `UPDATE meta.ducklake_data_file SET ... WHERE data_file_id = id`, on one row. -/
def repointed (id : ℕ) (res : PackResult) (row : DataFileRow) : DataFileRow :=
  if row.dataFileId = id then
    { row with
      path := packedPath res.zl
      pathIsRelative := false
      fileSizeBytes := res.logical
      footerSize := res.footer }
  else row

theorem dataFileId_repointed (id : ℕ) (res : PackResult) (row : DataFileRow) :
    (repointed id res row).dataFileId = row.dataFileId := by
  unfold repointed
  split <;> rfl

def repoint (catalog : Catalog) (id : ℕ) (res : PackResult) : Catalog :=
  { catalog with
    dataFiles := catalog.dataFiles.map (repointed id res)
    unique := by
      have hids : (catalog.dataFiles.map (repointed id res)).map (·.dataFileId) =
          catalog.dataFiles.map (·.dataFileId) := by
        rw [List.map_map]
        exact List.map_congr_left fun row _ ↦ dataFileId_repointed id res row
      rw [hids]
      exact catalog.unique }

end Catalog

/-! ## Names -/

variable {catalog : Catalog} {cwd : String} {row : DataFileRow} {f : ListedFile} {limit : ℤ}
  {dryRun : Bool} {id : ℕ} {res : PackResult}

@[simp] theorem canHandleFile_packedPath (zl : String) : canHandleFile (packedPath zl) = true := by
  simp [canHandleFile, packedPath, schemeLen, scheme]

@[simp] theorem stripScheme_packedPath (zl : String) : stripScheme (packedPath zl) = zl :=
  stripScheme_scheme zl

theorem fixedPath_packedPath (cwd zl : String) : fixedPath cwd (packedPath zl) = packedPath zl := by
  have hscheme : hasScheme (packedPath zl) = true :=
    decide_eq_true ⟨"openzl".toList, zl.toList, by simp [packedPath]⟩
  rw [fixedPath, if_pos hscheme]

/-- A `.zl` name does not end in a digit, so it is never taken for the path of a chunk. -/
theorem splitChunkSuffix_zlName (src : String) : splitChunkSuffix (zlName src) = none := by
  rw [splitChunkSuffix_eq_none_iff]
  intro archive digits hdigits heq
  obtain ⟨hlength, -, hdigit⟩ := isChunkDigits_iff.mp hdigits
  obtain hnil | ⟨init, digit, hinit⟩ := List.eq_nil_or_concat digits.toList
  · rw [hnil] at hlength
    cases hlength
  · rw [List.concat_eq_append] at hinit
    have hlast := congrArg (fun s : String ↦ s.toList.getLast?) heq
    simp only [zlName, String.toList_append, hinit, ← List.append_assoc, List.getLast?_concat]
      at hlast
    have hl : digit = 'l' := by simpa using hlast.symm
    have hisDigit := hdigit digit (by rw [hinit]; exact List.mem_concat_self)
    rw [hl] at hisDigit
    cases hisDigit

namespace Catalog

theorem mem_submitted (hf : f ∈ catalog.submitted cwd limit dryRun) :
    f ∈ catalog.listFiles cwd ∧ canHandleFile f.path = false := by
  unfold submitted at hf
  split at hf
  · cases hf
  · have hfilter : f ∈ (catalog.listFiles cwd).filter fun f ↦
        f.fmt == "parquet" && !canHandleFile f.path := by
      unfold limited at hf
      split at hf
      · exact hf
      · split at hf <;> exact List.mem_of_mem_take hf
    obtain ⟨hlisted, hfmt⟩ := List.mem_filter.mp hfilter
    rw [Bool.and_eq_true, Bool.not_eq_true'] at hfmt
    exact ⟨hlisted, hfmt.2⟩

theorem listed_eq_some (h : catalog.listed cwd row = some f) :
    row.dataFileId = f.id ∧ catalog.named cwd row = some f.path := by
  obtain ⟨joined, hjoined, rfl⟩ := Option.map_eq_some_iff.mp h
  refine ⟨rfl, ?_⟩
  by_cases hrel : row.pathIsRelative = true
  · rw [named, if_pos hrel, hjoined]
    rfl
  · rw [named, if_neg hrel, fullPath, if_neg hrel]

theorem eq_of_dataFileId {other : DataFileRow} (hrow : row ∈ catalog.dataFiles)
    (hother : other ∈ catalog.dataFiles) (h : row.dataFileId = other.dataFileId) : row = other :=
  List.inj_on_of_nodup_map catalog.unique hrow hother h

/-- The file of one of the rows, read from outside the archives. -/
def Lists (catalog : Catalog) (cwd : String) (f : ListedFile) : Prop :=
  (∃ row ∈ catalog.dataFiles, catalog.listed cwd row = some f) ∧ canHandleFile f.path = false

theorem lists_submitted (hf : f ∈ catalog.submitted cwd limit dryRun) : catalog.Lists cwd f := by
  obtain ⟨hlisted, hpath⟩ := mem_submitted hf
  obtain ⟨row, hrow, hlists⟩ := List.mem_filterMap.mp hlisted
  exact ⟨⟨row, (List.mem_insertionSort _).mp hrow, hlists⟩, hpath⟩

theorem Lists.named (hf : catalog.Lists cwd f) (hrow : row ∈ catalog.dataFiles)
    (hid : row.dataFileId = f.id) : catalog.named cwd row = some f.path := by
  obtain ⟨⟨row', hrow', hlisted⟩, -⟩ := hf
  obtain ⟨hid', hnamed⟩ := listed_eq_some hlisted
  rwa [eq_of_dataFileId hrow hrow' (hid.trans hid'.symm)]

theorem Lists.eq_of_id {g : ListedFile} (hf : catalog.Lists cwd f) (hg : catalog.Lists cwd g)
    (hid : f.id = g.id) : f = g := by
  obtain ⟨⟨row, hrow, hlisted⟩, -⟩ := hf
  obtain ⟨⟨row', hrow', hlisted'⟩, -⟩ := hg
  have hrows : row.dataFileId = row'.dataFileId :=
    (listed_eq_some hlisted).1.trans (hid.trans (listed_eq_some hlisted').1.symm)
  rw [eq_of_dataFileId hrow hrow' hrows, hlisted'] at hlisted
  exact (Option.some.inj hlisted).symm

/-! ## Repointing -/

theorem named_repoint (catalog : Catalog) (cwd : String) (id : ℕ) (res : PackResult)
    (row : DataFileRow) : (catalog.repoint id res).named cwd row = catalog.named cwd row := rfl

theorem named_packed {zl : String} (hpath : row.path = packedPath zl)
    (hrel : row.pathIsRelative = false) : catalog.named cwd row = some (packedPath zl) := by
  rw [named, hrel, hpath, fixedPath_packedPath]
  rfl

end Catalog

end DucklakePack

end DuckdbOpenzl
