import DuckdbOpenzl.Copy.ConcurrentCopies
import DuckdbOpenzl.Copy.ReadOpenzl
import DuckdbOpenzl.Library.Transposed
import DuckdbOpenzl.Promote.Restore

/-!
# Promoted tables in archives

A promoted table is handed to a COPY row by row, and `openzl_restore` reads the
rows of the archive back as columns. The text of the padded codes is what comes
out of the whole way, whatever else the process archives meanwhile.
-/

set_option autoImplicit false

namespace DuckdbOpenzl

open ExceptionState Relation SharedState Transposed

/-! ## Columns as rows -/

/-- A cell of any type. -/
inductive Value (β : Type) where
  | null
  | text (x : Text)
  | integer (i : ℤ)
  | other (v : β)

variable {β : Type}

namespace Value

def text? : Value β → Option (Option Text)
  | .null => some none
  | .text x => some (some x)
  | _ => none

def integer? : Value β → Option (Option ℤ)
  | .null => some none
  | .integer i => some (some i)
  | _ => none

def other? : Value β → Option (Option β)
  | .null => some none
  | .other v => some (some v)
  | _ => none

end Value

def ColumnData.values : ColumnData β → List (Value β)
  | .varchar values => values.map fun value ↦ value.elim .null .text
  | .bigint values => values.map fun value ↦ value.elim .null .integer
  | .decimal _ _ values => values.map fun value ↦ value.elim .null .integer
  | .other _ values => values.map fun value ↦ value.elim .null .other

/-- The values as a column of this type, unless one of them is of another type. -/
def LogicalType.columnData (values : List (Value β)) : LogicalType → Option (ColumnData β)
  | .varchar => (values.mapM Value.text?).map .varchar
  | .bigint => (values.mapM Value.integer?).map .bigint
  | .decimal width scale => (values.mapM Value.integer?).map (.decimal width scale)
  | .other type => (values.mapM Value.other?).map (.other type)

/-- Names and types. -/
abbrev Schema := List (String × LogicalType)

def schemaOf (columns : List (Column β)) : Schema := columns.map fun c ↦ (c.name, c.data.type)

/-- The rows of columns with `n` values each. -/
def rowsOf (n : ℕ) (columns : List (Column β)) : List (List (Value β)) :=
  transposed .null n (columns.map fun c ↦ c.data.values)

def columnOf (field : (String × LogicalType) × List (Value β)) : Option (Column β) :=
  (field.1.2.columnData field.2).map fun data ↦ ⟨field.1.1, data⟩

def Table.ofRows (schema : Schema) (rows : List (List (Value β))) : Option (Table β) :=
  match (schema.zip (transposed .null schema.length rows)).mapM columnOf with
  | none => none
  | some columns =>
      if h : (∀ c ∈ columns, c.data.rows = rows.length) ∧ (columns.map Column.name).Nodup then
        some ⟨columns, rows.length, h.1, h.2⟩
      else none

/-! ## Rows give the columns back -/

theorem mapM_elim {α : Type} {f : α → Value β} {g : Value β → Option (Option α)}
    (hnull : g .null = some none) (hf : ∀ a, g (f a) = some (some a)) (values : List (Option α)) :
    (values.map fun value ↦ value.elim .null f).mapM g = some values := by
  apply MapM.option_iff.mpr
  rw [List.forall₂_map_left_iff]
  apply List.forall₂_same.mpr
  intro value _
  cases value with
  | none => exact hnull
  | some a => exact hf a

theorem columnData_values (data : ColumnData β) : data.type.columnData data.values = some data := by
  cases data with
  | varchar values => exact congrArg (Option.map _) (mapM_elim rfl (fun _ ↦ rfl) values)
  | bigint values => exact congrArg (Option.map _) (mapM_elim rfl (fun _ ↦ rfl) values)
  | decimal width scale values =>
      exact congrArg (Option.map _) (mapM_elim rfl (fun _ ↦ rfl) values)
  | other type values => exact congrArg (Option.map _) (mapM_elim rfl (fun _ ↦ rfl) values)

theorem length_values (data : ColumnData β) : data.values.length = data.rows := by
  cases data <;> exact List.length_map _

/-- A table that is written as rows and read under its own schema is the same table. -/
theorem Table.ofRows_rowsOf {n : ℕ} {columns : List (Column β)}
    (hrows : ∀ c ∈ columns, c.data.rows = n) (hnames : (columns.map Column.name).Nodup) :
    ∃ a : Table β, Table.ofRows (schemaOf columns) (rowsOf n columns) = some a ∧
      a.columns = columns := by
  have hlength : (rowsOf n columns).length = n := length_transposed
  have hvalues : ∀ values ∈ columns.map (fun c ↦ c.data.values), values.length = n := by
    intro values hmem
    obtain ⟨c, hc, rfl⟩ := List.mem_map.mp hmem
    exact (length_values c.data).trans (hrows c hc)
  have hback := transposed_transposed (d := Value.null) hvalues
  rw [List.length_map] at hback
  have hcolumns : ((schemaOf columns).zip (transposed .null (schemaOf columns).length
      (rowsOf n columns))).mapM columnOf = some columns := by
    rw [schemaOf, List.length_map, rowsOf, hback, List.zip_map', MapM.option_iff,
      List.forall₂_map_left_iff]
    apply List.forall₂_same.mpr
    intro c _
    unfold columnOf
    rw [columnData_values]
    rfl
  have hfits : (∀ c ∈ columns, c.data.rows = (rowsOf n columns).length) ∧
      (columns.map Column.name).Nodup := ⟨fun c hc ↦ (hrows c hc).trans hlength.symm, hnames⟩
  refine ⟨⟨columns, (rowsOf n columns).length, hfits.1, hfits.2⟩, ?_, rfl⟩
  unfold Table.ofRows
  rw [hcolumns]
  dsimp only
  rw [dif_pos hfits]

/-! ## The archive as a table -/

variable {P : ParquetCopyFunction} {V : ParquetView P} {zl : OpenZL} {o : OpenerSettings}

/-- The other tables, and the archive behind `read_openzl(path)`. The names and types are those
that the host reads in the parquet files. -/
def withArchive (zl : OpenZL) (V : ParquetView P) (cells : P.Row → List (Value β))
    (schema : Schema) (o : OpenerSettings) (path : Path) (tables : Database β)
    (s : World × ArchiveCache) : Database β :=
  Function.update tables (restoreSource path)
    (match readOpenzl zl V o path s with
      | .ok (some rows) _ => Table.ofRows schema (rows.map cells)
      | _ => none)

section Restore

variable {params : PromoteParams} {r a : Table β} {host : HostFunctions} {out : List (Column β)}
  {path : Path} {cells : P.Row → List (Value β)} {chunks : List (List P.Row)}

/-- The columns that the promotion scanned come back from an archive of their rows. -/
theorem exists_table_of_archiveRows (hpromoted : List.Forall₂ (Promoted params) r.columns out)
    (hrows : chunks.flatten.map cells = rowsOf r.rows out) (hpath : PlainPath path)
    (hcount : chunks.length < 10 ^ 15) : ∃ a : Table β, a.columns = out ∧
      ∀ (w : World) (cache : ArchiveCache) (tables : Database β),
        ArchiveRows zl V path chunks w → (∀ p, (cache p).lock = none) →
          withArchive zl V cells (schemaOf out) o path tables (w, cache) (restoreSource path) =
            some a := by
  obtain ⟨b, rfl⟩ := Table.exists_of_promoted hpromoted
  have hlength : ∀ c' ∈ b.columns, c'.data.rows = r.rows := by
    intro c' hc'
    obtain ⟨c, hc, hcolumn⟩ := MapM.mem_of_forall₂ hpromoted.flip hc'
    exact hcolumn.rows_eq.trans (r.rows_eq c hc)
  obtain ⟨a, ha, hcolumns⟩ := Table.ofRows_rowsOf hlength b.names_nodup
  refine ⟨a, hcolumns, fun w cache tables harchive hlock ↦ ?_⟩
  obtain ⟨cache', hread⟩ := harchive.readOpenzl (o := o)
    hpath.splitChunkSuffix_eq_none hcount hlock
  unfold withArchive
  rw [Function.update_self, hread]
  dsimp only
  rw [hrows, ha]

/-- The queries of `openzl_restore` may come at moments of their own, as long as each finds the
same table. -/
theorem restore_of_table (hhost : host.Documented)
    (hpromoted : List.Forall₂ (Promoted params) r.columns a.columns)
    (hcompiles : ∀ c ∈ r.columns, params.ownVerdict c ≠ none → params.Compiles)
    (hown : ∀ c ∈ r.columns, ∀ width, 2 ≤ width → width ≤ 18 → c.data.type ≠ .decimal width 0)
    {atDescribe atSchema atScan : Database β} (hdescribe : atDescribe (restoreSource path) = some a)
    (hschema : atSchema (restoreSource path) = some a)
    (hscan : atScan (restoreSource path) = some a) :
    ∃ restored, openzlRestoreBind host (some path) atDescribe atSchema = .ok restored ∧
      openzlPromoteScan host restored.bindData atScan = .ok
        (List.zipWith (fun c c' ↦ if params.isFixedWidth c then c else c') r.columns
          a.columns) := by
  obtain ⟨restored, hbind, hdata⟩ := openzlRestoreBind_ok host hschema
  have hsame : describe (restoreSource path) atDescribe =
      describe (restoreSource path) atSchema := by
    unfold describe
    rw [hdescribe, hschema]
  have hbind' : openzlRestoreBind host (some path) atDescribe atSchema =
      openzlRestoreBind host (some path) atSchema atSchema := by
    unfold openzlRestoreBind
    dsimp only
    rw [hsame]
  refine ⟨restored, hbind'.trans hbind, ?_⟩
  rw [hdata, openzlPromoteScan_eq_ok_iff hscan]
  exact select_map_eq_ok_iff.mpr (eval_restoreItems hhost hpromoted (fun _ h ↦ h) hcompiles hown)

end Restore

/-! ## From a promotion to its restoration -/

section Pipeline

variable {ι : Type} [DecidableEq ι] {bind : ι → OpenzlCopyBindData} {path : ι → Path}
  {batches : ι → List (List P.Row)} {queryError : ι → Option String} {host : HostFunctions}
  {params : PromoteParams} {r : Table β} {cells : P.Row → List (Value β)}

/-- A table is promoted, and a COPY is handed the rows of the promotion while other COPYs of the
process run. From the moment this COPY is done, `openzl_restore` on its archive gives the columns
of the fixed-width rule as they were before the promotion, and the others as they were promoted. -/
theorem restore_of_copied_promotion (hhost : host.Documented) (hzl : zl.Lawful) (hV : V.Lawful)
    {input : PromoteInput} {db : Database β} {bound : BoundFunction} {out : List (Column β)}
    (hparams : promoteParams input = .ok params) (hdb : db params.table = some r)
    (hown : ∀ c ∈ r.columns, ∀ width, 2 ≤ width → width ≤ 18 → c.data.type ≠ .decimal width 0)
    (hbound : openzlPromoteBind host input db db db = .ok bound)
    (hout : openzlPromoteScan host bound.bindData db = .ok out)
    {p : CopyProcess} (hkeep : p.world.KeepsFlushes)
    (hfresh : ∀ k, p.counter ≤ k → p.buffers (bufferPath k) = none)
    (hapart : ∀ i j, i ≠ j → FilesApart (path i) (path j)) {i : ι} (hpath : PlainPath (path i))
    (hrows : (batches i).flatten.map cells = rowsOf r.rows out)
    {s s₁ s₂ s₃ : System ι CopyProcess (CopyJob P)}
    (hrun : ReflTransGen (Step (JobMove zl))
      ⟨p, fun i ↦ CopyJob.initial P (bind i) (path i) (batches i) (queryError i)⟩ s)
    (hdone : (s.parties i).phase = .done)
    (hcount : ∀ n, chunkCount (path i) s.shared.world = .ok n s.shared.world → n < 10 ^ 15)
    (h₁ : ReflTransGen (Step (JobMove zl)) s s₁) (h₂ : ReflTransGen (Step (JobMove zl)) s₁ s₂)
    (h₃ : ReflTransGen (Step (JobMove zl)) s₂ s₃) {cache₁ cache₂ cache₃ : ArchiveCache}
    (hlock₁ : ∀ p, (cache₁ p).lock = none) (hlock₂ : ∀ p, (cache₂ p).lock = none)
    (hlock₃ : ∀ p, (cache₃ p).lock = none) (tables : Database β) :
    ∃ restored, openzlRestoreBind host (some (path i))
        (withArchive zl V cells (schemaOf out) o (path i) tables (s₁.shared.world, cache₁))
        (withArchive zl V cells (schemaOf out) o (path i) tables (s₂.shared.world, cache₂)) =
          .ok restored ∧
      openzlPromoteScan host restored.bindData
        (withArchive zl V cells (schemaOf out) o (path i) tables (s₃.shared.world, cache₃)) = .ok
          (List.zipWith (fun c c' ↦ if params.isFixedWidth c then c else c') r.columns out) := by
  obtain ⟨hdata, -, -, hcompiles⟩ := bindData_of_openzlPromoteBind hparams hdb hbound
  obtain ⟨out', hscan, hpromoted⟩ := openzlPromoteScan_own hhost hdb hcompiles
  rw [hdata, hscan] at hout
  obtain rfl := Except.ok.inj hout
  have hinitial : Settled (RunsFor zl V path batches) CopyJob.Apart
      ⟨p, fun i ↦ CopyJob.initial P (bind i) (path i) (batches i) (queryError i)⟩ :=
    settled_initial hkeep hfresh hapart
  have hsettled := hinitial.run (concurrent_rules hzl hV) hrun
  obtain ⟨chunks, hflatten, harchive⟩ := archiveRows_of_done hzl hV hsettled hdone
  have hchunks : chunks.length < 10 ^ 15 := hcount _ (harchive s .refl).chunkCount
  rw [← hflatten] at hrows
  obtain ⟨a, rfl, htable⟩ := exists_table_of_archiveRows (V := V) (o := o) hpromoted hrows hpath
    hchunks
  exact restore_of_table hhost hpromoted hcompiles hown
    (htable _ _ tables (harchive s₁ h₁) hlock₁)
    (htable _ _ tables (harchive s₂ (h₁.trans h₂)) hlock₂)
    (htable _ _ tables (harchive s₃ ((h₁.trans h₂).trans h₃)) hlock₃)

end Pipeline

/-! ## Codes that are promoted and restored -/

deriving instance DecidableEq for OtherType, LogicalType

def codeColumn : Column Unit :=
  ⟨"code", .varchar [some "01".toList, some "02".toList, some "03".toList]⟩

def codes : Table Unit where
  columns := [codeColumn]
  rows := 3
  rows_eq := by simp [codeColumn, ColumnData.rows]
  names_nodup := by decide

def codesDatabase : Database Unit := fun source ↦ if source = "codes" then some codes else none

def codesParams : PromoteParams := { fixedWidthParams with table := "codes" }

def promotedCodes : List (Column Unit) := [⟨"code", .decimal 2 0 [some 1, some 2, some 3]⟩]

theorem ownVerdict_codeColumn : codesParams.ownVerdict codeColumn = some (.decimal 2 0) := by
  decide +kernel

theorem scan_codes : openzlPromoteScan .plain ⟨codes.columns.map codesParams.ownItem, "codes"⟩
    codesDatabase = .ok promotedCodes := by
  have hcast : castTexts (HostFunctions.plain.toDecimal 2 0)
      [some "01".toList, some "02".toList, some "03".toList] = some [some 1, some 2, some 3] := by
    decide +kernel
  have hdb : codesDatabase "codes" = some codes := rfl
  rw [openzlPromoteScan_eq_ok_iff hdb]
  apply select_map_eq_ok_iff.mpr
  apply List.Forall₂.cons _ .nil
  rw [PromoteParams.ownItem, ownVerdict_codeColumn]
  have hmem : codeColumn ∈ codes.columns := List.mem_cons_self
  apply (SelectItem.eval_castAs hmem).trans
  unfold castColumn codeColumn
  dsimp only
  rw [hcast]

/-- The cells of one of the byte rows that `turns` archives. -/
def codeCells (b : UInt8) : List (Value Unit) := [.integer b.toNat]

def fewChunks : EStateM.Result Error World ℕ → Bool
  | .ok n _ => decide (n < 10 ^ 15)
  | .error _ _ => true

/-- `read_openzl('a.zl')` after the two COPYs of `turns`. -/
def archivedCodes : Database Unit :=
  withArchive .stored ParquetView.plain codeCells (schemaOf promotedCodes) {} "a.zl" codesDatabase
    (turns.shared.world, fun _ ↦ {})

theorem restore_of_copied_promotion_codes : ∃ restored,
    openzlRestoreBind .plain (some "a.zl") archivedCodes archivedCodes = .ok restored ∧
      openzlPromoteScan .plain restored.bindData archivedCodes = .ok codes.columns := by
  have hparams : promoteParams { table := some "codes", fixedWidth := some true } =
      .ok codesParams := rfl
  have hdb : codesDatabase codesParams.table = some codes := rfl
  obtain ⟨bound, hbound⟩ := openzlPromoteBind_of_sum_le .plain hparams hdb (by decide)
  obtain ⟨hdata, -⟩ := bindData_of_openzlPromoteBind hparams hdb hbound
  have hout : openzlPromoteScan .plain bound.bindData codesDatabase = .ok promotedCodes := by
    rw [hdata]
    exact scan_codes
  have hown : ∀ c ∈ codes.columns, ∀ width, 2 ≤ width → width ≤ 18 →
      c.data.type ≠ .decimal width 0 := by
    simp [codes, codeColumn, ColumnData.type]
  have hapart : ∀ i j : Bool, i ≠ j →
      FilesApart (if i then "a.zl" else "b.zl") (if j then "a.zl" else "b.zl") := by
    intro i j hij
    cases i <;> cases j
    · exact absurd rfl hij
    · exact ⟨by decide, by decide, by decide⟩
    · exact ⟨by decide, by decide, by decide⟩
    · exact absurd rfl hij
  have hpath : PlainPath "a.zl" := by
    intro archive digits hpath
    have hlen := congrArg String.length hpath
    simp only [String.length_append, show "#chunk=".length = 7 from rfl,
      show "a.zl".length = 4 from rfl] at hlen
    omega
  have hchunks : fewChunks (chunkCount "a.zl" turns.shared.world) = true := by decide +kernel
  have hcount : ∀ n, chunkCount "a.zl" turns.shared.world = .ok n turns.shared.world →
      n < 10 ^ 15 := by
    intro n h
    rw [h] at hchunks
    exact of_decide_eq_true hchunks
  have hrows : (ParquetCopyFunction.plainBatches.flatten).map codeCells =
      rowsOf codes.rows promotedCodes := rfl
  have hdone : (turns.parties true).phase = .done := CopyJob.phase_of_isDone (by decide +kernel)
  have hlock : ∀ p : Path, ((fun _ ↦ {} : ArchiveCache) p).lock = none := fun _ ↦ rfl
  have hrestored := restore_of_copied_promotion (o := {}) HostFunctions.plain_documented
    OpenZL.stored_lawful ParquetView.plain_lawful hparams hdb hown hbound hout
    (p := CopyProcess.empty) (fun _ ↦ rfl) (fun _ _ ↦ rfl) hapart (i := true) hpath hrows
    (CopyJob.scheduled_runs _ _ : ReflTransGen (Step (JobMove .stored)) _ turns) hdone hcount
    .refl .refl .refl hlock hlock hlock codesDatabase
  obtain ⟨restored, hbind, hscan⟩ := hrestored
  refine ⟨restored, hbind, hscan.trans ?_⟩
  have hfixed : codesParams.isFixedWidth codeColumn = true := by
    unfold PromoteParams.isFixedWidth
    rw [ownVerdict_codeColumn]
    rfl
  change Except.ok [if codesParams.isFixedWidth codeColumn then codeColumn else _] = _
  rw [if_pos hfixed]
  rfl

end DuckdbOpenzl
