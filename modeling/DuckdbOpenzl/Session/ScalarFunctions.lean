import DuckdbOpenzl.FileSystem.ArchivePaths
import DuckdbOpenzl.FileSystem.LostFlushes
import DuckdbOpenzl.Library.MapM
import DuckdbOpenzl.Library.StateLoops
import DuckdbOpenzl.Session.EntryPoints

/-!
# The scalar functions, a vector at a time

`openzl_compress`, `openzl_decompress` and `openzl_chunk_count` are handed the
rows of a vector and go through them in order. The first row that throws ends
the statement, and what the rows before it have written stays.
-/

set_option autoImplicit false

namespace DuckdbOpenzl

open ExceptionState FileContent

/-! ## The functions -/

/-- What a row throws: an error of the bridge, caught and thrown again, or one of the host. -/
inductive RowException where
  | io (what : String)
  | host (e : BindException)

abbrev VectorM := EStateM RowException World

/-- `catch (const openzl_bridge::Error &e) { throw IOException(e.what()); }` -/
def caught {α : Type} (x : BridgeM α) : VectorM α := EStateM.adaptExcept (fun e ↦ .io e.what) x

/-- A call that may fail before it comes to the bridge; its row's result is the output path. -/
def onRow (outputPath : Path) : Except BindException (BridgeM Unit) → VectorM (Option Path)
  | .error e => throw (.host e)
  | .ok run => do
      caught run
      return some outputPath

/-- `BinaryExecutor::Execute` on one row: with a NULL argument the result is NULL. -/
def binaryRow (f : Path → Path → VectorM (Option Path)) :
    Option Path × Option Path → VectorM (Option Path)
  | (some inputPath, some outputPath) => f inputPath outputPath
  | _ => return none

def openzlDecompressRow (zl : OpenZL) : Option Path × Option Path → VectorM (Option Path) :=
  binaryRow fun inputPath outputPath ↦ onRow outputPath (.ok (decompress zl inputPath outputPath))

def openzlDecompressFun (zl : OpenZL) (rows : List (Option Path × Option Path)) :
    VectorM (List (Option Path)) := rows.mapM (openzlDecompressRow zl)

def openzlCompressRow (zl : OpenZL) (o : OpenerSettings) :
    Option Path × Option Path → VectorM (Option Path) :=
  binaryRow fun inputPath outputPath ↦
    onRow outputPath (openzlCompress zl o inputPath outputPath none none)

def openzlCompressFun (zl : OpenZL) (o : OpenerSettings) (rows : List (Option Path × Option Path)) :
    VectorM (List (Option Path)) := rows.mapM (openzlCompressRow zl o)

/-- A row of the longer forms; without a fourth argument there is no level. -/
structure OptionsRow (τ : Type) where
  inputPath : Option String
  outputPath : Option String
  trained : Option τ
  level : Option ℤ

/-- `Value::ToString` -/
def valueText (value : Option String) : String := value.getD "NULL"

def openzlCompressOptionsRow (zl : OpenZL) (o : OpenerSettings) (row : OptionsRow Path) :
    VectorM (Option Path) :=
  onRow (valueText row.outputPath) (openzlCompress zl o (valueText row.inputPath)
    (valueText row.outputPath) row.trained row.level)

def openzlCompressWithOptionsFun (zl : OpenZL) (o : OpenerSettings)
    (rows : List (OptionsRow Path)) : VectorM (List (Option Path)) :=
  rows.mapM (openzlCompressOptionsRow zl o)

def openzlCompressBlobOptionsRow (zl : OpenZL) (o : OpenerSettings) (row : OptionsRow Bytes) :
    VectorM (Option Path) :=
  match row.trained with
  | none => throw (.io "openzl_compress: trained_compressor_bytes must not be NULL")
  | some compressorBytes => onRow (valueText row.outputPath) (openzlCompressBlob zl o
      (valueText row.inputPath) (valueText row.outputPath) compressorBytes row.level)

def openzlCompressWithBlobOptionsFun (zl : OpenZL) (o : OpenerSettings)
    (rows : List (OptionsRow Bytes)) : VectorM (List (Option Path)) :=
  rows.mapM (openzlCompressBlobOptionsRow zl o)

/-- `UnaryExecutor::Execute` on one row. -/
def openzlChunkCountRow : Option Path → VectorM (Option ℕ)
  | some path => do return some (← caught (chunkCount path))
  | none => return none

def openzlChunkCountFun (rows : List (Option Path)) : VectorM (List (Option ℕ)) :=
  rows.mapM openzlChunkCountRow

/-- The vectors that the overloads of `openzl_compress` take. -/
inductive CompressVector where
  | paths (rows : List (Option Path × Option Path))
  | trainedPath (rows : List (OptionsRow Path))
  | trainedBytes (rows : List (OptionsRow Bytes))

def CompressVector.run (zl : OpenZL) (o : OpenerSettings) :
    CompressVector → VectorM (List (Option Path))
  | .paths rows => openzlCompressFun zl o rows
  | .trainedPath rows => openzlCompressWithOptionsFun zl o rows
  | .trainedBytes rows => openzlCompressWithBlobOptionsFun zl o rows

/-! ## What a row does to the disk -/

/-- The file that a row reads and the one that it writes, none for a row that is NULL. -/
abbrev RowJob := Option (Path × Path)

namespace RowJob

def reads (job : RowJob) : Set Path := {path | ∃ output, job = some (path, output)}

def writes (job : RowJob) : Set Path := {path | ∃ input, job = some (input, path)}

/-- No row reads or writes what an earlier row has written. -/
def InOrder (jobs : List RowJob) : Prop :=
  jobs.Pairwise fun a b ↦ ∀ path ∈ writes a, path ∉ reads b ∧ path ∉ writes b

/-- The row turned the file it read into the one it wrote. -/
structure Done (R : Bytes → Bytes → Prop) (job : RowJob) (result : Option Path)
    (before after : Path → Option File) : Prop where
  result : result = job.map Prod.snd
  files : ∀ input output, job = some (input, output) → ∃ bytes bytes',
    (before input).map File.content = some bytes ∧ (after output).map File.content = some bytes' ∧
      R bytes bytes'

end RowJob

/-- A program does the job of a row, or throws, and touches only the file that it writes. -/
structure Transfers (R : Bytes → Bytes → Prop) (job : RowJob) (f : VectorM (Option Path)) :
    Prop where
  ok : ∀ w result w', f w = .ok result w' → w.KeepsFlushes →
    job.Done R result w.files w'.files ∧ w'.script = w.script ∧
      ∀ path ∉ job.writes, w'.files path = w.files path
  error : ∀ w e w', f w = .error e w' → ∀ path ∉ job.writes, w'.files path = w.files path

section Rows

variable {R : Bytes → Bytes → Prop} {i o : Path} {α : Type} {w w' : World}

theorem caught_eq_ok_iff {x : BridgeM α} {a : α} : caught x w = .ok a w' ↔ x w = .ok a w' := by
  unfold caught EStateM.adaptExcept
  cases x w with
  | ok b t => simp
  | error e t => exact iff_of_false nofun nofun

theorem caught_eq_error_iff {x : BridgeM α} {e : RowException} :
    caught x w = .error e w' ↔ ∃ e', x w = .error e' w' ∧ e = .io e'.what := by
  unfold caught EStateM.adaptExcept
  cases x w with
  | ok b t => exact iff_of_false nofun fun ⟨_, h, _⟩ ↦ nomatch h
  | error e' t => simp [eq_comm, and_comm]

/-- A row with a NULL argument does not throw. -/
theorem exists_of_binaryRow_error {f : Path → Path → VectorM (Option Path)}
    {row : Option Path × Option Path} {e : RowException} (h : binaryRow f row w = .error e w') :
    ∃ input output, row = (some input, some output) ∧ f input output w = .error e w' := by
  obtain ⟨input, output⟩ := row
  cases input with
  | none => cases h
  | some i =>
      cases output with
      | none => cases h
      | some o => exact ⟨i, o, rfl, h⟩

theorem Transfers.null : Transfers R none (return none) where
  ok := by
    intro w result w' h _
    obtain ⟨rfl, rfl⟩ := EStateM.Result.ok.inj h
    exact ⟨⟨rfl, fun _ _ hjob ↦ nomatch hjob⟩, rfl, fun _ _ ↦ rfl⟩
  error := fun _ _ _ h ↦ nomatch h

theorem Transfers.throw (job : RowJob) (e : RowException) : Transfers R job (throw e) where
  ok := fun _ _ _ h ↦ nomatch h
  error := by
    intro w e' w' h path _
    obtain ⟨-, rfl⟩ := EStateM.Result.error.inj h
    rfl

/-- A program that reads, and then writes what it has made of the input. -/
theorem Transfers.write {x : BridgeM Bytes} (hreads : ReadsOnly x)
    (hx : ∀ w bytes, x w = .ok bytes w → ∃ input, w.content i = some input ∧ R input bytes) :
    Transfers R (some (i, o)) (onRow o (.ok (x >>= writeFile o))) where
  ok := by
    intro w result w' h hkeep
    obtain ⟨u, t, hrun, hresult⟩ := bind_eq_ok_iff.mp h
    obtain ⟨rfl, rfl⟩ := EStateM.Result.ok.inj hresult
    obtain ⟨bytes, v, hread, hwrite⟩ := bind_eq_ok_iff.mp (caught_eq_ok_iff.mp hrun)
    obtain rfl := hreads.eq_of_ok hread
    obtain ⟨input, hinput, hR⟩ := hx _ _ hread
    have htouches := writeFile_touches (.inl hwrite)
    refine ⟨⟨rfl, ?_⟩, htouches.script, fun path hpath ↦ htouches.files path ?_⟩
    · intro i' o' hjob
      obtain ⟨rfl, rfl⟩ := Prod.mk.inj (Option.some.inj hjob)
      exact ⟨input, bytes, hinput, writeFile_ok hkeep hwrite, hR⟩
    · rintro rfl
      exact hpath ⟨i, rfl⟩
  error := by
    intro w e w' h path hpath
    rcases bind_eq_error_iff.mp h with hrun | ⟨u, t, -, hresult⟩
    · obtain ⟨e', hrun, -⟩ := caught_eq_error_iff.mp hrun
      rcases bind_eq_error_iff.mp hrun with hread | ⟨bytes, v, hread, hwrite⟩
      · rw [hreads.eq_of_error hread]
      · obtain rfl := hreads.eq_of_ok hread
        apply (writeFile_touches (.inr ⟨e', hwrite⟩)).files
        rintro rfl
        exact hpath ⟨i, rfl⟩
    · cases hresult

end Rows

/-- The job of a row of two columns. -/
def binaryJob : Option Path × Option Path → RowJob
  | (some inputPath, some outputPath) => some (inputPath, outputPath)
  | _ => none

def OptionsRow.job {τ : Type} (row : OptionsRow τ) : RowJob :=
  some (valueText row.inputPath, valueText row.outputPath)

def CompressVector.jobs : CompressVector → List RowJob
  | .paths rows => rows.map binaryJob
  | .trainedPath rows => rows.map OptionsRow.job
  | .trainedBytes rows => rows.map OptionsRow.job

theorem Transfers.binaryRow {R : Bytes → Bytes → Prop} {f : Path → Path → VectorM (Option Path)}
    (hf : ∀ i o, Transfers R (some (i, o)) (f i o)) (row : Option Path × Option Path) :
    Transfers R (binaryJob row) (binaryRow f row) := by
  obtain ⟨input, output⟩ := row
  cases input with
  | none => exact .null
  | some i =>
      cases output with
      | none => exact .null
      | some o => exact hf i o

/-! ## Compressing a row -/

/-- The archive is one frame, and decompresses to the input. -/
def ArchiveOf (zl : OpenZL) (input archive : Bytes) : Prop :=
  zl.decompressSerial archive = .ok input ∧ slice archive 0 kMagicLen ≠ kContainerMagic

section Compress

variable {zl : OpenZL} {o : OpenerSettings} {w w' : World} {cctx : CCtx} {input : Bytes}
  {inputPath outputPath trainedPath : Path} {compressorBytes : Bytes} {level : ℤ} {limit : ℕ}
  {graph : GraphOptions}

theorem compressFileRequest_readsOnly :
    ReadsOnly (compressFileRequest zl inputPath compressorBytes level limit graph) :=
  .bind (requireSize_readsOnly _ _) fun _ ↦ .bind (.opened _ _) fun _ ↦
    .bind (.ofExcept _) fun _ ↦ .pure _

theorem compressFileRequest_content
    (h : compressFileRequest zl inputPath compressorBytes level limit graph w =
      .ok (cctx, input) w') : w.content inputPath = some input := by
  obtain ⟨u, t, hsize, hrest⟩ := bind_eq_ok_iff.mp h
  obtain rfl := (requireSize_readsOnly _ _).eq_of_ok hsize
  obtain ⟨bytes, v, hread, hrequest⟩ := bind_eq_ok_iff.mp hrest
  obtain ⟨cctx', v', -, hpair⟩ := bind_eq_ok_iff.mp hrequest
  obtain ⟨rfl, rfl⟩ := Prod.mk.inj (EStateM.Result.ok.inj hpair).1
  exact readFile_eq_ok_iff.mp (opened_eq_ok_iff.mp hread).1

theorem archiveOf_callOpenZL (hzl : zl.Lawful) {frame : Bytes}
    (h : callOpenZL zl graph inputPath (cctx, input) w = .ok frame w') :
    ArchiveOf zl input frame := by
  have hframe := mapError_eq_ok_iff.mp (ofExcept_eq_ok_iff.mp h).1
  exact ⟨hzl.decompress _ _ _ hframe, hzl.magic _ _ _ hframe⟩

/-- What comes before the call only reads, and hands over the file it was given. -/
structure AsksFor (inputPath : Path) (request : BridgeM (CCtx × Bytes)) : Prop where
  readsOnly : ReadsOnly request
  content : ∀ w r w', request w = .ok r w' → w.content inputPath = some r.2

theorem asksFor_compressParquetRequest :
    AsksFor inputPath (compressParquetRequest zl inputPath trainedPath level limit graph) where
  readsOnly := .bind (.opened _ _) fun _ ↦ .bind (loadCompressorFile_readsOnly _) fun _ ↦
    compressFileRequest_readsOnly
  content := by
    intro w r w' h
    obtain ⟨u, t, hparquet, hrest⟩ := bind_eq_ok_iff.mp h
    obtain ⟨-, rfl⟩ := opened_eq_ok_iff.mp hparquet
    obtain ⟨bytes, v, hload, hrequest⟩ := bind_eq_ok_iff.mp hrest
    obtain rfl := (loadCompressorFile_readsOnly _).eq_of_ok hload
    exact compressFileRequest_content hrequest

theorem asksFor_compressParquetWithCompressorBytesRequest :
    AsksFor inputPath (compressParquetWithCompressorBytesRequest zl inputPath compressorBytes level
      limit graph) where
  readsOnly := by
    refine .bind (.opened _ _) fun _ ↦ ?_
    split_ifs
    · exact .bind (.throw _) fun _ ↦ compressFileRequest_readsOnly
    · exact compressFileRequest_readsOnly
  content := by
    intro w r w' h
    obtain ⟨u, t, hparquet, hrest⟩ := bind_eq_ok_iff.mp h
    obtain ⟨-, rfl⟩ := opened_eq_ok_iff.mp hparquet
    split_ifs at hrest
    · cases hrest
    · exact compressFileRequest_content hrest

theorem AsksFor.transfers (hzl : zl.Lawful) {request : BridgeM (CCtx × Bytes)}
    (h : AsksFor inputPath request) :
    Transfers (ArchiveOf zl) (some (inputPath, outputPath)) (onRow outputPath
      (.ok (request >>= callOpenZL zl graph inputPath >>= writeFile outputPath))) := by
  apply Transfers.write (h.readsOnly.bind fun _ ↦ .ofExcept _)
  intro w frame hrun
  obtain ⟨⟨cctx, input⟩, t, hrequest, hcall⟩ := bind_eq_ok_iff.mp hrun
  exact ⟨input, h.content _ _ _ hrequest, archiveOf_callOpenZL hzl hcall⟩

theorem transfers_openzlCompress (hzl : zl.Lawful) (trained : Option Path) (level : Option ℤ) :
    Transfers (ArchiveOf zl) (some (inputPath, outputPath))
      (onRow outputPath (openzlCompress zl o inputPath outputPath trained level)) := by
  cases hlevel : openzlCompressLevel o level with
  | error e =>
      unfold openzlCompress
      rw [hlevel]
      exact .throw _ _
  | ok compressionLevel =>
      rw [openzlCompress_eq_request _ _ _ hlevel]
      exact asksFor_compressParquetRequest.transfers hzl

theorem transfers_openzlCompressBlob (hzl : zl.Lawful) (level : Option ℤ) :
    Transfers (ArchiveOf zl) (some (inputPath, outputPath))
      (onRow outputPath (openzlCompressBlob zl o inputPath outputPath compressorBytes level)) := by
  cases hlevel : openzlCompressLevel o level with
  | error e =>
      unfold openzlCompressBlob
      rw [hlevel]
      exact .throw _ _
  | ok compressionLevel =>
      rw [openzlCompressBlob_eq_request _ _ _ hlevel]
      exact asksFor_compressParquetWithCompressorBytesRequest.transfers hzl

end Compress

/-! ## Vectors -/

section Vectors

variable {R : Bytes → Bytes → Prop} {α : Type} {f : α → VectorM (Option Path)} {job : α → RowJob}
  {xs : List α} {results : List (Option Path)} {w w' : World}

/-- Every row has done its job, and no other file has changed. -/
structure VectorDone (R : Bytes → Bytes → Prop) (jobs : List RowJob) (results : List (Option Path))
    (w w' : World) : Prop where
  rows : List.Forall₂ (fun job result ↦ RowJob.Done R job result w.files w'.files) jobs results
  others : ∀ path, (∀ job ∈ jobs, path ∉ RowJob.writes job) → w'.files path = w.files path
  script : w'.script = w.script

theorem results_eq {jobs : List RowJob} {g h : Path → Option File}
    (hrows : List.Forall₂ (fun job result ↦ RowJob.Done R job result g h) jobs results) :
    results = jobs.map (Option.map Prod.snd) := by
  apply MapM.eq_map_of_forall₂ hrows
  intro job _ result hdone
  exact hdone.result

theorem RowJob.Done.of_eqOn {job : RowJob} {result : Option Path} {g g' h h' : Path → Option File}
    (hreads : Set.EqOn g g' job.reads) (hwrites : Set.EqOn h h' job.writes)
    (hdone : job.Done R result g h) : job.Done R result g' h' where
  result := hdone.result
  files := by
    rintro input output rfl
    obtain ⟨bytes, bytes', hinput, houtput, hR⟩ := hdone.files input output rfl
    rw [hreads ⟨output, rfl⟩] at hinput
    rw [hwrites ⟨input, rfl⟩] at houtput
    exact ⟨bytes, bytes', hinput, houtput, hR⟩

theorem vectorDone_of_steps (hf : ∀ x ∈ xs, Transfers R (job x) (f x))
    (hapart : RowJob.InOrder (xs.map job)) (hkeep : w.KeepsFlushes) (h : Steps f w xs results w') :
    VectorDone R (xs.map job) results w w' := by
  have hstep : ∀ x ∈ xs, ∀ (u : World) result v, u.KeepsFlushes ∧ u.script = w.script →
      f x u = .ok result v → (v.KeepsFlushes ∧ v.script = w.script) ∧
        (job x).Done R result u.files v.files ∧
          ∀ path ∉ (job x).writes, v.files path = u.files path := by
    rintro x hx u result v ⟨hu, hscript⟩ hrun
    obtain ⟨hdone, hsame, hothers⟩ := (hf x hx).ok u result v hrun hu
    refine ⟨⟨?_, hsame.trans hscript⟩, hdone, hothers⟩
    unfold World.KeepsFlushes
    rw [hsame]
    exact hu
  obtain ⟨⟨-, hscript⟩, hrows, hothers⟩ := h.frames World.files (fun x ↦ (job x).reads)
    (fun x ↦ (job x).writes) (fun x ↦ (job x).Done R)
    (fun x result g g' h h' hreads hwrites hdone ↦ hdone.of_eqOn hreads hwrites) hstep
    (List.pairwise_map.mp hapart) ⟨hkeep, rfl⟩
  refine ⟨List.forall₂_map_left_iff.mpr hrows, fun path hpath ↦ hothers path fun x hx ↦ ?_, hscript⟩
  exact hpath _ (List.mem_map_of_mem hx)

/-- The rows before the one that threw have done their jobs, and only its own output may have
changed besides. -/
def PartlyDone (R : Bytes → Bytes → Prop) (jobs : List RowJob) (w w' : World) : Prop :=
  ∃ k job results, jobs[k]? = some job ∧
    List.Forall₂ (fun job result ↦ RowJob.Done R job result w.files w'.files) (jobs.take k)
      results ∧
    ∀ path, (∀ job ∈ jobs.take (k + 1), path ∉ RowJob.writes job) →
      w'.files path = w.files path

theorem partlyDone_of_error (hf : ∀ x ∈ xs, Transfers R (job x) (f x))
    (hapart : RowJob.InOrder (xs.map job)) (hkeep : w.KeepsFlushes) {e : RowException}
    (h : xs.mapM f w = .error e w') : PartlyDone R (xs.map job) w w' := by
  obtain ⟨done, x, rest, results, t, rfl, hsteps, hthrown⟩ := mapM_eq_error_iff.mp h
  rw [RowJob.InOrder, List.map_append, List.map_cons, List.pairwise_append] at hapart
  obtain ⟨hfirst, -, hlater⟩ := hapart
  have hdone := vectorDone_of_steps (fun z hz ↦ hf z (List.mem_append_left _ hz)) hfirst hkeep
    hsteps
  have hothers := (hf x (by simp)).error t e w' hthrown
  have htake : ((done ++ x :: rest).map job).take done.length = done.map job := by
    rw [List.map_append, List.take_left' (List.length_map _)]
  have hupto : ((done ++ x :: rest).map job).take (done.length + 1) = done.map job ++ [job x] := by
    rw [List.take_add_one, htake]
    simp
  refine ⟨done.length, job x, results, by simp, ?_, ?_⟩
  · -- the row that threw keeps off the files that were written before
    have hkept : ∀ a ∈ done.map job, Set.EqOn t.files w'.files (RowJob.writes a) := by
      intro a ha path hpath
      exact (hothers path (hlater a ha _ List.mem_cons_self path hpath).2).symm
    rw [htake]
    apply ((List.forall₂_and_left _ _).mpr ⟨hkept, hdone.rows⟩).imp
    rintro a result ⟨ha, hrow⟩
    exact hrow.of_eqOn (Set.eqOn_refl _ _) ha
  · intro path hpath
    rw [hupto] at hpath
    rw [hothers path (hpath _ (by simp))]
    exact hdone.others path fun a ha ↦ hpath a (List.mem_append_left _ ha)

end Vectors

/-! ## From the inputs to the archives and back -/

section RoundTrip

variable {zl : OpenZL} {w w' u u' : World} {results backs : List (Option Path)}
  {jobs : List RowJob}

/-- Each row's archive holds what the row's input was. -/
def HoldsArchives (zl : OpenZL) (jobs : List RowJob) (w u : World) : Prop :=
  ∀ input archive, some (input, archive) ∈ jobs → ∃ bytes frame, w.content input = some bytes ∧
    u.content archive = some frame ∧ ArchiveOf zl bytes frame

/-- The files that the archives were decompressed to are the inputs. -/
def Restored (jobs : List RowJob) (backs : List (Option Path)) (w u : World) : Prop :=
  ∀ (k : ℕ) (input archive back : Path), jobs[k]? = some (some (input, archive)) →
    backs[k]? = some (some back) →
      ∃ bytes, w.content input = some bytes ∧ u.content back = some bytes

theorem holdsArchives_of_rows
    (h : List.Forall₂ (fun job result ↦ RowJob.Done (ArchiveOf zl) job result w.files w'.files)
      jobs results) : HoldsArchives zl jobs w w' := by
  intro input archive hmem
  obtain ⟨result, -, hdone⟩ := MapM.mem_of_forall₂ h hmem
  exact hdone.files input archive rfl

/-- Every overload is one loop over its rows. -/
theorem CompressVector.exists_loop (hzl : zl.Lawful) (o : OpenerSettings) (v : CompressVector) :
    ∃ (α : Type) (rows : List α) (f : α → VectorM (Option Path)) (job : α → RowJob),
      v.run zl o = rows.mapM f ∧ v.jobs = rows.map job ∧
        ∀ row ∈ rows, Transfers (ArchiveOf zl) (job row) (f row) := by
  cases v with
  | paths rows =>
      refine ⟨_, rows, openzlCompressRow zl o, binaryJob, rfl, rfl, fun row _ ↦ ?_⟩
      exact Transfers.binaryRow (fun _ _ ↦ transfers_openzlCompress hzl none none) row
  | trainedPath rows =>
      refine ⟨_, rows, openzlCompressOptionsRow zl o, OptionsRow.job, rfl, rfl, fun row _ ↦ ?_⟩
      exact transfers_openzlCompress hzl row.trained row.level
  | trainedBytes rows =>
      refine ⟨_, rows, openzlCompressBlobOptionsRow zl o, OptionsRow.job, rfl, rfl, fun row _ ↦ ?_⟩
      unfold openzlCompressBlobOptionsRow
      cases row.trained with
      | none => exact .throw _ _
      | some compressorBytes => exact transfers_openzlCompressBlob hzl row.level

theorem transfers_openzlDecompressRow (row : Option Path × Option Path) :
    Transfers (fun archive bytes ↦ zl.decompressSerial archive = .ok bytes) (binaryJob row)
      (openzlDecompressRow zl row) := by
  apply Transfers.binaryRow
  intro archive back
  apply Transfers.write (decompressToBuffer_readsOnly zl archive)
  intro w bytes h
  obtain ⟨u, t, hfile, hrest⟩ := bind_eq_ok_iff.mp h
  obtain ⟨-, rfl⟩ := opened_eq_ok_iff.mp hfile
  obtain ⟨u', t', hplain, hdecode⟩ := bind_eq_ok_iff.mp hrest
  obtain ⟨-, rfl⟩ := opened_eq_ok_iff.mp hplain
  obtain ⟨hdecode, -⟩ := opened_eq_ok_iff.mp hdecode
  obtain ⟨frame, hread, hdecoded⟩ := except_bind_eq_ok_iff.mp hdecode
  exact ⟨frame, readFile_eq_ok_iff.mp hread, decodeFile_eq_ok_iff.mp hdecoded⟩

theorem ArchiveOf.holdsFrame {bytes frame : Bytes} {archive : Path} (h : ArchiveOf zl bytes frame)
    (hcontent : u.content archive = some frame) : HoldsFrame archive frame u :=
  ⟨hcontent, h.2⟩

/-- Every archive counts as one chunk. -/
theorem HoldsArchives.chunkCounts (h : HoldsArchives zl jobs w u) :
    openzlChunkCountFun (jobs.map (Option.map Prod.snd)) u =
      .ok (jobs.map (Option.map fun _ ↦ 1)) u := by
  apply mapM_eq_ok_iff.mpr
  induction jobs with
  | nil => exact .nil u
  | cons job jobs ih =>
      have hrest : HoldsArchives zl jobs w u :=
        fun input archive hmem ↦ h input archive (List.mem_cons_of_mem job hmem)
      refine .cons ?_ (ih hrest)
      cases job with
      | none => rfl
      | some files =>
          obtain ⟨bytes, frame, -, hcontent, harchive⟩ := h files.1 files.2 List.mem_cons_self
          have hcount := (harchive.holdsFrame hcontent).chunkCount
          exact bind_eq_ok_iff.mpr ⟨1, u, caught_eq_ok_iff.mpr hcount, rfl⟩

/-- Archives that are decompressed, each to a file of its own. -/
theorem HoldsArchives.restored (h : HoldsArchives zl jobs w u) (hkeep : u.KeepsFlushes)
    (hapart : RowJob.InOrder (((jobs.map (Option.map Prod.snd)).zip backs).map binaryJob))
    (hrun : openzlDecompressFun zl ((jobs.map (Option.map Prod.snd)).zip backs) u =
      .ok results u') : Restored jobs backs w u' := by
  have hdone := vectorDone_of_steps (fun row _ ↦ transfers_openzlDecompressRow row) hapart hkeep
    (mapM_eq_ok_iff.mp hrun)
  intro k input archive back hjob hback
  obtain ⟨bytes, frame, hinput, hframe, harchive⟩ := h input archive (List.mem_of_getElem? hjob)
  have hmem : some (archive, back) ∈
      ((jobs.map (Option.map Prod.snd)).zip backs).map binaryJob := by
    apply List.mem_map.mpr
    refine ⟨(some archive, some back), ?_, rfl⟩
    apply List.mem_of_getElem? (i := k)
    rw [List.getElem?_zip_eq_some, List.getElem?_map, hjob]
    exact ⟨rfl, hback⟩
  obtain ⟨result, -, hrow⟩ := MapM.mem_of_forall₂ hdone.rows hmem
  obtain ⟨frame', bytes', hfound, hwritten, hdecoded⟩ := hrow.files archive back rfl
  obtain rfl : frame = frame' := Option.some.inj (hframe.symm.trans hfound)
  rw [harchive.1] at hdecoded
  obtain rfl := Except.ok.inj hdecoded
  exact ⟨bytes, hinput, hwritten⟩

theorem decompress_returns {archive : Path} (back : Path) {bytes frame : Bytes}
    (harchive : ArchiveOf zl bytes frame) (hcontent : u.content archive = some frame)
    (hhealthy : u.Healthy) (hsize : bytes.length < fileSizeLimit) :
    ∃ u', decompress zl archive back u = .ok () u' := by
  have hdecoded : decompressToBuffer zl archive u = .ok bytes u := by
    rw [(harchive.holdsFrame hcontent).decompressToBuffer, decodeFile_eq_ok_iff.mpr harchive.1]
    rfl
  obtain ⟨hopen, -, -⟩ := hhealthy u.calls
  obtain ⟨u', -, -, hwritten, -⟩ := writeFile_of_open back bytes hopen
  have hwrite := hwritten.mpr ⟨(hhealthy _).2.1, hsize⟩
  exact ⟨u', bind_eq_ok_iff.mpr ⟨bytes, u, hdecoded, hwrite⟩⟩

/-- On a disk on which nothing fails no archive is refused. -/
theorem HoldsArchives.decompresses (h : HoldsArchives zl jobs w u) (hkeep : u.KeepsFlushes)
    (hhealthy : u.Healthy)
    (hsize : ∀ input archive, some (input, archive) ∈ jobs → ∀ bytes,
      w.content input = some bytes → bytes.length < fileSizeLimit)
    (hapart : RowJob.InOrder (((jobs.map (Option.map Prod.snd)).zip backs).map binaryJob)) :
    ∃ results u', openzlDecompressFun zl ((jobs.map (Option.map Prod.snd)).zip backs) u =
      .ok results u' := by
  cases hrun : openzlDecompressFun zl ((jobs.map (Option.map Prod.snd)).zip backs) u with
  | ok results u' => exact ⟨results, u', rfl⟩
  | error e t' =>
      exfalso
      obtain ⟨done, row, rest, results, t, hrows, hsteps, hfailed⟩ := mapM_eq_error_iff.mp hrun
      rw [hrows, RowJob.InOrder, List.map_append, List.map_cons, List.pairwise_append] at hapart
      obtain ⟨hfirst, -, hlater⟩ := hapart
      have hdone := vectorDone_of_steps (fun row _ ↦ transfers_openzlDecompressRow row) hfirst
        hkeep hsteps
      obtain ⟨archive, back, rfl, hthrown⟩ := exists_of_binaryRow_error hfailed
      have hmem : (some archive, some back) ∈ (jobs.map (Option.map Prod.snd)).zip backs := by
        rw [hrows]
        exact List.mem_append_right _ List.mem_cons_self
      obtain ⟨job, hjob, harchive⟩ := List.mem_map.mp (List.of_mem_zip hmem).1
      obtain ⟨files, rfl, rfl⟩ := Option.map_eq_some_iff.mp harchive
      obtain ⟨bytes, frame, hinput, hframe, hof⟩ := h files.1 files.2 hjob
      -- no row before this one has written the archive
      have hsame : t.content files.2 = u.content files.2 := by
        apply congrArg (Option.map File.content)
        apply hdone.others
        intro a ha hwritten
        exact (hlater a ha _ List.mem_cons_self _ hwritten).1 ⟨back, rfl⟩
      obtain ⟨t'', hreturns⟩ := decompress_returns back hof (hsame.trans hframe)
        (hhealthy.of_script hdone.script) (hsize _ _ hjob _ hinput)
      have hrow : onRow back (.ok (decompress zl files.2 back)) t = .ok (some back) t'' :=
        bind_eq_ok_iff.mpr ⟨(), t'', caught_eq_ok_iff.mpr hreturns, rfl⟩
      rw [hrow] at hthrown
      cases hthrown

/-- Whatever overload of `openzl_compress` is given a vector: if it returns, each row's archive is
one chunk, and `openzl_decompress` on the archives, then or later, gives the inputs back; if it
throws, the rows before the one that threw are archived, and at most that row's output has changed
besides. -/
theorem vectors_round_trip (hzl : zl.Lawful) (o : OpenerSettings) (v : CompressVector)
    (hkeep : w.KeepsFlushes) (hapart : RowJob.InOrder v.jobs) :
    (∀ results w', v.run zl o w = .ok results w' →
      results = v.jobs.map (Option.map Prod.snd) ∧
      (∀ path, (∀ job ∈ v.jobs, path ∉ RowJob.writes job) → w'.files path = w.files path) ∧
      ∀ u : World, (∀ job ∈ v.jobs, ∀ path ∈ RowJob.writes job, u.content path = w'.content path) →
        openzlChunkCountFun results u = .ok (results.map (Option.map fun _ ↦ 1)) u ∧
        ∀ backs : List (Option Path), u.KeepsFlushes →
          RowJob.InOrder ((results.zip backs).map binaryJob) →
          (u.Healthy → (∀ input archive, some (input, archive) ∈ v.jobs → ∀ bytes,
              w.content input = some bytes → bytes.length < fileSizeLimit) →
            ∃ decompressed u', openzlDecompressFun zl (results.zip backs) u =
              .ok decompressed u') ∧
          ∀ decompressed u', openzlDecompressFun zl (results.zip backs) u = .ok decompressed u' →
            Restored v.jobs backs w u') ∧
    ∀ e w', v.run zl o w = .error e w' → ∃ k < v.jobs.length,
      HoldsArchives zl (v.jobs.take k) w w' ∧
        ∀ path, (∀ job ∈ v.jobs.take (k + 1), path ∉ RowJob.writes job) →
          w'.files path = w.files path := by
  obtain ⟨α, rows, f, job, hloop, hjobs, hrows⟩ := v.exists_loop hzl o
  rw [hjobs] at hapart
  constructor
  · intro results w' hrun
    rw [hloop] at hrun
    have hdone := vectorDone_of_steps hrows hapart hkeep (mapM_eq_ok_iff.mp hrun)
    rw [← hjobs] at hdone
    obtain rfl := results_eq hdone.rows
    refine ⟨rfl, hdone.others, fun u hsame ↦ ?_⟩
    have harchives : HoldsArchives zl v.jobs w u := by
      intro input archive hmem
      rw [hsame _ hmem archive ⟨input, rfl⟩]
      exact holdsArchives_of_rows hdone.rows input archive hmem
    refine ⟨?_, fun backs hkeep' hapart' ↦ ⟨fun hhealthy hsize ↦ ?_, fun _ u' hback ↦ ?_⟩⟩
    · rw [harchives.chunkCounts, List.map_map]
      congr 1
      apply List.map_congr_left
      intro job _
      cases job <;> rfl
    · exact harchives.decompresses hkeep' hhealthy hsize hapart'
    · exact harchives.restored hkeep' hapart' hback
  · intro e w' hrun
    rw [hloop] at hrun
    obtain ⟨k, job', results, hk, hfirst, hothers⟩ := partlyDone_of_error hrows hapart hkeep hrun
    rw [← hjobs] at hk hfirst hothers
    exact ⟨k, (List.getElem?_eq_some_iff.mp hk).1, holdsArchives_of_rows hfirst, hothers⟩

end RoundTrip

/-- Two files and a row that is NULL. -/
def twoFiles : CompressVector :=
  .paths [(some "a.parquet", some "a.zl"), (none, some "n.zl"), (some "b.parquet", some "b.zl")]

def twoFilesWorld : World := (World.empty.put "a.parquet" [1, 2]).put "b.parquet" [3]

theorem vectors_round_trip_twoFiles : ∃ results w' decompressed u',
    twoFiles.run .stored {} twoFilesWorld = .ok results w' ∧
      openzlDecompressFun .stored (results.zip [some "a.out", none, some "b.out"])
        { w' with script := World.empty.script } = .ok decompressed u' ∧
      Restored twoFiles.jobs [some "a.out", none, some "b.out"] twoFilesWorld u' := by
  have hapart : RowJob.InOrder twoFiles.jobs := by
    simp [RowJob.InOrder, RowJob.reads, RowJob.writes, twoFiles, CompressVector.jobs, binaryJob]
  have hreturns : returns (twoFiles.run .stored {}) twoFilesWorld = true := by decide +kernel
  obtain ⟨results, w', hrun⟩ := exists_of_returns hreturns
  obtain ⟨hresults, -, hround⟩ := (vectors_round_trip OpenZL.stored_lawful {} twoFiles
    (w := twoFilesWorld) (fun _ ↦ rfl) hapart).1 results w' hrun
  obtain ⟨-, hback⟩ := hround { w' with script := World.empty.script } fun _ _ _ _ ↦ rfl
  have hapart' : RowJob.InOrder
      ((results.zip [some "a.out", none, some "b.out"]).map binaryJob) := by
    rw [hresults]
    simp [RowJob.InOrder, RowJob.reads, RowJob.writes, twoFiles, CompressVector.jobs, binaryJob]
  have hsize : ∀ input archive, some (input, archive) ∈ twoFiles.jobs → ∀ bytes,
      twoFilesWorld.content input = some bytes → bytes.length < fileSizeLimit := by
    intro input archive hmem bytes hcontent
    have hinput : input = "a.parquet" ∨ input = "b.parquet" := by
      have hpair : input = "a.parquet" ∧ archive = "a.zl" ∨
          input = "b.parquet" ∧ archive = "b.zl" := by
        simpa [twoFiles, CompressVector.jobs, binaryJob] using hmem
      exact hpair.imp And.left And.left
    rcases hinput with rfl | rfl
    · obtain rfl : [1, 2] = bytes := Option.some.inj hcontent
      decide
    · obtain rfl : [3] = bytes := Option.some.inj hcontent
      decide
  obtain ⟨hdecompresses, hrestored⟩ := hback [some "a.out", none, some "b.out"] (fun _ ↦ rfl)
    hapart'
  obtain ⟨decompressed, u', hdecompressed⟩ := hdecompresses (fun _ ↦ ⟨rfl, rfl, rfl⟩) hsize
  exact ⟨results, w', decompressed, u', hrun, hdecompressed, hrestored _ _ hdecompressed⟩

end DuckdbOpenzl
