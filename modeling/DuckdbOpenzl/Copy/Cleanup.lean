import DuckdbOpenzl.Copy.CopyFunction

/-!
# The staging a run leaves behind

Staging is released in one place, after the parquet writer has finished its
file and before the frame is appended. What a callback leaves staged when it
throws is left there by the run: the global state's destructor does not know
about it.
-/

set_option autoImplicit false

namespace DuckdbOpenzl

open ExceptionState

/-- No staging file of this destination, and nothing under the buffer paths this run
generated. -/
structure NoStagingLeft (path : Path) (p₀ p : CopyProcess) : Prop where
  file : p.world.files (stagingFile path) = none
  buffers : ∀ k, p₀.counter ≤ k → k < p.counter → p.buffers (bufferPath k) = none

/-- What a run assumes of the process it starts in. -/
structure StagingFree (path : Path) (p₀ : CopyProcess) : Prop where
  file : p₀.world.files (stagingFile path) = none
  buffers : ∀ k, p₀.counter ≤ k → p₀.buffers (bufferPath k) = none

variable {P : ParquetCopyFunction} {zl : OpenZL} {bind : OpenzlCopyBindData} {path : Path}
  {p₀ : CopyProcess}

/-! ## States of a run -/

/-- The writers of this run are at work on this destination. -/
structure Owned (path : Path) (p₀ : CopyProcess) (s : CopyState P) : Prop where
  finalZlPath : s.gstate.finalZlPath = path
  archivePath : s.gstate.archive.path = path
  outPath : s.gstate.archive.out.path = path
  counter : p₀.counter ≤ s.process.counter

/-- Nothing is staged. -/
structure Idle (path : Path) (p₀ : CopyProcess) (s : CopyState P) : Prop
    extends Owned path p₀ s where
  buffers : s.process.buffers = p₀.buffers
  file : s.process.world.files (stagingFile path) = none

/-- One chunk is staged, in memory or in the file. -/
structure Holding (bind : OpenzlCopyBindData) (path : Path) (p₀ : CopyProcess) (s : CopyState P) :
    Prop extends Owned path p₀ s where
  memory : bind.inMemory = true → s.process.world.files (stagingFile path) = none ∧
    ∃ k bytes, p₀.counter ≤ k ∧ k < s.process.counter ∧ s.gstate.tmpParquetPath = bufferPath k ∧
      s.process.buffers = Function.update p₀.buffers (bufferPath k) (some bytes)
  disk : bind.inMemory = false → s.process.buffers = p₀.buffers ∧
    s.gstate.tmpParquetPath = stagingFile path ∧
      (s.process.world.files (stagingFile path)).isSome

/-- A chunk is staged and the parquet writer has its global and local state. -/
structure Sinking (bind : OpenzlCopyBindData) (path : Path) (p₀ : CopyProcess) (s : CopyState P) :
    Prop extends Holding bind path p₀ s where
  parquetGlobalState : s.gstate.parquetGlobalState.isSome
  lstate : s.lstate.isSome

/-- Where a run that throws leaves its staging. -/
def Ends (bind : OpenzlCopyBindData) (path : Path) (p₀ : CopyProcess) (e : CopyException)
    (s : CopyState P) : Prop :=
  match e with
  | .host .openTarget _ => Idle path p₀ s
  | .host _ _ => Holding bind path p₀ s
  | .io _ => Idle path p₀ s
  | .internal _ => False
  | .badAlloc => if bind.inMemory then Idle path p₀ s else Holding bind path p₀ s

theorem Holding.wrote {s : CopyState P} (h : Holding bind path p₀ s) (bytes : Bytes) :
    Holding bind path p₀ (s.wrote bind bytes) := by
  have howned : Owned path p₀ (s.wrote bind bytes) := by
    refine ⟨h.finalZlPath, h.archivePath, h.outPath, h.counter.trans (le_of_eq ?_)⟩
    cases hmode : bind.inMemory <;> simp [CopyState.wrote, CopyProcess.appendTarget, hmode,
      CopyProcess.called]
  refine ⟨howned, fun hmode ↦ ?_, fun hmode ↦ ?_⟩
  · obtain ⟨hfile, k, old, hk, hk', htmp, hbuffers⟩ := h.memory hmode
    simp only [CopyState.wrote, CopyProcess.appendTarget, hmode, if_true]
    refine ⟨hfile, k, old ++ bytes, hk, hk', htmp, ?_⟩
    simp [CopyProcess.called, htmp, hbuffers]
  · obtain ⟨hbuffers, htmp, hfile⟩ := h.disk hmode
    simp only [CopyState.wrote, CopyProcess.appendTarget, hmode, Bool.false_eq_true, if_false]
    refine ⟨hbuffers, htmp, ?_⟩
    simp [CopyProcess.called, htmp, World.store, World.put]

theorem Holding.of_eq {s s' : CopyState P} (h : Holding bind path p₀ s)
    (hprocess : s'.process = s.process) (hfinal : s'.gstate.finalZlPath = s.gstate.finalZlPath)
    (harchive : s'.gstate.archive = s.gstate.archive)
    (htmp : s'.gstate.tmpParquetPath = s.gstate.tmpParquetPath) : Holding bind path p₀ s' where
  finalZlPath := hfinal.trans h.finalZlPath
  archivePath := by rw [harchive, h.archivePath]
  outPath := by rw [harchive, h.outPath]
  counter := by rw [hprocess]; exact h.counter
  memory := by rw [hprocess, htmp]; exact h.memory
  disk := by rw [hprocess, htmp]; exact h.disk

/-! ## Calls on the parquet writer -/

theorem parquetSink_triple (input : List P.Row) :
    Triple (Sinking bind path p₀) (parquetSink (P := P) bind input)
      (fun _ ↦ Sinking bind path p₀) (Ends bind path p₀) := by
  intro s hs
  obtain ⟨l, hl⟩ := Option.isSome_iff_exists.mp hs.lstate
  obtain ⟨g, hg⟩ := Option.isSome_iff_exists.mp hs.parquetGlobalState
  have hwrote := hs.toHolding.wrote (P.sink s.process.hostCalls input g l).written
  simp only [parquetSink, hl, callHost_eq hg]
  cases (P.sink s.process.hostCalls input g l).result with
  | ok a => exact ⟨hwrote.of_eq rfl rfl rfl rfl, rfl, rfl⟩
  | error what => exact hwrote

theorem parquetCombine_triple :
    Triple (Sinking bind path p₀) (parquetCombine (P := P) bind)
      (fun _ ↦ Sinking bind path p₀) (Ends bind path p₀) := by
  intro s hs
  obtain ⟨l, hl⟩ := Option.isSome_iff_exists.mp hs.lstate
  obtain ⟨g, hg⟩ := Option.isSome_iff_exists.mp hs.parquetGlobalState
  have hwrote := hs.toHolding.wrote (P.combine s.process.hostCalls g l).written
  simp only [parquetCombine, hl, callHost_eq hg]
  cases (P.combine s.process.hostCalls g l).result with
  | ok a => exact ⟨hwrote.of_eq rfl rfl rfl rfl, rfl, hs.lstate⟩
  | error what => exact hwrote

theorem parquetFinalize_triple :
    Triple (Sinking bind path p₀) (parquetFinalize (P := P) bind)
      (fun _ ↦ Holding bind path p₀) (Ends bind path p₀) := by
  intro s hs
  obtain ⟨g, hg⟩ := Option.isSome_iff_exists.mp hs.parquetGlobalState
  have hwrote := hs.toHolding.wrote (P.finalize s.process.hostCalls g).written
  simp only [parquetFinalize, callHost_eq hg]
  cases (P.finalize s.process.hostCalls g).result with
  | ok a => exact hwrote.of_eq rfl rfl rfl rfl
  | error what => exact hwrote

theorem openzlCopyInitLocal_triple :
    Triple (fun s : CopyState P ↦ Holding bind path p₀ s ∧ s.gstate.parquetGlobalState.isSome)
      openzlCopyInitLocal (fun _ ↦ Sinking bind path p₀) (Ends bind path p₀) := by
  rintro s ⟨hs, hg⟩
  have hcalled : Holding bind path p₀ { s with process := s.process.called } :=
    ⟨⟨hs.finalZlPath, hs.archivePath, hs.outPath, hs.counter⟩, hs.memory, hs.disk⟩
  unfold openzlCopyInitLocal
  cases P.initializeLocal s.process.hostCalls with
  | ok l => exact ⟨hcalled.of_eq rfl rfl rfl rfl, hg, rfl⟩
  | error what => exact hcalled

/-! ## Starting and ending a chunk -/

theorem Idle.called {s : CopyState P} (h : Idle path p₀ s) :
    Idle path p₀ { s with process := s.process.called } :=
  ⟨⟨h.finalZlPath, h.archivePath, h.outPath, h.counter⟩, h.buffers, h.file⟩

theorem Idle.nextTarget {s : CopyState P} (h : Idle path p₀ s) (bind : OpenzlCopyBindData) :
    Idle path p₀ (s.nextTarget bind) := by
  cases hmode : bind.inMemory with
  | true =>
      simp only [CopyState.nextTarget, hmode, if_true]
      exact ⟨⟨h.finalZlPath, h.archivePath, h.outPath, h.counter.trans (Nat.le_succ _)⟩, h.buffers,
        h.file⟩
  | false =>
      simp only [CopyState.nextTarget, hmode, Bool.false_eq_true, if_false]
      exact ⟨⟨h.finalZlPath, h.archivePath, h.outPath, h.counter⟩, h.buffers, h.file⟩

theorem Idle.openedTarget {s : CopyState P} (hfree : StagingFree path p₀) (h : Idle path p₀ s)
    (bytes : Bytes) : Holding bind path p₀ ((s.nextTarget bind).openedTarget bind bytes) := by
  have hnext := h.nextTarget bind
  cases hmode : bind.inMemory with
  | true =>
      have hfresh := hfree.buffers _ h.counter
      simp only [CopyState.nextTarget, CopyState.openedTarget, hmode, if_true]
      refine ⟨⟨h.finalZlPath, h.archivePath, h.outPath, h.counter.trans (Nat.le_succ _)⟩,
        fun _ ↦ ⟨h.file, s.process.counter, bytes, h.counter, Nat.lt_succ_self _, rfl, ?_⟩,
        fun hdisk ↦ ?_⟩
      · simp [CopyProcess.openTarget, CopyProcess.appendTarget, CopyProcess.called, h.buffers,
          hfresh]
      · rw [hmode] at hdisk
        cases hdisk
  | false =>
      simp only [CopyState.nextTarget, CopyState.openedTarget, hmode, Bool.false_eq_true, if_false]
      refine ⟨⟨h.finalZlPath, h.archivePath, h.outPath, h.counter⟩, fun hmem ↦ ?_,
        fun _ ↦ ⟨h.buffers, ?_, ?_⟩⟩
      · rw [hmode] at hmem
        cases hmem
      · rw [h.finalZlPath]
      · simp [CopyProcess.openTarget, CopyProcess.appendTarget, CopyProcess.called, World.store,
          World.put, h.finalZlPath]

theorem openzlStartChunk_triple (hfree : StagingFree path p₀) :
    Triple (Idle (P := P) path p₀) (openzlStartChunk bind)
      (fun _ s ↦ Holding bind path p₀ s ∧ s.gstate.parquetGlobalState.isSome)
      (Ends bind path p₀) := by
  intro s hs
  have hnext := hs.nextTarget bind
  unfold openzlStartChunk
  dsimp only
  cases P.initializeGlobal (s.nextTarget bind).process.hostCalls with
  | error what => exact hnext.called
  | ok o =>
      have hopened : Holding bind path p₀ ((s.nextTarget bind).openedTarget bind o.written) :=
        hs.openedTarget hfree o.written
      dsimp only
      cases o.result with
      | error what => exact hopened
      | ok g => exact ⟨hopened.of_eq rfl rfl rfl rfl, rfl⟩

/-! ## Compressing the staged chunk -/

theorem compressChunkWithFallback_eq (zl : OpenZL) (bind : OpenzlCopyBindData) (bytes : Bytes)
    (p : CopyProcess) : ∃ n, stateAfter (compressChunkWithFallback zl bind bytes) p =
      { p with fallbackChunks := n } := by
  have hreads := fun trained ↦ compressParquetBytesToString_readsOnly zl bytes trained
    bind.compressionLevel bind.maxCompressBytes bind.graph
  unfold stateAfter compressChunkWithFallback
  cases hfirst : compressParquetBytesToString zl bytes bind.trainedCompressorPath
      bind.compressionLevel bind.maxCompressBytes bind.graph p.world with
  | ok frame w =>
      have hw := (hreads _).eq_of_ok hfirst
      subst hw
      exact ⟨p.fallbackChunks, rfl⟩
  | error e w =>
      have hw := (hreads _).eq_of_error hfirst
      subst hw
      dsimp only
      by_cases hfallback : (!bind.fallbackToGeneric || bind.trainedCompressorPath.isEmpty) = true
      · rw [if_pos hfallback]
        exact ⟨p.fallbackChunks, rfl⟩
      · rw [if_neg hfallback]
        cases hsecond : compressParquetBytesToString zl bytes "" bind.compressionLevel
            bind.maxCompressBytes bind.graph p.world with
        | ok frame w =>
            have hw := (hreads _).eq_of_ok hsecond
            subst hw
            exact ⟨p.fallbackChunks + 1, rfl⟩
        | error e w =>
            have hw := (hreads _).eq_of_error hsecond
            subst hw
            exact ⟨p.fallbackChunks + 1, rfl⟩

theorem compressChunkWithFallback_ok {bytes frame : Bytes} {p p' : CopyProcess}
    (h : compressChunkWithFallback zl bind bytes p = .ok frame p') :
    ∃ cctx, zl.compressSerial cctx bytes = .ok frame := by
  unfold compressChunkWithFallback at h
  split at h
  · rename_i f w hfirst
    obtain ⟨rfl, -⟩ := EStateM.Result.ok.inj h
    exact compressParquetBytesToString_ok hfirst
  · split at h
    · cases h
    · dsimp only at h
      split at h
      · rename_i f w hsecond
        obtain ⟨rfl, -⟩ := EStateM.Result.ok.inj h
        exact compressParquetBytesToString_ok hsecond
      · cases h

theorem content_of_readStagingFile {p : CopyProcess} {tmp : Path} {bytes : Bytes}
    (h : readStagingFile bind tmp p = .ok bytes) : p.world.content tmp = some bytes := by
  unfold readStagingFile at h
  cases hcontent : p.world.content tmp with
  | none =>
      rw [hcontent] at h
      cases h
  | some staged =>
      rw [hcontent] at h
      dsimp only at h
      split_ifs at h
      cases h
      rfl

/-- The chunk is no longer staged. -/
def CopyState.released (s : CopyState P) (bind : OpenzlCopyBindData) (fallbackChunks : ℕ) :
    CopyState P :=
  if bind.inMemory then
    { s with process := { s.process with
      buffers := Function.update s.process.buffers s.gstate.tmpParquetPath none
      fallbackChunks := fallbackChunks } }
  else
    { s with process := { s.process with
      world := s.process.world.remove s.gstate.tmpParquetPath
      fallbackChunks := fallbackChunks } }

/-- How compressing the staged chunk can end. -/
inductive CompressStagedEnd (zl : OpenZL) (bind : OpenzlCopyBindData) (s : CopyState P) :
    EStateM.Result CopyException (CopyState P) Bytes → Prop
  | noBuffer (memory : bind.inMemory = true)
      (gone : s.process.buffers s.gstate.tmpParquetPath = none) (what : String) :
      CompressStagedEnd zl bind s (.error (.internal what) s)
  | unread (disk : bind.inMemory = false) (e : Error) :
      CompressStagedEnd zl bind s
        (.error (.io e.what) (s.released bind s.process.fallbackChunks))
  | dropped (memory : bind.inMemory = true) :
      CompressStagedEnd zl bind s (.error .badAlloc (s.released bind s.process.fallbackChunks))
  | kept {bytes : Bytes} (disk : bind.inMemory = false)
      (read : readStagingFile bind s.gstate.tmpParquetPath s.process = .ok bytes)
      (refused : ¬ s.process.servesFile bind bytes.length) :
      CompressStagedEnd zl bind s (.error .badAlloc s)
  | failed (e : Error) (n : ℕ) :
      CompressStagedEnd zl bind s (.error (.io e.what) (s.released bind n))
  | compressed {bytes frame : Bytes} {n : ℕ} (staged : s.target bind = some bytes)
      (made : ∃ cctx, zl.compressSerial cctx bytes = .ok frame) :
      CompressStagedEnd zl bind s (.ok frame (s.released bind n))

theorem compressStaged_cases_inMemory (zl : OpenZL) {s : CopyState P}
    (hmode : bind.inMemory = true) :
    CompressStagedEnd zl bind s (compressStaged zl bind s) := by
  have hreleased : ∀ n, s.released bind n = { s with process := { s.process with
      buffers := Function.update s.process.buffers s.gstate.tmpParquetPath none
      fallbackChunks := n } } := fun n ↦ if_pos hmode
  unfold compressStaged
  dsimp only
  rw [if_pos hmode]
  cases hbuffer : s.process.buffers s.gstate.tmpParquetPath with
  | none => exact .noBuffer hmode hbuffer _
  | some bytes =>
      have hstaged : s.target bind = some bytes := by
        rw [CopyState.target, CopyProcess.target, if_pos hmode, hbuffer]
      obtain ⟨n, hn⟩ := compressChunkWithFallback_eq zl bind bytes { s.process with
        buffers := Function.update s.process.buffers s.gstate.tmpParquetPath none }
      dsimp only
      by_cases hserved : s.process.servesCompressor bind = true
      · rw [if_pos hserved]
        cases hrun : compressChunkWithFallback zl bind bytes { s.process with
            buffers := Function.update s.process.buffers s.gstate.tmpParquetPath none } with
        | ok frame p =>
            obtain rfl := (stateAfter_of_ok hrun).symm.trans hn
            dsimp only
            rw [← hreleased n]
            exact .compressed hstaged (compressChunkWithFallback_ok hrun)
        | error e p =>
            obtain rfl := (stateAfter_of_error hrun).symm.trans hn
            dsimp only
            rw [← hreleased n]
            exact .failed e n
      · rw [if_neg hserved]
        have hdropped : CompressStagedEnd zl bind s _ := .dropped hmode
        rwa [hreleased] at hdropped

theorem compressStaged_cases_file (zl : OpenZL) {s : CopyState P}
    (hmode : bind.inMemory = false) :
    CompressStagedEnd zl bind s (compressStaged zl bind s) := by
  have hfile : ¬ bind.inMemory = true := Bool.eq_false_iff.mp hmode
  have hreleased : ∀ n, s.released bind n = { s with process := { s.process with
      world := s.process.world.remove s.gstate.tmpParquetPath
      fallbackChunks := n } } := fun n ↦ if_neg hfile
  unfold compressStaged
  dsimp only
  rw [if_neg hfile]
  cases hread : readStagingFile bind s.gstate.tmpParquetPath s.process with
  | error e =>
      have hunread : CompressStagedEnd zl bind s _ := .unread hmode e
      rwa [hreleased] at hunread
  | ok bytes =>
      have hstaged : s.target bind = some bytes := by
        rw [CopyState.target, CopyProcess.target, if_neg hfile]
        exact content_of_readStagingFile hread
      obtain ⟨n, hn⟩ := compressChunkWithFallback_eq zl bind bytes s.process
      dsimp only
      by_cases hserved : s.process.servesFile bind bytes.length = true
      · rw [if_pos hserved]
        cases hrun : compressChunkWithFallback zl bind bytes s.process with
        | ok frame p =>
            obtain rfl := (stateAfter_of_ok hrun).symm.trans hn
            dsimp only
            rw [← hreleased n]
            exact .compressed hstaged (compressChunkWithFallback_ok hrun)
        | error e p =>
            obtain rfl := (stateAfter_of_error hrun).symm.trans hn
            dsimp only
            rw [← hreleased n]
            exact .failed e n
      · rw [if_neg hserved]
        exact .kept hmode hread hserved

theorem compressStaged_cases (zl : OpenZL) (bind : OpenzlCopyBindData) (s : CopyState P) :
    CompressStagedEnd zl bind s (compressStaged zl bind s) := by
  cases hmode : bind.inMemory with
  | true => exact compressStaged_cases_inMemory zl hmode
  | false => exact compressStaged_cases_file zl hmode

theorem Holding.released {s : CopyState P} (hfree : StagingFree path p₀)
    (h : Holding bind path p₀ s) (n : ℕ) : Idle path p₀ (s.released bind n) := by
  unfold CopyState.released
  by_cases hmode : bind.inMemory = true
  · rw [if_pos hmode]
    obtain ⟨hfile, k, bytes, hk, -, htmp, hbuffers⟩ := h.memory hmode
    refine ⟨⟨h.finalZlPath, h.archivePath, h.outPath, h.counter⟩, ?_, hfile⟩
    have hnone := hfree.buffers k hk
    simp only [htmp, hbuffers, Function.update_idem]
    rw [← hnone, Function.update_eq_self]
  · rw [if_neg hmode]
    obtain ⟨hbuffers, htmp, -⟩ := h.disk (Bool.eq_false_iff.mpr hmode)
    refine ⟨⟨h.finalZlPath, h.archivePath, h.outPath, h.counter⟩, hbuffers, ?_⟩
    simp [htmp, World.remove]

/-- What is staged when the parquet file is finished is released, whether the chunk could be
compressed or not; only a file for which memory runs out stays. -/
theorem compressStaged_triple (hfree : StagingFree path p₀) :
    Triple (Holding (P := P) bind path p₀) (compressStaged zl bind) (fun _ ↦ Idle path p₀)
      (Ends bind path p₀) := by
  intro s hs
  have hreleased := hs.released hfree
  generalize hresult : compressStaged zl bind s = r
  have hcases := compressStaged_cases zl bind s
  rw [hresult] at hcases
  cases hcases with
  | noBuffer memory gone what =>
      obtain ⟨-, k, bytes, -, -, htmp, hbuffers⟩ := hs.memory memory
      rw [htmp, hbuffers, Function.update_self] at gone
      cases gone
  | unread disk e => exact hreleased _
  | dropped memory =>
      simp only [Ends, memory, if_true]
      exact hreleased _
  | kept disk read refused =>
      simp only [Ends, disk, Bool.false_eq_true, if_false]
      exact hs
  | failed e n => exact hreleased n
  | compressed staged made => exact hreleased _

/-! ## The archive writer -/

theorem stagingFile_ne (path : Path) : stagingFile path ≠ path := by
  intro h
  have hlen := congrArg String.length h
  simp only [stagingFile, String.length_append] at hlen
  have hsuffix : ".openzl_staging.parquet".length = 23 := rfl
  omega

theorem Idle.archive {s : CopyState P} (h : Idle path p₀ s) {w : World} {a : ChunkedArchiveWriter}
    (hstep : ChunkedArchiveWriter.Step (s.process.world, s.gstate.archive) (w, a)) :
    Idle path p₀ { s with
      process := { s.process with world := w }
      gstate := { s.gstate with archive := a } } := by
  have hpath : s.gstate.archive.path = path := h.archivePath
  have htouches := hstep.touches
  dsimp only at htouches
  rw [hpath] at htouches
  refine ⟨⟨h.finalZlPath, hstep.path.trans hpath, hstep.outPath.trans hpath, h.counter⟩, h.buffers,
    ?_⟩
  exact (htouches.files _ (stagingFile_ne path)).trans h.file

section

variable {exc : CopyException → CopyState P → Prop}

theorem callArchive_triple {x : WriterM Unit}
    (hx : ∀ s : World × ChunkedArchiveWriter, s.2.out.path = s.2.path →
      ChunkedArchiveWriter.Step s (stateAfter x s))
    (hexc : ∀ what s, Idle path p₀ s → exc (.io what) s) :
    Triple (Idle path p₀) (callArchive x) (fun _ ↦ Idle path p₀) exc := by
  intro s hs
  have hstep := hx (s.process.world, s.gstate.archive) (hs.outPath.trans hs.archivePath.symm)
  unfold callArchive
  cases hrun : x (s.process.world, s.gstate.archive) with
  | ok u t =>
      rw [stateAfter_of_ok hrun] at hstep
      exact hs.archive hstep
  | error e t =>
      rw [stateAfter_of_error hrun] at hstep
      exact hexc _ _ (hs.archive hstep)

theorem appendChunk_triple (frame : Bytes) (hexc : ∀ what s, Idle path p₀ s → exc (.io what) s) :
    Triple (Idle path p₀) (appendChunk frame) (fun _ ↦ Idle path p₀) exc := by
  intro s hs
  have htriple : Triple (Idle path p₀) (callArchive (ChunkedArchiveWriter.append frame))
      (fun _ ↦ Idle path p₀) exc :=
    callArchive_triple (fun _ hout ↦ ChunkedArchiveWriter.append_step frame hout) hexc
  have hcall := htriple s hs
  unfold appendChunk
  cases hrun : callArchive (ChunkedArchiveWriter.append frame) s with
  | ok u t =>
      rw [hrun] at hcall
      exact ⟨⟨hcall.finalZlPath, hcall.archivePath, hcall.outPath, hcall.counter⟩, hcall.buffers,
        hcall.file⟩
  | error e t =>
      rw [hrun] at hcall
      exact hcall

end

/-! ## What is left -/

/-- A run and the destruction of its global state. -/
def endedProcess (zl : OpenZL) (bind : OpenzlCopyBindData) (batches : List (List P.Row))
    (queryError : Option String) (p₀ : CopyProcess) (path : Path) : CopyProcess :=
  (stateAfter (runCopy zl bind batches queryError) (CopyState.initial P p₀ path)).destroy

theorem Owned.destroy_files {s : CopyState P} (h : Owned path p₀ s) :
    s.destroy.world.files (stagingFile path) = s.process.world.files (stagingFile path) := by
  have htouches := ChunkedArchiveWriter.destroy_touches
    (s := (s.process.world, s.gstate.archive)) (h.outPath.trans h.archivePath.symm)
  dsimp only at htouches
  rw [h.archivePath] at htouches
  exact htouches.files _ (stagingFile_ne path)

theorem Idle.noStagingLeft {s : CopyState P} (hfree : StagingFree path p₀) (h : Idle path p₀ s) :
    NoStagingLeft path p₀ s.destroy where
  file := h.toOwned.destroy_files.trans h.file
  buffers := by
    intro k hk _
    rw [show s.destroy.buffers = p₀.buffers from h.buffers]
    exact hfree.buffers k hk

theorem Holding.not_noStagingLeft {s : CopyState P} (h : Holding bind path p₀ s) :
    ¬ NoStagingLeft path p₀ s.destroy := by
  intro hno
  cases hmode : bind.inMemory with
  | true =>
      obtain ⟨-, k, bytes, hk, hk', -, hbuffers⟩ := h.memory hmode
      have hnone := hno.buffers k hk hk'
      rw [show s.destroy.buffers = _ from hbuffers, Function.update_self] at hnone
      cases hnone
  | false =>
      obtain ⟨-, -, hfile⟩ := h.disk hmode
      rw [← h.toOwned.destroy_files, hno.file] at hfile
      cases hfile

def CopyProcess.empty : CopyProcess := { world := World.empty }

theorem stagingFree_empty (path : Path) : StagingFree path CopyProcess.empty :=
  ⟨rfl, fun _ _ ↦ rfl⟩

end DuckdbOpenzl
