import DuckdbOpenzl.Copy.AppendingWriter

/-!
# A COPY over file calls seen as a COPY over outcomes

Each callback takes the same step on both sides, from the choice of a target to
the end of the archive, and so does a whole run. What is proved of one side
holds of the other: here, that IN_MEMORY makes no difference to the archive.
-/

set_option autoImplicit false

namespace DuckdbOpenzl

open ExceptionState OpenzlBufferFileSystem

namespace Staging

variable {P : ParquetCopyFunction} {batches : List (List P.Row)} {zl : OpenZL}
  {bind : OpenzlCopyBindData} {m n k r : ℕ} {B : P.WritesAtMost batches n}
  {s : State (.ofAppends P)}

/-! ## Compressing a chunk -/

/-- What a chunk was compressed to, and the process. -/
def chunkResult : Except Error Bytes × Process → EStateM.Result Error CopyProcess Bytes
  | (.ok frame, p) => .ok frame p.outline
  | (.error e, p) => .error e p.outline

theorem compressChunkWithFallback_outline (zl : OpenZL) (bind : OpenzlCopyBindData)
    (canonicalBytes : Bytes) (p : Process) :
    compressChunkWithFallback zl bind canonicalBytes p.outline =
      chunkResult (compressChunk zl bind canonicalBytes p) := by
  unfold compressChunk compressChunkWithFallback
  dsimp only [Process.outline]
  cases compressParquetBytesToString zl canonicalBytes bind.trainedCompressorPath
      bind.compressionLevel bind.maxCompressBytes bind.graph p.world with
  | ok frame w => rfl
  | error e w =>
      dsimp only
      by_cases hlast : (!bind.fallbackToGeneric || bind.trainedCompressorPath.isEmpty) = true
      · rw [if_pos hlast, if_pos hlast]
        rfl
      · rw [if_neg hlast, if_neg hlast]
        cases compressParquetBytesToString zl canonicalBytes "" bind.compressionLevel
          bind.maxCompressBytes bind.graph w <;> rfl

theorem compressChunk_bufferFileSystem {canonicalBytes : Bytes} {p q : Process}
    {r : Except Error Bytes} (h : compressChunk zl bind canonicalBytes p = (r, q)) :
    q.bufferFileSystem = p.bufferFileSystem := by
  rw [compressChunk_eq] at h
  rw [← (Prod.mk.inj h).2]

theorem servesCompressor_outline (p : Process) : p.outline.servesCompressor bind = true := by
  unfold CopyProcess.servesCompressor
  cases p.outline.world.content bind.trainedCompressorPath <;> exact Bool.or_true _

theorem servesFile_outline (p : Process) (size : ℕ) : p.outline.servesFile bind size = true := by
  rw [CopyProcess.servesFile, servesCompressor_outline, Bool.and_true]
  rfl

theorem Process.outline_takeBuffer {p : Process} {path : Path} {bytes : Bytes}
    {fs : OpenzlBufferFileSystem} (hfs : p.bufferFileSystem.Separate)
    (h : p.bufferFileSystem.takeBuffer path = .ok (bytes, fs)) :
    p.outline.buffers path = some bytes ∧ Process.outline { p with bufferFileSystem := fs } =
      { p.outline with buffers := Function.update p.outline.buffers path none } := by
  obtain ⟨hheld, hcontents⟩ := hfs.contents_takeBuffer h
  obtain ⟨id, -, -, hfs'⟩ := takeBuffer_ok h
  have hcounter : fs.counter = p.bufferFileSystem.counter := by
    rw [hfs']
    rfl
  refine ⟨hheld, ?_⟩
  unfold Process.outline
  dsimp only
  rw [hcontents, hcounter]

theorem stagedResult_through {x : CopyM (.ofAppends P) Bytes} {y : DuckdbOpenzl.CopyM P Bytes}
    {q : Process} {r : Except Error Bytes} (hx : x s = stagedResult s q r)
    (hy : y s.outline = mapState State.outline (stagedResult s q r))
    (h : Between B m { s with process := q }) :
    Through State.outline (fun _ ↦ Between B m) x y s := by
  cases r with
  | ok frame => exact .ok hx hy h
  | error e => exact .error hx hy

theorem compressStaged_through_inMemory (hmemory : bind.inMemory = true)
    (h : Between B m s) :
    Through State.outline (fun _ ↦ Between B m)
      (compressStaged (W := .ofAppends P) zl bind) (DuckdbOpenzl.compressStaged zl bind) s := by
  have hprocess : s.outline.process = s.process.outline := rfl
  have hpath : s.outline.gstate.tmpParquetPath = s.gstate.tmpParquetPath := rfl
  cases htake : s.process.bufferFileSystem.takeBuffer s.gstate.tmpParquetPath with
  | error e =>
      have hheld : s.process.outline.buffers s.gstate.tmpParquetPath = none :=
        contents_of_takeBuffer_error htake
      refine .error (e := .internal ("OpenzlBufferFileSystem: no buffer registered for \"" ++
        s.gstate.tmpParquetPath ++ "\"")) (t := s) ?_ ?_
      · unfold compressStaged
        dsimp only
        rw [if_pos hmemory, htake]
      · unfold DuckdbOpenzl.compressStaged
        dsimp only
        rw [if_pos hmemory, hprocess, hpath, hheld]
  | ok taken =>
      obtain ⟨bytes, fs⟩ := taken
      obtain ⟨hheld, houtline⟩ := Process.outline_takeBuffer h.upcoming.separate htake
      obtain ⟨r, q, hchunk⟩ : ∃ r q, compressChunk zl bind bytes
          { s.process with bufferFileSystem := fs } = (r, q) := ⟨_, _, rfl⟩
      have hseen := compressChunkWithFallback_outline zl bind bytes
        { s.process with bufferFileSystem := fs }
      rw [hchunk, houtline] at hseen
      have hkept : Upcoming m q.bufferFileSystem := by
        rw [compressChunk_bufferFileSystem hchunk]
        exact h.upcoming.takeBuffer htake
      refine stagedResult_through (q := q) (r := r) ?_ ?_ ⟨h.localState, hkept⟩
      · unfold compressStaged
        dsimp only
        rw [if_pos hmemory, htake]
        dsimp only
        rw [hchunk]
        cases r <;> rfl
      · unfold DuckdbOpenzl.compressStaged
        dsimp only
        rw [if_pos hmemory, hprocess, hpath, hheld]
        dsimp only
        rw [if_pos (servesCompressor_outline _), hseen]
        cases r <;> rfl

theorem compressStaged_through_file (hfile : ¬bind.inMemory = true)
    (h : Between B m s) :
    Through State.outline (fun _ ↦ Between B m)
      (compressStaged (W := .ofAppends P) zl bind) (DuckdbOpenzl.compressStaged zl bind) s := by
  have hprocess : s.outline.process = s.process.outline := rfl
  have hpath : s.outline.gstate.tmpParquetPath = s.gstate.tmpParquetPath := rfl
  have hread : readStagingFile bind s.gstate.tmpParquetPath s.process.outline =
      readStagingFile bind s.gstate.tmpParquetPath { world := s.process.world } := rfl
  cases hbytes : readStagingFile bind s.gstate.tmpParquetPath { world := s.process.world } with
  | error e =>
      refine .error (e := .io e.what) (t := { s with process := { s.process with
        world := s.process.world.remove s.gstate.tmpParquetPath } }) ?_ ?_
      · unfold compressStaged
        dsimp only
        rw [if_neg hfile, hbytes]
      · unfold DuckdbOpenzl.compressStaged
        dsimp only
        rw [if_neg hfile, hprocess, hpath, hread, hbytes]
        rfl
  | ok bytes =>
      obtain ⟨r, q, hchunk⟩ : ∃ r q, compressChunk zl bind bytes s.process = (r, q) := ⟨_, _, rfl⟩
      have hseen := compressChunkWithFallback_outline zl bind bytes s.process
      rw [hchunk] at hseen
      have hkept : Upcoming m q.bufferFileSystem := by
        rw [compressChunk_bufferFileSystem hchunk]
        exact h.upcoming
      refine stagedResult_through (q := { q with
        world := q.world.remove s.gstate.tmpParquetPath }) (r := r) ?_ ?_ ⟨h.localState, hkept⟩
      · unfold compressStaged
        dsimp only
        rw [if_neg hfile, hbytes]
        dsimp only
        rw [hchunk]
        cases r <;> rfl
      · unfold DuckdbOpenzl.compressStaged
        dsimp only
        rw [if_neg hfile, hprocess, hpath, hread, hbytes]
        dsimp only
        rw [if_pos (servesFile_outline _ _), hseen]
        cases r <;> rfl

theorem compressStaged_through (h : Between B m s) :
    Through State.outline (fun _ ↦ Between B m)
      (compressStaged (W := .ofAppends P) zl bind) (DuckdbOpenzl.compressStaged zl bind) s := by
  by_cases hmemory : bind.inMemory = true
  · exact compressStaged_through_inMemory hmemory h
  · exact compressStaged_through_file hmemory h

/-! ## The rest of the callbacks -/

theorem callArchive_through (x : WriterM Unit) (h : Between B m s) :
    Through State.outline (fun _ ↦ Between B m)
      (callArchive (W := .ofAppends P) x) (DuckdbOpenzl.callArchive x) s := by
  have hstate : (s.outline.process.world, s.outline.gstate.archive) =
      (s.process.world, s.gstate.archive) := rfl
  cases hx : x (s.process.world, s.gstate.archive) with
  | ok u a =>
      refine .ok (a := ()) (t := { s with
        process := { s.process with world := a.1 }
        gstate := { s.gstate with archive := a.2 } }) ?_ ?_ ⟨h.localState, h.upcoming⟩
      · unfold callArchive
        rw [hx]
      · unfold DuckdbOpenzl.callArchive
        rw [hstate, hx]
        rfl
  | error e a =>
      refine .error (e := .io e.what) (t := { s with
        process := { s.process with world := a.1 }
        gstate := { s.gstate with archive := a.2 } }) ?_ ?_
      · unfold callArchive
        rw [hx]
      · unfold DuckdbOpenzl.callArchive
        rw [hstate, hx]
        rfl

theorem appendChunk_through (frame : Bytes) (h : Between B m s) :
    Through State.outline (fun _ ↦ Between B m)
      (appendChunk (W := .ofAppends P) frame) (DuckdbOpenzl.appendChunk frame) s := by
  obtain ⟨hseen, hkept⟩ := callArchive_through (ChunkedArchiveWriter.append frame) h
  cases hcall : callArchive (W := .ofAppends P) (ChunkedArchiveWriter.append frame) s with
  | ok u t =>
      rw [hcall] at hseen
      refine .ok (a := ()) (t := { t with gstate :=
        { t.gstate with chunkIndex := t.gstate.chunkIndex + 1 } }) ?_ ?_
        ⟨(hkept u t hcall).localState, (hkept u t hcall).upcoming⟩
      · unfold appendChunk
        rw [hcall]
      · unfold DuckdbOpenzl.appendChunk
        rw [hseen]
        rfl
  | error e t =>
      rw [hcall] at hseen
      refine .error (e := e) (t := t) ?_ ?_
      · unfold appendChunk
        rw [hcall]
      · unfold DuckdbOpenzl.appendChunk
        rw [hseen]
        rfl

theorem openzlEndChunk_through (hsize : (k + 1) * n < 2 ^ 63)
    (h : Appended B bind k m s) :
    Through State.outline (fun _ ↦ Between B m)
      (openzlEndChunk (W := .ofAppends P) zl bind) (DuckdbOpenzl.openzlEndChunk zl bind) s :=
  (parquetFinalize_through hsize h).bind fun _ _ h ↦
    (compressStaged_through h).bind fun frame _ h ↦ appendChunk_through frame h

/-- The target that is chosen is new, and the paths after it are. -/
theorem nextTarget_outline (bind : OpenzlCopyBindData)
    (h : Upcoming (m + 1) s.process.bufferFileSystem) :
    (nextTarget bind s).outline = s.outline.nextTarget bind ∧
      Upcoming m (nextTarget bind s).process.bufferFileSystem ∧
      (bind.inMemory = true → (nextTarget bind s).process.bufferFileSystem.buffers
        (nextTarget bind s).gstate.tmpParquetPath = none) ∧
      (bind.inMemory = true → ∀ i ≥ (nextTarget bind s).process.bufferFileSystem.counter,
        uniquePath i ≠ (nextTarget bind s).gstate.tmpParquetPath) := by
  unfold nextTarget CopyState.nextTarget
  by_cases hmemory : bind.inMemory = true
  · obtain ⟨hpath, hupcoming⟩ := h.generateUniquePath
    rw [if_pos hmemory, if_pos hmemory, hpath]
    refine ⟨rfl, hupcoming, fun _ ↦ h.free _ le_rfl, fun _ i hi heq ↦ ?_⟩
    have hcounter := uniquePath_injective heq
    dsimp only at hi
    omega
  · rw [if_neg hmemory, if_neg hmemory]
    exact ⟨rfl, h.mono m.le_succ, fun hmem ↦ absurd hmem hmemory, fun hmem ↦ absurd hmem hmemory⟩

theorem nextTarget_lstate (bind : OpenzlCopyBindData) (s : State (.ofAppends P)) :
    (nextTarget bind s).lstate = s.lstate := by
  unfold nextTarget
  split <;> rfl

theorem openzlStartChunk_through (hsize : n < 2 ^ 63)
    (h : Between B (m + 1) s) :
    Through State.outline (fun _ ↦ Appended B bind 1 m)
      (openzlStartChunk (W := .ofAppends P) bind) (DuckdbOpenzl.openzlStartChunk bind) s := by
  obtain ⟨hnext, hupcoming, hfree, hpath⟩ := nextTarget_outline bind h.upcoming
  have hlocal : ∀ l, (nextTarget bind s).lstate = some l → B.Local l := by
    rw [nextTarget_lstate]
    exact h.localState
  obtain ⟨u, hu⟩ : ∃ u, nextTarget bind s = u := ⟨_, rfl⟩
  rw [hu] at hnext hupcoming hfree hpath hlocal
  have hcalls : u.outline.process.hostCalls = u.process.hostCalls := rfl
  cases hresult : P.initializeGlobal u.process.hostCalls with
  | error what =>
      have hprogram : (ParquetWriter.ofAppends P).initializeGlobal u.process.hostCalls =
          .error what := congrArg (Except.map appending) hresult
      refine .error (e := .host .openTarget what)
        (t := { u with process := u.process.called }) ?_ ?_
      · unfold openzlStartChunk
        dsimp only
        rw [hu, hprogram]
      · unfold DuckdbOpenzl.openzlStartChunk
        dsimp only
        rw [← hnext, hcalls, hresult]
        rfl
  | ok o =>
      have hprogram : (ParquetWriter.ofAppends P).initializeGlobal u.process.hostCalls =
          .ok (appending o) := congrArg (Except.map appending) hresult
      obtain ⟨hwritten, hglobal⟩ := B.initializeGlobal _ o hresult
      obtain ⟨hend, hupcoming', hopened⟩ := Process.openFile_outline (p := u.process.called)
        bind.inMemory hupcoming hfree hpath
      obtain ⟨handle, p, hrun, hend', hupcoming'', houtline⟩ := Process.run_appending o hend
        hupcoming' (by simpa using hwritten.trans_lt hsize)
      rw [hopened] at houtline
      have hwrote : u.outline.openedTarget bind o.written =
          { u.outline with process := p.outline } := by
        rw [houtline]
        rfl
      cases hend'' : o.result with
      | error what =>
          rw [hend''] at hrun
          refine .error (e := .host .initializeGlobal what) (t := { u with process := p })
            (openzlStartChunk_error hu hprogram rfl hrun) ?_
          unfold DuckdbOpenzl.openzlStartChunk
          dsimp only
          rw [← hnext, hcalls, hresult]
          dsimp only
          rw [hend'', hwrote]
          rfl
      | ok g =>
          rw [hend''] at hrun
          refine .ok (a := ()) (t := { u with
            process := p
            gstate := { u.gstate with
              parquetGlobalState := some (g, handle), currentChunkOpen := true } })
            (openzlStartChunk_ok hu hprogram rfl hrun) ?_
            ⟨⟨hlocal, hupcoming''⟩, g, handle, _, rfl, hglobal g hend'', hend',
              by simpa using hwritten⟩
          unfold DuckdbOpenzl.openzlStartChunk
          dsimp only
          rw [← hnext, hcalls, hresult]
          dsimp only
          rw [hend'', hwrote]
          rfl

theorem openzlCopyInitLocal_through (h : Appended B bind k m s) :
    Through State.outline (fun _ ↦ Appended B bind k m)
      (openzlCopyInitLocal (W := .ofAppends P)) DuckdbOpenzl.openzlCopyInitLocal s := by
  obtain ⟨⟨-, hupcoming⟩, g, handle, content, hg, hglobal, hend, hlength⟩ := h
  have hcalls : s.outline.process.hostCalls = s.process.hostCalls := rfl
  cases hresult : P.initializeLocal s.process.hostCalls with
  | error what =>
      refine .error (e := .host .initializeLocal what) (t := { s with process := s.process.called })
        ?_ ?_
      · unfold openzlCopyInitLocal
        rw [show (ParquetWriter.ofAppends P).initializeLocal s.process.hostCalls = .error what
          from hresult]
      · unfold DuckdbOpenzl.openzlCopyInitLocal
        rw [hcalls, hresult]
        rfl
  | ok l =>
      refine .ok (a := ()) (t := { s with process := s.process.called, lstate := some l }) ?_ ?_
        ⟨⟨fun l' hl' ↦ Option.some.inj hl' ▸ B.initializeLocal _ l hresult, hupcoming⟩,
          g, handle, content, hg, hglobal, hend.called, hlength⟩
      · unfold openzlCopyInitLocal
        rw [show (ParquetWriter.ofAppends P).initializeLocal s.process.hostCalls = .ok l
          from hresult]
      · unfold DuckdbOpenzl.openzlCopyInitLocal
        rw [hcalls, hresult]
        rfl

theorem openzlStagedBytes_outline (bind : OpenzlCopyBindData) (s : State (.ofAppends P)) :
    DuckdbOpenzl.openzlStagedBytes bind s.outline = openzlStagedBytes bind s := by
  unfold DuckdbOpenzl.openzlStagedBytes openzlStagedBytes CopyState.target CopyProcess.target
  by_cases hmemory : bind.inMemory = true
  · have hheld : s.outline.process.buffers s.outline.gstate.tmpParquetPath =
        (s.process.bufferFileSystem.buffers s.gstate.tmpParquetPath).map
          s.process.bufferFileSystem.strings := rfl
    rw [if_pos hmemory, if_pos hmemory, hheld]
    unfold peekSize
    cases s.process.bufferFileSystem.buffers s.gstate.tmpParquetPath <;> rfl
  · rw [if_neg hmemory, if_neg hmemory]
    rfl

/-! ## Whole runs -/

/-- With `r` batches left: each takes a call on the target, and may take a new path. -/
def BatchesLeft (B : P.WritesAtMost batches n) (bind : OpenzlCopyBindData) (r : ℕ)
    (s : State (.ofAppends P)) : Prop :=
  ∃ k, 1 ≤ k ∧ k + r ≤ batches.length + 1 ∧ Appended B bind k r s

/-- The calls of a COPY do not fill a target. -/
theorem size_lt (hn : (batches.length + 3) * n < 2 ^ 63) {i : ℕ} (hi : i ≤ batches.length + 3) :
    i * n < 2 ^ 63 :=
  (Nat.mul_le_mul_right n hi).trans_lt hn

theorem rotateChunk_through (hn : (batches.length + 3) * n < 2 ^ 63)
    (hk : k + 2 ≤ batches.length + 3) (h : Appended B bind k (m + 1) s) :
    Through State.outline (fun _ ↦ Appended B bind 1 m)
      (rotateChunk (W := .ofAppends P) zl bind) (DuckdbOpenzl.rotateChunk zl bind) s :=
  (parquetCombine_through (size_lt hn (by omega)) h).bind fun _ _ h ↦
    (openzlEndChunk_through (size_lt hn hk) h).bind fun _ _ h ↦
      (openzlStartChunk_through (by simpa using size_lt (i := 1) hn (by omega)) h).bind
        fun _ _ h ↦ openzlCopyInitLocal_through h

theorem openzlCopySink_through (hn : (batches.length + 3) * n < 2 ^ 63) {input : List P.Row}
    (hinput : input ∈ batches) (h : BatchesLeft B bind (r + 1) s) :
    Through State.outline (fun _ ↦ BatchesLeft B bind r)
      (openzlCopySink (W := .ofAppends P) zl bind input)
      (DuckdbOpenzl.openzlCopySink zl bind input) s := by
  obtain ⟨k, hk, hleft, happended⟩ := h
  have hstaged := openzlStagedBytes_outline bind s
  by_cases hrotate : bind.chunkSizeBytes > 0 ∧ openzlStagedBytes bind s ≥ bind.chunkSizeBytes
  · have hrun : Through State.outline (fun _ ↦ BatchesLeft B bind r)
        (rotateChunk (W := .ofAppends P) zl bind >>= fun _ ↦ parquetSink input)
        (DuckdbOpenzl.rotateChunk zl bind >>= fun _ ↦ DuckdbOpenzl.parquetSink bind input) s :=
      (rotateChunk_through hn (by omega) happended).bind fun _ _ h ↦
        (parquetSink_through hinput (size_lt hn (by omega)) h).mono fun _ t ht ↦
          ⟨2, by omega, by omega, ht⟩
    refine hrun.of_eq ?_ ?_
    · unfold openzlCopySink
      rw [if_pos hrotate]
    · unfold DuckdbOpenzl.openzlCopySink
      rw [hstaged, if_pos hrotate]
  · have hrun : Through State.outline (fun _ ↦ BatchesLeft B bind r)
        (parquetSink (W := .ofAppends P) input) (DuckdbOpenzl.parquetSink bind input) s :=
      (parquetSink_through hinput (size_lt hn (by omega)) happended).mono fun _ t ht ↦
        ⟨k + 1, by omega, by omega, ht.mono r.le_succ⟩
    refine hrun.of_eq ?_ ?_
    · unfold openzlCopySink
      rw [if_neg hrotate]
    · unfold DuckdbOpenzl.openzlCopySink
      rw [hstaged, if_neg hrotate]

theorem endQuery_through {inv : State (.ofAppends P) → Prop} (queryError : Option String)
    (h : inv s) : Through State.outline (fun _ ↦ inv) (endQuery (W := .ofAppends P) queryError)
      (DuckdbOpenzl.endQuery queryError) s := by
  cases queryError with
  | none => exact .ok (a := ()) rfl rfl h
  | some what => exact .error (e := .host .query what) rfl rfl

theorem runCopy_through (queryError : Option String) (hn : (batches.length + 3) * n < 2 ^ 63)
    (h : Between B (batches.length + 1) s) :
    Through State.outline (fun _ ↦ Between B 0)
      (runCopy (W := .ofAppends P) zl bind batches queryError)
      (DuckdbOpenzl.runCopy zl bind batches queryError) s := by
  refine (openzlStartChunk_through (by simpa using size_lt (i := 1) hn (by omega)) h).bind
    fun _ _ h ↦ (openzlCopyInitLocal_through h).bind fun _ t h ↦ ?_
  have hleft : BatchesLeft B bind batches.length t := ⟨1, le_rfl, (Nat.add_comm ..).le, h⟩
  have hloop : Through State.outline (fun _ ↦ BatchesLeft B bind 0)
      (batches.forM (openzlCopySink (W := .ofAppends P) zl bind))
      (batches.forM (DuckdbOpenzl.openzlCopySink zl bind)) t :=
    Through.forM batches (fun r input hinput s hs ↦ openzlCopySink_through hn hinput hs) hleft
  refine hloop.bind fun _ _ h ↦ (endQuery_through queryError h).bind fun _ _ h ↦ ?_
  obtain ⟨k, hk, hleft, happended⟩ := h
  exact (parquetCombine_through (size_lt hn (by omega)) happended).bind fun _ _ h ↦
    (openzlEndChunk_through (size_lt hn (by omega)) h).bind fun _ _ h ↦
      callArchive_through ChunkedArchiveWriter.finish h

/-- A COPY over a writer that only appends is, without its handles, the COPY over the writer's
outcomes: both return or both throw the same, and leave the same behind. The writer stays below
the largest file, and no path from the counter on is registered. -/
theorem runCopy_outline (B : P.WritesAtMost batches n) (zl : OpenZL) (bind : OpenzlCopyBindData)
    (queryError : Option String) (p : Process) (path : Path)
    (hn : (batches.length + 3) * n < 2 ^ 63)
    (h : Upcoming (batches.length + 1) p.bufferFileSystem) :
    DuckdbOpenzl.runCopy zl bind batches queryError (CopyState.initial P p.outline path) =
      mapState State.outline
        (runCopy zl bind batches queryError (State.initial (.ofAppends P) p path)) := by
  have hbetween : Between B (batches.length + 1) (State.initial (.ofAppends P) p path) := by
    refine ⟨?_, h⟩
    intro l hl
    cases hl
  rw [← outline_initial]
  exact (runCopy_through queryError hn hbetween).seen

/-- The plain writer buffers nothing from one call to the next. -/
def plainWrites :
    ParquetCopyFunction.plain.WritesAtMost ParquetCopyFunction.plainBatches 2 where
  Global := fun _ ↦ True
  Local := fun l ↦ l = ([] : List UInt8)
  initializeGlobal := by
    rintro k o ⟨⟩
    exact ⟨Nat.zero_le 2, fun _ _ ↦ trivial⟩
  initializeLocal := by
    rintro k l ⟨⟩
    rfl
  sink := by
    rintro k input hinput g l - rfl
    refine ⟨?_, ?_⟩
    · rcases List.mem_pair.mp hinput with rfl | rfl
      · exact le_rfl
      · exact Nat.le_succ 1
    · rintro r ⟨⟩
      exact ⟨trivial, rfl⟩
  combine := by
    rintro k g l - rfl
    exact ⟨Nat.zero_le 2, fun _ _ ↦ trivial⟩
  finalize := fun _ _ _ ↦ Nat.zero_le 2

theorem upcoming_empty (hm : m < 2 ^ 64) : Upcoming m {} where
  separate := by
    constructor
    · intro p q id hp
      cases hp
    · intro p id hp
      cases hp
  free := fun _ _ ↦ rfl
  counter := by
    change 0 + m < 2 ^ 64
    omega

theorem runCopy_outline_plain :
    DuckdbOpenzl.runCopy .stored plainBind ParquetCopyFunction.plainBatches none
        (CopyState.initial .plain (Process.outline { world := World.empty }) "t.zl") =
      mapState State.outline (runCopy (W := .ofAppends .plain) .stored plainBind
        ParquetCopyFunction.plainBatches none
        (State.initial (.ofAppends .plain) { world := World.empty } "t.zl")) := by
  have hlength : ParquetCopyFunction.plainBatches.length = 2 := rfl
  refine runCopy_outline plainWrites .stored plainBind none { world := World.empty } "t.zl" ?_ ?_
  · rw [hlength]
    norm_num
  · rw [hlength]
    exact upcoming_empty (by norm_num)

theorem add64_iterate {counter i : ℕ} (h : counter + i < 2 ^ 64) :
    (add64 · 1)^[i] counter = counter + i := by
  induction i with
  | zero => rfl
  | succ i ih =>
      rw [Function.iterate_succ_apply', ih (by omega), add64_eq (by omega), Nat.add_assoc]

theorem Upcoming.idle {fs : OpenzlBufferFileSystem} (h : Upcoming m fs) :
    ∀ i < m, fs.buffers (upcomingPath fs.counter i) = none := by
  intro i hi
  have hcounter := h.counter
  rw [upcomingPath, add64_iterate (by omega)]
  exact h.free _ (Nat.le_add_right ..)

/-- Over the writer's outcomes, too, a COPY staged in memory writes the archive that it writes
staged in a file. -/
theorem runCopy_outcomes_inMemory (B : P.WritesAtMost batches n) (zl : OpenZL)
    (bind : OpenzlCopyBindData) (queryError : Option String) (p : Process) (path : Path)
    (hn : (batches.length + 3) * n < 2 ^ 63) (h : Upcoming (batches.length + 1) p.bufferFileSystem)
    (htrained : bind.trainedCompressorPath ≠ stagingFile path) :
    Together (fun s t ↦ t.gstate.chunkIndex = s.gstate.chunkIndex ∧
        t.destroy.world.content path = s.destroy.world.content path)
      (DuckdbOpenzl.runCopy (P := P) zl { bind with inMemory := true } batches queryError)
      (DuckdbOpenzl.runCopy zl { bind with inMemory := false } batches queryError)
      (CopyState.initial P p.outline path) (CopyState.initial P p.outline path) := by
  unfold Together
  rw [runCopy_outline B zl { bind with inMemory := true } queryError p path hn h,
    runCopy_outline B zl { bind with inMemory := false } queryError p path hn h]
  have hidle : Idle path (batches.length + 1) (State.initial (.ofAppends P) p path)
      (State.initial (.ofAppends P) p path) := idle_initial h.idle
  rcases @runCopy_together (.ofAppends P) zl _ _ _ _ htrained batches queryError hidle with
    ⟨u, s, t, hs, ht, hidle'⟩ | ⟨e, e', s, t, hs, ht⟩
  · rw [hs, ht]
    exact .inl ⟨u, s.outline, t.outline, rfl, rfl, hidle'.common.chunkIndex,
      hidle'.destroy_content⟩
  · rw [hs, ht]
    exact .inr ⟨e, e', s.outline, t.outline, rfl, rfl⟩

end Staging

end DuckdbOpenzl
