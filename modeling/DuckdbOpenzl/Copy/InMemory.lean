import DuckdbOpenzl.Bridge.OtherFiles
import DuckdbOpenzl.Copy.Cleanup
import DuckdbOpenzl.Copy.Staging

/-!
# Staging in memory and staging in a file

Two runs of one COPY in lock-step, one with IN_MEMORY and one without. The
buffer mirrors the staging file from one call to the next, so both runs rotate
at the same batches and compress the same bytes.
-/

set_option autoImplicit false

namespace DuckdbOpenzl

open ExceptionState FileContent

namespace Staging

variable {W : ParquetWriter} {zl : OpenZL} {bind : OpenzlCopyBindData} {path : Path} {m : ℕ}
  {s t : State W}

/-! ## Compressing a chunk -/

/-- What the compressor file holds, for an empty path nothing. -/
def compressorBytes (trainedCompressorPath : Path) (file : Option Bytes) : Except Error Bytes :=
  if trainedCompressorPath.isEmpty then .ok []
  else match file with
    | some bytes => .ok bytes
    | none => .error ⟨"openzl_bridge: trained compressor file not found: " ++ trainedCompressorPath⟩

def compressedString (zl : OpenZL) (bind : OpenzlCopyBindData) (trainedCompressorPath : Path)
    (canonicalBytes : Bytes) (file : Option Bytes) : Except Error Bytes := do
  let compressor ← compressorBytes trainedCompressorPath file
  compressBytesImpl zl canonicalBytes "<in-memory input>" compressor bind.compressionLevel
    bind.maxCompressBytes bind.graph

theorem loadCompressorFile_eq (trainedCompressorPath : Path) (w : World) :
    loadCompressorFile trainedCompressorPath w =
      returned (compressorBytes trainedCompressorPath (w.content trainedCompressorPath)) w := by
  unfold loadCompressorFile compressorBytes
  by_cases hempty : trainedCompressorPath.isEmpty = true
  · rw [if_pos hempty, if_pos hempty]
    rfl
  · rw [if_neg hempty, if_neg hempty]
    simp only [bind_apply, opened]
    cases hcontent : w.content trainedCompressorPath with
    | none => rfl
    | some bytes =>
        simp only [Option.isSome_some, if_true, returned]
        rw [hcontent]
        rfl

/-- Of the files only the trained compressor is read. -/
theorem compressParquetBytesToString_eq (zl : OpenZL) (bind : OpenzlCopyBindData)
    (trainedCompressorPath : Path) (canonicalBytes : Bytes) (w : World) :
    compressParquetBytesToString zl canonicalBytes trainedCompressorPath bind.compressionLevel
        bind.maxCompressBytes bind.graph w =
      returned (compressedString zl bind trainedCompressorPath canonicalBytes
        (w.content trainedCompressorPath)) w := by
  unfold compressParquetBytesToString compressedString
  rw [bind_apply, loadCompressorFile_eq]
  cases compressorBytes trainedCompressorPath (w.content trainedCompressorPath) with
  | error e => rfl
  | ok compressor =>
      change (MonadExcept.ofExcept (compressBytesImpl zl canonicalBytes "<in-memory input>"
        compressor bind.compressionLevel bind.maxCompressBytes bind.graph) : BridgeM Bytes) w =
          returned (compressBytesImpl zl canonicalBytes "<in-memory input>" compressor
            bind.compressionLevel bind.maxCompressBytes bind.graph) w
      cases compressBytesImpl zl canonicalBytes "<in-memory input>" compressor bind.compressionLevel
        bind.maxCompressBytes bind.graph <;> rfl

theorem compressBytesImpl_tooLarge {input : Bytes} {errorLabel : String} {compressor : Bytes}
    {compressionLevel : ℤ} {maxInputBytes : ℕ} {graph : GraphOptions}
    (h : input.length > maxInputBytes) : ∃ e, compressBytesImpl zl input errorLabel compressor
      compressionLevel maxInputBytes graph = .error e := by
  unfold compressBytesImpl
  cases validateGraphOptions zl graph with
  | error e => exact ⟨e, rfl⟩
  | ok u =>
      simp only [Bind.bind, Except.bind, if_pos h]
      split
      · exact ⟨_, rfl⟩
      · exact ⟨_, rfl⟩

/-- The frame or the error, and how many fallbacks were counted. -/
def chunkOutcome (zl : OpenZL) (bind : OpenzlCopyBindData) (canonicalBytes : Bytes)
    (file : Option Bytes) : Except Error Bytes × ℕ :=
  match compressedString zl bind bind.trainedCompressorPath canonicalBytes file with
  | .ok frame => (.ok frame, 0)
  | .error e =>
      if !bind.fallbackToGeneric || bind.trainedCompressorPath.isEmpty then (.error e, 0)
      else (compressedString zl bind "" canonicalBytes none, 1)

theorem compressChunk_eq (zl : OpenZL) (bind : OpenzlCopyBindData) (canonicalBytes : Bytes)
    (p : Process) : compressChunk zl bind canonicalBytes p =
      let o := chunkOutcome zl bind canonicalBytes (p.world.content bind.trainedCompressorPath)
      (o.1, { p with fallbackChunks := p.fallbackChunks + o.2 }) := by
  have hgeneric : ∀ file, compressedString zl bind "" canonicalBytes file =
      compressedString zl bind "" canonicalBytes none := fun _ ↦ rfl
  unfold compressChunk compressChunkWithFallback chunkOutcome
  dsimp only
  rw [compressParquetBytesToString_eq]
  cases compressedString zl bind bind.trainedCompressorPath canonicalBytes
      (p.world.content bind.trainedCompressorPath) with
  | ok frame => rfl
  | error e =>
      simp only [returned]
      by_cases hlast : (!bind.fallbackToGeneric || bind.trainedCompressorPath.isEmpty) = true
      · rw [if_pos hlast, if_pos hlast]
        rfl
      · rw [if_neg hlast, if_neg hlast]
        simp only [compressParquetBytesToString_eq, hgeneric]
        cases compressedString zl bind "" canonicalBytes none <;> rfl

/-- Where the chunk was staged does not matter. -/
theorem compressChunk_of_outcome {canonicalBytes : Bytes} {r : Except Error Bytes} {fallbacks : ℕ}
    {p : Process} (inMemory : Bool)
    (h : chunkOutcome zl bind canonicalBytes (p.world.content bind.trainedCompressorPath) =
      (r, fallbacks)) :
    compressChunk zl { bind with inMemory := inMemory } canonicalBytes p =
      (r, { p with fallbackChunks := p.fallbackChunks + fallbacks }) := by
  rw [compressChunk_eq]
  have h' : chunkOutcome zl { bind with inMemory := inMemory } canonicalBytes
      (p.world.content bind.trainedCompressorPath) = (r, fallbacks) := h
  dsimp only
  rw [h']

theorem chunkOutcome_tooLarge {canonicalBytes : Bytes} {file : Option Bytes}
    (h : canonicalBytes.length > bind.maxCompressBytes) :
    ∃ e, (chunkOutcome zl bind canonicalBytes file).1 = .error e := by
  have hfails : ∀ trainedCompressorPath file, ∃ e, compressedString zl bind trainedCompressorPath
      canonicalBytes file = .error e := by
    intro trainedCompressorPath file
    unfold compressedString
    cases compressorBytes trainedCompressorPath file with
    | error e => exact ⟨e, rfl⟩
    | ok compressor => exact compressBytesImpl_tooLarge h
  obtain ⟨e, he⟩ := hfails bind.trainedCompressorPath file
  unfold chunkOutcome
  rw [he]
  dsimp only
  split
  · exact ⟨e, rfl⟩
  · exact hfails "" none

/-! ## The relation between the two runs -/

/-- The path that `GenerateUniquePath` returns after `i` others. -/
def upcomingPath (counter i : ℕ) : Path :=
  bufferScheme ++ toString ((add64 · 1)^[i] counter)

theorem upcomingPath_succ (counter i : ℕ) :
    upcomingPath counter (i + 1) = upcomingPath (add64 counter 1) i := by
  rw [upcomingPath, Function.iterate_succ_apply, upcomingPath]

/-- Nothing differs between `s`, with IN_MEMORY, and `t`, without, but the staging. -/
structure Common (path : Path) (s t : State W) : Prop where
  world : ∃ file, t.process.world = s.process.world.setFile (stagingFile path) file
  hostCalls : t.process.hostCalls = s.process.hostCalls
  fallbackChunks : t.process.fallbackChunks = s.process.fallbackChunks
  finalZlPath : t.gstate.finalZlPath = path
  archive : t.gstate.archive = s.gstate.archive
  archivePath : s.gstate.archive.path = path
  outPath : s.gstate.archive.out.path = path
  chunkIndex : t.gstate.chunkIndex = s.gstate.chunkIndex
  lstate : t.lstate = s.lstate

/-- Buffer and staging file hold the same; of the next `m` paths handed out at most the buffer's
own is registered. -/
structure OnTarget (path : Path) (m : ℕ) (s t : State W) (id : ℕ) (content : Bytes) : Prop where
  registered : s.process.bufferFileSystem.buffers s.gstate.tmpParquetPath = some id
  bytes : s.process.bufferFileSystem.strings id = content
  tmpParquetPath : t.gstate.tmpParquetPath = stagingFile path
  file : t.process.world.content (stagingFile path) = some content
  upcoming : ∀ i < m, ∀ id', s.process.bufferFileSystem.buffers
      (upcomingPath s.process.bufferFileSystem.counter i) = some id' →
    upcomingPath s.process.bufferFileSystem.counter i = s.gstate.tmpParquetPath

/-- Between two chunks. -/
structure Idle (path : Path) (m : ℕ) (s t : State W) : Prop where
  common : Common path s t
  upcoming : ∀ i < m, s.process.bufferFileSystem.buffers
    (upcomingPath s.process.bufferFileSystem.counter i) = none

/-- The parquet writer has the target open. -/
structure Writing (path : Path) (m : ℕ) (s t : State W) : Prop where
  common : Common path s t
  target : ∃ g h f, s.gstate.parquetGlobalState = some (g, .buffer h) ∧
    t.gstate.parquetGlobalState = some (g, .file (stagingFile path) f.position) ∧
      Mirrors s.process.bufferFileSystem h f ∧ OnTarget path m s t h.buffer f.content

/-- The parquet writer is done with the target. -/
structure Finalized (path : Path) (m : ℕ) (s t : State W) : Prop where
  common : Common path s t
  target : ∃ id content, OnTarget path m s t id content

/-- The staging and the writer's state are free to change. -/
theorem Common.of_eq {s' t' : State W} (h : Common path s t)
    (hworld : ∃ file, t'.process.world = s'.process.world.setFile (stagingFile path) file)
    (hcalls : t'.process.hostCalls = s'.process.hostCalls)
    (hfallback : t'.process.fallbackChunks = s'.process.fallbackChunks)
    (hs : (s'.gstate.archive, s'.gstate.chunkIndex) = (s.gstate.archive, s.gstate.chunkIndex))
    (ht : (t'.gstate.finalZlPath, t'.gstate.archive, t'.gstate.chunkIndex) =
      (t.gstate.finalZlPath, t.gstate.archive, t.gstate.chunkIndex))
    (hlstate : t'.lstate = s'.lstate) : Common path s' t' := by
  obtain ⟨hsArchive, hsIndex⟩ := Prod.mk.inj hs
  obtain ⟨htFinal, ht⟩ := Prod.mk.inj ht
  obtain ⟨htArchive, htIndex⟩ := Prod.mk.inj ht
  exact
    { world := hworld
      hostCalls := hcalls
      fallbackChunks := hfallback
      finalZlPath := htFinal.trans h.finalZlPath
      archive := by rw [htArchive, hsArchive, h.archive]
      archivePath := by rw [hsArchive, h.archivePath]
      outPath := by rw [hsArchive, h.outPath]
      chunkIndex := by rw [htIndex, hsIndex, h.chunkIndex]
      lstate := hlstate }

theorem OnTarget.mono {id : ℕ} {content : Bytes} {n : ℕ} (h : OnTarget path m s t id content)
    (hn : n ≤ m) : OnTarget path n s t id content :=
  ⟨h.registered, h.bytes, h.tmpParquetPath, h.file, fun i hi ↦ h.upcoming i (hi.trans_le hn)⟩

theorem Writing.mono {n : ℕ} (h : Writing path m s t) (hn : n ≤ m) : Writing path n s t := by
  obtain ⟨hcommon, g, hb, f, hs, ht, hm, htarget⟩ := h
  exact ⟨hcommon, g, hb, f, hs, ht, hm, htarget.mono hn⟩

/-! ## Calls on the parquet writer -/

theorem Process.run_mirrors {α : Type} {p q : Process} {h : OpenzlBufferFileHandle}
    {f : OrdinaryFile} {file : Path} (hm : Mirrors p.bufferFileSystem h f)
    (hcontent : q.world.content file = some f.content) (program : FileProgram α) :
    ∃ r fs h' f', p.run program (.buffer h) = (r, .buffer h', { p with bufferFileSystem := fs }) ∧
      q.run program (.file file f.position) =
        (r, .file file f'.position, { q with world := q.world.put file f'.content }) ∧
      Mirrors fs h' f' ∧ SameRegistry p.bufferFileSystem fs h h' := by
  obtain ⟨hresult, hm', hsame⟩ := program.runBuffer_eq hm
  refine ⟨_, _, _, (program.runFile f).2, rfl, ?_, hm', hsame⟩
  unfold Process.run
  dsimp only
  rw [hcontent, Option.getD_some, hresult]

theorem callHost_together {α : Type} (step : HostStep) (f : ℕ → W.GlobalState → FileProgram α)
    (h : Writing path m s t) :
    Together (Writing path m) (callHost step f) (callHost step f) s t := by
  obtain ⟨hcommon, g, hb, c, hs, ht, hm, htarget⟩ := h
  obtain ⟨file, hworld⟩ := hcommon.world
  obtain ⟨r, fs, hb', c', hrun, hrun', hm', hsame⟩ := Process.run_mirrors
    (p := s.process.called) (q := t.process.called) hm htarget.file (f s.process.hostCalls g)
  have hrelated : Writing path m
      { s with
        process := { s.process.called with bufferFileSystem := fs }
        gstate := { s.gstate with parquetGlobalState := some (g, .buffer hb') } }
      { t with
        process := { t.process.called with
          world := t.process.called.world.put (stagingFile path) c'.content }
        gstate := { t.gstate with
          parquetGlobalState := some (g, .file (stagingFile path) c'.position) } } := by
    have hworld' : t.process.world.put (stagingFile path) c'.content =
        s.process.world.setFile (stagingFile path) (some ⟨c'.content, s.process.world.now⟩) := by
      rw [hworld, World.put_setFile_self]
    have hcommon' := congrArg (· + 1) hcommon.hostCalls
    refine ⟨hcommon.of_eq ⟨_, hworld'⟩ hcommon' hcommon.fallbackChunks rfl rfl hcommon.lstate, g,
      hb', c', rfl, rfl, hm', ?_⟩
    refine ⟨?_, hm'.content, htarget.tmpParquetPath, World.content_put_self .., ?_⟩
    · change fs.buffers _ = _
      rw [hsame.buffers, hsame.buffer]
      exact htarget.registered
    · change ∀ i < m, ∀ id', fs.buffers (upcomingPath fs.counter i) = some id' → _
      rw [hsame.buffers, hsame.counter]
      exact htarget.upcoming
  unfold Together callHost
  rw [hs, ht, hcommon.hostCalls]
  dsimp only
  rw [hrun, hrun']
  cases r with
  | ok a => exact .inl ⟨a, _, _, rfl, rfl, hrelated⟩
  | error what => exact .inr ⟨_, _, _, _, rfl, rfl⟩

theorem Writing.setGlobalState (h : Writing path m s t) (g : W.GlobalState) :
    Writing path m (setGlobalState g s) (setGlobalState g t) := by
  obtain ⟨hcommon, g', hb, c, hs, ht, hm, htarget⟩ := h
  unfold Staging.setGlobalState
  rw [hs, ht]
  exact ⟨hcommon.of_eq hcommon.world hcommon.hostCalls hcommon.fallbackChunks rfl rfl
    hcommon.lstate, g, hb, c, rfl, rfl, hm, htarget.registered, htarget.bytes,
    htarget.tmpParquetPath, htarget.file, htarget.upcoming⟩

theorem Writing.setLocalState (h : Writing path m s t) (l : Option W.LocalState) :
    Writing path m { s with lstate := l } { t with lstate := l } := by
  obtain ⟨hcommon, g, hb, c, hs, ht, hm, htarget⟩ := h
  exact ⟨hcommon.of_eq hcommon.world hcommon.hostCalls hcommon.fallbackChunks rfl rfl rfl, g, hb, c,
    hs, ht, hm, htarget.registered, htarget.bytes, htarget.tmpParquetPath, htarget.file,
    htarget.upcoming⟩

theorem parquetSink_together (input : List W.Row) (h : Writing path m s t) :
    Together (Writing path m) (parquetSink input) (parquetSink input) s t := by
  unfold Together parquetSink
  rw [h.common.lstate]
  cases s.lstate with
  | none => exact .inr ⟨_, _, _, _, rfl, rfl⟩
  | some l =>
      rcases callHost_together .sink (fun k g ↦ W.sink k input g l) h with
        ⟨⟨g, l'⟩, s', t', hs, ht, h'⟩ | ⟨e, e', s', t', hs, ht⟩
      · dsimp only
        rw [hs, ht]
        exact .inl ⟨(), _, _, rfl, rfl, (h'.setGlobalState g).setLocalState (some l')⟩
      · dsimp only
        rw [hs, ht]
        exact .inr ⟨_, _, _, _, rfl, rfl⟩

theorem parquetCombine_together (h : Writing path m s t) :
    Together (Writing path m) (parquetCombine (W := W)) parquetCombine s t := by
  unfold Together parquetCombine
  rw [h.common.lstate]
  cases s.lstate with
  | none => exact .inr ⟨_, _, _, _, rfl, rfl⟩
  | some l =>
      rcases callHost_together .combine (fun k g ↦ W.combine k g l) h with
        ⟨g, s', t', hs, ht, h'⟩ | ⟨e, e', s', t', hs, ht⟩
      · dsimp only
        rw [hs, ht]
        exact .inl ⟨(), _, _, rfl, rfl, h'.setGlobalState g⟩
      · dsimp only
        rw [hs, ht]
        exact .inr ⟨_, _, _, _, rfl, rfl⟩

theorem parquetFinalize_together (h : Writing path m s t) :
    Together (Finalized path m) (parquetFinalize (W := W)) parquetFinalize s t := by
  unfold Together parquetFinalize
  rcases callHost_together .finalize W.finalize h with
    ⟨u, s', t', hs, ht, hcommon, g, hb, c, -, -, -, htarget⟩ | ⟨e, e', s', t', hs, ht⟩
  · rw [hs, ht]
    refine .inl ⟨(), _, _, rfl, rfl, ?_, hb.buffer, c.content, htarget.registered,
      htarget.bytes, htarget.tmpParquetPath, htarget.file, htarget.upcoming⟩
    exact hcommon.of_eq hcommon.world hcommon.hostCalls hcommon.fallbackChunks rfl rfl
      hcommon.lstate
  · rw [hs, ht]
    exact .inr ⟨_, _, _, _, rfl, rfl⟩

/-! ## The rest of the callbacks -/

/-- How `compressStaged` ends in a process with the outcome of `compressChunk`. -/
def stagedResult (s : State W) (p : Process) :
    Except Error Bytes → EStateM.Result CopyException (State W) Bytes
  | .ok frame => .ok frame { s with process := p }
  | .error e => .error (.io e.what) { s with process := p }

section

variable {content : Bytes} {r : Except Error Bytes} {fallbacks : ℕ}

theorem compressStaged_inMemory {id : ℕ}
    (hregistered : s.process.bufferFileSystem.buffers s.gstate.tmpParquetPath = some id)
    (hbytes : s.process.bufferFileSystem.strings id = content)
    (hchunk : chunkOutcome zl bind content
      (s.process.world.content bind.trainedCompressorPath) = (r, fallbacks)) :
    compressStaged zl { bind with inMemory := true } s = stagedResult s
      { s.process with
        bufferFileSystem := { s.process.bufferFileSystem.setString id [] with
          buffers := Function.update s.process.bufferFileSystem.buffers
            s.gstate.tmpParquetPath none }
        fallbackChunks := s.process.fallbackChunks + fallbacks } r := by
  let taken : OpenzlBufferFileSystem := { s.process.bufferFileSystem.setString id [] with
    buffers := Function.update s.process.bufferFileSystem.buffers s.gstate.tmpParquetPath none }
  have htake : s.process.bufferFileSystem.takeBuffer s.gstate.tmpParquetPath =
      .ok (content, taken) := by
    rw [OpenzlBufferFileSystem.takeBuffer_of_some hregistered, hbytes]
  have hstep := compressChunk_of_outcome (p := { s.process with bufferFileSystem := taken }) true
    hchunk
  unfold compressStaged
  dsimp only
  rw [if_pos rfl, htake]
  dsimp only
  rw [hstep]
  cases r <;> rfl

theorem compressStaged_onDisk
    (hstaged : t.process.world.content t.gstate.tmpParquetPath = some content)
    (hsmall : ¬content.length > bind.maxCompressBytes)
    (hchunk : chunkOutcome zl bind content
      (t.process.world.content bind.trainedCompressorPath) = (r, fallbacks)) :
    compressStaged zl { bind with inMemory := false } t = stagedResult t
      { t.process with
        world := t.process.world.remove t.gstate.tmpParquetPath
        fallbackChunks := t.process.fallbackChunks + fallbacks } r := by
  have hstep := compressChunk_of_outcome (p := t.process) false hchunk
  unfold compressStaged readStagingFile
  dsimp only
  rw [if_neg Bool.false_ne_true, hstaged]
  dsimp only
  rw [if_neg hsmall]
  dsimp only
  rw [hstep]
  cases r <;> rfl

theorem compressStaged_tooLarge (zl : OpenZL)
    (hstaged : t.process.world.content t.gstate.tmpParquetPath = some content)
    (hlarge : content.length > bind.maxCompressBytes) :
    ∃ e t', compressStaged zl { bind with inMemory := false } t = .error e t' := by
  unfold compressStaged readStagingFile
  dsimp only
  rw [if_neg Bool.false_ne_true, hstaged]
  dsimp only
  rw [if_pos hlarge]
  exact ⟨_, _, rfl⟩

end

/-- The same frame is compressed from the buffer as from the file, or neither is compressed. -/
theorem compressStaged_together (htrained : bind.trainedCompressorPath ≠ stagingFile path)
    (h : Finalized path m s t) :
    Together (Idle path m) (compressStaged zl { bind with inMemory := true })
      (compressStaged zl { bind with inMemory := false }) s t := by
  obtain ⟨hcommon, id, content, htarget⟩ := h
  obtain ⟨file, hworld⟩ := hcommon.world
  have hread : t.process.world.content bind.trainedCompressorPath =
      s.process.world.content bind.trainedCompressorPath := by
    rw [hworld, World.content_setFile htrained]
  have hremoved : t.process.world.remove t.gstate.tmpParquetPath =
      s.process.world.setFile (stagingFile path) none := by
    rw [htarget.tmpParquetPath, hworld, World.remove_setFile_self]
  have hstaged : t.process.world.content t.gstate.tmpParquetPath = some content := by
    rw [htarget.tmpParquetPath]
    exact htarget.file
  rcases hchunk : chunkOutcome zl bind content
    (s.process.world.content bind.trainedCompressorPath) with ⟨r, fallbacks⟩
  have hinMemory := compressStaged_inMemory htarget.registered htarget.bytes hchunk
  by_cases hlarge : content.length > bind.maxCompressBytes
  · obtain ⟨e, he⟩ : ∃ e, (chunkOutcome zl bind content
        (s.process.world.content bind.trainedCompressorPath)).1 = .error e :=
      chunkOutcome_tooLarge hlarge
    rw [hchunk] at he
    subst he
    obtain ⟨e', t', honDisk⟩ := compressStaged_tooLarge zl hstaged hlarge
    exact .inr ⟨_, _, _, _, hinMemory, honDisk⟩
  · rw [← hread] at hchunk
    have honDisk := compressStaged_onDisk hstaged hlarge hchunk
    cases r with
    | error e => exact .inr ⟨_, _, _, _, hinMemory, honDisk⟩
    | ok frame =>
        refine .inl ⟨frame, _, _, hinMemory, honDisk, ?_⟩
        have hfallbacks := congrArg (· + fallbacks) hcommon.fallbackChunks
        refine ⟨hcommon.of_eq ⟨none, hremoved⟩ hcommon.hostCalls hfallbacks rfl rfl
          hcommon.lstate, ?_⟩
        intro i hi
        let fs := s.process.bufferFileSystem
        change Function.update fs.buffers s.gstate.tmpParquetPath none (upcomingPath fs.counter i) =
          none
        by_cases hown : upcomingPath fs.counter i = s.gstate.tmpParquetPath
        · rw [hown, Function.update_self]
        · rw [Function.update_of_ne hown]
          cases hid : fs.buffers (upcomingPath fs.counter i) with
          | none => rfl
          | some id' => exact absurd (htarget.upcoming i hi id' hid) hown

/-- A call on the archive writer, which sees no other file than the archive. -/
theorem callArchive_together {x : WriterM Unit}
    (hsame : ∀ (a : World × ChunkedArchiveWriter) (file : Option File),
      a.2.path ≠ stagingFile path → a.2.out.path = a.2.path →
        x (ChunkedArchiveWriter.withFile (stagingFile path) file a) =
          mapState (ChunkedArchiveWriter.withFile (stagingFile path) file) (x a))
    (hstep : ∀ a : World × ChunkedArchiveWriter, a.2.out.path = a.2.path →
      ChunkedArchiveWriter.Step a (stateAfter x a)) (h : Idle path m s t) :
    Together (Idle path m) (callArchive (W := W) x) (callArchive x) s t := by
  obtain ⟨hcommon, hupcoming⟩ := h
  obtain ⟨file, hworld⟩ := hcommon.world
  let a := (s.process.world, s.gstate.archive)
  have hpath : a.2.path ≠ stagingFile path := by
    rw [show a.2.path = path from hcommon.archivePath]
    exact (stagingFile_ne path).symm
  have hout : a.2.out.path = a.2.path := hcommon.outPath.trans hcommon.archivePath.symm
  have hx := hsame a file hpath hout
  have hstep := hstep a hout
  have hstate : (t.process.world, t.gstate.archive) =
      ChunkedArchiveWriter.withFile (stagingFile path) file a := by
    rw [hworld, hcommon.archive]
    rfl
  unfold Together callArchive
  rw [hstate, hx]
  cases hresult : x a with
  | error e a' => exact .inr ⟨_, _, _, _, rfl, rfl⟩
  | ok u a' =>
      rw [stateAfter_of_ok hresult] at hstep
      refine .inl ⟨(), _, _, rfl, rfl, ⟨⟨file, rfl⟩, hcommon.hostCalls, hcommon.fallbackChunks,
        hcommon.finalZlPath, rfl, hstep.path.trans hcommon.archivePath, ?_, hcommon.chunkIndex,
        hcommon.lstate⟩, hupcoming⟩
      exact hstep.outPath.trans hcommon.archivePath

theorem appendChunk_together (frame : Bytes) (h : Idle path m s t) :
    Together (Idle path m) (appendChunk (W := W) frame) (appendChunk frame) s t := by
  have hcall := callArchive_together (W := W) (x := ChunkedArchiveWriter.append frame)
    (fun a file hpath hout ↦ ChunkedArchiveWriter.append_withFile hpath hout frame)
    (fun a hout ↦ ChunkedArchiveWriter.append_step frame hout) h
  unfold Together appendChunk
  rcases hcall with ⟨u, s', t', hs, ht, hcommon, hupcoming⟩ | ⟨e, e', s', t', hs, ht⟩
  · rw [hs, ht]
    exact .inl ⟨(), _, _, rfl, rfl, ⟨hcommon.world, hcommon.hostCalls, hcommon.fallbackChunks,
      hcommon.finalZlPath, hcommon.archive, hcommon.archivePath, hcommon.outPath,
      congrArg (· + 1) hcommon.chunkIndex, hcommon.lstate⟩, hupcoming⟩
  · rw [hs, ht]
    exact .inr ⟨_, _, _, _, rfl, rfl⟩

theorem openzlEndChunk_together (htrained : bind.trainedCompressorPath ≠ stagingFile path)
    (h : Writing path m s t) :
    Together (Idle path m) (openzlEndChunk zl { bind with inMemory := true })
      (openzlEndChunk zl { bind with inMemory := false }) s t :=
  Together.bind (parquetFinalize_together h) fun _ _ _ h ↦
    Together.bind (compressStaged_together htrained h) fun frame _ _ h ↦
      appendChunk_together frame h

theorem Process.openFile_buffer {p : Process} {target : Path}
    (h : p.bufferFileSystem.buffers target = none) :
    ∃ id fs, p.openFile true target = (.buffer ⟨target, id, 0⟩, { p with bufferFileSystem := fs }) ∧
      fs.strings id = [] ∧ fs.counter = p.bufferFileSystem.counter ∧
        fs.buffers = Function.update p.bufferFileSystem.buffers target (some id) := by
  have hopen : p.openFile true target = (.buffer (p.bufferFileSystem.openFile target).1,
      { p with bufferFileSystem := (p.bufferFileSystem.openFile target).2 }) := rfl
  rw [OpenzlBufferFileSystem.openFile_of_none h] at hopen
  exact ⟨p.bufferFileSystem.allocated, _, hopen, Function.update_self .., rfl, rfl⟩

section

variable {program : FileProgram W.GlobalState} {handle handle' : Handle} {p q : Process}
    {u : State W}

theorem openzlStartChunk_ok {g : W.GlobalState} (hnext : nextTarget bind s = u)
    (hprogram : W.initializeGlobal u.process.hostCalls = .ok program)
    (hopen : u.process.called.openFile bind.inMemory u.gstate.tmpParquetPath = (handle, p))
    (hrun : p.run program handle = (.ok g, handle', q)) :
    openzlStartChunk bind s = .ok () { u with
      process := q
      gstate := { u.gstate with
        parquetGlobalState := some (g, handle'), currentChunkOpen := true } } := by
  subst hnext
  unfold openzlStartChunk
  dsimp only
  rw [hprogram]
  dsimp only
  rw [hopen]
  dsimp only
  rw [hrun]

theorem openzlStartChunk_error {what : String} (hnext : nextTarget bind s = u)
    (hprogram : W.initializeGlobal u.process.hostCalls = .ok program)
    (hopen : u.process.called.openFile bind.inMemory u.gstate.tmpParquetPath = (handle, p))
    (hrun : p.run program handle = (.error what, handle', q)) :
    openzlStartChunk bind s = .error (.host .initializeGlobal what) { u with process := q } := by
  subst hnext
  unfold openzlStartChunk
  dsimp only
  rw [hprogram]
  dsimp only
  rw [hopen]
  dsimp only
  rw [hrun]

end

/-- The next chunk gets a buffer nobody has, or a file of its own, and both are empty. -/
theorem openzlStartChunk_together (h : Idle path (m + 1) s t) :
    Together (Writing path m) (openzlStartChunk { bind with inMemory := true })
      (openzlStartChunk { bind with inMemory := false }) s t := by
  obtain ⟨hcommon, hupcoming⟩ := h
  obtain ⟨file, hworld⟩ := hcommon.world
  let fs := s.process.bufferFileSystem
  let target := upcomingPath fs.counter 0
  let named : OpenzlBufferFileSystem := { fs with counter := add64 fs.counter 1 }
  have hfree : named.buffers target = none := hupcoming 0 (Nat.succ_pos m)
  let p : Process := { s.process.called with bufferFileSystem := named }
  obtain ⟨id, opened, hopen, hempty, hcounter, hbuffers⟩ := Process.openFile_buffer (p := p) hfree
  let q : Process := { t.process.called with world := t.process.world.put (stagingFile path) [] }
  have hopen' : t.process.called.openFile false (stagingFile path) =
      (.file (stagingFile path) 0, q) := rfl
  have hm : Mirrors opened ⟨target, id, 0⟩ ⟨[], 0⟩ :=
    ⟨hempty, rfl, Nat.two_pow_pos 63, Nat.two_pow_pos 63⟩
  have hcontent : q.world.content (stagingFile path) = some [] := World.content_put_self ..
  have hnext : nextTarget { bind with inMemory := true } s =
      { s with
        process := { s.process with bufferFileSystem := named }
        gstate := { s.gstate with tmpParquetPath := target } } := rfl
  have hnext' : nextTarget { bind with inMemory := false } t =
      { t with gstate :=
        { t.gstate with tmpParquetPath := stagingFile t.gstate.finalZlPath } } := rfl
  cases hprogram : W.initializeGlobal s.process.hostCalls with
  | error what =>
      unfold Together openzlStartChunk
      rw [hnext, hnext', hcommon.finalZlPath]
      dsimp only
      rw [hcommon.hostCalls, hprogram]
      exact .inr ⟨_, _, _, _, rfl, rfl⟩
  | ok program =>
      obtain ⟨r, fs', h', f', hrun, hrun', hm', hsame⟩ := Process.run_mirrors
        (p := { p with bufferFileSystem := opened }) hm hcontent program
      have hprogram' : W.initializeGlobal t.process.hostCalls = .ok program := by
        rw [hcommon.hostCalls]
        exact hprogram
      rw [hcommon.finalZlPath] at hnext'
      cases r with
      | error what => exact .inr ⟨_, _, _, _, openzlStartChunk_error hnext hprogram hopen hrun,
          openzlStartChunk_error hnext' hprogram' hopen' hrun'⟩
      | ok g =>
          refine .inl ⟨(), _, _, openzlStartChunk_ok hnext hprogram hopen hrun,
            openzlStartChunk_ok hnext' hprogram' hopen' hrun', ?_⟩
          have hworld' : q.world.put (stagingFile path) f'.content =
              s.process.world.setFile (stagingFile path)
                (some ⟨f'.content, s.process.world.now⟩) := by
            change (t.process.world.put (stagingFile path) []).put (stagingFile path) f'.content = _
            rw [hworld, World.put_setFile_self, World.put_setFile_self]
          have hcalls := congrArg (· + 1) hcommon.hostCalls
          refine ⟨hcommon.of_eq ⟨_, hworld'⟩ hcalls hcommon.fallbackChunks rfl rfl
            hcommon.lstate, g, h', f', rfl, rfl, hm', ?_, hm'.content, rfl,
            World.content_put_self .., ?_⟩
          · change fs'.buffers target = some h'.buffer
            rw [hsame.buffers, hbuffers, hsame.buffer]
            exact Function.update_self ..
          · change ∀ i < m, ∀ id', fs'.buffers (upcomingPath fs'.counter i) = some id' →
              upcomingPath fs'.counter i = target
            rw [hsame.buffers, hsame.counter, hbuffers, hcounter]
            intro i hi id' hid
            by_contra hother
            rw [Function.update_of_ne hother, ← upcomingPath_succ] at hid
            have hnone := hupcoming (i + 1) (by omega)
            rw [hnone] at hid
            cases hid

theorem openzlCopyInitLocal_together (h : Writing path m s t) :
    Together (Writing path m) (openzlCopyInitLocal (W := W)) openzlCopyInitLocal s t := by
  obtain ⟨hcommon, g, hb, c, hs, ht, hm, htarget⟩ := h
  unfold Together openzlCopyInitLocal
  rw [hcommon.hostCalls]
  cases W.initializeLocal s.process.hostCalls with
  | error what => exact .inr ⟨_, _, _, _, rfl, rfl⟩
  | ok l =>
      refine .inl ⟨(), _, _, rfl, rfl, ?_, g, hb, c, hs, ht, hm, htarget.registered, htarget.bytes,
        htarget.tmpParquetPath, htarget.file, htarget.upcoming⟩
      have hcalls := congrArg (· + 1) hcommon.hostCalls
      exact hcommon.of_eq hcommon.world hcalls hcommon.fallbackChunks rfl rfl rfl

/-- `PeekSize` of the buffer is the size of the file. -/
theorem openzlStagedBytes_eq (h : Writing path m s t) :
    openzlStagedBytes { bind with inMemory := false } t =
      openzlStagedBytes { bind with inMemory := true } s := by
  obtain ⟨hcommon, g, hb, c, hs, ht, hm, htarget⟩ := h
  unfold openzlStagedBytes
  rw [if_neg Bool.false_ne_true, if_pos rfl, htarget.tmpParquetPath, htarget.file,
    OpenzlBufferFileSystem.peekSize_of_some htarget.registered, htarget.bytes]

theorem rotateChunk_together (htrained : bind.trainedCompressorPath ≠ stagingFile path)
    (h : Writing path (m + 1) s t) :
    Together (Writing path m) (rotateChunk zl { bind with inMemory := true })
      (rotateChunk zl { bind with inMemory := false }) s t :=
  Together.bind (parquetCombine_together h) fun _ _ _ h ↦
    Together.bind (openzlEndChunk_together htrained h) fun _ _ _ h ↦
      Together.bind (openzlStartChunk_together h) fun _ _ _ h ↦ openzlCopyInitLocal_together h

theorem openzlCopySink_together (htrained : bind.trainedCompressorPath ≠ stagingFile path)
    (input : List W.Row) (h : Writing path (m + 1) s t) :
    Together (Writing path m) (openzlCopySink zl { bind with inMemory := true } input)
      (openzlCopySink zl { bind with inMemory := false } input) s t := by
  have hstaged : openzlStagedBytes { bind with inMemory := false } t =
      openzlStagedBytes { bind with inMemory := true } s := openzlStagedBytes_eq h
  unfold Together openzlCopySink
  rw [hstaged]
  dsimp only
  by_cases hrotate : bind.chunkSizeBytes > 0 ∧
      openzlStagedBytes { bind with inMemory := true } s ≥ bind.chunkSizeBytes
  · rw [if_pos hrotate, if_pos hrotate]
    exact Together.bind (rotateChunk_together htrained h) fun _ _ _ h ↦
      parquetSink_together input h
  · rw [if_neg hrotate, if_neg hrotate]
    exact parquetSink_together input (h.mono m.le_succ)

theorem endQuery_together (queryError : Option String) (h : Writing path m s t) :
    Together (Writing path m) (endQuery (W := W) queryError) (endQuery queryError) s t := by
  cases queryError with
  | none => exact .inl ⟨(), s, t, rfl, rfl, h⟩
  | some what => exact .inr ⟨_, _, _, _, rfl, rfl⟩

theorem openzlCopyFinalize_together (htrained : bind.trainedCompressorPath ≠ stagingFile path)
    (h : Writing path m s t) :
    Together (Idle path m) (openzlCopyFinalize zl { bind with inMemory := true })
      (openzlCopyFinalize zl { bind with inMemory := false }) s t :=
  Together.bind (openzlEndChunk_together htrained h) fun _ _ _ h ↦
    callArchive_together (fun _ _ hpath hout ↦ ChunkedArchiveWriter.finish_withFile hpath hout)
      (fun _ hout ↦ ChunkedArchiveWriter.finish_step hout) h

/-! ## Whole runs -/

/-- Each batch starts at most one more chunk. -/
theorem sinks_together (htrained : bind.trainedCompressorPath ≠ stagingFile path)
    (batches : List (List W.Row)) (h : Writing path batches.length s t) :
    Together (Writing path 0) (batches.forM (openzlCopySink zl { bind with inMemory := true }))
      (batches.forM (openzlCopySink zl { bind with inMemory := false })) s t := by
  have hstep : ∀ n (input : List W.Row) (s t : State W), Writing path (n + 1) s t →
      Together (Writing path n) (openzlCopySink zl { bind with inMemory := true } input)
        (openzlCopySink zl { bind with inMemory := false } input) s t :=
    fun n input s t h ↦ openzlCopySink_together htrained input h
  exact Together.forM hstep batches h

theorem runCopy_together (htrained : bind.trainedCompressorPath ≠ stagingFile path)
    (batches : List (List W.Row)) (queryError : Option String)
    (h : Idle path (batches.length + 1) s t) :
    Together (Idle path 0) (runCopy zl { bind with inMemory := true } batches queryError)
      (runCopy zl { bind with inMemory := false } batches queryError) s t :=
  Together.bind (openzlStartChunk_together h) fun _ _ _ h ↦
    Together.bind (openzlCopyInitLocal_together h) fun _ _ _ h ↦
      Together.bind (sinks_together htrained batches h) fun _ _ _ h ↦
        Together.bind (endQuery_together queryError h) fun _ _ _ h ↦
          Together.bind (parquetCombine_together h) fun _ _ _ h ↦
            openzlCopyFinalize_together htrained h

theorem Idle.destroy_content (h : Idle path m s t) :
    t.destroy.world.content path = s.destroy.world.content path := by
  obtain ⟨file, hworld⟩ := h.common.world
  have hpath : s.gstate.archive.path ≠ stagingFile path := by
    rw [h.common.archivePath]
    exact (stagingFile_ne path).symm
  let a := (s.process.world, s.gstate.archive)
  have hdestroy : ChunkedArchiveWriter.destroy
      (ChunkedArchiveWriter.withFile (stagingFile path) file a) =
        (ChunkedArchiveWriter.destroy a).setFile (stagingFile path) file :=
    ChunkedArchiveWriter.destroy_withFile hpath (h.common.outPath.trans h.common.archivePath.symm)
  have hstate : (t.process.world, t.gstate.archive) =
      ChunkedArchiveWriter.withFile (stagingFile path) file a := by
    rw [hworld, h.common.archive]
    rfl
  unfold State.destroy
  rw [hstate, hdestroy]
  exact World.content_setFile (stagingFile_ne path).symm

theorem idle_initial {p : Process} (hfree : ∀ i < m, p.bufferFileSystem.buffers
    (upcomingPath p.bufferFileSystem.counter i) = none) :
    Idle path m (State.initial W p path) (State.initial W p path) where
  common := {
    world := ⟨p.world.files (stagingFile path), (World.setFile_self ..).symm⟩
    hostCalls := rfl
    fallbackChunks := rfl
    finalZlPath := rfl
    archive := rfl
    archivePath := rfl
    outPath := rfl
    chunkIndex := rfl
    lstate := rfl }
  upcoming := hfree

/-- Staged in memory or in a file, a COPY writes the same archive or no archive, provided that no
buffer path it is given is taken and its staging file does not replace its compressor. -/
theorem inMemory_same_archive (W : ParquetWriter) (zl : OpenZL) (bind : OpenzlCopyBindData)
    (batches : List (List W.Row)) (queryError : Option String) (p : Process) (path : Path)
    (htrained : bind.trainedCompressorPath ≠ stagingFile path)
    (hfree : ∀ i ≤ batches.length, p.bufferFileSystem.buffers
      (upcomingPath p.bufferFileSystem.counter i) = none) :
    (∃ s t, runCopy zl { bind with inMemory := true } batches queryError
        (State.initial W p path) = .ok () s ∧
      runCopy zl { bind with inMemory := false } batches queryError
        (State.initial W p path) = .ok () t ∧
      t.gstate.chunkIndex = s.gstate.chunkIndex ∧
      t.destroy.world.content path = s.destroy.world.content path) ∨
    ∃ e e' s t, runCopy zl { bind with inMemory := true } batches queryError
        (State.initial W p path) = .error e s ∧
      runCopy zl { bind with inMemory := false } batches queryError
        (State.initial W p path) = .error e' t := by
  have hidle : Idle path (batches.length + 1) (State.initial W p path) (State.initial W p path) :=
    idle_initial fun i hi ↦ hfree i (Nat.lt_succ_iff.mp hi)
  rcases runCopy_together htrained batches queryError hidle with
    ⟨u, s, t, hs, ht, h⟩ | herror
  · exact .inl ⟨s, t, hs, ht, h.common.chunkIndex, h.destroy_content⟩
  · exact .inr herror

/-- Two chunks of plain batches. -/
def plainBind : OpenzlCopyBindData := { chunkSizeBytes := 2 }

theorem inMemory_same_archive_plain :
    ∃ s t, runCopy .stored { plainBind with inMemory := true } ParquetCopyFunction.plainBatches none
        (State.initial (.ofAppends .plain) { world := World.empty } "t.zl") = .ok () s ∧
      runCopy .stored { plainBind with inMemory := false } ParquetCopyFunction.plainBatches none
        (State.initial (.ofAppends .plain) { world := World.empty } "t.zl") = .ok () t ∧
      t.gstate.chunkIndex = s.gstate.chunkIndex ∧
      t.destroy.world.content "t.zl" = s.destroy.world.content "t.zl" := by
  rcases inMemory_same_archive (.ofAppends .plain) .stored plainBind
    ParquetCopyFunction.plainBatches none { world := World.empty } "t.zl" (by decide)
    (fun _ _ ↦ rfl) with hok | ⟨e, e', s, t, herror, -⟩
  · exact hok
  · have hreturns : returns (runCopy .stored { plainBind with inMemory := true }
        ParquetCopyFunction.plainBatches none)
        (State.initial (.ofAppends .plain) { world := World.empty } "t.zl") = true := by
      decide +kernel
    exact absurd (hreturns.symm.trans (returns_of_error herror)) (by decide)

/-- Another client has opened the first path and written to it. -/
def takenPath : OpenzlBufferFileSystem :=
  let (h, fs) := ({} : OpenzlBufferFileSystem).openFile "openzl-buffer://0"
  (fs.write h [7, 7, 7, 7, 7]).2

/-- The option names the staging file, and only a COPY through that file finds a compressor there;
a buffer path is taken, and only a COPY through the buffer archives what was there. -/
theorem inMemory_differs :
    (returns (runCopy .stored { trainedCompressorPath := stagingFile "t.zl" }
        ParquetCopyFunction.plainBatches none)
        (State.initial (.ofAppends .plain) { world := World.empty } "t.zl") = false ∧
      returns (runCopy .stored { trainedCompressorPath := stagingFile "t.zl", inMemory := false }
        ParquetCopyFunction.plainBatches none)
        (State.initial (.ofAppends .plain) { world := World.empty } "t.zl") = true) ∧
    (stateAfter (runCopy .stored {} ParquetCopyFunction.plainBatches none)
        (State.initial (.ofAppends .plain) { world := World.empty, bufferFileSystem := takenPath }
          "t.zl")).destroy.world.content "t.zl" = some [0, 1, 2, 3, 7, 7] ∧
      (stateAfter (runCopy .stored { inMemory := false } ParquetCopyFunction.plainBatches none)
        (State.initial (.ofAppends .plain) { world := World.empty, bufferFileSystem := takenPath }
          "t.zl")).destroy.world.content "t.zl" = some [0, 1, 2, 3] := by
  decide +kernel

end Staging

end DuckdbOpenzl
