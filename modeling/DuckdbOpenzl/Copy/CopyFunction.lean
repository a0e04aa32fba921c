import DuckdbOpenzl.Bridge.ArchiveWriter
import DuckdbOpenzl.Bridge.Compress

/-!
# `COPY ... (FORMAT OPENZL)`

The rows are staged by the database's own parquet writer, one chunk at a time,
into a buffer of `OpenzlBufferFileSystem` or a file next to the destination;
each finished chunk is compressed and appended to the archive. The parquet
writer is a parameter: a call on it writes some bytes to its target and then
returns or throws.
-/

set_option autoImplicit false

namespace DuckdbOpenzl

/-! ## The parquet writer -/

/-- What a call writes to the target, and how it ends. -/
structure HostOutcome (α : Type) where
  written : Bytes
  result : Except String α

/-- The catalog's `parquet` copy function. Each call is told how many calls were made before it.
`initializeGlobal` throws before it has opened its target, or has an outcome after. -/
structure ParquetCopyFunction where
  Row : Type
  GlobalState : Type
  LocalState : Type
  initializeGlobal : ℕ → Except String (HostOutcome GlobalState)
  initializeLocal : ℕ → Except String LocalState
  sink : ℕ → List Row → GlobalState → LocalState → HostOutcome (GlobalState × LocalState)
  combine : ℕ → GlobalState → LocalState → HostOutcome GlobalState
  finalize : ℕ → GlobalState → HostOutcome Unit

/-- The steps of a run that the database takes, not this extension. -/
inductive HostStep where
  | openTarget
  | initializeGlobal
  | initializeLocal
  | query
  | sink
  | combine
  | finalize
  deriving DecidableEq, Repr

/-- `badAlloc` is no `openzl_bridge::Error`, so no handler of this extension is for it. -/
inductive CopyException where
  | host (step : HostStep) (what : String)
  | io (what : String)
  | internal (what : String)
  | badAlloc
  deriving DecidableEq, Repr

/-! ## State -/

structure OpenzlCopyBindData where
  trainedCompressorPath : Path := ""
  compressionLevel : ℤ := 9
  inMemory : Bool := true
  chunkSizeBytes : ℕ := 0
  maxCompressBytes : ℕ := kDefaultMaxCompressBytes
  graph : GraphOptions := {}
  fallbackToGeneric : Bool := false

/-- What a run shares with the rest of the process: the files, the counter behind
`GenerateUniquePath`, the registry of buffers, `g_fallback_chunks`, the number of calls made on
the parquet writer, and whether, after so many calls, a string of some size gets its memory. -/
structure CopyProcess where
  world : World
  counter : ℕ := 0
  buffers : Path → Option Bytes := fun _ ↦ none
  fallbackChunks : ℕ := 0
  hostCalls : ℕ := 0
  allocates : ℕ → ℕ → Bool := fun _ _ ↦ true

structure OpenzlCopyGlobalState (P : ParquetCopyFunction) where
  tmpParquetPath : Path := ""
  finalZlPath : Path
  parquetGlobalState : Option P.GlobalState := none
  archive : ChunkedArchiveWriter
  chunkIndex : ℕ := 0
  currentChunkOpen : Bool := false

structure CopyState (P : ParquetCopyFunction) where
  process : CopyProcess
  gstate : OpenzlCopyGlobalState P
  lstate : Option P.LocalState := none

abbrev CopyM (P : ParquetCopyFunction) := EStateM CopyException (CopyState P)

/-! ## Staging targets -/

def bufferPath (n : ℕ) : Path := "openzl-buffer://" ++ toString n

def stagingFile (finalZlPath : Path) : Path := finalZlPath ++ ".openzl_staging.parquet"

namespace CopyProcess

def called (p : CopyProcess) : CopyProcess := { p with hostCalls := p.hostCalls + 1 }

/-- Opening a buffer keeps what is registered under its path; opening a file truncates it. -/
def openTarget (p : CopyProcess) (inMemory : Bool) (path : Path) : CopyProcess :=
  if inMemory then
    { p with buffers := Function.update p.buffers path (some ((p.buffers path).getD [])) }
  else
    { p with world := p.world.put path [] }

def appendTarget (p : CopyProcess) (inMemory : Bool) (path : Path) (bytes : Bytes) : CopyProcess :=
  if inMemory then
    { p with buffers := Function.update p.buffers path ((p.buffers path).map (· ++ bytes)) }
  else
    { p with world := p.world.store path bytes }

def target (p : CopyProcess) (inMemory : Bool) (path : Path) : Option Bytes :=
  if inMemory then p.buffers path else p.world.content path

end CopyProcess

variable {P : ParquetCopyFunction}

def CopyState.target (s : CopyState P) (bind : OpenzlCopyBindData) : Option Bytes :=
  s.process.target bind.inMemory s.gstate.tmpParquetPath

/-- After one more call on the parquet writer, which wrote these bytes to its target. -/
def CopyState.wrote (s : CopyState P) (bind : OpenzlCopyBindData) (bytes : Bytes) : CopyState P :=
  { s with process :=
      s.process.called.appendTarget bind.inMemory s.gstate.tmpParquetPath bytes }

/-- `OpenzlStagedBytes`: `PeekSize` of the buffer, or the size of the file. -/
def openzlStagedBytes (bind : OpenzlCopyBindData) (s : CopyState P) : ℕ :=
  match s.target bind with
  | some bytes => bytes.length
  | none => 0

/-! ## Calls on the parquet writer -/

/-- What `operator*` of the database's `unique_ptr` throws. -/
def nullDereference : CopyException :=
  .internal "Attempted to dereference unique_ptr that is NULL!"

def callHost {α : Type} (bind : OpenzlCopyBindData) (step : HostStep)
    (f : ℕ → P.GlobalState → HostOutcome α) : CopyM P α := fun s ↦
  match s.gstate.parquetGlobalState with
  | none => .error nullDereference s
  | some g =>
      let o := f s.process.hostCalls g
      match o.result with
      | .ok a => .ok a (s.wrote bind o.written)
      | .error what => .error (.host step what) (s.wrote bind o.written)

theorem callHost_eq {α : Type} {bind : OpenzlCopyBindData} {step : HostStep}
    {f : ℕ → P.GlobalState → HostOutcome α} {s : CopyState P} {g : P.GlobalState}
    (hg : s.gstate.parquetGlobalState = some g) :
    callHost bind step f s = match (f s.process.hostCalls g).result with
      | .ok a => .ok a (s.wrote bind (f s.process.hostCalls g).written)
      | .error what => .error (.host step what)
          (s.wrote bind (f s.process.hostCalls g).written) := by
  simp only [callHost, hg]

def parquetSink (bind : OpenzlCopyBindData) (input : List P.Row) : CopyM P Unit := fun s ↦
  match s.lstate with
  | none => .error nullDereference s
  | some l =>
      match callHost bind .sink (fun k g ↦ P.sink k input g l) s with
      | .ok (g, l) s => .ok ()
          { s with gstate := { s.gstate with parquetGlobalState := some g }, lstate := some l }
      | .error e s => .error e s

def parquetCombine (bind : OpenzlCopyBindData) : CopyM P Unit := fun s ↦
  match s.lstate with
  | none => .error nullDereference s
  | some l =>
      match callHost bind .combine (fun k g ↦ P.combine k g l) s with
      | .ok g s => .ok () { s with gstate := { s.gstate with parquetGlobalState := some g } }
      | .error e s => .error e s

/-- The parquet part of `OpenzlEndChunk`: after it the writer's state is gone. -/
def parquetFinalize (bind : OpenzlCopyBindData) : CopyM P Unit := fun s ↦
  match callHost bind .finalize P.finalize s with
  | .ok () s => .ok () { s with gstate :=
      { s.gstate with parquetGlobalState := none, currentChunkOpen := false } }
  | .error e s => .error e s

/-! ## The callbacks -/

/-- The first statement of `OpenzlStartChunk` chooses the target. -/
def CopyState.nextTarget (s : CopyState P) (bind : OpenzlCopyBindData) : CopyState P :=
  if bind.inMemory then
    { s with
      process := { s.process with counter := s.process.counter + 1 }
      gstate := { s.gstate with tmpParquetPath := bufferPath s.process.counter } }
  else
    { s with gstate := { s.gstate with tmpParquetPath := stagingFile s.gstate.finalZlPath } }

/-- After a call that opened the target and wrote these bytes to it. -/
def CopyState.openedTarget (s : CopyState P) (bind : OpenzlCopyBindData) (bytes : Bytes) :
    CopyState P :=
  { s with process := (s.process.called.openTarget bind.inMemory
      s.gstate.tmpParquetPath).appendTarget bind.inMemory s.gstate.tmpParquetPath bytes }

/-- `OpenzlStartChunk` -/
def openzlStartChunk (bind : OpenzlCopyBindData) : CopyM P Unit := fun s ↦
  let s := s.nextTarget bind
  match P.initializeGlobal s.process.hostCalls with
  | .error what => .error (.host .openTarget what) { s with process := s.process.called }
  | .ok o =>
      let s := s.openedTarget bind o.written
      match o.result with
      | .error what => .error (.host .initializeGlobal what) s
      | .ok g => .ok () { s with gstate :=
          { s.gstate with parquetGlobalState := some g, currentChunkOpen := true } }

/-- `OpenzlCopyInitLocal`, also called in the middle of a sink. -/
def openzlCopyInitLocal : CopyM P Unit := fun s ↦
  match P.initializeLocal s.process.hostCalls with
  | .ok l => .ok () { s with process := s.process.called, lstate := some l }
  | .error what => .error (.host .initializeLocal what) { s with process := s.process.called }

def compressChunkWithFallback (zl : OpenZL) (bind : OpenzlCopyBindData) (canonicalBytes : Bytes) :
    EStateM Error CopyProcess Bytes := fun p ↦
  match compressParquetBytesToString zl canonicalBytes bind.trainedCompressorPath
    bind.compressionLevel bind.maxCompressBytes bind.graph p.world with
  | .ok frame w => .ok frame { p with world := w }
  | .error e w =>
      if !bind.fallbackToGeneric || bind.trainedCompressorPath.isEmpty then
        .error e { p with world := w }
      else
        let p := { p with world := w, fallbackChunks := p.fallbackChunks + 1 }
        match compressParquetBytesToString zl canonicalBytes "" bind.compressionLevel
          bind.maxCompressBytes bind.graph p.world with
        | .ok frame w => .ok frame { p with world := w }
        | .error e w => .error e { p with world := w }

def stagingUnreadable (path : Path) : Error :=
  ⟨"openzl: could not read staging file " ++ path⟩

def stagingTooLarge (size maxCompressBytes : ℕ) : Error :=
  ⟨"openzl: staged parquet chunk is " ++ toString size ++ " bytes, over the " ++
    toString maxCompressBytes ++
    "-byte compress limit; lower CHUNK_SIZE_BYTES / openzl_chunk_size_bytes, or raise " ++
    "SET openzl_max_compress_bytes."⟩

/-- The body of the first `try` of `OpenzlEndChunk` for a staging file. -/
def readStagingFile (bind : OpenzlCopyBindData) (path : Path) (p : CopyProcess) :
    Except Error Bytes :=
  match p.world.content path with
  | none => .error (stagingUnreadable path)
  | some bytes =>
      if bytes.length > bind.maxCompressBytes then
        .error (stagingTooLarge bytes.length bind.maxCompressBytes)
      else .ok bytes

namespace CopyProcess

def serves (p : CopyProcess) (size : ℕ) : Bool := p.allocates p.hostCalls size

/-- `LoadCompressorFile` gets the memory for its file. It is called before `CompressBytesImpl`,
which would make an `openzl_bridge::Error` of the exception. -/
def servesCompressor (p : CopyProcess) (bind : OpenzlCopyBindData) : Bool :=
  bind.trainedCompressorPath.isEmpty ||
    match p.world.content bind.trainedCompressorPath with
    | none => true
    | some bytes => p.serves bytes.length

/-- `canonical_bytes.resize` for a staging file of this size gets its memory, and so does
`LoadCompressorFile`. -/
def servesFile (p : CopyProcess) (bind : OpenzlCopyBindData) (size : ℕ) : Bool :=
  p.serves size && p.servesCompressor bind

end CopyProcess

/-- Compress the staged chunk and remove its staging, whether or not that worked; a staging file
stays when memory runs out. -/
def compressStaged (zl : OpenZL) (bind : OpenzlCopyBindData) : CopyM P Bytes := fun s ↦
  let path := s.gstate.tmpParquetPath
  if bind.inMemory then
    match s.process.buffers path with
    | none => .error (.internal ("OpenzlBufferFileSystem: no buffer registered for \"" ++ path ++
        "\"")) s
    | some canonicalBytes =>
        let p := { s.process with buffers := Function.update s.process.buffers path none }
        if s.process.servesCompressor bind then
          match compressChunkWithFallback zl bind canonicalBytes p with
          | .ok frame p => .ok frame { s with process := p }
          | .error e p => .error (.io e.what) { s with process := p }
        else .error .badAlloc { s with process := p }
  else
    match readStagingFile bind path s.process with
    | .error e => .error (.io e.what)
        { s with process := { s.process with world := s.process.world.remove path } }
    | .ok canonicalBytes =>
        if s.process.servesFile bind canonicalBytes.length then
          match compressChunkWithFallback zl bind canonicalBytes s.process with
          | .ok frame p => .ok frame { s with process := { p with world := p.world.remove path } }
          | .error e p => .error (.io e.what)
              { s with process := { p with world := p.world.remove path } }
        else .error .badAlloc s

/-- A call on the archive writer, whose errors become `IOException`s. -/
def callArchive (x : WriterM Unit) : CopyM P Unit := fun s ↦
  match x (s.process.world, s.gstate.archive) with
  | .ok () (w, a) => .ok ()
      { s with process := { s.process with world := w }, gstate := { s.gstate with archive := a } }
  | .error e (w, a) => .error (.io e.what)
      { s with process := { s.process with world := w }, gstate := { s.gstate with archive := a } }

def appendChunk (frame : Bytes) : CopyM P Unit := fun s ↦
  match callArchive (ChunkedArchiveWriter.append frame) s with
  | .ok () s => .ok () { s with gstate := { s.gstate with chunkIndex := s.gstate.chunkIndex + 1 } }
  | .error e s => .error e s

/-- `OpenzlEndChunk` -/
def openzlEndChunk (zl : OpenZL) (bind : OpenzlCopyBindData) : CopyM P Unit := do
  parquetFinalize bind
  let frame ← compressStaged zl bind
  appendChunk frame

/-- The rotation in `OpenzlCopySink`. -/
def rotateChunk (zl : OpenZL) (bind : OpenzlCopyBindData) : CopyM P Unit := do
  parquetCombine bind
  openzlEndChunk zl bind
  openzlStartChunk bind
  openzlCopyInitLocal

def openzlCopySink (zl : OpenZL) (bind : OpenzlCopyBindData) (input : List P.Row) :
    CopyM P Unit := fun s ↦
  if bind.chunkSizeBytes > 0 ∧ openzlStagedBytes bind s ≥ bind.chunkSizeBytes then
    (rotateChunk zl bind >>= fun _ ↦ parquetSink bind input) s
  else
    parquetSink bind input s

def openzlCopyCombine (bind : OpenzlCopyBindData) : CopyM P Unit := parquetCombine bind

def openzlCopyFinalize (zl : OpenZL) (bind : OpenzlCopyBindData) : CopyM P Unit := do
  openzlEndChunk zl bind
  callArchive ChunkedArchiveWriter.finish

/-! ## A whole run -/

/-- The error of the query that feeds the sink, after the batches it did deliver. -/
def endQuery (queryError : Option String) : CopyM P Unit := fun s ↦
  match queryError with
  | none => .ok () s
  | some what => .error (.host .query what) s

/-- A COPY up to the `Finish` of its archive. -/
def runToFinish (zl : OpenZL) (bind : OpenzlCopyBindData) (batches : List (List P.Row))
    (queryError : Option String) : CopyM P Unit := do
  openzlStartChunk bind
  openzlCopyInitLocal
  batches.forM (openzlCopySink zl bind)
  endQuery queryError
  openzlCopyCombine bind
  openzlEndChunk zl bind

/-- The database's side of a COPY with one sink thread. -/
def runCopy (zl : OpenZL) (bind : OpenzlCopyBindData) (batches : List (List P.Row))
    (queryError : Option String) : CopyM P Unit := do
  openzlStartChunk bind
  openzlCopyInitLocal
  batches.forM (openzlCopySink zl bind)
  endQuery queryError
  openzlCopyCombine bind
  openzlCopyFinalize zl bind

theorem runCopy_eq_finish (zl : OpenZL) (bind : OpenzlCopyBindData) (batches : List (List P.Row))
    (queryError : Option String) : (runCopy zl bind batches queryError : CopyM P Unit) =
      runToFinish zl bind batches queryError >>= fun _ ↦
        callArchive ChunkedArchiveWriter.finish := by
  simp only [runCopy, runToFinish, openzlCopyFinalize, bind_assoc]

/-- `OpenzlCopyInitGlobal` up to its first chunk. -/
def CopyState.initial (P : ParquetCopyFunction) (p : CopyProcess) (filePath : Path) :
    CopyState P where
  process := p
  gstate := { finalZlPath := filePath, archive := .ofPath filePath }

/-- The destructor of the global state: of its members only the archive writer does anything. -/
def CopyState.destroy (s : CopyState P) : CopyProcess :=
  { s.process with world := ChunkedArchiveWriter.destroy (s.process.world, s.gstate.archive) }

/-- A writer of one-byte rows that writes every batch as a row group of its own. -/
def ParquetCopyFunction.plain : ParquetCopyFunction where
  Row := UInt8
  GlobalState := List UInt8
  LocalState := List UInt8
  initializeGlobal := fun _ ↦ .ok ⟨[], .ok []⟩
  initializeLocal := fun _ ↦ .ok []
  sink := fun _ input g l ↦ ⟨l ++ input, .ok (g ++ (l ++ input), [])⟩
  combine := fun _ g l ↦ ⟨l, .ok (g ++ l)⟩
  finalize := fun _ _ ↦ ⟨[], .ok ()⟩

def ParquetCopyFunction.plainBatches : List (List ParquetCopyFunction.plain.Row) :=
  ([[1, 2], [3]] : List (List UInt8))

end DuckdbOpenzl
