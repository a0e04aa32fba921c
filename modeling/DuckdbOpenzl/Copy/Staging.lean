import DuckdbOpenzl.Copy.CopyFunction
import DuckdbOpenzl.FileSystem.FileCalls

/-!
# The staging of a COPY, call by call

The callbacks of `COPY ... (FORMAT OPENZL)` over a parquet writer that is a
program of file calls on its target, which is a buffer of the registry or a
file next to the destination.
-/

set_option autoImplicit false

namespace DuckdbOpenzl

namespace Staging

/-- The catalog's `parquet` copy function. Each callback is told how many calls were made on it
before; it may throw before it opens its target. -/
structure ParquetWriter where
  Row : Type
  GlobalState : Type
  LocalState : Type
  initializeGlobal : ℕ → Except String (FileProgram GlobalState)
  initializeLocal : ℕ → Except String LocalState
  sink : ℕ → List Row → GlobalState → LocalState → FileProgram (GlobalState × LocalState)
  combine : ℕ → GlobalState → LocalState → FileProgram GlobalState
  finalize : ℕ → GlobalState → FileProgram Unit

inductive Handle where
  | buffer (h : OpenzlBufferFileHandle)
  | file (path : Path) (position : ℕ)

/-- The files, the registry of buffers, `g_fallback_chunks`, and the number of calls made on the
parquet writer. -/
structure Process where
  world : World
  bufferFileSystem : OpenzlBufferFileSystem := {}
  fallbackChunks : ℕ := 0
  hostCalls : ℕ := 0

variable {W : ParquetWriter}

/-- The parquet writer's state owns the handle on its target. -/
structure OpenzlCopyGlobalState (W : ParquetWriter) where
  tmpParquetPath : Path := ""
  finalZlPath : Path
  parquetGlobalState : Option (W.GlobalState × Handle) := none
  archive : ChunkedArchiveWriter
  chunkIndex : ℕ := 0
  currentChunkOpen : Bool := false

structure State (W : ParquetWriter) where
  process : Process
  gstate : OpenzlCopyGlobalState W
  lstate : Option W.LocalState := none

abbrev CopyM (W : ParquetWriter) := EStateM CopyException (State W)

namespace Process

def called (p : Process) : Process := { p with hostCalls := p.hostCalls + 1 }

/-- Opening a buffer keeps what is registered under its path; opening a file truncates it. -/
def openFile (p : Process) (inMemory : Bool) (path : Path) : Handle × Process :=
  if inMemory then
    let (h, fs) := p.bufferFileSystem.openFile path
    (.buffer h, { p with bufferFileSystem := fs })
  else
    (.file path 0, { p with world := p.world.put path [] })

/-- Run a program of the parquet writer on its open target. -/
def run {α : Type} (p : Process) (program : FileProgram α) :
    Handle → Except String α × Handle × Process
  | .buffer h =>
      let (result, fs, h) := program.runBuffer p.bufferFileSystem h
      (result, .buffer h, { p with bufferFileSystem := fs })
  | .file path position =>
      let (result, f) := program.runFile ⟨(p.world.content path).getD [], position⟩
      (result, .file path f.position, { p with world := p.world.put path f.content })

end Process

/-- `OpenzlStagedBytes`: `PeekSize` of the buffer, or the size of the file. -/
def openzlStagedBytes (bind : OpenzlCopyBindData) (s : State W) : ℕ :=
  if bind.inMemory then s.process.bufferFileSystem.peekSize s.gstate.tmpParquetPath
  else match s.process.world.content s.gstate.tmpParquetPath with
    | some bytes => bytes.length
    | none => 0

/-! ## Calls on the parquet writer -/

/-- The outcome, and the state with the handle where the call left it. -/
def callHost {α : Type} (step : HostStep) (f : ℕ → W.GlobalState → FileProgram α) :
    CopyM W α := fun s ↦
  match s.gstate.parquetGlobalState with
  | none => .error nullDereference s
  | some (g, handle) =>
      let (result, handle, p) := s.process.called.run (f s.process.hostCalls g) handle
      let s := { s with
        process := p
        gstate := { s.gstate with parquetGlobalState := some (g, handle) } }
      match result with
      | .ok a => .ok a s
      | .error what => .error (.host step what) s

/-- The parquet writer's state after a call that changed it. -/
def setGlobalState (g : W.GlobalState) (s : State W) : State W :=
  { s with gstate := { s.gstate with
      parquetGlobalState := s.gstate.parquetGlobalState.map fun old ↦ (g, old.2) } }

def parquetSink (input : List W.Row) : CopyM W Unit := fun s ↦
  match s.lstate with
  | none => .error nullDereference s
  | some l =>
      match callHost .sink (fun k g ↦ W.sink k input g l) s with
      | .ok (g, l) s => .ok () { setGlobalState g s with lstate := some l }
      | .error e s => .error e s

def parquetCombine : CopyM W Unit := fun s ↦
  match s.lstate with
  | none => .error nullDereference s
  | some l =>
      match callHost .combine (fun k g ↦ W.combine k g l) s with
      | .ok g s => .ok () (setGlobalState g s)
      | .error e s => .error e s

/-- The parquet part of `OpenzlEndChunk`: after it the writer's state is gone. -/
def parquetFinalize : CopyM W Unit := fun s ↦
  match callHost .finalize W.finalize s with
  | .ok () s => .ok () { s with gstate :=
      { s.gstate with parquetGlobalState := none, currentChunkOpen := false } }
  | .error e s => .error e s

/-! ## The callbacks -/

/-- The first statement of `OpenzlStartChunk` chooses the target. -/
def nextTarget (bind : OpenzlCopyBindData) (s : State W) : State W :=
  if bind.inMemory then
    let (path, fs) := s.process.bufferFileSystem.generateUniquePath
    { s with
      process := { s.process with bufferFileSystem := fs }
      gstate := { s.gstate with tmpParquetPath := path } }
  else
    { s with gstate := { s.gstate with tmpParquetPath := stagingFile s.gstate.finalZlPath } }

/-- `OpenzlStartChunk` -/
def openzlStartChunk (bind : OpenzlCopyBindData) : CopyM W Unit := fun s ↦
  let s := nextTarget bind s
  match W.initializeGlobal s.process.hostCalls with
  | .error what => .error (.host .openTarget what) { s with process := s.process.called }
  | .ok program =>
      let (handle, p) := s.process.called.openFile bind.inMemory s.gstate.tmpParquetPath
      let (result, handle, p) := p.run program handle
      match result with
      | .error what => .error (.host .initializeGlobal what) { s with process := p }
      | .ok g => .ok () { s with
          process := p
          gstate := { s.gstate with
            parquetGlobalState := some (g, handle), currentChunkOpen := true } }

/-- `OpenzlCopyInitLocal`, also called in the middle of a sink. -/
def openzlCopyInitLocal : CopyM W Unit := fun s ↦
  match W.initializeLocal s.process.hostCalls with
  | .ok l => .ok () { s with process := s.process.called, lstate := some l }
  | .error what => .error (.host .initializeLocal what) { s with process := s.process.called }

/-- `CompressChunkWithFallback`, and what it leaves in the process. -/
def compressChunk (zl : OpenZL) (bind : OpenzlCopyBindData) (canonicalBytes : Bytes) (p : Process) :
    Except Error Bytes × Process :=
  match compressChunkWithFallback zl bind canonicalBytes
    { world := p.world, fallbackChunks := p.fallbackChunks } with
  | .ok frame q => (.ok frame, { p with world := q.world, fallbackChunks := q.fallbackChunks })
  | .error e q => (.error e, { p with world := q.world, fallbackChunks := q.fallbackChunks })

/-- Compress the staged chunk and remove its staging, whether or not that worked. -/
def compressStaged (zl : OpenZL) (bind : OpenzlCopyBindData) : CopyM W Bytes := fun s ↦
  let path := s.gstate.tmpParquetPath
  if bind.inMemory then
    match s.process.bufferFileSystem.takeBuffer path with
    | .error _ => .error (.internal ("OpenzlBufferFileSystem: no buffer registered for \"" ++
        path ++ "\"")) s
    | .ok (canonicalBytes, fs) =>
        match compressChunk zl bind canonicalBytes { s.process with bufferFileSystem := fs } with
        | (.ok frame, p) => .ok frame { s with process := p }
        | (.error e, p) => .error (.io e.what) { s with process := p }
  else
    match readStagingFile bind path { world := s.process.world } with
    | .error e => .error (.io e.what)
        { s with process := { s.process with world := s.process.world.remove path } }
    | .ok canonicalBytes =>
        match compressChunk zl bind canonicalBytes s.process with
        | (.ok frame, p) => .ok frame
            { s with process := { p with world := p.world.remove path } }
        | (.error e, p) => .error (.io e.what)
            { s with process := { p with world := p.world.remove path } }

/-- A call on the archive writer, whose errors become `IOException`s. -/
def callArchive (x : WriterM Unit) : CopyM W Unit := fun s ↦
  match x (s.process.world, s.gstate.archive) with
  | .ok () (w, a) => .ok ()
      { s with process := { s.process with world := w }, gstate := { s.gstate with archive := a } }
  | .error e (w, a) => .error (.io e.what)
      { s with process := { s.process with world := w }, gstate := { s.gstate with archive := a } }

def appendChunk (frame : Bytes) : CopyM W Unit := fun s ↦
  match callArchive (ChunkedArchiveWriter.append frame) s with
  | .ok () s => .ok () { s with gstate := { s.gstate with chunkIndex := s.gstate.chunkIndex + 1 } }
  | .error e s => .error e s

/-- `OpenzlEndChunk` -/
def openzlEndChunk (zl : OpenZL) (bind : OpenzlCopyBindData) : CopyM W Unit := do
  parquetFinalize
  let frame ← compressStaged zl bind
  appendChunk frame

/-- The rotation in `OpenzlCopySink`. -/
def rotateChunk (zl : OpenZL) (bind : OpenzlCopyBindData) : CopyM W Unit := do
  parquetCombine
  openzlEndChunk zl bind
  openzlStartChunk bind
  openzlCopyInitLocal

def openzlCopySink (zl : OpenZL) (bind : OpenzlCopyBindData) (input : List W.Row) :
    CopyM W Unit := fun s ↦
  if bind.chunkSizeBytes > 0 ∧ openzlStagedBytes bind s ≥ bind.chunkSizeBytes then
    (rotateChunk zl bind >>= fun _ ↦ parquetSink input) s
  else
    parquetSink input s

def openzlCopyFinalize (zl : OpenZL) (bind : OpenzlCopyBindData) : CopyM W Unit := do
  openzlEndChunk zl bind
  callArchive ChunkedArchiveWriter.finish

/-! ## A whole run -/

/-- The error of the query that feeds the sink, after the batches it did deliver. -/
def endQuery (queryError : Option String) : CopyM W Unit := fun s ↦
  match queryError with
  | none => .ok () s
  | some what => .error (.host .query what) s

/-- The database's side of a COPY with one sink thread. -/
def runCopy (zl : OpenZL) (bind : OpenzlCopyBindData) (batches : List (List W.Row))
    (queryError : Option String) : CopyM W Unit := do
  openzlStartChunk bind
  openzlCopyInitLocal
  batches.forM (openzlCopySink zl bind)
  endQuery queryError
  parquetCombine
  openzlCopyFinalize zl bind

/-- `OpenzlCopyInitGlobal` up to its first chunk. -/
def State.initial (W : ParquetWriter) (p : Process) (filePath : Path) : State W where
  process := p
  gstate := { finalZlPath := filePath, archive := .ofPath filePath }

/-- The destructor of the global state: of its members only the archive writer does anything. -/
def State.destroy (s : State W) : Process :=
  { s.process with world := ChunkedArchiveWriter.destroy (s.process.world, s.gstate.archive) }

/-- One write, none of no bytes, then this result. -/
def appending {α : Type} (o : HostOutcome α) : FileProgram α :=
  if h : (FileCall.write o.written).Ordinary then .call (.write o.written) h fun _ ↦ .done o.result
  else .done o.result

/-- A writer that only appends, as a program of file calls. -/
def ParquetWriter.ofAppends (P : ParquetCopyFunction) : ParquetWriter where
  Row := P.Row
  GlobalState := P.GlobalState
  LocalState := P.LocalState
  initializeGlobal := fun k ↦ (P.initializeGlobal k).map appending
  initializeLocal := P.initializeLocal
  sink := fun k input g l ↦ appending (P.sink k input g l)
  combine := fun k g l ↦ appending (P.combine k g l)
  finalize := fun k g ↦ appending (P.finalize k g)

end Staging

end DuckdbOpenzl
