import DuckdbOpenzl.Bridge.ArchiveWriter
import DuckdbOpenzl.Bridge.Compress
import DuckdbOpenzl.FileSystem.Paths

/-!
# Opening files through `openzl://`

A read handle serves the decompressed bytes of an archive or of one chunk.
Handles on the same path share one buffer through a cache entry that does not
own it: the buffer lives as long as a handle holds it, and an entry is only
used while the archive has the size and mtime it was made at.
-/

set_option autoImplicit false

namespace DuckdbOpenzl

inductive Exception where
  | io (what : String)
  | notImplemented (what : String)
  | internal (what : String)
  | binder (what : String)
  deriving DecidableEq, Repr

/-- The handler `catch (const openzl_bridge::Error &e)` of the file system. -/
def rethrown (e : Error) : Exception := .io ("OpenzlFileSystem: " ++ e.what)

/-! ## The archive cache -/

/-- A `std::shared_ptr<const string>`: which allocation it is, and its bytes. -/
structure SharedString where
  id : ℕ
  bytes : Bytes
  deriving DecidableEq

/-- What `StatArchive` leaves in `size` and `mtime`, which start at -1. -/
structure ArchiveStat where
  size : ℤ := -1
  mtime : ℤ := -1
  deriving DecidableEq

def statFile : Option File → ArchiveStat
  | some file => ⟨file.content.length, file.mtime⟩
  | none => {}

def statArchive (path : Path) (w : World) : ArchiveStat := statFile (w.files path)

/-- The weak pointer of an entry names an allocation. -/
structure ArchiveCacheEntry where
  data : Option ℕ := none
  stat : ArchiveStat := {}

/-- One path of the cache: its entry, the strings that the open handles on this path hold, and
the allocations made so far. -/
structure ArchiveSlot where
  entry : ArchiveCacheEntry := {}
  held : List SharedString := []
  allocated : ℕ := 0

abbrev ArchiveCache := Path → ArchiveSlot

namespace ArchiveSlot

/-- `entry.data.lock()` -/
def lock (s : ArchiveSlot) : Option SharedString :=
  s.entry.data.bind fun id ↦ s.held.find? fun d ↦ d.id == id

/-- The buffer that is served without decompressing. -/
def lookup (s : ArchiveSlot) (stat : ArchiveStat) : Option SharedString :=
  match s.lock with
  | some data => if s.entry.stat = stat then some data else none
  | none => none

def hold (s : ArchiveSlot) (data : SharedString) : ArchiveSlot := { s with held := data :: s.held }

/-- Closing a handle drops its reference. -/
def release (s : ArchiveSlot) (data : SharedString) : ArchiveSlot :=
  { s with held := s.held.erase data }

/-- A new buffer, and the entry that points to it. -/
def store (s : ArchiveSlot) (bytes : Bytes) (stat : ArchiveStat) : SharedString × ArchiveSlot :=
  (⟨s.allocated, bytes⟩, { s with entry := ⟨some s.allocated, stat⟩, allocated := s.allocated + 1 })

end ArchiveSlot

/-! ## Handles -/

structure OpenzlWriteSettings where
  compressionLevel : ℤ := 9
  maxCompressBytes : ℕ := kDefaultMaxCompressBytes
  graph : GraphOptions := {}

/-- Read handles have `data`, write handles a `writeBuffer` until they are closed. -/
structure OpenzlFileHandle where
  path : String
  data : Option SharedString := none
  position : ℕ := 0
  writeBuffer : Option Bytes := none
  realPath : Path := ""
  writeSettings : OpenzlWriteSettings := {}
  closed : Bool := false

def OpenzlFileHandle.bytes (h : OpenzlFileHandle) : Bytes :=
  match h.writeBuffer with
  | some bytes => bytes
  | none => match h.data with
    | some data => data.bytes
    | none => []

structure FileOpenFlags where
  reading : Bool := false
  writing : Bool := false
  appending : Bool := false

def FileOpenFlags.read : FileOpenFlags := { reading := true }

def FileOpenFlags.write : FileOpenFlags := { writing := true }

/-- The `openzl_*` settings of the opener; a setting that is missing or NULL is `none`. -/
structure OpenerSettings where
  compressionLevel : Option ℤ := none
  maxCompressBytes : Option ℕ := none
  formatVersion : Option ℤ := none
  profile : Option String := none
  permissiveCompression : Option Bool := none
  parquetChunkBytes : Option ℤ := none

/-- `static_cast<int>` -/
def toInt (v : ℤ) : ℤ := v.bmod (2 ^ 32)

def OpenerSettings.writeSettings (o : OpenerSettings) : OpenzlWriteSettings where
  compressionLevel := (o.compressionLevel.map toInt).getD 9
  maxCompressBytes := o.maxCompressBytes.getD kDefaultMaxCompressBytes
  graph :=
    { formatVersion := (o.formatVersion.map toInt).getD 0
      profile := o.profile.getD "parquet"
      permissive := (o.permissiveCompression.map fun p ↦ if p then (1 : ℤ) else 0).getD (-1)
      parquetChunkBytes := (o.parquetChunkBytes.map fun bytes ↦
        if bytes < 0 then kAutoParquetChunkBytes else bytes.toNat).getD kAutoParquetChunkBytes }

/-! ## `OpenFile` -/

/-- `archive_path` and, for a chunk path, the chunk. -/
def resolve (realPath : Path) : Path × Option ℕ :=
  match splitChunkSuffix realPath with
  | some (archive, chunk) => (archive, some chunk)
  | none => (realPath, none)

def decompressArchive (zl : OpenZL) : Path × Option ℕ → BridgeM Bytes
  | (archive, some chunk) => decompressChunkToBuffer zl archive chunk
  | (archive, none) => decompressToBuffer zl archive

def openForWriting (path : String) (flags : FileOpenFlags) (o : OpenerSettings) :
    Except Exception OpenzlFileHandle :=
  let realPath := stripScheme path
  if (splitChunkSuffix realPath).isSome || flags.appending || flags.reading then
    .error (.notImplemented ("OpenzlFileSystem: \"" ++ path ++
      "\" can only be opened write-only to create a new " ++
      "archive (no append, no read+write, no single-chunk paths)"))
  else
    .ok { path := path, writeBuffer := some [], realPath := realPath
          writeSettings := o.writeSettings }

abbrev FsM := EStateM Exception (World × ArchiveCache)

def openForReading (zl : OpenZL) (path : String) : FsM OpenzlFileHandle := fun (w, cache) ↦
  let realPath := stripScheme path
  let stat := statArchive (resolve realPath).1 w
  let slot := cache realPath
  match slot.lookup stat with
  | some data =>
      .ok { path := path, data := some data }
        (w, Function.update cache realPath (slot.hold data))
  | none =>
      match decompressArchive zl (resolve realPath) w with
      | .error e w => .error (rethrown e) (w, cache)
      | .ok bytes w =>
          let (data, slot) := slot.store bytes stat
          .ok { path := path, data := some data }
            (w, Function.update cache realPath (slot.hold data))

def openFile (zl : OpenZL) (path : String) (flags : FileOpenFlags) (o : OpenerSettings) :
    FsM OpenzlFileHandle :=
  if flags.writing then MonadExcept.ofExcept (openForWriting path flags o)
  else openForReading zl path

/-- The part of `Glob` that looks at the archive. -/
def globArchive (path : String) (archivePath : Path) : BridgeM (List String) := do
  if ← opened archivePath fun file ↦ .ok file.isSome then
    match ← readContainerIndex archivePath with
    | some ranges => return (List.range ranges.length).map (chunkPath path)
    | none => return [path]
  else
    return [path]

def glob (path : String) : EStateM Exception World (List String) := fun w ↦
  if (splitChunkSuffix (stripScheme path)).isSome then .ok [path] w
  else EStateM.adaptExcept rethrown (globArchive path (stripScheme path)) w

/-! ## What a path resolves to -/

theorem resolve_of_none {p : Path} (h : splitChunkSuffix p = none) : resolve p = (p, none) := by
  rw [resolve, h]

theorem resolve_chunkPath (p : Path) {i : ℕ} (h : i < 10 ^ 15) :
    resolve (chunkPath p i) = (p, some i) := by
  rw [resolve, splitChunkSuffix_chunkPath p h]

theorem ArchiveSlot.lookup_of_lock_none {s : ArchiveSlot} (h : s.lock = none) (stat : ArchiveStat) :
    s.lookup stat = none := by
  rw [ArchiveSlot.lookup, h]

theorem ArchiveSlot.lock_of_held_nil {s : ArchiveSlot} (h : s.held = []) : s.lock = none := by
  unfold ArchiveSlot.lock
  rw [h]
  cases s.entry.data <;> rfl

/-- An `OpenFile` serves these bytes, or throws this error as an `IOException`. -/
def Serves (r : EStateM.Result Exception (World × ArchiveCache) OpenzlFileHandle)
    (decoded : Except Error Bytes) : Prop :=
  match r, decoded with
  | .ok h _, .ok bytes => h.bytes = bytes
  | .error e _, .error e' => e = rethrown e'
  | _, _ => False

/-- With no live buffer for its path an `OpenFile` serves what it decompresses. -/
theorem openFile_serves {zl : OpenZL} {path : String} {w : World} {cache : ArchiveCache}
    {o : OpenerSettings} {decoded : Except Error Bytes}
    (hlock : (cache (stripScheme path)).lock = none)
    (hdecoded : decompressArchive zl (resolve (stripScheme path)) w = returned decoded w) :
    Serves (openFile zl path .read o (w, cache)) decoded := by
  have hopen : openFile zl path .read o (w, cache) = openForReading zl path (w, cache) := rfl
  rw [hopen, openForReading]
  dsimp only
  rw [ArchiveSlot.lookup_of_lock_none hlock, hdecoded]
  cases decoded with
  | ok bytes => rfl
  | error e => rfl

theorem openFile_read_position {zl : OpenZL} {path : String} {o : OpenerSettings}
    {s s' : World × ArchiveCache} {h : OpenzlFileHandle}
    (hok : openFile zl path .read o s = .ok h s') : h.position = 0 := by
  obtain ⟨w, cache⟩ := s
  have hopen : openForReading zl path (w, cache) = .ok h s' := hok
  unfold openForReading at hopen
  dsimp only at hopen
  split at hopen
  · obtain ⟨rfl, -⟩ := EStateM.Result.ok.inj hopen
    rfl
  · split at hopen
    · cases hopen
    · obtain ⟨rfl, -⟩ := EStateM.Result.ok.inj hopen
      rfl

end DuckdbOpenzl
