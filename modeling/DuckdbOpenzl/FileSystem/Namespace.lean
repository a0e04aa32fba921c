import DuckdbOpenzl.FileSystem.CloseFailures
import DuckdbOpenzl.FileSystem.FileCalls
import DuckdbOpenzl.FileSystem.OpenSteps

/-!
# All calls of the file system

Besides opening, reading and writing, `openzl://` names are tested, removed,
moved and expanded. A process makes these calls in any order, on any number of
handles; the disk may refuse any of them.
-/

set_option autoImplicit false

namespace DuckdbOpenzl

open FileContent

namespace OpenzlFileSystem

/-- `FileExists`: a chunk path exists when its archive does. -/
def fileExists (filename : String) (w : World) : Bool :=
  canHandleFile filename && DuckdbOpenzl.fileExists w (resolve (stripScheme filename)).1

/-- `TryRemoveFile`; `permitted` is whether the operating system lets `std::remove` have its way. -/
def tryRemoveFile (permitted : Bool) (filename : String) : EStateM Exception World Bool := fun w ↦
  if canHandleFile filename then
    if (splitChunkSuffix (stripScheme filename)).isSome then
      .error (.io ("OpenzlFileSystem: cannot remove \"" ++ filename ++
        "\": it is one chunk of a " ++
        "multi-chunk archive; remove the whole archive instead")) w
    else if permitted && DuckdbOpenzl.fileExists w (stripScheme filename) then
      .ok true (w.remove (stripScheme filename))
    else .ok false w
  else
    .ok false w

def removeFile (permitted : Bool) (filename : String) : EStateM Exception World Unit := do
  if !(← tryRemoveFile permitted filename) then
    throw (.io ("OpenzlFileSystem: could not remove \"" ++ filename ++ "\""))

/-- The path that `MoveFile` hands to the local file system. -/
def localPath (path : String) : Path := if canHandleFile path then stripScheme path else path

def moveFile (source target : String) : EStateM Exception World Unit := fun w ↦
  let (moved, w) := w.rename (localPath source) (localPath target)
  if moved then .ok () w else .error (.io "Could not rename file!") w

end OpenzlFileSystem

/-- A call on an open handle. -/
def OpenzlFileHandle.run (h : OpenzlFileHandle) : FileCall → FileReply × OpenzlFileHandle
  | .write bytes =>
      match h.write bytes with
      | .ok h => (.done, h)
      | .error _ => (.thrown, h)
  | .writeAt bytes location =>
      match h.writeAt bytes location with
      | .ok h => (.done, h)
      | .error _ => (.thrown, h)
  | .read nrBytes => (.bytes (h.read nrBytes).1, (h.read nrBytes).2)
  | .readAt nrBytes location =>
      match h.readAt nrBytes location with
      | .ok bytes => (.bytes bytes, h)
      | .error _ => (.thrown, h)
  | .truncate newSize =>
      match h.truncate newSize with
      | .ok h => (.done, h)
      | .error _ => (.thrown, h)
  | .seek location => (.done, h.seek location)
  | .reset => (.done, h.reset)
  | .getFileSize => (.number h.bytes.length, h)
  | .seekPosition => (.number h.position, h)

/-! ## A process -/

/-- The disk, the archive cache, and the handles that are open. -/
structure FsProcess where
  world : World
  cache : ArchiveCache := fun _ ↦ {}
  handles : ℕ → Option OpenzlFileHandle := fun _ ↦ none

inductive FsCall where
  | openFile (id : ℕ) (path : String) (flags : FileOpenFlags) (o : OpenerSettings)
  | call (id : ℕ) (c : FileCall)
  | close (id : ℕ)
  | destroy (id : ℕ)
  | glob (path : String)
  | fileExists (filename : String)
  | tryRemoveFile (filename : String)
  | removeFile (filename : String)
  | moveFile (source target : String)
  | elapse (seconds : ℕ)

inductive FsReply where
  | done
  | file (r : FileReply)
  | paths (ps : List String)
  | bool (b : Bool)
  | thrown (e : Exception)

namespace FsProcess

def setHandle (s : FsProcess) (id : ℕ) (h : Option OpenzlFileHandle) : FsProcess :=
  { s with handles := Function.update s.handles id h }

/-- The destructor of a handle drops its share of the decompressed bytes. -/
def released (s : FsProcess) (h : OpenzlFileHandle) : ArchiveCache :=
  match h.data with
  | some data => Function.update s.cache (stripScheme h.path)
      ((s.cache (stripScheme h.path)).release data)
  | none => s.cache

end FsProcess

/-- One call and its reply. -/
inductive FsStep (zl : OpenZL) : FsProcess → FsCall → FsReply → FsProcess → Prop
  | openFile {s : FsProcess} {id : ℕ} {path : String} {flags : FileOpenFlags} {o : OpenerSettings}
      {h : OpenzlFileHandle} {w : World} {cache : ArchiveCache} (free : s.handles id = none)
      (run : openFile zl path flags o (s.world, s.cache) = .ok h (w, cache)) :
      FsStep zl s (.openFile id path flags o) .done
        { world := w, cache := cache, handles := Function.update s.handles id (some h) }
  | openFileThrown {s : FsProcess} {id : ℕ} {path : String} {flags : FileOpenFlags}
      {o : OpenerSettings} {e : Exception} {w : World} {cache : ArchiveCache}
      (run : openFile zl path flags o (s.world, s.cache) = .error e (w, cache)) :
      FsStep zl s (.openFile id path flags o) (.thrown e) { s with world := w, cache := cache }
  | call {s : FsProcess} {id : ℕ} {h : OpenzlFileHandle} (c : FileCall)
      (handle : s.handles id = some h) :
      FsStep zl s (.call id c) (.file (h.run c).1) (s.setHandle id (some (h.run c).2))
  | close {s : FsProcess} {id : ℕ} {h h' : OpenzlFileHandle} {w : World}
      (handle : s.handles id = some h)
      (run : OpenzlFileHandle.close zl (s.world, h) = .ok () (w, h')) :
      FsStep zl s (.close id) .done { s.setHandle id (some h') with world := w }
  | closeThrown {s : FsProcess} {id : ℕ} {h h' : OpenzlFileHandle} {w : World} {e : Exception}
      (handle : s.handles id = some h)
      (run : OpenzlFileHandle.close zl (s.world, h) = .error e (w, h')) :
      FsStep zl s (.close id) (.thrown e) { s.setHandle id (some h') with world := w }
  | destroy {s : FsProcess} {id : ℕ} {h : OpenzlFileHandle} (handle : s.handles id = some h) :
      FsStep zl s (.destroy id) .done { s.setHandle id none with cache := s.released h }
  | glob {s : FsProcess} {path : String} {ps : List String} {w : World}
      (run : glob path s.world = .ok ps w) :
      FsStep zl s (.glob path) (.paths ps) { s with world := w }
  | globThrown {s : FsProcess} {path : String} {e : Exception} {w : World}
      (run : glob path s.world = .error e w) :
      FsStep zl s (.glob path) (.thrown e) { s with world := w }
  | fileExists {s : FsProcess} (filename : String) :
      FsStep zl s (.fileExists filename) (.bool (OpenzlFileSystem.fileExists filename s.world)) s
  | tryRemoveFile {s : FsProcess} {permitted removed : Bool} {filename : String} {w : World}
      (run : OpenzlFileSystem.tryRemoveFile permitted filename s.world = .ok removed w) :
      FsStep zl s (.tryRemoveFile filename) (.bool removed) { s with world := w }
  | tryRemoveFileThrown {s : FsProcess} {permitted : Bool} {filename : String} {e : Exception}
      {w : World} (run : OpenzlFileSystem.tryRemoveFile permitted filename s.world = .error e w) :
      FsStep zl s (.tryRemoveFile filename) (.thrown e) { s with world := w }
  | removeFile {s : FsProcess} {permitted : Bool} {filename : String} {w : World}
      (run : OpenzlFileSystem.removeFile permitted filename s.world = .ok () w) :
      FsStep zl s (.removeFile filename) .done { s with world := w }
  | removeFileThrown {s : FsProcess} {permitted : Bool} {filename : String} {e : Exception}
      {w : World} (run : OpenzlFileSystem.removeFile permitted filename s.world = .error e w) :
      FsStep zl s (.removeFile filename) (.thrown e) { s with world := w }
  | moveFile {s : FsProcess} {source target : String} {w : World}
      (run : OpenzlFileSystem.moveFile source target s.world = .ok () w) :
      FsStep zl s (.moveFile source target) .done { s with world := w }
  | moveFileThrown {s : FsProcess} {source target : String} {e : Exception} {w : World}
      (run : OpenzlFileSystem.moveFile source target s.world = .error e w) :
      FsStep zl s (.moveFile source target) (.thrown e) { s with world := w }
  | elapse {s : FsProcess} (seconds : ℕ) :
      FsStep zl s (.elapse seconds) .done
        { s with world := { s.world with now := s.world.now + seconds } }

/-! ## What removing and moving do -/

/-- The world behind a rename that succeeds. -/
def World.moved (w : World) (source target : Path) : World :=
  { w.tick with
    files := Function.update (Function.update w.files source none) target (w.files source) }

namespace World

variable (w : World) {source target other : Path}

@[simp] theorem content_moved_target :
    (w.moved source target).content target = w.content source := by
  simp [moved, content]

theorem content_moved_source (hne : source ≠ target) :
    (w.moved source target).content source = none := by
  simp [moved, content, hne]

theorem content_moved_of_ne (hsource : other ≠ source) (htarget : other ≠ target) :
    (w.moved source target).content other = w.content other := by
  simp [moved, content, hsource, htarget]

end World

theorem World.rename_cases (w : World) (source target : Path) :
    w.rename source target = (false, w.tick) ∨
      ((w.files source).isSome ∧ w.rename source target = (true, w.moved source target)) := by
  unfold World.rename
  split_ifs with hmoved
  · exact .inr ⟨(Bool.and_eq_true_iff.mp hmoved).2, rfl⟩
  · exact .inl rfl

namespace OpenzlFileSystem

variable {permitted removed : Bool} {filename source target : String} {w w' : World}

/-- A removal takes the file away and says so, or changes nothing; a chunk is never removed. -/
theorem tryRemoveFile_ok (h : tryRemoveFile permitted filename w = .ok removed w') :
    (removed = true ∧ canHandleFile filename = true ∧
      resolve (stripScheme filename) = (stripScheme filename, none) ∧
        (w.files (stripScheme filename)).isSome ∧ w' = w.remove (stripScheme filename)) ∨
      (removed = false ∧ w' = w ∧
        (canHandleFile filename = true →
          (splitChunkSuffix (stripScheme filename)).isSome = false)) := by
  unfold tryRemoveFile at h
  split_ifs at h with hscheme hchunk hpresent
  · obtain ⟨rfl, rfl⟩ := EStateM.Result.ok.inj h
    have hnone : splitChunkSuffix (stripScheme filename) = none := by simpa using hchunk
    refine .inl ⟨rfl, hscheme, resolve_of_none hnone, ?_, rfl⟩
    simpa [DuckdbOpenzl.fileExists, World.content] using (Bool.and_eq_true_iff.mp hpresent).2
  · obtain ⟨rfl, rfl⟩ := EStateM.Result.ok.inj h
    exact .inr ⟨rfl, rfl, fun _ ↦ by simpa using hchunk⟩
  · obtain ⟨rfl, rfl⟩ := EStateM.Result.ok.inj h
    exact .inr ⟨rfl, rfl, fun hscheme' ↦ absurd hscheme' hscheme⟩

theorem tryRemoveFile_error {e : Exception}
    (h : tryRemoveFile permitted filename w = .error e w') :
    canHandleFile filename = true ∧ (splitChunkSuffix (stripScheme filename)).isSome = true ∧
      w' = w := by
  unfold tryRemoveFile at h
  split_ifs at h with hscheme hchunk
  obtain ⟨-, rfl⟩ := EStateM.Result.error.inj h
  exact ⟨hscheme, hchunk, rfl⟩

theorem removeFile_ok (h : removeFile permitted filename w = .ok () w') :
    tryRemoveFile permitted filename w = .ok true w' := by
  obtain ⟨removed, t, htry, hrest⟩ := ExceptionState.bind_eq_ok_iff.mp h
  cases removed with
  | true =>
      obtain ⟨-, rfl⟩ := EStateM.Result.ok.inj hrest
      exact htry
  | false => cases hrest

theorem removeFile_error {e : Exception} (h : removeFile permitted filename w = .error e w') :
    w' = w := by
  rcases ExceptionState.bind_eq_error_iff.mp h with htry | ⟨removed, t, htry, hrest⟩
  · exact (tryRemoveFile_error htry).2.2
  · cases removed with
    | true => cases hrest
    | false =>
        obtain ⟨-, rfl⟩ := EStateM.Result.error.inj hrest
        rcases tryRemoveFile_ok htry with ⟨hremoved, -⟩ | ⟨-, hsame, -⟩
        · cases hremoved
        · exact hsame

/-- What a move that returns leaves of every file. -/
theorem moveFile_ok (h : moveFile source target w = .ok () w') :
    (w.files (localPath source)).isSome ∧
      w' = w.moved (localPath source) (localPath target) := by
  unfold moveFile at h
  rcases w.rename_cases (localPath source) (localPath target) with
    hrename | ⟨hpresent, hrename⟩
  · rw [hrename] at h
    cases h
  · rw [hrename] at h
    obtain ⟨-, rfl⟩ := EStateM.Result.ok.inj h
    exact ⟨hpresent, rfl⟩

theorem moveFile_error {e : Exception} (h : moveFile source target w = .error e w') :
    w' = w.tick := by
  unfold moveFile at h
  rcases w.rename_cases (localPath source) (localPath target) with
    hrename | ⟨-, hrename⟩
  · rw [hrename] at h
    obtain ⟨-, rfl⟩ := EStateM.Result.error.inj h
    rfl
  · rw [hrename] at h
    cases h

end OpenzlFileSystem

end DuckdbOpenzl
