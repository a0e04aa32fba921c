import DuckdbOpenzl.FileSystem.OpenFile

/-!
# The staging buffers of `openzl-buffer://`

A process-wide registry maps paths to string objects; a handle points at the
object it was opened on, whether or not the registry still does.
-/

set_option autoImplicit false

namespace DuckdbOpenzl

open FileContent

/-- The string objects made so far, the registry of paths, and the counter of
`GenerateUniquePath`. -/
structure OpenzlBufferFileSystem where
  strings : ℕ → Bytes := fun _ ↦ []
  allocated : ℕ := 0
  buffers : Path → Option ℕ := fun _ ↦ none
  counter : ℕ := 0

structure OpenzlBufferFileHandle where
  path : String
  buffer : ℕ
  position : ℕ := 0
  deriving DecidableEq

/-! ## The paths that are handed out -/

def uniquePath (n : ℕ) : Path := bufferScheme ++ toString n

theorem uniquePath_injective {m n : ℕ} (h : uniquePath m = uniquePath n) : m = n := by
  have htext : toString m = toString n := (String.append_right_inj _).mp h
  have hdigits : Nat.toDigits 10 m = Nat.toDigits 10 n := by
    rw [← Nat.toList_repr, ← Nat.toList_repr]
    exact congrArg String.toList htext
  have hm := Nat.ofDigitChars_ten_toDigits (n := m)
  rw [hdigits, Nat.ofDigitChars_ten_toDigits] at hm
  exact hm.symm

/-! ## The calls -/

def noBufferRegistered (path : Path) : Exception :=
  .internal ("OpenzlBufferFileSystem: no buffer registered for \"" ++ path ++ "\"")

namespace OpenzlBufferFileSystem

def setString (fs : OpenzlBufferFileSystem) (id : ℕ) (bytes : Bytes) : OpenzlBufferFileSystem :=
  { fs with strings := Function.update fs.strings id bytes }

/-- `fetch_add` on a 64-bit counter. -/
def generateUniquePath (fs : OpenzlBufferFileSystem) : Path × OpenzlBufferFileSystem :=
  (bufferScheme ++ toString fs.counter, { fs with counter := add64 fs.counter 1 })

def peekSize (fs : OpenzlBufferFileSystem) (path : Path) : ℕ :=
  match fs.buffers path with
  | some id => (fs.strings id).length
  | none => 0

/-- The string is moved out of its object, which handles may still point at. -/
def takeBuffer (fs : OpenzlBufferFileSystem) (path : Path) :
    Except Exception (Bytes × OpenzlBufferFileSystem) :=
  match fs.buffers path with
  | some id => .ok (fs.strings id,
      { fs.setString id [] with buffers := Function.update fs.buffers path none })
  | none => .error (noBufferRegistered path)

def openFile (fs : OpenzlBufferFileSystem) (path : Path) :
    OpenzlBufferFileHandle × OpenzlBufferFileSystem :=
  match fs.buffers path with
  | some id => (⟨path, id, 0⟩, fs)
  | none => (⟨path, fs.allocated, 0⟩,
      { fs.setString fs.allocated [] with
        allocated := fs.allocated + 1
        buffers := Function.update fs.buffers path (some fs.allocated) })

/-- `Write(handle, buffer, nr_bytes, location)` -/
def writeAt (fs : OpenzlBufferFileSystem) (h : OpenzlBufferFileHandle) (bytes : Bytes)
    (location : ℕ) : OpenzlBufferFileSystem :=
  let buffer := fs.strings h.buffer
  let size := add64 location bytes.length
  let buffer := if size > buffer.length then resize buffer size else buffer
  fs.setString h.buffer (overwrite buffer location bytes)

/-- `Write(handle, buffer, nr_bytes)` -/
def write (fs : OpenzlBufferFileSystem) (h : OpenzlBufferFileHandle) (bytes : Bytes) :
    OpenzlBufferFileHandle × OpenzlBufferFileSystem :=
  ({ h with position := add64 h.position bytes.length }, fs.writeAt h bytes h.position)

def truncate (fs : OpenzlBufferFileSystem) (h : OpenzlBufferFileHandle) (newSize : ℕ) :
    OpenzlBufferFileSystem :=
  fs.setString h.buffer (resize (fs.strings h.buffer) newSize)

def pastTheEnd (h : OpenzlBufferFileHandle) : Exception :=
  .io ("OpenzlBufferFileSystem: attempted to read past the end of buffer \"" ++ h.path ++ "\"")

/-- `Read(handle, buffer, nr_bytes, location)` -/
def readAt (fs : OpenzlBufferFileSystem) (h : OpenzlBufferFileHandle) (nrBytes location : ℕ) :
    Except Exception Bytes :=
  if add64 location nrBytes > (fs.strings h.buffer).length then .error (pastTheEnd h)
  else .ok (slice (fs.strings h.buffer) location nrBytes)

section

variable {fs : OpenzlBufferFileSystem} {path : Path} {id : ℕ}

theorem setString_self (fs : OpenzlBufferFileSystem) (id : ℕ) :
    fs.setString id (fs.strings id) = fs := by
  rw [setString, Function.update_eq_self]

theorem setString_setString (fs : OpenzlBufferFileSystem) (id : ℕ) (bytes bytes' : Bytes) :
    (fs.setString id bytes).setString id bytes' = fs.setString id bytes' := by
  unfold setString
  dsimp only
  rw [Function.update_idem]

theorem takeBuffer_of_some (h : fs.buffers path = some id) :
    fs.takeBuffer path = .ok (fs.strings id,
      { fs.setString id [] with buffers := Function.update fs.buffers path none }) := by
  rw [takeBuffer, h]

theorem openFile_of_some (h : fs.buffers path = some id) :
    fs.openFile path = (⟨path, id, 0⟩, fs) := by
  rw [openFile, h]

theorem openFile_of_none (h : fs.buffers path = none) :
    fs.openFile path = (⟨path, fs.allocated, 0⟩,
      { fs.setString fs.allocated [] with
        allocated := fs.allocated + 1
        buffers := Function.update fs.buffers path (some fs.allocated) }) := by
  rw [openFile, h]

theorem peekSize_of_some (h : fs.buffers path = some id) :
    fs.peekSize path = (fs.strings id).length := by
  rw [peekSize, h]

end

end OpenzlBufferFileSystem

def OpenzlBufferFileHandle.seek (h : OpenzlBufferFileHandle) (location : ℕ) :
    OpenzlBufferFileHandle := { h with position := location }

end DuckdbOpenzl
