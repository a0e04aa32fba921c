import DuckdbOpenzl.FileSystem.BufferFileSystem

/-!
# Programs over file calls

A program that sees a file only through the calls on its handle gets the same
answers from a staging buffer as from an ordinary file.
-/

set_option autoImplicit false

namespace DuckdbOpenzl

open FileContent

inductive FileCall where
  | write (bytes : Bytes)
  | writeAt (bytes : Bytes) (location : ℕ)
  | read (nrBytes : ℕ)
  | readAt (nrBytes location : ℕ)
  | truncate (newSize : ℕ)
  | seek (location : ℕ)
  | reset
  | getFileSize
  | seekPosition

inductive FileReply where
  | done
  | bytes (read : Bytes)
  | number (n : ℕ)
  | thrown

/-- Offsets and counts are signed 64-bit, and a positional call moves at least one byte. -/
def FileCall.Ordinary : FileCall → Prop
  | .write bytes => bytes ≠ [] ∧ bytes.length < 2 ^ 63
  | .writeAt bytes location => bytes ≠ [] ∧ bytes.length < 2 ^ 63 ∧ location < 2 ^ 63
  | .read nrBytes => nrBytes < 2 ^ 63
  | .readAt nrBytes location => 0 < nrBytes ∧ nrBytes < 2 ^ 63 ∧ location < 2 ^ 63
  | .truncate newSize => newSize < 2 ^ 63
  | .seek location => location < 2 ^ 63
  | .reset => True
  | .getFileSize => True
  | .seekPosition => True

instance : DecidablePred FileCall.Ordinary
  | .write _ | .writeAt _ _ | .readAt _ _ => inferInstanceAs (Decidable (_ ∧ _))
  | .read _ | .truncate _ | .seek _ => Nat.decLt _ _
  | .reset | .getFileSize | .seekPosition => instDecidableTrue

/-! ## An ordinary file -/

/-- What an open handle has of an ordinary file. No file grows to `2 ^ 63` bytes. -/
structure OrdinaryFile where
  content : Bytes
  position : ℕ := 0

namespace OrdinaryFile

def writeAt (f : OrdinaryFile) (bytes : Bytes) (location : ℕ) : FileReply × OrdinaryFile :=
  if location + bytes.length < 2 ^ 63 then
    (.done, { f with content := (Edit.write location bytes).apply f.content })
  else
    (.thrown, f)

def run (f : OrdinaryFile) : FileCall → FileReply × OrdinaryFile
  | .write bytes =>
      match f.writeAt bytes f.position with
      | (.done, f) => (.done, { f with position := f.position + bytes.length })
      | (r, f) => (r, f)
  | .writeAt bytes location => f.writeAt bytes location
  | .read nrBytes =>
      let read := slice f.content f.position nrBytes
      (.bytes read, { f with position := f.position + read.length })
  | .readAt nrBytes location =>
      if location + nrBytes ≤ f.content.length then (.bytes (slice f.content location nrBytes), f)
      else (.thrown, f)
  | .truncate newSize => (.done, { f with content := resize f.content newSize })
  | .seek location => (.done, { f with position := location })
  | .reset => (.done, { f with position := 0 })
  | .getFileSize => (.number f.content.length, f)
  | .seekPosition => (.number f.position, f)

end OrdinaryFile

/-! ## A staging buffer -/

namespace OpenzlBufferFileSystem

/-- `Read(handle, buffer, nr_bytes)` -/
def read (fs : OpenzlBufferFileSystem) (h : OpenzlBufferFileHandle) (nrBytes : ℕ) :
    Bytes × OpenzlBufferFileHandle :=
  let buffer := fs.strings h.buffer
  let remaining := if buffer.length > h.position then buffer.length - h.position else 0
  let toRead := min remaining nrBytes
  if toRead > 0 then
    (slice buffer h.position toRead, { h with position := add64 h.position toRead })
  else
    ([], h)

/-- `std::string::resize` throws above `max_size()`. -/
def refusesResize (fs : OpenzlBufferFileSystem) (h : OpenzlBufferFileHandle) (bytes : Bytes)
    (location : ℕ) : Bool :=
  let size := add64 location bytes.length
  decide (size > (fs.strings h.buffer).length ∧ size ≥ 2 ^ 63)

/-- A call on a handle of the buffers. -/
def run (fs : OpenzlBufferFileSystem) (h : OpenzlBufferFileHandle) :
    FileCall → FileReply × OpenzlBufferFileSystem × OpenzlBufferFileHandle
  | .write bytes =>
      if fs.refusesResize h bytes h.position then (.thrown, fs, h)
      else
        let (h, fs) := fs.write h bytes
        (.done, fs, h)
  | .writeAt bytes location =>
      if fs.refusesResize h bytes location then (.thrown, fs, h)
      else (.done, fs.writeAt h bytes location, h)
  | .read nrBytes =>
      let (read, h) := fs.read h nrBytes
      (.bytes read, fs, h)
  | .readAt nrBytes location =>
      match fs.readAt h nrBytes location with
      | .ok read => (.bytes read, fs, h)
      | .error _ => (.thrown, fs, h)
  | .truncate newSize => (.done, fs.truncate h newSize, h)
  | .seek location => (.done, fs, h.seek location)
  | .reset => (.done, fs, h.seek 0)
  | .getFileSize => (.number (fs.strings h.buffer).length, fs, h)
  | .seekPosition => (.number h.position, fs, h)

end OpenzlBufferFileSystem

/-- The handle on a buffer is where the handle on the file is, and the contents are the same. -/
structure Mirrors (fs : OpenzlBufferFileSystem) (h : OpenzlBufferFileHandle) (f : OrdinaryFile) :
    Prop where
  content : fs.strings h.buffer = f.content
  position : h.position = f.position
  length_lt : f.content.length < 2 ^ 63
  position_lt : f.position < 2 ^ 63

/-- A call changes nothing of the buffers but the string of its handle. -/
structure SameRegistry (fs fs' : OpenzlBufferFileSystem) (h h' : OpenzlBufferFileHandle) :
    Prop where
  buffers : fs'.buffers = fs.buffers
  counter : fs'.counter = fs.counter
  buffer : h'.buffer = h.buffer

theorem SameRegistry.refl (fs : OpenzlBufferFileSystem) (h : OpenzlBufferFileHandle) :
    SameRegistry fs fs h h := ⟨rfl, rfl, rfl⟩

theorem SameRegistry.trans {fs fs' fs'' : OpenzlBufferFileSystem}
    {h h' h'' : OpenzlBufferFileHandle}
    (h₁ : SameRegistry fs fs' h h') (h₂ : SameRegistry fs' fs'' h' h'') :
    SameRegistry fs fs'' h h'' :=
  ⟨h₂.buffers.trans h₁.buffers, h₂.counter.trans h₁.counter, h₂.buffer.trans h₁.buffer⟩

section

variable {fs : OpenzlBufferFileSystem} {h : OpenzlBufferFileHandle} {f : OrdinaryFile}
  {bytes : Bytes} {location nrBytes : ℕ}

/-- A positional write, on either. -/
theorem Mirrors.writeAt (hm : Mirrors fs h f) (hbytes : bytes.length < 2 ^ 63)
    (hlocation : location < 2 ^ 63) :
    fs.refusesResize h bytes location = true ∧ f.writeAt bytes location = (.thrown, f) ∨
      fs.refusesResize h bytes location = false ∧ location + bytes.length < 2 ^ 63 ∧
        ∃ content, f.writeAt bytes location = (.done, { f with content := content }) ∧
          content.length < 2 ^ 63 ∧
            fs.writeAt h bytes location = fs.setString h.buffer content := by
  have hsum : add64 location bytes.length = location + bytes.length := add64_eq (by omega)
  have hlength := hm.length_lt
  unfold OpenzlBufferFileSystem.refusesResize OrdinaryFile.writeAt OpenzlBufferFileSystem.writeAt
  dsimp only
  rw [hsum, hm.content]
  by_cases hfits : location + bytes.length < 2 ^ 63
  · refine .inr ⟨decide_eq_false (by omega), hfits, _, if_pos hfits, ?_, rfl⟩
    rw [length_apply_write]
    exact max_lt hfits hlength
  · exact .inl ⟨decide_eq_true (by omega), if_neg hfits⟩

theorem Mirrors.read (hm : Mirrors fs h f) (hbytes : nrBytes < 2 ^ 63) :
    fs.read h nrBytes = (slice f.content f.position nrBytes,
      { h with position := f.position + (slice f.content f.position nrBytes).length }) ∧
      f.position + (slice f.content f.position nrBytes).length < 2 ^ 63 := by
  have hlength := hm.length_lt
  have hposition := hm.position_lt
  have hslice := length_slice f.content f.position nrBytes
  refine ⟨?_, by omega⟩
  have hremaining : (if f.content.length > f.position then f.content.length - f.position else 0) =
      f.content.length - f.position := by
    split <;> omega
  unfold OpenzlBufferFileSystem.read
  dsimp only
  rw [hm.content, hm.position, hremaining, Nat.min_comm, ← hslice]
  have htake : slice f.content f.position (slice f.content f.position nrBytes).length =
      slice f.content f.position nrBytes :=
    (List.prefix_iff_eq_take.mp (List.take_prefix ..)).symm
  by_cases hzero : (slice f.content f.position nrBytes).length > 0
  · rw [if_pos hzero, add64_eq (by omega), htake]
  · have hnil : slice f.content f.position nrBytes = [] :=
      List.eq_nil_of_length_eq_zero (by omega)
    rw [if_neg hzero, hnil, ← hm.position]
    rfl

/-- Every ordinary call gets the same answer from the buffer as from the file. -/
theorem Mirrors.run (hm : Mirrors fs h f) {c : FileCall} (hc : c.Ordinary) :
    (fs.run h c).1 = (f.run c).1 ∧ Mirrors (fs.run h c).2.1 (fs.run h c).2.2 (f.run c).2 ∧
      SameRegistry fs (fs.run h c).2.1 h (fs.run h c).2.2 := by
  have hsame := SameRegistry.refl fs h
  have hset : ∀ content : Bytes, content.length < 2 ^ 63 →
      Mirrors (fs.setString h.buffer content) h { f with content := content } :=
        fun content hlength ↦
    ⟨Function.update_self .., hm.position, hlength, hm.position_lt⟩
  cases c with
  | write bytes =>
      have hwrite := hm.writeAt hc.2 hm.position_lt
      unfold OpenzlBufferFileSystem.run OrdinaryFile.run OpenzlBufferFileSystem.write
      rw [hm.position]
      dsimp only
      rcases hwrite with ⟨hrefused, hthrown⟩ | ⟨hkept, hfits, content, hdone, hlength, hwritten⟩
      · rw [hrefused, hthrown]
        exact ⟨rfl, hm, hsame⟩
      · rw [hkept, hdone, hwritten, add64_eq (by omega)]
        exact ⟨rfl, ⟨(hset content hlength).content, rfl, hlength, hfits⟩, rfl, rfl, rfl⟩
  | writeAt bytes location =>
      have hwrite := hm.writeAt hc.2.1 hc.2.2
      unfold OpenzlBufferFileSystem.run OrdinaryFile.run
      dsimp only
      rcases hwrite with ⟨hrefused, hthrown⟩ | ⟨hkept, hfits, content, hdone, hlength, hwritten⟩
      · rw [hrefused, hthrown]
        exact ⟨rfl, hm, hsame⟩
      · rw [hkept, hdone, hwritten]
        exact ⟨rfl, hset content hlength, rfl, rfl, rfl⟩
  | read nrBytes =>
      obtain ⟨hread, hposition⟩ := hm.read hc
      unfold OpenzlBufferFileSystem.run OrdinaryFile.run
      dsimp only
      rw [hread]
      exact ⟨rfl, ⟨hm.content, rfl, hm.length_lt, hposition⟩, rfl, rfl, rfl⟩
  | readAt nrBytes location =>
      have hsum : add64 location nrBytes = location + nrBytes := add64_eq (by
        obtain ⟨-, hn, hlocation⟩ := hc
        omega)
      unfold OpenzlBufferFileSystem.run OrdinaryFile.run OpenzlBufferFileSystem.readAt
      dsimp only
      rw [hsum, hm.content]
      by_cases hend : location + nrBytes ≤ f.content.length
      · rw [if_neg (by omega), if_pos hend]
        exact ⟨rfl, hm, hsame⟩
      · rw [if_pos (by omega), if_neg hend]
        exact ⟨rfl, hm, hsame⟩
  | truncate newSize =>
      have htruncated := hset (resize f.content newSize) (by rw [length_resize]; exact hc)
      unfold OpenzlBufferFileSystem.run OrdinaryFile.run OpenzlBufferFileSystem.truncate
      rw [hm.content]
      exact ⟨rfl, htruncated, rfl, rfl, rfl⟩
  | seek location => exact ⟨rfl, ⟨hm.content, rfl, hm.length_lt, hc⟩, rfl, rfl, rfl⟩
  | reset => exact ⟨rfl, ⟨hm.content, rfl, hm.length_lt, Nat.two_pow_pos 63⟩, rfl, rfl, rfl⟩
  | getFileSize =>
      have hsize := congrArg List.length hm.content
      exact ⟨congrArg FileReply.number hsize, hm, hsame⟩
  | seekPosition => exact ⟨congrArg FileReply.number hm.position, hm, hsame⟩

end

/-- A call changes at most the string of its handle, and the handle still points at it. -/
theorem OpenzlBufferFileSystem.run_setString (fs : OpenzlBufferFileSystem)
    (h : OpenzlBufferFileHandle) (c : FileCall) :
    ∃ content, (fs.run h c).2.1 = fs.setString h.buffer content ∧
      (fs.run h c).2.2.path = h.path ∧ (fs.run h c).2.2.buffer = h.buffer := by
  have hkeep := (fs.setString_self h.buffer).symm
  cases c with
  | write bytes =>
      unfold run
      dsimp only
      split
      · exact ⟨_, hkeep, rfl, rfl⟩
      · exact ⟨_, rfl, rfl, rfl⟩
  | writeAt bytes location =>
      unfold run
      dsimp only
      split
      · exact ⟨_, hkeep, rfl, rfl⟩
      · exact ⟨_, rfl, rfl, rfl⟩
  | read nrBytes =>
      have hread : (fs.read h nrBytes).2.path = h.path ∧
          (fs.read h nrBytes).2.buffer = h.buffer := by
        unfold read
        dsimp only
        generalize (if (fs.strings h.buffer).length > h.position then
          (fs.strings h.buffer).length - h.position else 0) = remaining
        split <;> exact ⟨rfl, rfl⟩
      exact ⟨_, hkeep, hread.1, hread.2⟩
  | readAt nrBytes location =>
      unfold run
      dsimp only
      split <;> exact ⟨_, hkeep, rfl, rfl⟩
  | truncate newSize => exact ⟨_, rfl, rfl, rfl⟩
  | seek location => exact ⟨_, hkeep, rfl, rfl⟩
  | reset => exact ⟨_, hkeep, rfl, rfl⟩
  | getFileSize => exact ⟨_, hkeep, rfl, rfl⟩
  | seekPosition => exact ⟨_, hkeep, rfl, rfl⟩

/-! ## Programs -/

/-- A program that returns or throws, and on the way makes calls and sees their answers. -/
inductive FileProgram (α : Type) where
  | done (result : Except String α)
  | call (c : FileCall) (ordinary : c.Ordinary) (next : FileReply → FileProgram α)

namespace FileProgram

variable {α : Type}

def runFile : FileProgram α → OrdinaryFile → Except String α × OrdinaryFile
  | .done result, f => (result, f)
  | .call c _ next, f => (next (f.run c).1).runFile (f.run c).2

def runBuffer : FileProgram α → OpenzlBufferFileSystem → OpenzlBufferFileHandle →
    Except String α × OpenzlBufferFileSystem × OpenzlBufferFileHandle
  | .done result, fs, h => (result, fs, h)
  | .call c _ next, fs, h => (next (fs.run h c).1).runBuffer (fs.run h c).2.1 (fs.run h c).2.2

/-- A program does the same to the buffer as to the file, and ends in the same way. -/
theorem runBuffer_eq (p : FileProgram α) {fs : OpenzlBufferFileSystem} {h : OpenzlBufferFileHandle}
    {f : OrdinaryFile} (hm : Mirrors fs h f) :
    (p.runBuffer fs h).1 = (p.runFile f).1 ∧
      Mirrors (p.runBuffer fs h).2.1 (p.runBuffer fs h).2.2 (p.runFile f).2 ∧
      SameRegistry fs (p.runBuffer fs h).2.1 h (p.runBuffer fs h).2.2 := by
  induction p generalizing fs h f with
  | done result => exact ⟨rfl, hm, .refl fs h⟩
  | call c ordinary next ih =>
      obtain ⟨hreply, hm', hsame⟩ := hm.run ordinary
      obtain ⟨hresult, hm'', hsame'⟩ := ih (fs.run h c).1 hm'
      unfold runBuffer runFile
      rw [← hreply]
      exact ⟨hresult, hm'', hsame.trans hsame'⟩

/-- Of the buffers a program changes at most the string of its handle. -/
theorem runBuffer_setString (p : FileProgram α) (fs : OpenzlBufferFileSystem)
    (h : OpenzlBufferFileHandle) :
    ∃ content, (p.runBuffer fs h).2.1 = fs.setString h.buffer content := by
  induction p generalizing fs h with
  | done result => exact ⟨_, (fs.setString_self h.buffer).symm⟩
  | call c ordinary next ih =>
      obtain ⟨content, hfs, -, hbuffer⟩ := fs.run_setString h c
      obtain ⟨content', hfs'⟩ := ih (fs.run h c).1 (fs.run h c).2.1 (fs.run h c).2.2
      refine ⟨content', hfs'.trans ?_⟩
      rw [hfs, hbuffer, OpenzlBufferFileSystem.setString_setString]

end FileProgram

end DuckdbOpenzl
