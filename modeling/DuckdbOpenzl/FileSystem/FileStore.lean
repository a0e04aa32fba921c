import DuckdbOpenzl.FileSystem.Namespace
import DuckdbOpenzl.Library.Refinement

/-!
# A store of files behind `openzl://`

What the file system is for: a store of named files. A file being written is
private to its handle until `Close` puts it in place; a file opened for reading
stays what it was at the open; names are removed and moved as a whole. The
archives, the temporary files, the compressor and the shared buffers show
nowhere in the replies, as long as no archive is replaced by one of the size
and mtime under which other bytes are still buffered.
-/

set_option autoImplicit false

namespace DuckdbOpenzl

open FileContent Refinement

/-! ## The store -/

/-- What a name leads to: a file, or the files of a container. -/
inductive Archive where
  | file (bytes : Bytes)
  | chunks (files : List Bytes)

/-- The file of a whole archive, or the one of a chunk. -/
def Archive.content : Option Archive → Option ℕ → Option Bytes
  | some (.file bytes), none => some bytes
  | some (.chunks files), some i => files[i]?
  | _, _ => none

inductive StoreHandle where
  | writer (target : Path) (f : OrdinaryFile)
  | reader (f : OrdinaryFile)
  | finished

def FileCall.edits : FileCall → Bool
  | .write _ => true
  | .writeAt _ _ => true
  | .truncate _ => true
  | _ => false

/-- A reader refuses to be written; no call is made on a handle behind its `Close`. -/
def StoreHandle.run : StoreHandle → FileCall → FileReply × StoreHandle
  | .writer target f, c => ((f.run c).1, .writer target (f.run c).2)
  | .reader f, c => if c.edits then (.thrown, .reader f) else ((f.run c).1, .reader (f.run c).2)
  | .finished, _ => (.thrown, .finished)

structure FileStore where
  archives : Path → Option Archive
  handles : ℕ → Option StoreHandle := fun _ ↦ none

namespace FileStore

variable (a : FileStore)

/-- What a path names. -/
def content (path : String) : Option Bytes :=
  Archive.content (a.archives (resolve (stripScheme path)).1) (resolve (stripScheme path)).2

def listing (path : String) : List String :=
  match (resolve (stripScheme path)).2, a.archives (resolve (stripScheme path)).1 with
  | none, some (.chunks files) => (List.range files.length).map (chunkPath path)
  | _, _ => [path]

def setHandle (id : ℕ) (h : Option StoreHandle) : FileStore :=
  { a with handles := Function.update a.handles id h }

def setArchive (p : Path) (archive : Option Archive) : FileStore :=
  { a with archives := Function.update a.archives p archive }

@[simp] theorem setArchive_self (p : Path) (archive : Option Archive) :
    (a.setArchive p archive).archives p = archive := Function.update_self ..

theorem setArchive_of_ne {p q : Path} (archive : Option Archive) (hne : q ≠ p) :
    (a.setArchive p archive).archives q = a.archives q := Function.update_of_ne hne ..

end FileStore

/-- What the store may reply to a call, and what it is then. -/
inductive StoreStep : FileStore → FsCall → FsReply → FileStore → Prop
  | create {a : FileStore} {id : ℕ} {path : String} {flags : FileOpenFlags} {o : OpenerSettings}
      (free : a.handles id = none) (whole : (resolve (stripScheme path)).2 = none)
      (writes : flags.writing = true) :
      StoreStep a (.openFile id path flags o) .done
        (a.setHandle id (some (.writer (resolve (stripScheme path)).1 ⟨[], 0⟩)))
  | refuse {a : FileStore} {id : ℕ} {path : String} {flags : FileOpenFlags} {o : OpenerSettings}
      (e : Exception) (writes : flags.writing = true)
      (unsupported : (resolve (stripScheme path)).2.isSome ∨ flags.appending = true ∨
        flags.reading = true) : StoreStep a (.openFile id path flags o) (.thrown e) a
  | open {a : FileStore} {id : ℕ} {path : String} {flags : FileOpenFlags} {o : OpenerSettings}
      {bytes : Bytes} (free : a.handles id = none) (reads : flags.writing = false)
      (present : a.content path = some bytes) :
      StoreStep a (.openFile id path flags o) .done (a.setHandle id (some (.reader ⟨bytes, 0⟩)))
  | missing {a : FileStore} {id : ℕ} {path : String} {flags : FileOpenFlags} {o : OpenerSettings}
      (e : Exception) (reads : flags.writing = false) (absent : a.content path = none) :
      StoreStep a (.openFile id path flags o) (.thrown e) a
  | call {a : FileStore} {id : ℕ} {h : StoreHandle} (c : FileCall)
      (handle : a.handles id = some h) :
      StoreStep a (.call id c) (.file (h.run c).1) (a.setHandle id (some (h.run c).2))
  | publish {a : FileStore} {id : ℕ} {target : Path} {f : OrdinaryFile}
      (handle : a.handles id = some (.writer target f)) :
      StoreStep a (.close id) .done
        ((a.setArchive target (some (.file f.content))).setHandle id (some .finished))
  | abandon {a : FileStore} {id : ℕ} {target : Path} {f : OrdinaryFile} (e : Exception)
      (handle : a.handles id = some (.writer target f)) :
      StoreStep a (.close id) (.thrown e) (a.setHandle id (some .finished))
  | closeAgain {a : FileStore} {id : ℕ} {h : StoreHandle} (handle : a.handles id = some h)
      (nothing : ∀ target f, h ≠ .writer target f) : StoreStep a (.close id) .done a
  | destroy {a : FileStore} {id : ℕ} : StoreStep a (.destroy id) .done (a.setHandle id none)
  | glob {a : FileStore} {path : String} : StoreStep a (.glob path) (.paths (a.listing path)) a
  | fileExists {a : FileStore} {path : String} : StoreStep a (.fileExists path)
      (.bool (a.archives (resolve (stripScheme path)).1).isSome) a
  | tryRemove {a : FileStore} {path : String} (whole : (resolve (stripScheme path)).2 = none)
      (present : (a.archives (resolve (stripScheme path)).1).isSome) :
      StoreStep a (.tryRemoveFile path) (.bool true)
        (a.setArchive (resolve (stripScheme path)).1 none)
  | notRemoved {a : FileStore} {path : String} (whole : (resolve (stripScheme path)).2 = none) :
      StoreStep a (.tryRemoveFile path) (.bool false) a
  | chunkKept {a : FileStore} {path : String} (e : Exception)
      (chunk : (resolve (stripScheme path)).2.isSome) :
      StoreStep a (.tryRemoveFile path) (.thrown e) a
  | remove {a : FileStore} {path : String} (whole : (resolve (stripScheme path)).2 = none)
      (present : (a.archives (resolve (stripScheme path)).1).isSome) :
      StoreStep a (.removeFile path) .done (a.setArchive (resolve (stripScheme path)).1 none)
  | removeFailed {a : FileStore} {path : String} (e : Exception) :
      StoreStep a (.removeFile path) (.thrown e) a
  | move {a : FileStore} {source target : String}
      (present : (a.archives (OpenzlFileSystem.localPath source)).isSome) :
      StoreStep a (.moveFile source target) .done
        ((a.setArchive (OpenzlFileSystem.localPath source) none).setArchive
          (OpenzlFileSystem.localPath target) (a.archives (OpenzlFileSystem.localPath source)))
  | moveFailed {a : FileStore} {source target : String} (e : Exception) :
      StoreStep a (.moveFile source target) (.thrown e) a
  | elapse {a : FileStore} (seconds : ℕ) : StoreStep a (.elapse seconds) .done a

/-! ## What a path holds -/

/-- The file at `p` is the archive: absent, one frame, or a container. -/
def Holds (zl : OpenZL) (p : Path) (w : World) : Option Archive → Prop
  | none => w.content p = none
  | some (.file bytes) => bytes.length < 2 ^ 63 ∧
      ∃ frame, HoldsFrame p frame w ∧ zl.decompressSerial frame = .ok bytes
  | some (.chunks files) => ∃ frames, HoldsContainer p frames w ∧
      List.Forall₂ (fun frame bytes ↦ bytes.length < 2 ^ 63 ∧
        zl.decompressSerial frame = .ok bytes) frames files

/-- A chunk that is not in the index ends the call. -/
theorem decompressChunkToBuffer_of_range {zl : OpenZL} {p : Path} {i : ℕ} {w : World} {e : Error}
    (hfile : opened p (requireFile p) w = .ok () w)
    (hrange : chunkRange p i (w.content p) = .error e) :
    decompressChunkToBuffer zl p i w = .error e w := by
  have hopened : opened p (chunkRange p i) w = .error e w := by
    rw [opened, hrange]
    rfl
  unfold decompressChunkToBuffer
  rw [ExceptionState.bind_apply, hfile]
  dsimp only
  rw [ExceptionState.bind_apply, hopened]

/-- One frame has no chunks. -/
theorem HoldsFrame.decompressChunk_error {zl : OpenZL} {p : Path} {frame : Bytes} {w : World}
    (h : HoldsFrame p frame w) (i : ℕ) :
    ∃ e, DuckdbOpenzl.decompressChunkToBuffer zl p i w = .error e w := by
  have hrange : chunkRange p i (w.content p) =
      .error ⟨"openzl_bridge: not a chunked archive: " ++ p⟩ := by
    unfold chunkRange
    rw [h.containerIndex]
    rfl
  exact ⟨_, decompressChunkToBuffer_of_range h.requireFile hrange⟩

namespace HoldsContainer

variable {zl : OpenZL} {p : Path} {frames : List Bytes} {w : World}

theorem decompressChunk_error (h : HoldsContainer p frames w) {i : ℕ} (hi : frames.length ≤ i) :
    ∃ e, DuckdbOpenzl.decompressChunkToBuffer zl p i w = .error e w := by
  have hnone : (rangesFrom kMagicLen frames)[i]? = none :=
    List.getElem?_eq_none (by rw [length_rangesFrom]; exact hi)
  have hrange : ∃ e, DuckdbOpenzl.chunkRange p i (w.content p) = .error e := by
    unfold DuckdbOpenzl.chunkRange
    rw [h.containerIndex]
    simp only [bind, Except.bind, hnone]
    exact ⟨_, rfl⟩
  obtain ⟨e, hrange⟩ := hrange
  exact ⟨e, decompressChunkToBuffer_of_range h.requireFile hrange⟩

/-- Several frames are no single file. -/
theorem decompressToBuffer_error (h : HoldsContainer p frames w) :
    ∃ e, decompressToBuffer zl p w = .error e w := by
  have hplain : ∃ e, opened p (requirePlain p) w = .error e w := by
    unfold opened requirePlain
    rw [h.containerIndex]
    exact ⟨_, rfl⟩
  obtain ⟨e, hplain⟩ := hplain
  refine ⟨e, ?_⟩
  unfold DuckdbOpenzl.decompressToBuffer
  rw [ExceptionState.bind_apply, h.requireFile]
  dsimp only
  rw [ExceptionState.bind_apply, hplain]

end HoldsContainer

namespace Holds

variable {zl : OpenZL} {p q : Path} {w w' : World} {archive : Option Archive}

/-- An archive is the same under every name. -/
theorem congr (h : Holds zl p w archive) (hcontent : w'.content q = w.content p) :
    Holds zl q w' archive := by
  cases archive with
  | none => exact hcontent.trans h
  | some ar =>
      cases ar with
      | file bytes =>
          obtain ⟨hlength, frame, hframe, hdecode⟩ := h
          exact ⟨hlength, frame, ⟨hcontent.trans hframe.content, hframe.magic⟩, hdecode⟩
      | chunks files =>
          obtain ⟨frames, hframes, hdecode⟩ := h
          exact ⟨frames, ⟨hframes.nonempty, hcontent.trans hframes.content, hframes.size⟩, hdecode⟩

theorem content_isSome (h : Holds zl p w archive) : (w.content p).isSome = archive.isSome := by
  cases archive with
  | none => exact congrArg Option.isSome h
  | some ar =>
      cases ar with
      | file bytes =>
          obtain ⟨-, frame, hframe, -⟩ := h
          rw [hframe.content]
          rfl
      | chunks files =>
          obtain ⟨frames, hframes, -⟩ := h
          rw [hframes.content]
          rfl

/-- What the store says of an address is what decompressing it gives. -/
theorem decompress (h : Holds zl p w archive) (chunk : Option ℕ) :
    (∃ bytes, Archive.content archive chunk = some bytes ∧ bytes.length < 2 ^ 63 ∧
      decompressArchive zl (p, chunk) w = .ok bytes w) ∨
    (Archive.content archive chunk = none ∧
      ∃ e, decompressArchive zl (p, chunk) w = .error e w) := by
  cases archive with
  | none =>
      right
      refine ⟨by cases chunk <;> rfl, ⟨"openzl_bridge: input file not found: " ++ p⟩, ?_⟩
      have hmissing : opened p (requireFile p) w =
          .error ⟨"openzl_bridge: input file not found: " ++ p⟩ w := by
        rw [opened, h]
        rfl
      cases chunk with
      | none => exact ExceptionState.bind_eq_error_iff.mpr (.inl hmissing)
      | some i => exact ExceptionState.bind_eq_error_iff.mpr (.inl hmissing)
  | some ar =>
      cases ar with
      | file bytes =>
          obtain ⟨hlength, frame, hframe, hdecode⟩ := h
          cases chunk with
          | none =>
              refine .inl ⟨bytes, rfl, hlength, ?_⟩
              rw [decompressArchive, hframe.decompressToBuffer, decodeFile_eq_ok_iff.mpr hdecode]
              rfl
          | some i => exact .inr ⟨rfl, hframe.decompressChunk_error i⟩
      | chunks files =>
          obtain ⟨frames, hframes, hdecode⟩ := h
          cases chunk with
          | none => exact .inr ⟨rfl, hframes.decompressToBuffer_error⟩
          | some i =>
              have hlength := hdecode.length_eq
              by_cases hi : i < frames.length
              · obtain ⟨hsmall, hbytes⟩ := hdecode.get hi (hlength ▸ hi)
                refine .inl ⟨files[i], List.getElem?_eq_getElem _, hsmall, ?_⟩
                rw [decompressArchive, hframes.decompressChunkToBuffer hi, decodeChunk]
                simp only [List.get_eq_getElem] at hbytes
                rw [hbytes]
                rfl
              · refine .inr ⟨List.getElem?_eq_none (by omega), ?_⟩
                exact hframes.decompressChunk_error (by omega)

end Holds

/-! ## Calls on a handle -/

/-- The handle is where the file is, and holds the same bytes. -/
structure Follows (h : OpenzlFileHandle) (f : OrdinaryFile) : Prop where
  bytes : h.bytes = f.content
  position : h.position = f.position
  length_lt : f.content.length < 2 ^ 63
  position_lt : f.position < 2 ^ 63

/-- The end of what is written stays below `2 ^ 63`, where no string goes. -/
def FileCall.Fits (position : ℕ) : FileCall → Prop
  | .write bytes => position + bytes.length < 2 ^ 63
  | .writeAt bytes location => location + bytes.length < 2 ^ 63
  | _ => True

section

variable {h : OpenzlFileHandle} {f : OrdinaryFile} {c : FileCall}

/-- Whatever can be called without writing gets the answer of an ordinary file. -/
theorem Follows.run_of_not_edits (hf : Follows h f) (hc : c.Ordinary) (hedits : c.edits = false) :
    (h.run c).1 = (f.run c).1 ∧ Follows (h.run c).2 (f.run c).2 ∧
      (h.run c).2 = { h with position := (f.run c).2.position } := by
  have hlength := hf.length_lt
  have hposition := hf.position_lt
  have hsame : h = { h with position := f.position } := by rw [← hf.position]
  cases c with
  | write bytes => cases hedits
  | writeAt bytes location => cases hedits
  | truncate newSize => cases hedits
  | read nrBytes =>
      have hslice := length_slice f.content f.position nrBytes
      have hread := read_eq h nrBytes (by rw [hf.bytes]; omega)
      rw [hf.bytes, hf.position, ← hslice] at hread
      have hrun : h.run (.read nrBytes) = (.bytes (slice f.content f.position nrBytes),
          h.seek (f.position + (slice f.content f.position nrBytes).length)) := by
        rw [OpenzlFileHandle.run, hread]
      rw [hrun]
      exact ⟨rfl, ⟨hf.bytes, rfl, hlength, by simp only [OrdinaryFile.run]; omega⟩, rfl⟩
  | readAt nrBytes location =>
      have hsum : add64 location nrBytes = location + nrBytes := by
        obtain ⟨-, hbytes, hlocation⟩ := hc
        exact add64_eq (by omega)
      have hread : h.readAt nrBytes location =
          if location + nrBytes > f.content.length then .error h.pastTheEnd
          else .ok (slice f.content location nrBytes) := by
        rw [OpenzlFileHandle.readAt, hsum, hf.bytes]
      simp only [OpenzlFileHandle.run, OrdinaryFile.run, hread]
      by_cases hend : location + nrBytes ≤ f.content.length
      · rw [if_neg (by omega), if_pos hend]
        exact ⟨rfl, hf, hsame⟩
      · rw [if_pos (by omega), if_neg hend]
        exact ⟨rfl, hf, hsame⟩
  | seek location => exact ⟨rfl, ⟨hf.bytes, rfl, hlength, hc⟩, rfl⟩
  | reset => exact ⟨rfl, ⟨hf.bytes, rfl, hlength, Nat.two_pow_pos 63⟩, rfl⟩
  | getFileSize =>
      refine ⟨?_, hf, hsame⟩
      simp only [OpenzlFileHandle.run, OrdinaryFile.run, hf.bytes]
  | seekPosition =>
      refine ⟨?_, hf, hsame⟩
      simp only [OpenzlFileHandle.run, OrdinaryFile.run, hf.position]

/-- What is written changes the handle's string as it changes the file. -/
theorem Follows.run_of_edits (hf : Follows h f) (hbuffer : h.writeBuffer = some f.content)
    (hc : c.Ordinary) (hfits : c.Fits f.position) (hedits : c.edits = true) :
    (h.run c).1 = (f.run c).1 ∧ Follows (h.run c).2 (f.run c).2 ∧
      (h.run c).2 = { h with writeBuffer := some (f.run c).2.content,
                             position := (f.run c).2.position } := by
  have hlength := hf.length_lt
  have hposition := hf.position_lt
  have hgrown : ∀ (bytes : Bytes) (location : ℕ), location + bytes.length < 2 ^ 63 →
      ((Edit.write location bytes).apply f.content).length < 2 ^ 63 := by
    intro bytes location hend
    rw [length_apply_write]
    exact max_lt hend hlength
  cases c with
  | write bytes =>
      have hend : f.position + bytes.length < 2 ^ 63 := hfits
      have hrun : h.run (.write bytes) = (.done, { h with
          writeBuffer := some ((Edit.write f.position bytes).apply f.content)
          position := f.position + bytes.length }) := by
        have hsum : add64 h.position bytes.length = f.position + bytes.length := by
          rw [hf.position]
          exact add64_eq (by omega)
        rw [OpenzlFileHandle.run, OpenzlFileHandle.write, hf.position,
          writeAt_of_fits hbuffer bytes hend]
        simp only [bind, Except.bind, pure, Except.pure, hsum]
      have hfile : f.run (.write bytes) = (.done,
          ⟨(Edit.write f.position bytes).apply f.content, f.position + bytes.length⟩) := by
        simp only [OrdinaryFile.run, OrdinaryFile.writeAt, if_pos hend]
      rw [hrun, hfile]
      exact ⟨rfl, ⟨rfl, rfl, hgrown bytes _ hend, hend⟩, rfl⟩
  | writeAt bytes location =>
      have hend : location + bytes.length < 2 ^ 63 := hfits
      have hrun : h.run (.writeAt bytes location) = (.done, { h with
          writeBuffer := some ((Edit.write location bytes).apply f.content) }) := by
        rw [OpenzlFileHandle.run, writeAt_of_fits hbuffer bytes hend]
      have hfile : f.run (.writeAt bytes location) = (.done,
          ⟨(Edit.write location bytes).apply f.content, f.position⟩) := by
        simp only [OrdinaryFile.run, OrdinaryFile.writeAt, if_pos hend]
      rw [hrun, hfile]
      exact ⟨rfl, ⟨rfl, hf.position, hgrown bytes _ hend, hposition⟩, by rw [← hf.position]⟩
  | truncate newSize =>
      have hrun : h.run (.truncate newSize) = (.done, { h with
          writeBuffer := some (resize f.content newSize) }) := by
        simp only [OpenzlFileHandle.run, OpenzlFileHandle.truncate, hbuffer]
      have hsize : newSize < 2 ^ 63 := hc
      rw [hrun]
      refine ⟨rfl, ⟨rfl, hf.position, ?_, hposition⟩, ?_⟩
      · rw [OrdinaryFile.run, length_resize]
        exact hsize
      · simp only [OrdinaryFile.run]
        rw [← hf.position]
  | read nrBytes => cases hedits
  | readAt nrBytes location => cases hedits
  | seek location => cases hedits
  | reset => cases hedits
  | getFileSize => cases hedits
  | seekPosition => cases hedits

/-- A handle that has nothing to write refuses to. -/
theorem run_of_reader (hbuffer : h.writeBuffer = none) (hedits : c.edits = true) :
    h.run c = (.thrown, h) := by
  cases c with
  | write bytes =>
      simp only [OpenzlFileHandle.run, OpenzlFileHandle.write, OpenzlFileHandle.writeAt, hbuffer,
        bind, Except.bind]
  | writeAt bytes location =>
      simp only [OpenzlFileHandle.run, OpenzlFileHandle.writeAt, hbuffer]
  | truncate newSize => simp only [OpenzlFileHandle.run, OpenzlFileHandle.truncate, hbuffer]
  | read nrBytes => cases hedits
  | readAt nrBytes location => cases hedits
  | seek location => cases hedits
  | reset => cases hedits
  | getFileSize => cases hedits
  | seekPosition => cases hedits

end

end DuckdbOpenzl
