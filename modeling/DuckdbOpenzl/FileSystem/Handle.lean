import DuckdbOpenzl.FileSystem.ArchivePaths

/-!
# Reading and writing through a handle

A write handle collects the file in memory; `Close` compresses it next to the
destination and renames it into place. `Reference` is the file the writer
means: the history of its edits and the shared position.
-/

set_option autoImplicit false

namespace DuckdbOpenzl

open FileContent

namespace OpenzlFileHandle

def notOpenedForWriting (h : OpenzlFileHandle) : Exception :=
  .io ("OpenzlFileSystem: \"" ++ h.path ++ "\" was not opened for writing")

def pastTheEnd (h : OpenzlFileHandle) : Exception :=
  .io ("OpenzlFileSystem: attempted to read past the end of decompressed archive \"" ++ h.path ++
    "\"")

/-- `Read(handle, buffer, nr_bytes, location)` -/
def readAt (h : OpenzlFileHandle) (nrBytes location : ℕ) : Except Exception Bytes :=
  if add64 location nrBytes > h.bytes.length then .error h.pastTheEnd
  else .ok (slice h.bytes location nrBytes)

/-- `Read(handle, buffer, nr_bytes)` -/
def read (h : OpenzlFileHandle) (nrBytes : ℕ) : Bytes × OpenzlFileHandle :=
  let remaining := if h.bytes.length > h.position then h.bytes.length - h.position else 0
  let toRead := min remaining nrBytes
  if toRead > 0 then
    (slice h.bytes h.position toRead, { h with position := add64 h.position toRead })
  else
    ([], h)

/-- `Write(handle, buffer, nr_bytes, location)` -/
def writeAt (h : OpenzlFileHandle) (bytes : Bytes) (location : ℕ) :
    Except Exception OpenzlFileHandle :=
  match h.writeBuffer with
  | none => .error h.notOpenedForWriting
  | some buffer =>
      let size := add64 location bytes.length
      let buffer := if size > buffer.length then resize buffer size else buffer
      .ok { h with writeBuffer := some (overwrite buffer location bytes) }

/-- `Write(handle, buffer, nr_bytes)` -/
def write (h : OpenzlFileHandle) (bytes : Bytes) : Except Exception OpenzlFileHandle := do
  let h ← h.writeAt bytes h.position
  return { h with position := add64 h.position bytes.length }

def truncate (h : OpenzlFileHandle) (newSize : ℕ) : Except Exception OpenzlFileHandle :=
  match h.writeBuffer with
  | none => .error h.notOpenedForWriting
  | some buffer => .ok { h with writeBuffer := some (resize buffer newSize) }

def seek (h : OpenzlFileHandle) (location : ℕ) : OpenzlFileHandle := { h with position := location }

def reset (h : OpenzlFileHandle) : OpenzlFileHandle := { h with position := 0 }

def kSmallFallbackBytes : ℕ := 64000000

/-- The configured graph, or for a small file the serial one when that fails. -/
def compressForClose (zl : OpenZL) (buffer : Bytes) (tmpPath : Path) (s : OpenzlWriteSettings) :
    BridgeM Unit := fun w ↦
  match compressParquetBytes zl buffer tmpPath "" s.compressionLevel s.maxCompressBytes
    s.graph w with
  | .ok () w => .ok () w
  | .error e w =>
      if s.graph.profile = "serial" ∨ buffer.length > kSmallFallbackBytes then .error e w
      else
        let generic := { s.graph with profile := "serial", parquetChunkBytes := 0 }
        compressParquetBytes zl buffer tmpPath "" s.compressionLevel s.maxCompressBytes generic w

def cannotWrite (h : OpenzlFileHandle) (e : Error) : Exception :=
  .io ("OpenzlFileSystem: cannot write \"" ++ h.path ++ "\": " ++ e.what ++
    " (files written through openzl:// must be canonical " ++
    "parquet -- uncompressed, plain-encoded, no dictionary -- unless SET openzl_profile = " ++
    "'serial')")

def tmpPath (h : OpenzlFileHandle) : Path := h.realPath ++ ".openzl_tmp"

def close (zl : OpenZL) : EStateM Exception (World × OpenzlFileHandle) Unit := fun (w, h) ↦
  match h.writeBuffer with
  | none => .ok () (w, h)
  | some buffer =>
      if h.closed then .ok () (w, h)
      else
        match compressForClose zl buffer h.tmpPath h.writeSettings w with
        | .error e w => .error (h.cannotWrite e) (w.remove h.tmpPath, { h with closed := true })
        | .ok () w =>
            let (moved, w) := w.rename h.tmpPath h.realPath
            if moved then .ok () (w, { h with closed := true, writeBuffer := none })
            else .error
              (.io ("OpenzlFileSystem: cannot move the finished archive into place at \"" ++
                h.realPath ++ "\""))
              (w.remove h.tmpPath, { h with closed := true, writeBuffer := none })

end OpenzlFileHandle

/-! ## Traces of calls on a handle -/

inductive WriteOp where
  | write (bytes : Bytes)
  | writeAt (bytes : Bytes) (location : ℕ)
  | seek (location : ℕ)
  | reset
  | truncate (newSize : ℕ)

def WriteOp.run (h : OpenzlFileHandle) : WriteOp → Except Exception OpenzlFileHandle
  | .write bytes => h.write bytes
  | .writeAt bytes location => h.writeAt bytes location
  | .seek location => .ok (h.seek location)
  | .reset => .ok h.reset
  | .truncate newSize => h.truncate newSize

def runWrites : List WriteOp → OpenzlFileHandle → Except Exception OpenzlFileHandle
  | [], h => .ok h
  | op :: ops, h => do runWrites ops (← op.run h)

inductive ReadOp where
  | read (nrBytes : ℕ)
  | readAt (nrBytes location : ℕ)
  | seek (location : ℕ)

def ReadOp.run (h : OpenzlFileHandle) : ReadOp → Except Exception Bytes × OpenzlFileHandle
  | .read nrBytes => (.ok (h.read nrBytes).1, (h.read nrBytes).2)
  | .readAt nrBytes location => (h.readAt nrBytes location, h)
  | .seek location => (.ok [], h.seek location)

/-- What each call of the trace returns. -/
def runReads : List ReadOp → OpenzlFileHandle → List (Except Exception Bytes)
  | [], _ => []
  | op :: ops, h => (op.run h).1 :: runReads ops (op.run h).2

/-! ## The reference file -/

/-- The edits of the file, latest first, and the handle's position. -/
structure Reference where
  edits : List (Edit UInt8) := []
  position : ℕ := 0

namespace Reference

def step (r : Reference) : WriteOp → Reference
  | .write bytes => ⟨.write r.position bytes :: r.edits, r.position + bytes.length⟩
  | .writeAt bytes location => { r with edits := .write location bytes :: r.edits }
  | .seek location => { r with position := location }
  | .reset => { r with position := 0 }
  | .truncate newSize => { r with edits := .truncate newSize :: r.edits }

def after (r : Reference) (ops : List WriteOp) : Reference := ops.foldl step r

/-- Offset plus count, and the length asked for, stay below `2 ^ 63`. -/
def Fits (r : Reference) : WriteOp → Prop
  | .write bytes => r.position + bytes.length < 2 ^ 63
  | .writeAt bytes location => location + bytes.length < 2 ^ 63
  | .truncate newSize => newSize < 2 ^ 63
  | .seek _ => True
  | .reset => True

instance (r : Reference) : (op : WriteOp) → Decidable (r.Fits op)
  | .write bytes => inferInstanceAs (Decidable (r.position + bytes.length < 2 ^ 63))
  | .writeAt bytes location => inferInstanceAs (Decidable (location + bytes.length < 2 ^ 63))
  | .truncate newSize => inferInstanceAs (Decidable (newSize < 2 ^ 63))
  | .seek _ => .isTrue trivial
  | .reset => .isTrue trivial

def AllFit (r : Reference) : List WriteOp → Prop
  | [] => True
  | op :: ops => r.Fits op ∧ (r.step op).AllFit ops

/-- A trace that fits never makes the file `2 ^ 63` bytes long. -/
theorem lengthAfter_lt {r : Reference} (hr : lengthAfter r.edits < 2 ^ 63) {ops : List WriteOp}
    (hfit : r.AllFit ops) : lengthAfter (r.after ops).edits < 2 ^ 63 := by
  induction ops generalizing r with
  | nil => exact hr
  | cons op ops ih =>
      obtain ⟨hop, hops⟩ := hfit
      refine ih ?_ hops
      cases op with
      | write bytes => exact max_lt hop hr
      | writeAt bytes location => exact max_lt hop hr
      | seek location => exact hr
      | reset => exact hr
      | truncate newSize => exact hop

/-- What a read of the reference returns, and the position behind it. -/
def readOp (edits : List (Edit UInt8)) (pastTheEnd : Exception) (position : ℕ) :
    ReadOp → Except Exception Bytes × ℕ
  | .read nrBytes =>
      let count := min nrBytes (lengthAfter edits - position)
      (.ok (lookupRange edits position count), position + count)
  | .readAt nrBytes location =>
      if location + nrBytes ≤ lengthAfter edits then
        (.ok (lookupRange edits location nrBytes), position)
      else (.error pastTheEnd, position)
  | .seek location => (.ok [], location)

def reads (edits : List (Edit UInt8)) (pastTheEnd : Exception) :
    ℕ → List ReadOp → List (Except Exception Bytes)
  | _, [] => []
  | position, op :: ops =>
      (readOp edits pastTheEnd position op).1 ::
        reads edits pastTheEnd (readOp edits pastTheEnd position op).2 ops

end Reference

/-- The handle holds the reference's content at the reference's position. -/
structure Tracks (r : Reference) (h₀ h : OpenzlFileHandle) : Prop where
  writeBuffer : h.writeBuffer = some (replay r.edits)
  position : h.position = r.position
  path : h.path = h₀.path
  realPath : h.realPath = h₀.realPath
  open_ : h.closed = false

/-! ## Writing -/

variable {zl : OpenZL} {r : Reference} {h₀ h h' : OpenzlFileHandle} {w w' : World}

theorem writeAt_of_fits {content : Bytes} (hbuffer : h.writeBuffer = some content) (bytes : Bytes)
    {location : ℕ} (hfit : location + bytes.length < 2 ^ 63) :
    h.writeAt bytes location =
      .ok { h with writeBuffer := some ((Edit.write location bytes).apply content) } := by
  unfold OpenzlFileHandle.writeAt
  rw [hbuffer]
  dsimp only
  rw [add64_eq (by omega)]
  rfl

theorem Tracks.step (ht : Tracks r h₀ h) (op : WriteOp) (hfit : r.Fits op) :
    ∃ h', op.run h = .ok h' ∧ Tracks (r.step op) h₀ h' := by
  cases op with
  | write bytes =>
      have hpos := ht.position
      have hsize : r.position + bytes.length < 2 ^ 63 := hfit
      have hwrite := writeAt_of_fits ht.writeBuffer bytes
        (show h.position + bytes.length < 2 ^ 63 by omega)
      refine ⟨_, by simp only [WriteOp.run, OpenzlFileHandle.write, hwrite]; rfl, ?_⟩
      refine ⟨by rw [hpos]; rfl, ?_, ht.path, ht.realPath, ht.open_⟩
      rw [hpos, add64_eq (by omega)]
      rfl
  | writeAt bytes location =>
      exact ⟨_, writeAt_of_fits ht.writeBuffer bytes hfit, rfl, ht.position, ht.path, ht.realPath,
        ht.open_⟩
  | seek location => exact ⟨_, rfl, ht.writeBuffer, rfl, ht.path, ht.realPath, ht.open_⟩
  | reset => exact ⟨_, rfl, ht.writeBuffer, rfl, ht.path, ht.realPath, ht.open_⟩
  | truncate newSize =>
      refine ⟨{ h with writeBuffer := some (resize (replay r.edits) newSize) }, ?_, rfl,
        ht.position, ht.path, ht.realPath, ht.open_⟩
      simp only [WriteOp.run, OpenzlFileHandle.truncate, ht.writeBuffer]

/-- No call of a trace that fits throws, and the handle follows the reference. -/
theorem Tracks.runWrites (ht : Tracks r h₀ h) (ops : List WriteOp) (hfit : r.AllFit ops) :
    ∃ h', runWrites ops h = .ok h' ∧ Tracks (r.after ops) h₀ h' := by
  induction ops generalizing r h with
  | nil => exact ⟨h, rfl, ht⟩
  | cons op ops ih =>
      obtain ⟨hop, hops⟩ := hfit
      obtain ⟨h₁, hrun, ht₁⟩ := ht.step op hop
      obtain ⟨h₂, hrest, ht₂⟩ := ih ht₁ hops
      refine ⟨h₂, ?_, ht₂⟩
      rw [DuckdbOpenzl.runWrites, hrun]
      exact hrest

/-! ## Closing -/

theorem tmpPath_ne (h : OpenzlFileHandle) : h.tmpPath ≠ h.realPath := by
  intro heq
  have hlength := congrArg String.length heq
  rw [OpenzlFileHandle.tmpPath, String.length_append] at hlength
  have hsuffix : ".openzl_tmp".length = 11 := by decide
  omega

theorem compressForClose_ok {buffer : Bytes} {tmpPath : Path} {s : OpenzlWriteSettings}
    (hkeep : w.KeepsFlushes)
    (hok : OpenzlFileHandle.compressForClose zl buffer tmpPath s w = .ok () w') :
    ∃ cctx frame, zl.compressSerial cctx buffer = .ok frame ∧ w'.content tmpPath = some frame := by
  have htouches := compressParquetBytes_touches zl buffer tmpPath "" s.compressionLevel
    s.maxCompressBytes s.graph w
  unfold OpenzlFileHandle.compressForClose at hok
  cases hfirst : compressParquetBytes zl buffer tmpPath "" s.compressionLevel s.maxCompressBytes
      s.graph w with
  | ok u t =>
      rw [hfirst] at hok
      obtain ⟨-, rfl⟩ := EStateM.Result.ok.inj hok
      exact compressParquetBytes_ok hkeep hfirst
  | error e t =>
      rw [hfirst] at hok
      dsimp only at hok
      split at hok
      · cases hok
      · rw [ExceptionState.stateAfter_of_error hfirst] at htouches
        have hkeep' : t.KeepsFlushes := by
          unfold World.KeepsFlushes
          rw [htouches.script]
          exact hkeep
        exact compressParquetBytes_ok hkeep' hok

/-- A `Close` that returns has moved its temporary file into place. -/
theorem close_moved {buffer : Bytes} (hbuffer : h.writeBuffer = some buffer)
    (hopen : h.closed = false) (hok : OpenzlFileHandle.close zl (w, h) = .ok () (w', h')) :
    ∃ t, OpenzlFileHandle.compressForClose zl buffer h.tmpPath h.writeSettings w = .ok () t ∧
      (t.rename h.tmpPath h.realPath).1 = true ∧ w' = (t.rename h.tmpPath h.realPath).2 := by
  unfold OpenzlFileHandle.close at hok
  simp only [hbuffer, hopen, Bool.false_eq_true, if_false] at hok
  split at hok
  · cases hok
  · rename_i t hcompress
    split at hok
    · rename_i hmoved
      obtain ⟨hworld, -⟩ := Prod.mk.inj (EStateM.Result.ok.inj hok).2
      exact ⟨t, hcompress, hmoved, hworld.symm⟩
    · cases hok

/-- A `Close` that returns has left a frame of the whole buffer at the archive's path. -/
theorem close_ok {buffer : Bytes} (hkeep : w.KeepsFlushes) (hbuffer : h.writeBuffer = some buffer)
    (hopen : h.closed = false) (hok : OpenzlFileHandle.close zl (w, h) = .ok () (w', h')) :
    ∃ cctx frame, zl.compressSerial cctx buffer = .ok frame ∧
      w'.content h.realPath = some frame := by
  obtain ⟨t, hcompress, hmoved, rfl⟩ := close_moved hbuffer hopen hok
  obtain ⟨cctx, frame, hframe, hcontent⟩ := compressForClose_ok hkeep hcompress
  exact ⟨cctx, frame, hframe, (World.content_rename hmoved).trans hcontent⟩

/-! ## Reading back -/

theorem read_eq (h : OpenzlFileHandle) (nrBytes : ℕ) (hsize : h.bytes.length < 2 ^ 64) :
    h.read nrBytes = (slice h.bytes h.position nrBytes,
      h.seek (h.position + min nrBytes (h.bytes.length - h.position))) := by
  have hremaining : (if h.bytes.length > h.position then h.bytes.length - h.position else 0) =
      h.bytes.length - h.position := by
    split <;> omega
  unfold OpenzlFileHandle.read
  dsimp only
  rw [hremaining, Nat.min_comm]
  by_cases hzero : min nrBytes (h.bytes.length - h.position) > 0
  · rw [if_pos hzero, add64_eq (by omega)]
    refine Prod.ext ?_ rfl
    apply List.ext_getElem
    · simp
    · intro i hi hi'
      simp [slice]
  · have hnil : slice h.bytes h.position nrBytes = [] := by
      apply List.eq_nil_of_length_eq_zero
      rw [length_slice]
      omega
    rw [if_neg hzero, hnil, show min nrBytes (h.bytes.length - h.position) = 0 by omega]
    rfl

/-- Every read of the handle returns what the reference file holds. -/
theorem runReads_eq {edits : List (Edit UInt8)} (hbytes : h.bytes = replay edits)
    (hsize : lengthAfter edits < 2 ^ 64) (ops : List ReadOp)
    (hwrap : ∀ nrBytes location, ReadOp.readAt nrBytes location ∈ ops →
      location + nrBytes < 2 ^ 64) :
    runReads ops h = Reference.reads edits h.pastTheEnd h.position ops := by
  have hlen : h.bytes.length = lengthAfter edits := by rw [hbytes, length_replay]
  induction ops generalizing h with
  | nil => rfl
  | cons op ops ih =>
      have hrest := fun nrBytes location hmem ↦
        hwrap nrBytes location (List.mem_cons_of_mem op hmem)
      have hseek : ∀ position, runReads ops (h.seek position) =
          Reference.reads edits h.pastTheEnd position ops :=
        fun position ↦ ih (h := h.seek position) hbytes hrest hlen
      rw [runReads, Reference.reads]
      cases op with
      | read nrBytes =>
          simp only [ReadOp.run, Reference.readOp, read_eq h nrBytes (by omega)]
          rw [hseek, hlen, hbytes, slice_replay]
      | readAt nrBytes location =>
          have hloc := hwrap nrBytes location List.mem_cons_self
          simp only [ReadOp.run, Reference.readOp]
          rw [ih hbytes hrest hlen, OpenzlFileHandle.readAt, add64_eq hloc, hlen]
          by_cases hend : location + nrBytes ≤ lengthAfter edits
          · rw [if_pos hend, if_neg (by omega), hbytes, slice_replay, Nat.min_eq_left (by omega)]
          · rw [if_neg hend, if_pos (by omega)]
      | seek location =>
          simp only [ReadOp.run, Reference.readOp, hseek]

/-! ## The whole way -/

theorem openForWriting_ok {path : String} {o : OpenerSettings} {flags : FileOpenFlags}
    (hok : openForWriting path flags o = .ok h) :
    splitChunkSuffix (stripScheme path) = none ∧ h.realPath = stripScheme path ∧ h.path = path ∧
      h.closed = false ∧ h.writeBuffer = some [] ∧ h.position = 0 := by
  unfold openForWriting at hok
  dsimp only at hok
  split at hok
  · cases hok
  · rename_i hflags
    obtain rfl := Except.ok.inj hok
    refine ⟨?_, rfl, rfl, rfl, rfl, rfl⟩
    simp only [Bool.or_eq_true, not_or, Option.not_isSome_iff_eq_none] at hflags
    exact hflags.1.1

/-- What was written through a handle is what a later handle reads, whichever graph the
archive was compressed with. -/
theorem written_file_reads_back {zl : OpenZL} (hzl : zl.Lawful) {path : String}
    {o : OpenerSettings} (o' : OpenerSettings) {s₀ s₁ : World × ArchiveCache}
    {h₀ : OpenzlFileHandle}
    (hopen : openFile zl path .write o s₀ = .ok h₀ s₁) (writes : List WriteOp)
    (hfit : Reference.AllFit {} writes) :
    ∃ h, runWrites writes h₀ = .ok h ∧
      ∀ (w w' : World) (h' : OpenzlFileHandle), w.KeepsFlushes →
        OpenzlFileHandle.close zl (w, h) = .ok () (w', h') →
        ∀ cache : ArchiveCache, (cache (stripScheme path)).held = [] →
          ∃ hr s, openFile zl path .read o' (w', cache) = .ok hr s ∧
            ∀ reads : List ReadOp,
              (∀ nrBytes location, ReadOp.readAt nrBytes location ∈ reads →
                location + nrBytes < 2 ^ 64) →
              runReads reads hr =
                Reference.reads (Reference.after {} writes).edits hr.pastTheEnd 0 reads := by
  have hforWriting : openForWriting path .write o = .ok h₀ := by
    have hunfold : openFile zl path .write o s₀ =
        (MonadExcept.ofExcept (openForWriting path .write o) : FsM OpenzlFileHandle) s₀ := rfl
    rw [hunfold] at hopen
    cases hr : openForWriting path .write o with
    | ok h =>
        rw [hr] at hopen
        obtain ⟨rfl, -⟩ := EStateM.Result.ok.inj hopen
        rfl
    | error e =>
        rw [hr] at hopen
        cases hopen
  obtain ⟨hsplit, hreal, hpath, hclosed, hbuffer, hposition⟩ := openForWriting_ok hforWriting
  have hstart : Tracks {} h₀ h₀ := ⟨hbuffer, hposition, rfl, rfl, hclosed⟩
  obtain ⟨h, hwrites, htracks⟩ := hstart.runWrites writes hfit
  refine ⟨h, hwrites, ?_⟩
  intro w w' h' hkeep hclose cache hheld
  have hsize := Reference.lengthAfter_lt (r := {}) (by decide) hfit
  obtain ⟨cctx, frame, hframe, hcontent⟩ := close_ok hkeep htracks.writeBuffer htracks.open_ hclose
  rw [htracks.realPath, hreal] at hcontent
  have hholds : HoldsFrame (stripScheme path) frame w' :=
    ⟨hcontent, hzl.magic cctx _ frame hframe⟩
  have hdecode : decodeFile zl (stripScheme path) frame =
      .ok (replay (Reference.after {} writes).edits) :=
    decodeFile_eq_ok_iff.mpr (hzl.decompress cctx _ frame hframe)
  have hserves : Serves (openFile zl path .read o' (w', cache))
      (.ok (replay (Reference.after {} writes).edits)) := by
    apply openFile_serves (ArchiveSlot.lock_of_held_nil hheld)
    rw [resolve_of_none hsplit, ← hdecode]
    exact hholds.decompressToBuffer
  cases hread : openFile zl path .read o' (w', cache) with
  | error e t =>
      rw [hread] at hserves
      exact absurd hserves id
  | ok hr s =>
      rw [hread] at hserves
      refine ⟨hr, s, rfl, ?_⟩
      intro reads hwrap
      rw [runReads_eq hserves (by omega) reads hwrap, openFile_read_position hread]

/-- A handle that is sought past its end, written in the middle and truncated. -/
theorem written_file_reads_back_sparse : ∃ h w' h',
    runWrites [.write [80, 65, 82, 49], .seek 6, .write [1], .writeAt [2] 0, .truncate 5]
        { path := "openzl://a.ozl", writeBuffer := some [], realPath := "a.ozl" } = .ok h ∧
      OpenzlFileHandle.close .stored (World.empty, h) = .ok () (w', h') ∧
      ∃ hr s, openFile .stored "openzl://a.ozl" .read {} (w', fun _ ↦ {}) = .ok hr s ∧
        runReads [.readAt 2 0, .read 10] hr = [.ok [2, 65], .ok [2, 65, 82, 49, 0]] := by
  have hopen : openFile .stored "openzl://a.ozl" .write {} (World.empty, fun _ ↦ {}) = .ok
      { path := "openzl://a.ozl", writeBuffer := some [], realPath := "a.ozl" }
      (World.empty, fun _ ↦ {}) := rfl
  obtain ⟨h, hrun, hback⟩ := written_file_reads_back OpenZL.stored_lawful {} hopen
    [.write [80, 65, 82, 49], .seek 6, .write [1], .writeAt [2] 0, .truncate 5]
    ⟨by decide, trivial, by decide, by decide, by decide, trivial⟩
  have hreturns : ExceptionState.returns (OpenzlFileHandle.close .stored) (World.empty, h) =
      true := by
    obtain rfl := Except.ok.inj hrun
    decide +kernel
  obtain ⟨⟨⟩, ⟨w', h'⟩, hclose⟩ := ExceptionState.exists_of_returns hreturns
  obtain ⟨hr, s, hopen, hreads⟩ := hback World.empty w' h' (fun _ ↦ rfl) hclose (fun _ ↦ {}) rfl
  refine ⟨h, w', h', hrun, hclose, hr, s, hopen, ?_⟩
  rw [hreads [.readAt 2 0, .read 10]]
  · rfl
  · intro nrBytes location hmem
    simp only [List.mem_cons, ReadOp.readAt.injEq, reduceCtorEq, List.not_mem_nil, or_false] at hmem
    omega

end DuckdbOpenzl
