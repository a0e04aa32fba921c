import DuckdbOpenzl.Bridge.PartialFile
import DuckdbOpenzl.FileSystem.Handle

/-!
# Success reported before the bytes are stored

`WriteFile` checks its stream after the write and leaves the rest to the
destructor, whose failure nobody sees. A container of several frames is closed
before the check. Every function that writes a file and reports success is one
or the other.
-/

set_option autoImplicit false

namespace DuckdbOpenzl

open ChunkedArchiveWriter

/-! ## The producers -/

inductive Producer where
  | finish (frames : List Bytes) (path : Path)
  | compressParquet (inputParquetPath outputZlPath trainedCompressorPath : Path)
      (compressionLevel : ℤ) (maxInputBytes : ℕ) (graph : GraphOptions)
  | compressParquetBytes (canonicalParquetBytes : Bytes) (outputZlPath trainedCompressorPath : Path)
      (compressionLevel : ℤ) (maxInputBytes : ℕ) (graph : GraphOptions)
  | decompress (inputPath outputPath : Path)
  | close (h : OpenzlFileHandle) (buffer : Bytes)

/-- What a call that only reads returns. -/
def valueOf {α : Type} (x : BridgeM α) (w : World) : Except Error α :=
  match x w with
  | .ok a _ => .ok a
  | .error e _ => .error e

/-- `CompressParquet` up to its `WriteFile`. -/
def compressedFile (zl : OpenZL) (inputParquetPath trainedCompressorPath : Path)
    (compressionLevel : ℤ) (maxInputBytes : ℕ) (graph : GraphOptions) : BridgeM Bytes := do
  opened inputParquetPath (requireParquet inputParquetPath)
  let compressorBytes ← loadCompressorFile trainedCompressorPath
  requireSize inputParquetPath maxInputBytes
  let input ← opened inputParquetPath (readFile inputParquetPath)
  MonadExcept.ofExcept (compressBytesImpl zl input inputParquetPath compressorBytes
    compressionLevel maxInputBytes graph)

/-- The world and the graph of the last attempt `Close` makes at compressing its buffer. -/
def OpenzlFileHandle.lastAttempt (zl : OpenZL) (h : OpenzlFileHandle) (buffer : Bytes) (w : World) :
    World × GraphOptions :=
  let s := h.writeSettings
  match DuckdbOpenzl.compressParquetBytes zl buffer h.tmpPath "" s.compressionLevel
    s.maxCompressBytes s.graph w with
  | .ok () _ => (w, s.graph)
  | .error _ w => (w, { s.graph with profile := "serial", parquetChunkBytes := 0 })

namespace Producer

def destination : Producer → Path
  | .finish _ path => path
  | .compressParquet _ outputZlPath _ _ _ _ => outputZlPath
  | .compressParquetBytes _ outputZlPath _ _ _ _ => outputZlPath
  | .decompress _ outputPath => outputPath
  | .close h _ => h.realPath

/-- The call reports success and leaves the world `w'`. `Finish` is the end of a writer's life
that began in `w`; a `Close` is the first one of a handle open for writing. -/
def Succeeds (zl : OpenZL) (w w' : World) : Producer → Prop
  | .finish frames path => lifetime frames .finish path w = ⟨true, w'⟩
  | .compressParquet input output trained level limit graph =>
      DuckdbOpenzl.compressParquet zl input output trained level limit graph w = .ok () w'
  | .compressParquetBytes input output trained level limit graph =>
      DuckdbOpenzl.compressParquetBytes zl input output trained level limit graph w = .ok () w'
  | .decompress input output => DuckdbOpenzl.decompress zl input output w = .ok () w'
  | .close h buffer => h.writeBuffer = some buffer ∧ h.closed = false ∧
      ∃ h', OpenzlFileHandle.close zl (w, h) = .ok () (w', h')

/-- The complete bytes the call produces. -/
def produced (zl : OpenZL) (w : World) : Producer → Except Error Bytes
  | .finish frames _ => .ok (archiveBytes frames)
  | .compressParquet input _ trained level limit graph =>
      valueOf (compressedFile zl input trained level limit graph) w
  | .compressParquetBytes input _ trained level limit graph =>
      valueOf (compressParquetBytesToString zl input trained level limit graph) w
  | .decompress input _ => valueOf (decompressToBuffer zl input) w
  | .close h buffer =>
      let (w, graph) := h.lastAttempt zl buffer w
      valueOf (compressParquetBytesToString zl buffer "" h.writeSettings.compressionLevel
        h.writeSettings.maxCompressBytes graph) w

/-- The world in which the `WriteFile` of the call begins. -/
def writeStart (zl : OpenZL) (w : World) : Producer → World
  | .close h buffer => (h.lastAttempt zl buffer w).1
  | _ => w

/-- The stream is closed before it is checked. -/
def ClosesFirst : Producer → Prop
  | .finish frames _ => 2 ≤ frames.length
  | _ => False

/-- The file at the destination is complete. -/
def Complete (zl : OpenZL) (w w' : World) (p : Producer) : Prop :=
  ∃ bytes, p.produced zl w = .ok bytes ∧ w'.content p.destination = some bytes

/-- The flush of the stream's destructor brings every byte into the file. -/
def FlushKept (zl : OpenZL) (w : World) (p : Producer) : Prop :=
  ∃ bytes, p.produced zl w = .ok bytes ∧ (p.writeStart zl w).FlushKept bytes

end Producer

/-! ## One `WriteFile` at the end -/

section

variable {zl : OpenZL} {w w' : World} {output : Path}

theorem bind_writeFile_ok {x : BridgeM Bytes} (hx : ReadsOnly x)
    (h : (x >>= writeFile output) w = .ok () w') :
    ∃ bytes, valueOf x w = .ok bytes ∧ writeFile output bytes w = .ok () w' := by
  obtain ⟨bytes, t, hbytes, hwrite⟩ := ExceptionState.bind_eq_ok_iff.mp h
  obtain rfl := hx.eq_of_ok hbytes
  exact ⟨bytes, by rw [valueOf, hbytes], hwrite⟩

/-- What a call that ends in `WriteFile` leaves is complete exactly when the flush is kept. -/
theorem complete_iff_of_bind_writeFile {x : BridgeM Bytes} (hx : ReadsOnly x)
    (h : (x >>= writeFile output) w = .ok () w') :
    (∃ bytes, valueOf x w = .ok bytes ∧ w'.content output = some bytes) ↔
      ∃ bytes, valueOf x w = .ok bytes ∧ w.FlushKept bytes := by
  obtain ⟨bytes, hbytes, hwrite⟩ := bind_writeFile_ok hx h
  have hiff := writeFile_complete_iff hwrite
  constructor
  · rintro ⟨bytes', hbytes', hcontent⟩
    obtain rfl := Except.ok.inj (hbytes.symm.trans hbytes')
    exact ⟨bytes, hbytes, hiff.mp hcontent⟩
  · rintro ⟨bytes', hbytes', hkept⟩
    obtain rfl := Except.ok.inj (hbytes.symm.trans hbytes')
    exact ⟨bytes, hbytes, hiff.mpr hkept⟩

theorem requireSize_readsOnly (path : Path) (maxInputBytes : ℕ) :
    ReadsOnly (requireSize path maxInputBytes) := by
  refine .bind (.opened _ _) fun size ↦ ?_
  split
  · exact .bind (.opened _ _) fun _ ↦ .throw _
  · exact .pure _

theorem compressedFile_readsOnly (zl : OpenZL) (input trained : Path) (level : ℤ) (limit : ℕ)
    (graph : GraphOptions) : ReadsOnly (compressedFile zl input trained level limit graph) :=
  .bind (.opened _ _) fun _ ↦ .bind (loadCompressorFile_readsOnly _) fun _ ↦
    .bind (requireSize_readsOnly _ _) fun _ ↦ .bind (.opened _ _) fun _ ↦ .ofExcept _

theorem compressParquet_eq (zl : OpenZL) (input output trained : Path) (level : ℤ) (limit : ℕ)
    (graph : GraphOptions) : compressParquet zl input output trained level limit graph =
      compressedFile zl input trained level limit graph >>= writeFile output := by
  simp only [compressParquet, compressedFile, compressFile, bind_assoc]

theorem decompressToBuffer_readsOnly (zl : OpenZL) (path : Path) :
    ReadsOnly (decompressToBuffer zl path) :=
  .bind (.opened _ _) fun _ ↦ .bind (.opened _ _) fun _ ↦ .opened _ _

end

/-! ## `Close` -/

/-- A `Close` that returns moves what its last attempt wrote to the temporary file. -/
theorem close_lastAttempt {zl : OpenZL} {h h' : OpenzlFileHandle} {buffer : Bytes} {w w' : World}
    (hbuffer : h.writeBuffer = some buffer) (hopen : h.closed = false)
    (hok : OpenzlFileHandle.close zl (w, h) = .ok () (w', h')) :
    ∃ t, compressParquetBytes zl buffer h.tmpPath "" h.writeSettings.compressionLevel
        h.writeSettings.maxCompressBytes (h.lastAttempt zl buffer w).2
          (h.lastAttempt zl buffer w).1 =
          .ok () t ∧ w'.content h.realPath = t.content h.tmpPath := by
  obtain ⟨t, hcompress, hmoved, rfl⟩ := close_moved hbuffer hopen hok
  refine ⟨t, ?_, World.content_rename hmoved⟩
  unfold OpenzlFileHandle.compressForClose at hcompress
  unfold OpenzlFileHandle.lastAttempt
  dsimp only
  cases hfirst : compressParquetBytes zl buffer h.tmpPath "" h.writeSettings.compressionLevel
      h.writeSettings.maxCompressBytes h.writeSettings.graph w with
  | ok u t' =>
      rw [hfirst] at hcompress
      dsimp only
      rw [hfirst]
      exact hcompress
  | error e t' =>
      rw [hfirst] at hcompress
      dsimp only at hcompress ⊢
      split at hcompress
      · cases hcompress
      · exact hcompress

/-- Of every call that reports success: the file at the destination is complete exactly when the
stream was closed before it was checked, or its destructor's flush lost nothing. -/
theorem complete_iff_flushKept (zl : OpenZL) (p : Producer) {w w' : World}
    (h : p.Succeeds zl w w') : p.Complete zl w w' ↔ p.ClosesFirst ∨ p.FlushKept zl w := by
  cases p with
  | finish frames path =>
      match frames, h with
      | [], h => exact absurd h lifetime_nil
      | [f], h =>
          have hiff := writeFile_complete_iff (lifetime_lone h)
          constructor
          · rintro ⟨bytes, hbytes, hcontent⟩
            obtain rfl := Except.ok.inj hbytes
            exact .inr ⟨f, rfl, hiff.mp hcontent⟩
          · rintro (htwo | ⟨bytes, hbytes, hkept⟩)
            · exact absurd htwo (by simp [Producer.ClosesFirst])
            · obtain rfl := Except.ok.inj hbytes
              exact ⟨f, rfl, hiff.mpr hkept⟩
      | f :: g :: rest, h =>
          have htwo : 2 ≤ (f :: g :: rest).length := by simp
          refine iff_of_true ⟨_, rfl, ?_⟩ (.inl htwo)
          rw [archiveBytes_of_two_le htwo]
          exact lifetime_container htwo h
  | compressParquet input output trained level limit graph =>
      have hrun : compressParquet zl input output trained level limit graph w = .ok () w' := h
      rw [compressParquet_eq] at hrun
      have hiff := complete_iff_of_bind_writeFile (compressedFile_readsOnly zl _ _ _ _ _) hrun
      exact hiff.trans ⟨.inr, fun h ↦ h.resolve_left id⟩
  | compressParquetBytes input output trained level limit graph =>
      have hiff := complete_iff_of_bind_writeFile
        (compressParquetBytesToString_readsOnly zl input trained level limit graph) h
      exact hiff.trans ⟨.inr, fun h ↦ h.resolve_left id⟩
  | decompress input output =>
      have hiff := complete_iff_of_bind_writeFile (decompressToBuffer_readsOnly zl input) h
      exact hiff.trans ⟨.inr, fun h ↦ h.resolve_left id⟩
  | close h₀ buffer =>
      obtain ⟨hbuffer, hopen, h', hclose⟩ := h
      obtain ⟨t, hcompress, hcontent⟩ := close_lastAttempt hbuffer hopen hclose
      have hiff := complete_iff_of_bind_writeFile
        (compressParquetBytesToString_readsOnly zl buffer "" _ _ _) hcompress
      rw [← hcontent] at hiff
      exact hiff.trans ⟨.inr, fun h ↦ h.resolve_left id⟩

/-- A disk on which every write waits in the stream and no destructor can store it. -/
def fullDisk : World :=
  ⟨fun path ↦ if path = "a.ozl" then some ⟨[1, 2, 3], 0⟩ else none, 0,
    ⟨fun _ ↦ true, fun _ ↦ ⟨true, 0⟩, fun _ ↦ ⟨true, 0⟩, fun _ ↦ ⟨false, 0⟩, fun _ ↦ true⟩, 0⟩

/-- Two frames on the full disk: the close reports what the destructor would not. -/
theorem complete_iff_flushKept_two : ∃ w',
    (Producer.finish [[7], [8]] "b.ozl").Succeeds .stored fullDisk w' ∧
      (Producer.finish [[7], [8]] "b.ozl").Complete .stored fullDisk w' := by
  have hruns : (lifetime [[7], [8]] .finish "b.ozl" fullDisk).finishReturned = true := by decide
  have hsucceeds : (Producer.finish [[7], [8]] "b.ozl").Succeeds .stored fullDisk
      (lifetime [[7], [8]] .finish "b.ozl" fullDisk).world := by
    rw [Producer.Succeeds, ← hruns]
  exact ⟨_, hsucceeds, (complete_iff_flushKept .stored _ hsucceeds).mpr (.inl (Nat.le_refl 2))⟩

/-- A `Close` on the full disk replaces a good archive by an empty file and reports success. -/
theorem close_leaves_truncated_archive : ∃ (p : Producer) (w' : World),
    fullDisk.content p.destination = some [1, 2, 3] ∧ p.Succeeds .stored fullDisk w' ∧
      p.produced .stored fullDisk = .ok [0, 9] ∧ w'.content p.destination = some [] ∧
        ¬ p.Complete .stored fullDisk w' := by
  generalize hh : ({ path := "openzl://a.ozl", writeBuffer := some [9], realPath := "a.ozl" } :
    OpenzlFileHandle) = h
  have hruns : ExceptionState.returns (OpenzlFileHandle.close .stored) (fullDisk, h) = true := by
    rw [← hh]
    decide +kernel
  have hcontent : (ExceptionState.stateAfter (OpenzlFileHandle.close .stored)
      (fullDisk, h)).1.content h.realPath = some [] := by
    rw [← hh]
    decide +kernel
  have hproduced : (Producer.close h [9]).produced .stored fullDisk = .ok [0, 9] := by
    rw [← hh]
    rfl
  obtain ⟨⟨⟩, ⟨w', h'⟩, hclose⟩ := ExceptionState.exists_of_returns hruns
  rw [ExceptionState.stateAfter_of_ok hclose] at hcontent
  refine ⟨.close h [9], w', by rw [← hh]; rfl, ⟨by rw [← hh], by rw [← hh], h', hclose⟩, hproduced,
    hcontent, ?_⟩
  rintro ⟨bytes, hbytes, hcomplete⟩
  rw [hproduced] at hbytes
  obtain rfl := Except.ok.inj hbytes
  have hcontent' : w'.content h.realPath = some [0, 9] := hcomplete
  rw [hcontent] at hcontent'
  cases hcontent'

end DuckdbOpenzl
