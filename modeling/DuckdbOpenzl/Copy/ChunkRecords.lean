import DuckdbOpenzl.Copy.CopyBind
import DuckdbOpenzl.Copy.InMemory

/-!
# Which compressor made which frame

A COPY with a trained compressor may compress a chunk with the generic graph
instead, and `openzl_fallback_chunks()` counts that. A record says of a chunk
what was in the compressor file and in which context its frame was made.
-/

set_option autoImplicit false

namespace DuckdbOpenzl

open ExceptionState

/-! ## COPYs with a trained compressor -/

/-- A `COPY ... (FORMAT OPENZL, TRAINED_COMPRESSOR '...')` that was bound. -/
structure TrainedCopy (zl : OpenZL) where
  settings : SessionSettings
  options : CopyOptions
  bind : OpenzlCopyBindData
  bound : openzlCopyBind zl settings options = .ok bind
  named : bind.trainedCompressorPath ≠ ""

namespace TrainedCopy

variable {zl : OpenZL} (copy : TrainedCopy zl)

theorem profile : copy.bind.graph.profile = "parquet" := by
  obtain ⟨haccepted, hbind⟩ := openzlCopyBind_eq_ok_iff.mp copy.bound
  have hnamed := copy.named
  rw [hbind] at hnamed ⊢
  exact haccepted.trainedProfile hnamed

theorem valid : copy.bind.graph.Valid zl := by
  obtain ⟨haccepted, hbind⟩ := openzlCopyBind_eq_ok_iff.mp copy.bound
  rw [hbind]
  exact haccepted.valid

end TrainedCopy

/-! ## Compressing a chunk, with the context of its frame -/

def Compressor.isGeneric : Compressor → Bool
  | .trained _ => false
  | .parquet _ | .serial => true

/-- `CompressBytesImpl`, which also says the context it compressed in. -/
def compressTraced (zl : OpenZL) (bind : OpenzlCopyBindData)
    (compressorBytes canonicalBytes : Bytes) :
    Except Error (CCtx × Bytes) := do
  let cctx ← compressRequest zl canonicalBytes.length compressorBytes bind.compressionLevel
    bind.maxCompressBytes bind.graph
  let frame ← (zl.compressSerial cctx canonicalBytes).mapError
    (compressionError zl bind.graph "<in-memory input>")
  return (cctx, frame)

/-- `CompressParquetBytesToString`, likewise. -/
def compressFileTraced (zl : OpenZL) (bind : OpenzlCopyBindData) (trainedCompressorPath : Path)
    (canonicalBytes : Bytes) (file : Option Bytes) : Except Error (CCtx × Bytes) := do
  let compressor ← Staging.compressorBytes trainedCompressorPath file
  compressTraced zl bind compressor canonicalBytes

/-- `CompressChunkWithFallback`, likewise, and how many fallbacks it counts. -/
def compressChunkTraced (zl : OpenZL) (bind : OpenzlCopyBindData) (canonicalBytes : Bytes)
    (file : Option Bytes) : Except Error (CCtx × Bytes) × ℕ :=
  match compressFileTraced zl bind bind.trainedCompressorPath canonicalBytes file with
  | .ok made => (.ok made, 0)
  | .error e =>
      if !bind.fallbackToGeneric || bind.trainedCompressorPath.isEmpty then (.error e, 0)
      else (compressFileTraced zl bind "" canonicalBytes none, 1)

variable {zl : OpenZL}

theorem compressedString_eq_traced (bind : OpenzlCopyBindData) (path : Path)
    (canonicalBytes : Bytes) (file : Option Bytes) :
    Staging.compressedString zl bind path canonicalBytes file =
      (compressFileTraced zl bind path canonicalBytes file).map Prod.snd := by
  unfold Staging.compressedString compressFileTraced
  cases Staging.compressorBytes path file with
  | error e => rfl
  | ok compressor =>
      dsimp only [Bind.bind, Except.bind]
      rw [compressBytesImpl_eq]
      unfold compressTraced
      cases compressRequest zl canonicalBytes.length compressor bind.compressionLevel
        bind.maxCompressBytes bind.graph with
      | error e => rfl
      | ok cctx =>
          dsimp only [Bind.bind, Except.bind]
          cases zl.compressSerial cctx canonicalBytes <;> rfl

/-- What `CompressChunkWithFallback` returns and counts is what its trace says. -/
theorem compressChunkWithFallback_eq_traced (bind : OpenzlCopyBindData) (canonicalBytes : Bytes)
    (p : CopyProcess) :
    compressChunkWithFallback zl bind canonicalBytes p =
      let o := compressChunkTraced zl bind canonicalBytes
          (p.world.content bind.trainedCompressorPath)
      match o.1 with
      | .ok made => .ok made.2 { p with fallbackChunks := p.fallbackChunks + o.2 }
      | .error e => .error e { p with fallbackChunks := p.fallbackChunks + o.2 } := by
  have hgeneric : ∀ file, compressFileTraced zl bind "" canonicalBytes file =
      compressFileTraced zl bind "" canonicalBytes none := fun _ ↦ rfl
  unfold compressChunkWithFallback compressChunkTraced
  simp only [Staging.compressParquetBytesToString_eq, compressedString_eq_traced]
  cases compressFileTraced zl bind bind.trainedCompressorPath canonicalBytes
      (p.world.content bind.trainedCompressorPath) with
  | ok made => rfl
  | error e =>
      dsimp only [Except.map, returned]
      split_ifs
      · rfl
      · rw [hgeneric]
        cases compressFileTraced zl bind "" canonicalBytes none <;> rfl

/-! ## Records -/

/-- A chunk that was compressed: the COPY, what is in its compressor file, the staged bytes, and
the frame with its context, unless the COPY threw. -/
structure ChunkRecord (zl : OpenZL) where
  copy : TrainedCopy zl
  file : Option Bytes
  staged : Bytes
  made : Option (CCtx × Bytes)

namespace ChunkRecord

/-- The record of compressing these bytes. -/
def of (copy : TrainedCopy zl) (file : Option Bytes) (staged : Bytes) : ChunkRecord zl where
  copy := copy
  file := file
  staged := staged
  made := (compressChunkTraced zl copy.bind staged file).1.toOption

/-- A frame is the compressor's in the file, or the generic graph's if the COPY allows that. -/
def Allowed (r : ChunkRecord zl) : Prop :=
  ∀ cctx frame, r.made = some (cctx, frame) →
    (∃ serialized, r.file = some serialized ∧ cctx.compressor = .trained serialized) ∨
      (r.copy.bind.fallbackToGeneric = true ∧ cctx.compressor.isGeneric = true)

/-- There is a frame, and the generic graph made it. -/
def isGeneric (r : ChunkRecord zl) : Bool :=
  match r.made with
  | some (cctx, _) => cctx.compressor.isGeneric
  | none => false

/-- OpenZL compresses the chunk with the compressor in the file. -/
def TrainedAccepts (r : ChunkRecord zl) : Prop :=
  r.staged.length ≤ r.copy.bind.maxCompressBytes ∧ ∃ serialized frame,
    r.file = some serialized ∧ serialized ≠ [] ∧
      zl.compressSerial (r.copy.bind.graph.context zl serialized r.copy.bind.compressionLevel
        (.trained serialized)) r.staged = .ok frame

/-- OpenZL compresses the chunk with the generic graph. -/
def GenericAccepts (r : ChunkRecord zl) : Prop :=
  r.staged.length ≤ r.copy.bind.maxCompressBytes ∧ ∃ frame,
    zl.compressSerial (r.copy.bind.graph.context zl [] r.copy.bind.compressionLevel
      (buildParquetCompressor (resolveParquetChunkBytes zl r.copy.bind.graph))) r.staged = .ok frame

/-- An empty compressor file goes with a chunk that fails anyhow, and a chunk that may fall back
does not fail with both compressors. -/
structure Fair (r : ChunkRecord zl) : Prop where
  empty : r.file = some [] → r.copy.bind.fallbackToGeneric = false ∧ ¬ r.GenericAccepts
  doubly : r.copy.bind.fallbackToGeneric = true → r.TrainedAccepts ∨ r.GenericAccepts

end ChunkRecord

/-! ## One chunk -/

section OneChunk

variable {copy : TrainedCopy zl} {file : Option Bytes} {staged : Bytes}

theorem compressTraced_ok_iff {compressorBytes : Bytes} {compressor : Compressor} {cctx : CCtx}
    {frame : Bytes}
    (hchoose : chooseCompressor zl compressorBytes copy.bind.graph = .ok compressor) :
    compressTraced zl copy.bind compressorBytes staged = .ok (cctx, frame) ↔
      staged.length ≤ copy.bind.maxCompressBytes ∧
        cctx = copy.bind.graph.context zl compressorBytes copy.bind.compressionLevel compressor ∧
          zl.compressSerial cctx staged = .ok frame := by
  unfold compressTraced
  simp only [except_bind_eq_ok_iff, mapError_eq_ok_iff, compressRequest_ok_iff, hchoose]
  constructor
  · rintro ⟨_, ⟨-, -, hsize, compressor', hcompressor, rfl⟩, frame', hframe, hmade⟩
    obtain rfl := Except.ok.inj hcompressor
    obtain ⟨rfl, rfl⟩ := Prod.mk.inj (Except.ok.inj hmade)
    exact ⟨hsize, rfl, hframe⟩
  · rintro ⟨hsize, rfl, hframe⟩
    exact ⟨_, ⟨copy.valid, fun _ ↦ copy.profile, hsize, compressor, rfl, rfl⟩, frame, hframe, rfl⟩

theorem chooseCompressor_generic (copy : TrainedCopy zl) :
    chooseCompressor zl [] copy.bind.graph =
      .ok (buildParquetCompressor (resolveParquetChunkBytes zl copy.bind.graph)) := by
  have hprofile : copy.bind.graph.profile ≠ "serial" := by
    rw [copy.profile]
    decide
  simp [chooseCompressor, hprofile]

theorem chooseCompressor_trained {serialized : Bytes} (h : serialized ≠ []) (graph : GraphOptions) :
    chooseCompressor zl serialized graph = .ok (.trained serialized) := by
  simp [chooseCompressor, h]

theorem compressFileTraced_some (copy : TrainedCopy zl) (staged serialized : Bytes) :
    compressFileTraced zl copy.bind copy.bind.trainedCompressorPath staged (some serialized) =
      compressTraced zl copy.bind serialized staged := by
  have hnamed : copy.bind.trainedCompressorPath.isEmpty = false := by simpa using copy.named
  unfold compressFileTraced Staging.compressorBytes
  rw [hnamed]
  rfl

theorem compressFileTraced_none (copy : TrainedCopy zl) (staged : Bytes) :
    ∃ e, compressFileTraced zl copy.bind copy.bind.trainedCompressorPath staged none =
      .error e := by
  have hnamed : copy.bind.trainedCompressorPath.isEmpty = false := by simpa using copy.named
  unfold compressFileTraced Staging.compressorBytes
  rw [hnamed]
  exact ⟨_, rfl⟩

/-- The two results of compressing with the generic graph. -/
theorem compressTraced_generic (copy : TrainedCopy zl) (file : Option Bytes) (staged : Bytes) :
    ((ChunkRecord.of copy file staged).GenericAccepts ∧ ∃ cctx frame,
      compressTraced zl copy.bind [] staged = .ok (cctx, frame) ∧
        cctx.compressor.isGeneric = true) ∨
      (¬ (ChunkRecord.of copy file staged).GenericAccepts ∧
        ∃ e, compressTraced zl copy.bind [] staged = .error e) := by
  have hok : ∀ {cctx frame}, compressTraced zl copy.bind [] staged = .ok (cctx, frame) ↔ _ :=
    compressTraced_ok_iff (chooseCompressor_generic copy)
  cases hmade : compressTraced zl copy.bind [] staged with
  | ok made =>
      obtain ⟨cctx, frame⟩ := made
      obtain ⟨hsize, rfl, hframe⟩ := hok.mp hmade
      exact .inl ⟨⟨hsize, frame, hframe⟩, _, frame, rfl, rfl⟩
  | error e =>
      refine .inr ⟨?_, e, rfl⟩
      rintro ⟨hsize, frame, hframe⟩
      rw [hok.mpr ⟨hsize, rfl, hframe⟩] at hmade
      cases hmade

/-- The two results of compressing with the compressor in the file. -/
theorem compressTraced_trained (copy : TrainedCopy zl) {serialized : Bytes} (staged : Bytes)
    (hserialized : serialized ≠ []) :
    ((ChunkRecord.of copy (some serialized) staged).TrainedAccepts ∧ ∃ cctx frame,
      compressTraced zl copy.bind serialized staged = .ok (cctx, frame) ∧
        cctx.compressor = .trained serialized) ∨
      (¬ (ChunkRecord.of copy (some serialized) staged).TrainedAccepts ∧
        ∃ e, compressTraced zl copy.bind serialized staged = .error e) := by
  have hok : ∀ {cctx frame},
      compressTraced zl copy.bind serialized staged = .ok (cctx, frame) ↔ _ :=
    compressTraced_ok_iff (chooseCompressor_trained hserialized _)
  cases hmade : compressTraced zl copy.bind serialized staged with
  | ok made =>
      obtain ⟨cctx, frame⟩ := made
      obtain ⟨hsize, rfl, hframe⟩ := hok.mp hmade
      exact .inl ⟨⟨hsize, serialized, frame, rfl, hserialized, hframe⟩, _, frame, rfl, rfl⟩
  | error e =>
      refine .inr ⟨?_, e, rfl⟩
      rintro ⟨hsize, serialized', frame, hfile, -, hframe⟩
      obtain rfl : serialized = serialized' := Option.some.inj hfile
      rw [hok.mpr ⟨hsize, rfl, hframe⟩] at hmade
      cases hmade

theorem compressChunkTraced_ok {made : CCtx × Bytes}
    (hfirst : compressFileTraced zl copy.bind copy.bind.trainedCompressorPath staged file =
      .ok made) : compressChunkTraced zl copy.bind staged file = (.ok made, 0) := by
  unfold compressChunkTraced
  rw [hfirst]

theorem compressChunkTraced_strict {e : Error}
    (hfirst : compressFileTraced zl copy.bind copy.bind.trainedCompressorPath staged file =
      .error e) (hfallback : copy.bind.fallbackToGeneric = false) :
    compressChunkTraced zl copy.bind staged file = (.error e, 0) := by
  unfold compressChunkTraced
  rw [hfirst]
  simp [hfallback]

theorem compressChunkTraced_fallback {e : Error}
    (hfirst : compressFileTraced zl copy.bind copy.bind.trainedCompressorPath staged file =
      .error e) (hfallback : copy.bind.fallbackToGeneric = true) :
    compressChunkTraced zl copy.bind staged file =
      (compressTraced zl copy.bind [] staged, 1) := by
  have hnamed : copy.bind.trainedCompressorPath.isEmpty = false := by simpa using copy.named
  unfold compressChunkTraced
  rw [hfirst]
  simp only [hfallback, hnamed]
  rfl

end OneChunk

namespace ChunkRecord

variable {r : ChunkRecord zl} {copy : TrainedCopy zl} {file : Option Bytes} {staged : Bytes}

/-- The counter grows by what the record says, and the frame is one that the COPY allows. -/
def Counted (r : ChunkRecord zl) (count : ℕ) : Prop := r.Allowed ∧ count = r.isGeneric.toNat

theorem counted_of_throws (hmade : r.made = none) (count : ℕ) : r.Counted count ↔ count = 0 := by
  have hallowed : r.Allowed := fun cctx frame h ↦ by
    rw [hmade] at h
    cases h
  have hgeneric : r.isGeneric = false := by
    unfold isGeneric
    rw [hmade]
  unfold Counted
  rw [hgeneric]
  exact and_iff_right hallowed

theorem counted_of_makes {cctx : CCtx} {frame : Bytes} (hmade : r.made = some (cctx, frame))
    (count : ℕ) : r.Counted count ↔
      ((∃ serialized, r.file = some serialized ∧ cctx.compressor = .trained serialized) ∨
        (r.copy.bind.fallbackToGeneric = true ∧ cctx.compressor.isGeneric = true)) ∧
          count = cctx.compressor.isGeneric.toNat := by
  unfold Counted Allowed isGeneric
  rw [hmade]
  refine and_congr_left fun _ ↦ ⟨fun h ↦ h cctx frame rfl, fun h cctx' frame' hsame ↦ ?_⟩
  obtain ⟨rfl, rfl⟩ := Prod.mk.inj (Option.some.inj hsame)
  exact h

theorem made_of {result : Except Error (CCtx × Bytes)} {count : ℕ}
    (h : compressChunkTraced zl copy.bind staged file = (result, count)) :
    (of copy file staged).made = result.toOption := by
  unfold of
  rw [h]

/-- A chunk on which the compressor of the COPY fails. -/
theorem counted_of_failed {e : Error} (hempty : file ≠ some [])
    (htrained : ¬ (of copy file staged).TrainedAccepts)
    (hfirst : compressFileTraced zl copy.bind copy.bind.trainedCompressorPath staged file =
      .error e) :
    (of copy file staged).Counted (compressChunkTraced zl copy.bind staged file).2 ↔
      (of copy file staged).Fair := by
  cases hfallback : copy.bind.fallbackToGeneric with
  | false =>
      have hchunk := compressChunkTraced_strict hfirst hfallback
      rw [hchunk, counted_of_throws (made_of hchunk)]
      refine iff_of_true rfl ⟨fun h ↦ absurd h hempty, fun h ↦ ?_⟩
      exact absurd (hfallback.symm.trans h) Bool.false_ne_true
  | true =>
      have hchunk := compressChunkTraced_fallback hfirst hfallback
      rcases compressTraced_generic copy file staged with
        ⟨haccepts, cctx, frame, hgeneric, hcompressor⟩ | ⟨hrejects, e', hgeneric⟩
      · rw [hgeneric] at hchunk
        rw [hchunk, counted_of_makes (made_of hchunk), hcompressor]
        exact iff_of_true ⟨.inr ⟨hfallback, rfl⟩, rfl⟩
          ⟨fun h ↦ absurd h hempty, fun _ ↦ .inr haccepts⟩
      · rw [hgeneric] at hchunk
        rw [hchunk, counted_of_throws (made_of hchunk)]
        refine iff_of_false one_ne_zero fun hfair ↦ ?_
        exact (hfair.doubly hfallback).elim htrained hrejects

/-- A chunk that is compressed with an empty compressor file. -/
theorem counted_of_empty : (of copy (some []) staged).Counted
      (compressChunkTraced zl copy.bind staged (some [])).2 ↔
    (of copy (some []) staged).Fair := by
  have hfirst := compressFileTraced_some copy staged []
  rcases compressTraced_generic copy (some []) staged with
    ⟨haccepts, cctx, frame, hgeneric, hcompressor⟩ | ⟨hrejects, e, hgeneric⟩
  · have hchunk := compressChunkTraced_ok (hfirst.trans hgeneric)
    rw [hchunk, counted_of_makes (made_of hchunk), hcompressor]
    exact iff_of_false (fun h ↦ zero_ne_one h.2) fun hfair ↦ (hfair.empty rfl).2 haccepts
  · cases hfallback : copy.bind.fallbackToGeneric with
    | false =>
        have hchunk := compressChunkTraced_strict (hfirst.trans hgeneric) hfallback
        rw [hchunk, counted_of_throws (made_of hchunk)]
        refine iff_of_true rfl ⟨fun _ ↦ ⟨hfallback, hrejects⟩, fun h ↦ ?_⟩
        exact absurd (hfallback.symm.trans h) Bool.false_ne_true
    | true =>
        have hchunk := compressChunkTraced_fallback (hfirst.trans hgeneric) hfallback
        rw [hgeneric] at hchunk
        rw [hchunk, counted_of_throws (made_of hchunk)]
        refine iff_of_false one_ne_zero fun hfair ↦ ?_
        exact Bool.noConfusion (hfallback.symm.trans (hfair.empty rfl).1)

/-- A chunk that is compressed with the compressor in the file. -/
theorem counted_of_accepted {serialized : Bytes} {cctx : CCtx} {frame : Bytes}
    (hserialized : serialized ≠ []) (haccepts : (of copy (some serialized) staged).TrainedAccepts)
    (htrained : compressTraced zl copy.bind serialized staged = .ok (cctx, frame))
    (hcompressor : cctx.compressor = .trained serialized) :
    (of copy (some serialized) staged).Counted
        (compressChunkTraced zl copy.bind staged (some serialized)).2 ↔
      (of copy (some serialized) staged).Fair := by
  have hchunk := compressChunkTraced_ok
    ((compressFileTraced_some copy staged serialized).trans htrained)
  rw [hchunk, counted_of_makes (made_of hchunk), hcompressor]
  exact iff_of_true ⟨.inl ⟨serialized, rfl, rfl⟩, rfl⟩
    ⟨fun h ↦ absurd (Option.some.inj h) hserialized, fun _ ↦ .inl haccepts⟩

theorem counted_iff_fair (copy : TrainedCopy zl) (file : Option Bytes) (staged : Bytes) :
    (of copy file staged).Counted (compressChunkTraced zl copy.bind staged file).2 ↔
      (of copy file staged).Fair := by
  rcases file with - | serialized
  · obtain ⟨e, hfailed⟩ := compressFileTraced_none copy staged
    refine counted_of_failed nofun ?_ hfailed
    rintro ⟨-, serialized, frame, hfile, -, -⟩
    cases hfile
  · by_cases hempty : serialized = []
    · subst hempty
      exact counted_of_empty
    · rcases compressTraced_trained copy staged hempty with
        ⟨haccepts, cctx, frame, htrained, hcompressor⟩ | ⟨hrejects, e, hfailed⟩
      · exact counted_of_accepted hempty haccepts htrained hcompressor
      · exact counted_of_failed (fun h ↦ hempty (Option.some.inj h)) hrejects
          ((compressFileTraced_some copy staged serialized).trans hfailed)

end ChunkRecord

end DuckdbOpenzl
