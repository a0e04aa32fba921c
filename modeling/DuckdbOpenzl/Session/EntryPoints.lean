import DuckdbOpenzl.FileSystem.CloseFailures
import DuckdbOpenzl.Train.TrainBind

/-!
# Where integers enter

A format version, a chunk size and a compression level are given by `SET`, in a
COPY, to `openzl_compress` or to `openzl_train`, or are those of the session
when a file is opened through `openzl://`. Each way converts and checks them
differently before a compressor is configured with them.
-/

set_option autoImplicit false

namespace DuckdbOpenzl

open ExceptionState

/-! ## `SET` -/

/-- A `SET` of an `openzl_*` setting. -/
inductive SetStatement where
  | maxCompressBytes (v : Option UInt64)
  | compressionLevel (v : Int64)
  | formatVersion (v : Option Int64)
  | profile (v : Option String)
  | permissiveCompression (v : Option Bool)
  | parquetChunkBytes (v : Int64)
  | chunkSizeBytes (v : Option UInt64)

namespace SetStatement

/-- With the checks that are registered for the settings; the error is what they throw. -/
def apply (s : SessionSettings) : SetStatement → Except String SessionSettings
  | .maxCompressBytes v => .ok { s with maxCompressBytes := v.map UInt64.toNat }
  | .compressionLevel v =>
      if v.toInt < 1 ∨ v.toInt > 9 then .error "openzl_compression_level must be between 1 and 9"
      else .ok { s with compressionLevel := some v.toInt }
  | .formatVersion v => .ok { s with formatVersion := v.map Int64.toInt }
  | .profile v => .ok { s with profile := v }
  | .permissiveCompression v => .ok { s with permissiveCompression := v }
  | .parquetChunkBytes v =>
      if v.toInt < -1 then .error "openzl_parquet_chunk_bytes must be >= -1"
      else .ok { s with parquetChunkBytes := some v.toInt }
  | .chunkSizeBytes v => .ok { s with chunkSizeBytes := v.map UInt64.toNat }

end SetStatement

/-- A `SET` that is refused changes nothing. -/
def SessionSettings.set (s : SessionSettings) (statement : SetStatement) : SessionSettings :=
  match statement.apply s with
  | .ok s => s
  | .error _ => s

/-- The settings of a session that began with the defaults. -/
def settingsAfter (statements : List SetStatement) : SessionSettings :=
  statements.foldl SessionSettings.set {}

/-- What the checks of `SET` ensure. -/
structure SessionSettings.Checked (s : SessionSettings) : Prop where
  compressionLevel : ∀ v, s.compressionLevel = some v → 1 ≤ v ∧ v ≤ 9
  parquetChunkBytes : ∀ v, s.parquetChunkBytes = some v → -1 ≤ v ∧ v < 2 ^ 63

theorem SessionSettings.Checked.set {s : SessionSettings} (h : s.Checked)
    (statement : SetStatement) : (s.set statement).Checked := by
  unfold SessionSettings.set SetStatement.apply
  cases statement with
  | compressionLevel v =>
      dsimp only
      split_ifs with hrange
      · exact h
      · refine ⟨fun v' hv ↦ ?_, h.parquetChunkBytes⟩
        obtain rfl := Option.some.inj hv
        omega
  | parquetChunkBytes v =>
      dsimp only
      split_ifs with hrange
      · exact h
      · refine ⟨h.compressionLevel, fun v' hv ↦ ?_⟩
        obtain rfl := Option.some.inj hv
        exact ⟨by omega, v.toInt_lt⟩
  | maxCompressBytes v => exact ⟨h.compressionLevel, h.parquetChunkBytes⟩
  | formatVersion v => exact ⟨h.compressionLevel, h.parquetChunkBytes⟩
  | profile v => exact ⟨h.compressionLevel, h.parquetChunkBytes⟩
  | permissiveCompression v => exact ⟨h.compressionLevel, h.parquetChunkBytes⟩
  | chunkSizeBytes v => exact ⟨h.compressionLevel, h.parquetChunkBytes⟩

theorem settingsAfter_checked (statements : List SetStatement) :
    (settingsAfter statements).Checked := by
  unfold settingsAfter
  induction statements using List.reverseRecOn with
  | nil => exact ⟨nofun, nofun⟩
  | append_singleton statements statement ih =>
      rw [List.foldl_concat]
      exact ih.set statement

/-! ## `openzl_compress` -/

/-- The level of a call of `openzl_compress`; NULL counts as not given. -/
def openzlCompressLevel (o : OpenerSettings) (level : Option ℤ) : Except BindException ℤ :=
  optionOr level (openzlDefaultCompressionLevel o) getInt32

/-- `OpenzlCompressFun`, and `OpenzlCompressWithOptionsFun` on one row. -/
def openzlCompress (zl : OpenZL) (o : OpenerSettings) (inputPath outputPath : Path)
    (trainedPath : Option Path) (level : Option ℤ) : Except BindException (BridgeM Unit) := do
  let compressionLevel ← openzlCompressLevel o level
  return compressParquet zl inputPath outputPath (trainedPath.getD "") compressionLevel
    (openzlMaxCompressBytes o) (openzlDefaultGraphOptions o)

/-- `OpenzlCompressWithBlobOptionsFun` on one row whose blob is not NULL. -/
def openzlCompressBlob (zl : OpenZL) (o : OpenerSettings) (inputPath outputPath : Path)
    (compressorBytes : Bytes) (level : Option ℤ) : Except BindException (BridgeM Unit) := do
  let compressionLevel ← openzlCompressLevel o level
  return compressParquetWithCompressorBytes zl inputPath outputPath compressorBytes compressionLevel
    (openzlMaxCompressBytes o) (openzlDefaultGraphOptions o)

section

variable {zl : OpenZL} {o : OpenerSettings} {level : Option ℤ} {compressionLevel : ℤ}

theorem openzlCompress_eq_request (inputPath outputPath : Path) (trainedPath : Option Path)
    (hlevel : openzlCompressLevel o level = .ok compressionLevel) :
    openzlCompress zl o inputPath outputPath trainedPath level =
      .ok (compressParquetRequest zl inputPath (trainedPath.getD "") compressionLevel
        (openzlMaxCompressBytes o) (openzlDefaultGraphOptions o) >>=
          callOpenZL zl (openzlDefaultGraphOptions o) inputPath >>= writeFile outputPath) := by
  unfold openzlCompress
  rw [hlevel, ← compressParquet_eq_request]
  rfl

theorem openzlCompressBlob_eq_request (inputPath outputPath : Path) (compressorBytes : Bytes)
    (hlevel : openzlCompressLevel o level = .ok compressionLevel) :
    openzlCompressBlob zl o inputPath outputPath compressorBytes level =
      .ok (compressParquetWithCompressorBytesRequest zl inputPath compressorBytes compressionLevel
        (openzlMaxCompressBytes o) (openzlDefaultGraphOptions o) >>=
          callOpenZL zl (openzlDefaultGraphOptions o) inputPath >>= writeFile outputPath) := by
  unfold openzlCompressBlob
  rw [hlevel, ← compressParquetWithCompressorBytes_eq_request]
  rfl

end

/-! ## Entry points -/

/-- The integers that a statement gives; one that it does not give, or gives as NULL, is `none`. -/
structure StatementIntegers where
  compressionLevel : Option Int64 := none
  formatVersion : Option Int64 := none
  parquetChunkBytes : Option Int64 := none

/-- The options of a COPY with these integers. -/
def StatementIntegers.copy (i : StatementIntegers) (options : CopyOptions) : CopyOptions :=
  { options with
    compressionLevel := i.compressionLevel.map Int64.toInt
    formatVersion := i.formatVersion.map Int64.toInt
    parquetChunkSizeBytes := i.parquetChunkBytes.map Int64.toInt }

/-- The parameters of `openzl_train` with these integers. -/
def StatementIntegers.train (i : StatementIntegers) (parameters : TrainParameters) :
    TrainParameters :=
  { parameters with
    compressionLevel := i.compressionLevel.map Int64.toInt
    formatVersion := i.formatVersion.map Int64.toInt
    parquetChunkBytes := i.parquetChunkBytes.map Int64.toInt }

inductive EntryPoint where
  | compress (level : Option Int64)
  | compressBlob (level : Option Int64)
  | copy (i : StatementIntegers) (options : CopyOptions)
  | train (i : StatementIntegers) (parameters : TrainParameters)
  | writeHandle

/-- OpenZL gets this configuration in some run of the entry point. There is one constructor for each
place where a compressor is configured, and a `…Request` function is the code up to there. -/
inductive Receives (zl : OpenZL) (s : SessionSettings) : EntryPoint → ConfiguredCompressor → Prop
  | compress {level : Option Int64} {compressionLevel : ℤ} {inputPath trainedPath : Path}
      {cctx : CCtx} {input : Bytes} {w w' : World}
      (hlevel : openzlCompressLevel s.toOpenerSettings (level.map Int64.toInt) =
        .ok compressionLevel)
      (hrequest : compressParquetRequest zl inputPath trainedPath compressionLevel
        (openzlMaxCompressBytes s.toOpenerSettings)
        (openzlDefaultGraphOptions s.toOpenerSettings) w = .ok (cctx, input) w') :
      Receives zl s (.compress level) cctx.configured
  | compressBlob {level : Option Int64} {compressionLevel : ℤ} {inputPath : Path}
      {compressorBytes : Bytes} {cctx : CCtx} {input : Bytes} {w w' : World}
      (hlevel : openzlCompressLevel s.toOpenerSettings (level.map Int64.toInt) =
        .ok compressionLevel)
      (hrequest : compressParquetWithCompressorBytesRequest zl inputPath compressorBytes
        compressionLevel (openzlMaxCompressBytes s.toOpenerSettings)
        (openzlDefaultGraphOptions s.toOpenerSettings) w = .ok (cctx, input) w') :
      Receives zl s (.compressBlob level) cctx.configured
  | copy {i : StatementIntegers} {options : CopyOptions} {bind : OpenzlCopyBindData}
      {canonicalBytes input : Bytes} {cctx : CCtx} {w w' : World}
      (hbind : openzlCopyBind zl s (i.copy options) = .ok bind)
      (hrequest : compressParquetBytesRequest zl canonicalBytes bind.trainedCompressorPath
        bind.compressionLevel bind.maxCompressBytes bind.graph w = .ok (cctx, input) w') :
      Receives zl s (.copy i options) cctx.configured
  | copyFallback {i : StatementIntegers} {options : CopyOptions} {bind : OpenzlCopyBindData}
      {canonicalBytes input : Bytes} {cctx : CCtx} {e : Error} {w w₁ w' : World}
      (hbind : openzlCopyBind zl s (i.copy options) = .ok bind)
      (hfirst : compressParquetBytesToString zl canonicalBytes bind.trainedCompressorPath
        bind.compressionLevel bind.maxCompressBytes bind.graph w = .error e w₁)
      (hfallback : bind.fallbackToGeneric = true ∧ bind.trainedCompressorPath ≠ "")
      (hrequest : compressParquetBytesRequest zl canonicalBytes "" bind.compressionLevel
        bind.maxCompressBytes bind.graph w₁ = .ok (cctx, input) w') :
      Receives zl s (.copy i options) cctx.configured
  | train {i : StatementIntegers} {parameters : TrainParameters} {samplePaths : List Path}
      {base : ConfiguredCompressor} {samples : List Bytes} {w w' : World}
      (hrequest : trainRequest zl samplePaths
        (openzlTrainBind s.toOpenerSettings (i.train parameters)) w = .ok (base, samples) w') :
      Receives zl s (.train i parameters) base
  | writeHandle {h : OpenzlFileHandle} {buffer input : Bytes} {cctx : CCtx} {w w' : World}
      (hsettings : h.writeSettings = s.toOpenerSettings.writeSettings)
      (hrequest : compressParquetBytesRequest zl buffer "" h.writeSettings.compressionLevel
        h.writeSettings.maxCompressBytes h.writeSettings.graph w = .ok (cctx, input) w') :
      Receives zl s .writeHandle cctx.configured
  | writeHandleRetry {h : OpenzlFileHandle} {buffer input : Bytes} {cctx : CCtx} {e : Error}
      {w w₁ w' : World}
      (hsettings : h.writeSettings = s.toOpenerSettings.writeSettings)
      (hfirst : compressParquetBytes zl buffer h.tmpPath "" h.writeSettings.compressionLevel
        h.writeSettings.maxCompressBytes h.writeSettings.graph w = .error e w₁)
      (hretry : h.writeSettings.graph.profile ≠ "serial" ∧
        buffer.length ≤ OpenzlFileHandle.kSmallFallbackBytes)
      (hrequest : compressParquetBytesRequest zl buffer "" h.writeSettings.compressionLevel
        h.writeSettings.maxCompressBytes h.writeSettings.graph.serial w₁ = .ok (cctx, input) w') :
      Receives zl s .writeHandle cctx.configured

end DuckdbOpenzl
