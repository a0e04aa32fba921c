import DuckdbOpenzl.Bridge.Container
import Mathlib.Data.List.Infix

/-!
# Compressing a buffer or a file

Every public `Compress*` function hands its input to `CompressBytesImpl`,
which checks the graph options and the size before it builds a compressor.
-/

set_option autoImplicit false

namespace DuckdbOpenzl

open FileContent

def kDefaultMaxCompressBytes : ℕ := 500000000

def kDefaultChunkBytes : ℕ := 256000000

def kAutoParquetChunkBytes : ℕ := 2 ^ 64 - 1

def kDefaultParquetChunkBytes : ℕ := 20000000

structure GraphOptions where
  formatVersion : ℤ := 0
  profile : String := "parquet"
  parquetChunkBytes : ℕ := kAutoParquetChunkBytes
  permissive : ℤ := -1
  deriving DecidableEq, Repr

def intMax : ℤ := 2 ^ 31 - 1

def effectiveFormatVersion (zl : OpenZL) (g : GraphOptions) : ℤ :=
  if g.formatVersion = 0 then zl.maxFormatVersion else g.formatVersion

def resolveParquetChunkBytes (zl : OpenZL) (g : GraphOptions) : ℕ :=
  if g.parquetChunkBytes ≠ kAutoParquetChunkBytes then g.parquetChunkBytes
  else if effectiveFormatVersion zl g ≥ zl.chunkVersionMin then kDefaultParquetChunkBytes
  else 0

def validateGraphOptions (zl : OpenZL) (g : GraphOptions) : Except Error Unit :=
  if g.profile ≠ "parquet" ∧ g.profile ≠ "serial" then
    .error ⟨"openzl_bridge: unknown profile '" ++ g.profile ++
      "' (expected 'parquet' or 'serial')"⟩
  else if g.formatVersion ≠ 0 ∧
      (g.formatVersion < zl.minFormatVersion ∨ g.formatVersion > zl.maxFormatVersion) then
    .error ⟨"openzl_bridge: format version " ++ toString g.formatVersion ++
      " is outside the supported range " ++ toString zl.minFormatVersion ++ ".." ++
      toString zl.maxFormatVersion ++ " (0 = newest)"⟩
  else if g.parquetChunkBytes ≠ kAutoParquetChunkBytes ∧ g.parquetChunkBytes > 0 ∧
      g.profile = "parquet" ∧ effectiveFormatVersion zl g < zl.chunkVersionMin then
    .error ⟨"openzl_bridge: parquet chunking needs format version >= " ++
      toString zl.chunkVersionMin ++ " (got " ++ toString (effectiveFormatVersion zl g) ++
      "); raise the format version or set the chunk size to 0"⟩
  else if g.parquetChunkBytes ≠ kAutoParquetChunkBytes ∧ (g.parquetChunkBytes : ℤ) > intMax then
    .error ⟨"openzl_bridge: parquet chunk size is too large (max " ++ toString intMax ++ " bytes)"⟩
  else
    .ok ()

def tooLarge (size maxInputBytes : ℕ) : Error :=
  ⟨"openzl_bridge: input parquet too large for one compress call (" ++ toString size ++
    " bytes, limit " ++ toString maxInputBytes ++
    "): compression needs roughly 4x its input in RAM. COPY ... (FORMAT OPENZL) splits large " ++
    "tables into chunks automatically (see CHUNK_SIZE_BYTES / openzl_chunk_size_bytes); to " ++
    "compress this one file whole, raise the limit with SET openzl_max_compress_bytes (note: " ++
    "OpenZL documents payloads over 500MB as undefined behavior)."⟩

def buildSerialCompressor (zl : OpenZL) : Except Error Compressor :=
  if !zl.innerGraphValid then
    .error ⟨"openzl_bridge: could not build the serial profile's inner graph"⟩
  else if !zl.graphValid then
    .error ⟨"openzl_bridge: could not build the serial profile graph"⟩
  else
    .ok .serial

/-- The chunk size is passed on as a C `int`. -/
def buildParquetCompressor (chunkBytes : ℕ) : Compressor :=
  .parquet ((chunkBytes : ℤ).bmod (2 ^ 32))

def chooseCompressor (zl : OpenZL) (compressorBytes : Bytes) (graph : GraphOptions) :
    Except Error Compressor :=
  if !compressorBytes.isEmpty then .ok (.trained compressorBytes)
  else if graph.profile = "serial" then buildSerialCompressor zl
  else .ok (buildParquetCompressor (resolveParquetChunkBytes zl graph))

def compressionError (zl : OpenZL) (graph : GraphOptions) (errorLabel what : String) : Error :=
  if "incompatible with requested format version".toList <:+: what.toList then
    ⟨"openzl_bridge: format version " ++ toString (effectiveFormatVersion zl graph) ++
      " is too old for this data with the '" ++ graph.profile ++
      "' profile: the graph picked a codec that " ++
      "needs a newer format (which codecs it needs depends on the data; e.g. the serial profile " ++
      "needs roughly 24+). Raise openzl_format_version / FORMAT_VERSION."⟩
  else
    ⟨"openzl_bridge: compress failed for " ++ errorLabel ++
      " (is it canonical parquet? uncompressed, plain-encoded, no dictionary): " ++ what⟩

def compressBytesImpl (zl : OpenZL) (input : Bytes) (errorLabel : String) (compressorBytes : Bytes)
    (compressionLevel : ℤ) (maxInputBytes : ℕ) (graph : GraphOptions) : Except Error Bytes := do
  validateGraphOptions zl graph
  if !compressorBytes.isEmpty ∧ graph.profile ≠ "parquet" then
    throw ⟨"openzl_bridge: a trained compressor is built on the parquet profile; it can't be " ++
      "combined with profile '" ++ graph.profile ++ "'"⟩
  if input.length > maxInputBytes then
    throw (tooLarge input.length maxInputBytes)
  let compressor ← chooseCompressor zl compressorBytes graph
  let permissive :=
    if graph.permissive < 0 then !compressorBytes.isEmpty else decide (graph.permissive ≠ 0)
  let cctx : CCtx := ⟨compressor, effectiveFormatVersion zl graph, compressionLevel, permissive⟩
  (zl.compressSerial cctx input).mapError (compressionError zl graph errorLabel)

def loadCompressorFile (trainedCompressorPath : Path) : BridgeM Bytes := do
  if trainedCompressorPath.isEmpty then
    return []
  opened trainedCompressorPath fun file ↦
    if file.isSome then .ok ()
    else .error ⟨"openzl_bridge: trained compressor file not found: " ++ trainedCompressorPath⟩
  opened trainedCompressorPath (readFile trainedCompressorPath)

def requireParquet (path : Path) (file : Option Bytes) : Except Error Unit :=
  if file.isSome then .ok ()
  else .error ⟨"openzl_bridge: input parquet file not found: " ++ path⟩

/-- `internal::FileSize`: a stream that did not open tells `-1`. -/
def fileSize (file : Option Bytes) : ℕ :=
  match file with
  | some bytes => bytes.length
  | none => 2 ^ 64 - 1

/-- The size check before a file is read; the message asks for the size again. -/
def requireSize (path : Path) (maxInputBytes : ℕ) : BridgeM Unit := do
  if (← opened path fun file ↦ .ok (fileSize file)) > maxInputBytes then
    throw (tooLarge (← opened path fun file ↦ .ok (fileSize file)) maxInputBytes)

def compressFile (zl : OpenZL) (inputParquetPath outputZlPath : Path) (compressorBytes : Bytes)
    (compressionLevel : ℤ) (maxInputBytes : ℕ) (graph : GraphOptions) : BridgeM Unit := do
  requireSize inputParquetPath maxInputBytes
  let input ← opened inputParquetPath (readFile inputParquetPath)
  let frame ← MonadExcept.ofExcept (compressBytesImpl zl input inputParquetPath compressorBytes
    compressionLevel maxInputBytes graph)
  writeFile outputZlPath frame

def compressParquet (zl : OpenZL) (inputParquetPath outputZlPath trainedCompressorPath : Path)
    (compressionLevel : ℤ) (maxInputBytes : ℕ) (graph : GraphOptions) : BridgeM Unit := do
  opened inputParquetPath (requireParquet inputParquetPath)
  let compressorBytes ← loadCompressorFile trainedCompressorPath
  compressFile zl inputParquetPath outputZlPath compressorBytes compressionLevel maxInputBytes graph

def compressParquetWithCompressorBytes (zl : OpenZL) (inputParquetPath outputZlPath : Path)
    (compressorBytes : Bytes) (compressionLevel : ℤ) (maxInputBytes : ℕ) (graph : GraphOptions) :
    BridgeM Unit := do
  opened inputParquetPath (requireParquet inputParquetPath)
  if compressorBytes.isEmpty then
    throw ⟨"openzl_bridge: compressor_bytes must be non-empty (use CompressParquet() for the " ++
      "generic graph)"⟩
  compressFile zl inputParquetPath outputZlPath compressorBytes compressionLevel maxInputBytes graph

def compressParquetBytesToString (zl : OpenZL) (canonicalParquetBytes : Bytes)
    (trainedCompressorPath : Path) (compressionLevel : ℤ) (maxInputBytes : ℕ)
    (graph : GraphOptions) : BridgeM Bytes := do
  let compressorBytes ← loadCompressorFile trainedCompressorPath
  MonadExcept.ofExcept (compressBytesImpl zl canonicalParquetBytes "<in-memory input>"
    compressorBytes compressionLevel maxInputBytes graph)

def compressParquetBytes (zl : OpenZL) (canonicalParquetBytes : Bytes)
    (outputZlPath trainedCompressorPath : Path) (compressionLevel : ℤ) (maxInputBytes : ℕ)
    (graph : GraphOptions) : BridgeM Unit := do
  let frame ← compressParquetBytesToString zl canonicalParquetBytes trainedCompressorPath
    compressionLevel maxInputBytes graph
  writeFile outputZlPath frame

/-! ## What the bridge relies on -/

/-- Whatever graph and settings a frame was made with, it decompresses to its input, and it
does not start like a container. -/
structure OpenZL.Lawful (zl : OpenZL) : Prop where
  decompress : ∀ cctx input frame,
    zl.compressSerial cctx input = .ok frame → zl.decompressSerial frame = .ok input
  magic : ∀ cctx input frame,
    zl.compressSerial cctx input = .ok frame → slice frame 0 kMagicLen ≠ kContainerMagic

/-- Frames that store their input behind one byte. -/
def OpenZL.stored : OpenZL where
  minFormatVersion := 8
  maxFormatVersion := 25
  chunkVersionMin := 21
  innerGraphValid := true
  graphValid := true
  compressSerial := fun _ input ↦ .ok (0 :: input)
  decompressSerial
    | 0 :: input => .ok input
    | _ => .error "corruption"

theorem OpenZL.stored_lawful : OpenZL.stored.Lawful where
  decompress := by
    rintro _ input frame h
    obtain rfl := Except.ok.inj h
    rfl
  magic := by
    rintro _ input frame h
    obtain rfl := Except.ok.inj h
    intro hmagic
    have hhead := congrArg List.head? hmagic
    simp [slice, kMagicLen] at hhead
    revert hhead
    decide

variable {zl : OpenZL} {input frame : Bytes} {compressionLevel : ℤ} {maxInputBytes : ℕ}
  {graph : GraphOptions}

theorem compressBytesImpl_ok {errorLabel : String} {compressorBytes : Bytes}
    (h : compressBytesImpl zl input errorLabel compressorBytes compressionLevel maxInputBytes
      graph =
      .ok frame) : ∃ cctx, zl.compressSerial cctx input = .ok frame := by
  unfold compressBytesImpl at h
  simp only [bind, Except.bind] at h
  split at h
  · cases h
  · split at h
    · cases h
    · split at h
      · cases h
      · split at h
        · cases h
        · rename_i compressor _
          cases hframe : zl.compressSerial ⟨compressor, effectiveFormatVersion zl graph,
              compressionLevel, if graph.permissive < 0 then !compressorBytes.isEmpty
                else decide (graph.permissive ≠ 0)⟩ input with
          | ok f =>
              rw [hframe] at h
              obtain rfl : f = frame := Except.ok.inj h
              exact ⟨_, hframe⟩
          | error what =>
              rw [hframe] at h
              cases h

theorem loadCompressorFile_readsOnly (path : Path) : ReadsOnly (loadCompressorFile path) := by
  unfold loadCompressorFile
  split
  · exact .pure _
  · exact .bind (.opened _ _) fun _ ↦ .opened _ _

theorem compressParquetBytesToString_readsOnly (zl : OpenZL) (input : Bytes)
    (trainedCompressorPath : Path) (compressionLevel : ℤ) (maxInputBytes : ℕ)
    (graph : GraphOptions) :
    ReadsOnly (compressParquetBytesToString zl input trainedCompressorPath compressionLevel
      maxInputBytes graph) :=
  .bind (loadCompressorFile_readsOnly _) fun _ ↦ .ofExcept _

theorem compressParquetBytesToString_ok {trainedCompressorPath : Path} {w w' : World}
    (h : compressParquetBytesToString zl input trainedCompressorPath compressionLevel maxInputBytes
      graph w = .ok frame w') : ∃ cctx, zl.compressSerial cctx input = .ok frame := by
  obtain ⟨compressorBytes, t, -, hcompress⟩ := ExceptionState.bind_eq_ok_iff.mp h
  generalize hr : compressBytesImpl zl input "<in-memory input>" compressorBytes compressionLevel
    maxInputBytes graph = r at hcompress
  cases r with
  | ok f =>
      obtain ⟨rfl, -⟩ := EStateM.Result.ok.inj hcompress
      exact compressBytesImpl_ok hr
  | error e => cases hcompress

theorem compressParquetBytes_touches (zl : OpenZL) (input : Bytes) (outputZlPath : Path)
    (trainedCompressorPath : Path) (compressionLevel : ℤ) (maxInputBytes : ℕ)
    (graph : GraphOptions) (w : World) :
    w.OnlyTouches outputZlPath (ExceptionState.stateAfter (compressParquetBytes zl input
      outputZlPath trainedCompressorPath compressionLevel maxInputBytes graph) w) := by
  have hreads := compressParquetBytesToString_readsOnly zl input trainedCompressorPath
    compressionLevel maxInputBytes graph w
  rcases ExceptionState.stateAfter_bind (compressParquetBytesToString zl input
    trainedCompressorPath compressionLevel maxInputBytes graph) (writeFile outputZlPath) w with
    ⟨e, t, hrun, hafter⟩ | ⟨frame, t, hrun, hafter⟩
  · rw [ExceptionState.stateAfter_of_error hrun] at hreads
    rw [compressParquetBytes, hafter, hreads]
    exact .refl _ _
  · rw [ExceptionState.stateAfter_of_ok hrun] at hreads
    rw [compressParquetBytes, hafter, hreads]
    apply writeFile_touches
    cases hw : writeFile outputZlPath frame w with
    | ok u t => exact .inl (by rw [ExceptionState.stateAfter_of_ok hw])
    | error e t => exact .inr ⟨e, by rw [ExceptionState.stateAfter_of_error hw]⟩

/-- A successful call leaves a frame of its input at the destination. -/
theorem compressParquetBytes_ok {outputZlPath trainedCompressorPath : Path} {w w' : World}
    (hkeep : w.KeepsFlushes)
    (h : compressParquetBytes zl input outputZlPath trainedCompressorPath compressionLevel
      maxInputBytes graph w = .ok () w') :
    ∃ cctx frame, zl.compressSerial cctx input = .ok frame ∧
      w'.content outputZlPath = some frame := by
  obtain ⟨frame, t, hcompress, hwrite⟩ := ExceptionState.bind_eq_ok_iff.mp h
  obtain ⟨cctx, hframe⟩ := compressParquetBytesToString_ok hcompress
  have ht := (compressParquetBytesToString_readsOnly zl input trainedCompressorPath compressionLevel
    maxInputBytes graph).eq_of_ok hcompress
  subst ht
  exact ⟨cctx, frame, hframe, writeFile_ok hkeep hwrite⟩

end DuckdbOpenzl
