import DuckdbOpenzl.Bridge.Compress

/-!
# What OpenZL receives

`CompressBytesImpl` checks its settings, builds a compressor and sets up a
context; what happens to the input is then up to OpenZL. The checks and the
context are a function of the settings and of the size of the input alone.
-/

set_option autoImplicit false

namespace DuckdbOpenzl

open ExceptionState

variable {zl : OpenZL} {graph : GraphOptions}

/-! ## `ValidateGraphOptions` -/

/-- The format version is one OpenZL supports, or asks for the newest. -/
def GraphOptions.VersionSupported (zl : OpenZL) (g : GraphOptions) : Prop :=
  g.formatVersion ≠ 0 → zl.minFormatVersion ≤ g.formatVersion ∧
    g.formatVersion ≤ zl.maxFormatVersion

/-- An explicit chunk size fits an `int`. -/
def GraphOptions.ChunkFits (g : GraphOptions) : Prop :=
  g.parquetChunkBytes ≠ kAutoParquetChunkBytes → (g.parquetChunkBytes : ℤ) ≤ intMax

/-- An explicit chunk size of the parquet profile is 0 or has a format version that chunks. -/
def GraphOptions.ChunkSupported (zl : OpenZL) (g : GraphOptions) : Prop :=
  g.parquetChunkBytes ≠ kAutoParquetChunkBytes → 0 < g.parquetChunkBytes → g.profile = "parquet" →
    zl.chunkVersionMin ≤ effectiveFormatVersion zl g

instance : Decidable (graph.VersionSupported zl) :=
  inferInstanceAs (Decidable (_ → _))

instance : Decidable graph.ChunkFits :=
  inferInstanceAs (Decidable (_ → _))

instance : Decidable (graph.ChunkSupported zl) :=
  inferInstanceAs (Decidable (_ → _ → _ → _))

structure GraphOptions.Valid (zl : OpenZL) (g : GraphOptions) : Prop where
  profile : g.profile = "parquet" ∨ g.profile = "serial"
  version : g.VersionSupported zl
  chunkSupported : g.ChunkSupported zl
  chunkFits : g.ChunkFits

theorem validateGraphOptions_ok_iff :
    validateGraphOptions zl graph = .ok () ↔ graph.Valid zl := by
  unfold validateGraphOptions
  split_ifs with hprofile hversion hchunk hlarge
  · refine iff_of_false nofun fun h ↦ ?_
    rcases h.profile with h | h
    · exact hprofile.1 h
    · exact hprofile.2 h
  · refine iff_of_false nofun fun h ↦ ?_
    have hrange := h.version hversion.1
    have houtside := hversion.2
    omega
  · refine iff_of_false nofun fun h ↦ ?_
    have hrange := h.chunkSupported hchunk.1 hchunk.2.1 hchunk.2.2.1
    have hold := hchunk.2.2.2
    omega
  · refine iff_of_false nofun fun h ↦ ?_
    have hfits := h.chunkFits hlarge.1
    have hover := hlarge.2
    omega
  · refine iff_of_true rfl ⟨?_, fun h ↦ ?_, fun h hpos hparquet ↦ ?_, fun h ↦ ?_⟩
    · by_contra hneither
      exact hprofile (not_or.mp hneither)
    · by_contra houtside
      exact hversion ⟨h, by omega⟩
    · by_contra hold
      exact hchunk ⟨h, hpos, hparquet, by omega⟩
    · by_contra hover
      exact hlarge ⟨h, by omega⟩

/-! ## The context -/

/-- The context a call hands to OpenZL, or the error it throws before. -/
def compressRequest (zl : OpenZL) (size : ℕ) (compressorBytes : Bytes) (compressionLevel : ℤ)
    (maxInputBytes : ℕ) (graph : GraphOptions) : Except Error CCtx := do
  validateGraphOptions zl graph
  if !compressorBytes.isEmpty ∧ graph.profile ≠ "parquet" then
    throw ⟨"openzl_bridge: a trained compressor is built on the parquet profile; it can't be " ++
      "combined with profile '" ++ graph.profile ++ "'"⟩
  if size > maxInputBytes then
    throw (tooLarge size maxInputBytes)
  let compressor ← chooseCompressor zl compressorBytes graph
  let permissive :=
    if graph.permissive < 0 then !compressorBytes.isEmpty else decide (graph.permissive ≠ 0)
  return ⟨compressor, effectiveFormatVersion zl graph, compressionLevel, permissive⟩

theorem compressBytesImpl_eq (zl : OpenZL) (input : Bytes) (errorLabel : String)
    (compressorBytes : Bytes) (compressionLevel : ℤ) (maxInputBytes : ℕ) (graph : GraphOptions) :
    compressBytesImpl zl input errorLabel compressorBytes compressionLevel maxInputBytes graph =
      (compressRequest zl input.length compressorBytes compressionLevel maxInputBytes graph).bind
        fun cctx ↦ (zl.compressSerial cctx input).mapError
          (compressionError zl graph errorLabel) := by
  unfold compressBytesImpl compressRequest
  simp only [bind, Except.bind, pure, Except.pure, throw, throwThe, MonadExceptOf.throw]
  cases validateGraphOptions zl graph with
  | error e => rfl
  | ok u =>
      dsimp only
      split_ifs
      · rfl
      · rfl
      all_goals cases chooseCompressor zl compressorBytes graph <;> rfl

theorem compressBytesImpl_ok_iff {input frame : Bytes} {errorLabel : String}
    {compressorBytes : Bytes} {compressionLevel : ℤ} {maxInputBytes : ℕ} :
    compressBytesImpl zl input errorLabel compressorBytes compressionLevel maxInputBytes graph =
        .ok frame ↔
      ∃ cctx, compressRequest zl input.length compressorBytes compressionLevel maxInputBytes graph =
        .ok cctx ∧ zl.compressSerial cctx input = .ok frame := by
  rw [compressBytesImpl_eq]
  refine except_bind_eq_ok_iff.trans (exists_congr fun cctx ↦ and_congr_right fun _ ↦ ?_)
  exact mapError_eq_ok_iff

/-- What `CompressBytesImpl` sets on a context with this compressor. -/
def GraphOptions.context (zl : OpenZL) (graph : GraphOptions) (compressorBytes : Bytes)
    (compressionLevel : ℤ) (compressor : Compressor) : CCtx :=
  ⟨compressor, effectiveFormatVersion zl graph, compressionLevel,
    if graph.permissive < 0 then !compressorBytes.isEmpty else decide (graph.permissive ≠ 0)⟩

theorem compressRequest_ok_iff {size : ℕ} {compressorBytes : Bytes} {compressionLevel : ℤ}
    {maxInputBytes : ℕ} {cctx : CCtx} :
    compressRequest zl size compressorBytes compressionLevel maxInputBytes graph = .ok cctx ↔
      graph.Valid zl ∧ (compressorBytes ≠ [] → graph.profile = "parquet") ∧ size ≤ maxInputBytes ∧
        ∃ compressor, chooseCompressor zl compressorBytes graph = .ok compressor ∧
          cctx = graph.context zl compressorBytes compressionLevel compressor := by
  unfold compressRequest
  simp only [bind, Except.bind, pure, Except.pure, throw, throwThe, MonadExceptOf.throw]
  rw [← validateGraphOptions_ok_iff]
  cases validateGraphOptions zl graph with
  | error e => simp
  | ok u =>
      have htrained : ((!compressorBytes.isEmpty) = true ∧ graph.profile ≠ "parquet") ↔
          ¬ (compressorBytes ≠ [] → graph.profile = "parquet") := by
        simp
      dsimp only
      rw [if_congr htrained rfl rfl]
      by_cases hprofile : compressorBytes ≠ [] → graph.profile = "parquet"
      · rw [if_neg (not_not_intro hprofile)]
        by_cases hsize : size > maxInputBytes
        · rw [if_pos hsize]
          exact iff_of_false nofun fun h ↦ absurd h.2.2.1 (by omega)
        · rw [if_neg hsize]
          cases chooseCompressor zl compressorBytes graph with
          | error e => simp
          | ok compressor =>
              constructor
              · intro h
                exact ⟨rfl, hprofile, by omega, compressor, rfl, (Except.ok.inj h).symm⟩
              · rintro ⟨-, -, -, compressor', hchoose, rfl⟩
                obtain rfl := Except.ok.inj hchoose
                rfl
      · rw [if_pos hprofile]
        exact iff_of_false nofun fun h ↦ hprofile h.2.1

/-! ## Up to the call -/

/-- What `CompressFile` does before OpenZL is called: the context and its input. -/
def compressFileRequest (zl : OpenZL) (inputParquetPath : Path) (compressorBytes : Bytes)
    (compressionLevel : ℤ) (maxInputBytes : ℕ) (graph : GraphOptions) : BridgeM (CCtx × Bytes) := do
  requireSize inputParquetPath maxInputBytes
  let input ← opened inputParquetPath (readFile inputParquetPath)
  let cctx ← MonadExcept.ofExcept (compressRequest zl input.length compressorBytes compressionLevel
    maxInputBytes graph)
  return (cctx, input)

/-- The same of `CompressParquet`. -/
def compressParquetRequest (zl : OpenZL) (inputParquetPath trainedCompressorPath : Path)
    (compressionLevel : ℤ) (maxInputBytes : ℕ) (graph : GraphOptions) : BridgeM (CCtx × Bytes) := do
  opened inputParquetPath (requireParquet inputParquetPath)
  let compressorBytes ← loadCompressorFile trainedCompressorPath
  compressFileRequest zl inputParquetPath compressorBytes compressionLevel maxInputBytes graph

/-- The same of `CompressParquetWithCompressorBytes`. -/
def compressParquetWithCompressorBytesRequest (zl : OpenZL) (inputParquetPath : Path)
    (compressorBytes : Bytes) (compressionLevel : ℤ) (maxInputBytes : ℕ) (graph : GraphOptions) :
    BridgeM (CCtx × Bytes) := do
  opened inputParquetPath (requireParquet inputParquetPath)
  if compressorBytes.isEmpty then
    throw ⟨"openzl_bridge: compressor_bytes must be non-empty (use CompressParquet() for the " ++
      "generic graph)"⟩
  compressFileRequest zl inputParquetPath compressorBytes compressionLevel maxInputBytes graph

/-- The same of `CompressParquetBytesToString` and of `CompressParquetBytes`. -/
def compressParquetBytesRequest (zl : OpenZL) (canonicalParquetBytes : Bytes)
    (trainedCompressorPath : Path) (compressionLevel : ℤ) (maxInputBytes : ℕ)
    (graph : GraphOptions) : BridgeM (CCtx × Bytes) := do
  let compressorBytes ← loadCompressorFile trainedCompressorPath
  let cctx ← MonadExcept.ofExcept (compressRequest zl canonicalParquetBytes.length compressorBytes
    compressionLevel maxInputBytes graph)
  return (cctx, canonicalParquetBytes)

def callOpenZL (zl : OpenZL) (graph : GraphOptions) (errorLabel : String) (r : CCtx × Bytes) :
    BridgeM Bytes :=
  MonadExcept.ofExcept ((zl.compressSerial r.1 r.2).mapError (compressionError zl graph errorLabel))

theorem ofExcept_bind {α β : Type} (x : Except Error α) (f : α → Except Error β) :
    (MonadExcept.ofExcept (x.bind f) : BridgeM β) =
      MonadExcept.ofExcept x >>= fun a ↦ MonadExcept.ofExcept (f a) := by
  cases x <;> rfl

section

variable {compressionLevel : ℤ} {maxInputBytes : ℕ}

theorem compressFile_eq_request (zl : OpenZL) (inputParquetPath outputZlPath : Path)
    (compressorBytes : Bytes) :
    compressFile zl inputParquetPath outputZlPath compressorBytes compressionLevel maxInputBytes
        graph =
      compressFileRequest zl inputParquetPath compressorBytes compressionLevel maxInputBytes
        graph >>= callOpenZL zl graph inputParquetPath >>= writeFile outputZlPath := by
  unfold compressFile compressFileRequest callOpenZL
  simp only [compressBytesImpl_eq, ofExcept_bind, bind_assoc, pure_bind]

theorem compressParquet_eq_request (zl : OpenZL) (inputParquetPath outputZlPath : Path)
    (trainedCompressorPath : Path) :
    compressParquet zl inputParquetPath outputZlPath trainedCompressorPath compressionLevel
        maxInputBytes graph =
      compressParquetRequest zl inputParquetPath trainedCompressorPath compressionLevel
        maxInputBytes graph >>= callOpenZL zl graph inputParquetPath >>=
          writeFile outputZlPath := by
  unfold compressParquet compressParquetRequest
  simp only [compressFile_eq_request, bind_assoc]

theorem compressParquetWithCompressorBytes_eq_request (zl : OpenZL)
    (inputParquetPath outputZlPath : Path)
    (compressorBytes : Bytes) :
    compressParquetWithCompressorBytes zl inputParquetPath outputZlPath compressorBytes
        compressionLevel maxInputBytes graph =
      compressParquetWithCompressorBytesRequest zl inputParquetPath compressorBytes compressionLevel
        maxInputBytes graph >>= callOpenZL zl graph inputParquetPath >>=
          writeFile outputZlPath := by
  unfold compressParquetWithCompressorBytes compressParquetWithCompressorBytesRequest
  simp only [compressFile_eq_request, bind_assoc]
  split_ifs <;> simp only [bind_assoc]

theorem compressParquetBytesToString_eq_request (zl : OpenZL) (canonicalParquetBytes : Bytes)
    (trainedCompressorPath : Path) :
    compressParquetBytesToString zl canonicalParquetBytes trainedCompressorPath compressionLevel
        maxInputBytes graph =
      compressParquetBytesRequest zl canonicalParquetBytes trainedCompressorPath compressionLevel
        maxInputBytes graph >>= callOpenZL zl graph "<in-memory input>" := by
  unfold compressParquetBytesToString compressParquetBytesRequest callOpenZL
  simp only [compressBytesImpl_eq, ofExcept_bind, bind_assoc, pure_bind]

/-! The context of a request is that of a `compressRequest`, and any of these is requested in some
world. -/

variable {cctx : CCtx} {input : Bytes} {w w' : World}

theorem ofExcept_eq_ok_iff {α : Type} {x : Except Error α} {a : α} :
    (MonadExcept.ofExcept x : BridgeM α) w = .ok a w' ↔ x = .ok a ∧ w' = w := by
  cases x with
  | ok b =>
      constructor
      · intro h
        obtain ⟨rfl, rfl⟩ := EStateM.Result.ok.inj h
        exact ⟨rfl, rfl⟩
      · rintro ⟨h, rfl⟩
        obtain rfl := Except.ok.inj h
        rfl
  | error e => exact iff_of_false nofun fun h ↦ nomatch h.1

theorem compressFileRequest_ok {inputParquetPath : Path} {compressorBytes : Bytes}
    (h : compressFileRequest zl inputParquetPath compressorBytes compressionLevel maxInputBytes
      graph w = .ok (cctx, input) w') :
    compressRequest zl input.length compressorBytes compressionLevel maxInputBytes graph =
      .ok cctx := by
  obtain ⟨u, w₁, -, h⟩ := bind_eq_ok_iff.mp h
  obtain ⟨input', w₂, -, h⟩ := bind_eq_ok_iff.mp h
  obtain ⟨cctx', w₃, hrequest, h⟩ := bind_eq_ok_iff.mp h
  obtain ⟨rfl, rfl⟩ := Prod.mk.inj (EStateM.Result.ok.inj h).1
  exact (ofExcept_eq_ok_iff.mp hrequest).1

theorem compressParquetRequest_ok {inputParquetPath trainedCompressorPath : Path}
    (h : compressParquetRequest zl inputParquetPath trainedCompressorPath compressionLevel
      maxInputBytes graph w = .ok (cctx, input) w') : ∃ compressorBytes,
    compressRequest zl input.length compressorBytes compressionLevel maxInputBytes graph =
      .ok cctx := by
  obtain ⟨u, w₁, -, h⟩ := bind_eq_ok_iff.mp h
  obtain ⟨compressorBytes, w₂, -, h⟩ := bind_eq_ok_iff.mp h
  exact ⟨compressorBytes, compressFileRequest_ok h⟩

theorem compressParquetWithCompressorBytesRequest_ok {inputParquetPath : Path}
    {compressorBytes : Bytes}
    (h : compressParquetWithCompressorBytesRequest zl inputParquetPath compressorBytes
      compressionLevel maxInputBytes graph w = .ok (cctx, input) w') :
    compressorBytes ≠ [] ∧ compressRequest zl input.length compressorBytes compressionLevel
      maxInputBytes graph = .ok cctx := by
  obtain ⟨u, w₁, -, h⟩ := bind_eq_ok_iff.mp h
  split_ifs at h with hempty
  · cases h
  · exact ⟨by simpa using hempty, compressFileRequest_ok h⟩

theorem compressParquetBytesRequest_ok {canonicalParquetBytes : Bytes}
    {trainedCompressorPath : Path}
    (h : compressParquetBytesRequest zl canonicalParquetBytes trainedCompressorPath compressionLevel
      maxInputBytes graph w = .ok (cctx, input) w') : ∃ compressorBytes,
    compressRequest zl canonicalParquetBytes.length compressorBytes compressionLevel maxInputBytes
      graph = .ok cctx := by
  obtain ⟨compressorBytes, w₁, -, h⟩ := bind_eq_ok_iff.mp h
  obtain ⟨cctx', w₂, hrequest, h⟩ := bind_eq_ok_iff.mp h
  obtain ⟨rfl, rfl⟩ := Prod.mk.inj (EStateM.Result.ok.inj h).1
  exact ⟨compressorBytes, (ofExcept_eq_ok_iff.mp hrequest).1⟩

theorem compressFileRequest_empty {inputParquetPath : Path} {compressorBytes : Bytes}
    (hinput : w.content inputParquetPath = some [])
    (h : compressRequest zl 0 compressorBytes compressionLevel maxInputBytes graph = .ok cctx) :
    compressFileRequest zl inputParquetPath compressorBytes compressionLevel maxInputBytes graph w =
      .ok (cctx, []) w := by
  have hsize : requireSize inputParquetPath maxInputBytes w = .ok () w := by
    unfold requireSize
    rw [bind_apply, opened, hinput]
    rfl
  refine bind_eq_ok_iff.mpr ⟨(), w, hsize, bind_eq_ok_iff.mpr ⟨[], w, ?_,
    bind_eq_ok_iff.mpr ⟨cctx, w, ofExcept_eq_ok_iff.mpr ⟨h, rfl⟩, rfl⟩⟩⟩
  exact opened_eq_ok_iff.mpr ⟨by rw [hinput]; rfl, rfl⟩

theorem opened_requireParquet {path : Path} (h : w.content path = some input) :
    opened path (requireParquet path) w = .ok () w :=
  opened_eq_ok_iff.mpr ⟨by rw [h]; rfl, rfl⟩

theorem compressParquetRequest_empty {inputParquetPath : Path}
    (hinput : w.content inputParquetPath = some [])
    (h : compressRequest zl 0 [] compressionLevel maxInputBytes graph = .ok cctx) :
    compressParquetRequest zl inputParquetPath "" compressionLevel maxInputBytes graph w =
      .ok (cctx, []) w :=
  bind_eq_ok_iff.mpr ⟨(), w, opened_requireParquet hinput,
    bind_eq_ok_iff.mpr ⟨[], w, rfl, compressFileRequest_empty hinput h⟩⟩

theorem compressParquetWithCompressorBytesRequest_empty {inputParquetPath : Path}
    {compressorBytes : Bytes} (hinput : w.content inputParquetPath = some [])
    (hcompressor : compressorBytes ≠ [])
    (h : compressRequest zl 0 compressorBytes compressionLevel maxInputBytes graph = .ok cctx) :
    compressParquetWithCompressorBytesRequest zl inputParquetPath compressorBytes compressionLevel
      maxInputBytes graph w = .ok (cctx, []) w := by
  refine bind_eq_ok_iff.mpr ⟨(), w, opened_requireParquet hinput, ?_⟩
  rw [if_neg (by simpa using hcompressor)]
  exact compressFileRequest_empty hinput h

theorem exists_loadCompressorFile_empty (trainedCompressorPath : Path) :
    ∃ w, loadCompressorFile trainedCompressorPath w = .ok [] w := by
  refine ⟨World.empty.put trainedCompressorPath [], ?_⟩
  have hcontent := World.content_put_self World.empty trainedCompressorPath []
  unfold loadCompressorFile
  split_ifs
  · rfl
  · refine bind_eq_ok_iff.mpr ⟨(), _, opened_eq_ok_iff.mpr ⟨?_, rfl⟩,
      opened_eq_ok_iff.mpr ⟨?_, rfl⟩⟩
    · rw [hcontent]
      rfl
    · rw [hcontent]
      rfl

/-- The compressor file is empty, or there is none to load. -/
theorem compressParquetBytesRequest_generic {trainedCompressorPath : Path}
    (canonicalParquetBytes : Bytes)
    (htrained : loadCompressorFile trainedCompressorPath w = .ok [] w)
    (h : compressRequest zl canonicalParquetBytes.length [] compressionLevel maxInputBytes graph =
      .ok cctx) :
    compressParquetBytesRequest zl canonicalParquetBytes trainedCompressorPath compressionLevel
      maxInputBytes graph w = .ok (cctx, canonicalParquetBytes) w :=
  bind_eq_ok_iff.mpr ⟨[], w, htrained,
    bind_eq_ok_iff.mpr ⟨cctx, w, ofExcept_eq_ok_iff.mpr ⟨h, rfl⟩, rfl⟩⟩

end

end DuckdbOpenzl
