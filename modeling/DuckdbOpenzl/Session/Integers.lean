import DuckdbOpenzl.FileSystem.SerialFallback
import DuckdbOpenzl.Session.EntryPoints

/-!
# What OpenZL makes of the integers given

An integer is kept if OpenZL gets exactly that one, within its bounds, or the
operation ends before. The conversions on the way wrap to 32 bits, and only
some entry points check a range before they convert.
-/

set_option autoImplicit false

namespace DuckdbOpenzl

open ExceptionState

/-! ## The integers given to an operation -/

/-- The integers that apply to an operation, as they were given, and the profile. -/
structure GivenIntegers where
  formatVersion : ℤ
  compressionLevel : ℤ
  parquetChunkBytes : ℤ
  profile : String

def SessionSettings.given (s : SessionSettings) : GivenIntegers where
  formatVersion := s.formatVersion.getD 0
  compressionLevel := s.compressionLevel.getD 9
  parquetChunkBytes := s.parquetChunkBytes.getD (-1)
  profile := s.profile.getD "parquet"

/-- An integer of the statement goes before that of the session. -/
def StatementIntegers.given (i : StatementIntegers) (s : SessionSettings) (profile : String) :
    GivenIntegers where
  formatVersion := (i.formatVersion.map Int64.toInt).getD s.given.formatVersion
  compressionLevel := (i.compressionLevel.map Int64.toInt).getD s.given.compressionLevel
  parquetChunkBytes := (i.parquetChunkBytes.map Int64.toInt).getD s.given.parquetChunkBytes
  profile := profile

def EntryPoint.given (s : SessionSettings) : EntryPoint → GivenIntegers
  | .compress level | .compressBlob level =>
      StatementIntegers.given { compressionLevel := level } s s.given.profile
  | .copy i options => i.given s (options.profile.getD s.given.profile)
  | .train i _ => i.given s "parquet"
  | .writeHandle => s.given

/-! ## What OpenZL is to get -/

/-- The chunk size that `-1` stands for. -/
def autoParquetChunkBytes (zl : OpenZL) (formatVersion : ℤ) : ℤ :=
  if zl.chunkVersionMin ≤ formatVersion then 20000000 else 0

/-- OpenZL gets the integers given, within their bounds; version 0 is the newest one. -/
structure Faithful (zl : OpenZL) (g : GivenIntegers) (r : ConfiguredCompressor) : Prop where
  formatVersion : (g.formatVersion = 0 ∧ r.formatVersion = zl.maxFormatVersion) ∨
    (r.formatVersion = g.formatVersion ∧ zl.minFormatVersion ≤ g.formatVersion ∧
      g.formatVersion ≤ zl.maxFormatVersion)
  compressionLevel : r.compressionLevel = g.compressionLevel ∧ 1 ≤ g.compressionLevel ∧
    g.compressionLevel ≤ 9
  chunkFits : g.parquetChunkBytes = -1 ∨ (0 ≤ g.parquetChunkBytes ∧ g.parquetChunkBytes ≤ intMax)
  chunkVersion : g.profile = "parquet" → 0 < g.parquetChunkBytes →
    zl.chunkVersionMin ≤ r.formatVersion
  chunk : ∀ n, r.compressor = .parquet n → n =
    if g.parquetChunkBytes = -1 then autoParquetChunkBytes zl r.formatVersion
    else g.parquetChunkBytes

/-- In every run of the entry point in which a compressor is configured. -/
def KeepsIntegers (zl : OpenZL) (s : SessionSettings) (e : EntryPoint) : Prop :=
  ∀ r, Receives zl s e r → Faithful zl (e.given s) r

/-! ## Conversions -/

structure GivenIntegers.InRange (g : GivenIntegers) : Prop where
  formatVersion : FitsInt g.formatVersion
  compressionLevel : 1 ≤ g.compressionLevel ∧ g.compressionLevel ≤ 9

/-- The level and the graph options are the integers given, converted. -/
structure Converts (g : GivenIntegers) (level : ℤ) (graph : GraphOptions) : Prop where
  formatVersion : graph.formatVersion = toInt g.formatVersion
  compressionLevel : level = toInt g.compressionLevel
  profile : graph.profile = g.profile
  chunkRange : -1 ≤ g.parquetChunkBytes ∧ g.parquetChunkBytes < 2 ^ 63
  chunk : graph.parquetChunkBytes =
    if g.parquetChunkBytes < 0 then kAutoParquetChunkBytes else g.parquetChunkBytes.toNat

variable {zl : OpenZL} {g : GivenIntegers} {level : ℤ} {graph : GraphOptions}
  {compressor : Compressor}

theorem resolve_bmod (hfits : graph.ChunkFits) :
    ((resolveParquetChunkBytes zl graph : ℕ) : ℤ).bmod (2 ^ 32) =
      resolveParquetChunkBytes zl graph := by
  have hle : ((resolveParquetChunkBytes zl graph : ℕ) : ℤ) ≤ intMax := by
    unfold resolveParquetChunkBytes
    split_ifs with hauto
    · exact hfits hauto
    · decide
    · decide
  refine toInt_eq_self_iff.mpr ⟨by omega, ?_⟩
  unfold intMax at hle
  omega

namespace Converts

theorem chunk_of_neg (h : Converts g level graph) (hneg : g.parquetChunkBytes < 0) :
    graph.parquetChunkBytes = kAutoParquetChunkBytes := by
  rw [h.chunk, if_pos hneg]

theorem chunk_of_nonneg (h : Converts g level graph) (hpos : 0 ≤ g.parquetChunkBytes) :
    graph.parquetChunkBytes ≠ kAutoParquetChunkBytes ∧
      (graph.parquetChunkBytes : ℤ) = g.parquetChunkBytes := by
  have hrange := h.chunkRange
  rw [h.chunk, if_neg (by omega)]
  unfold kAutoParquetChunkBytes
  omega

theorem nonneg_of_explicit (h : Converts g level graph)
    (hexplicit : graph.parquetChunkBytes ≠ kAutoParquetChunkBytes) : 0 ≤ g.parquetChunkBytes := by
  by_contra hneg
  exact hexplicit (h.chunk_of_neg (not_le.mp hneg))

theorem resolve_eq (h : Converts g level graph) :
    ((resolveParquetChunkBytes zl graph : ℕ) : ℤ) =
      if g.parquetChunkBytes = -1 then autoParquetChunkBytes zl (effectiveFormatVersion zl graph)
      else g.parquetChunkBytes := by
  have hrange := h.chunkRange
  unfold resolveParquetChunkBytes autoParquetChunkBytes
  by_cases hauto : g.parquetChunkBytes = -1
  · rw [if_neg (not_not_intro (h.chunk_of_neg (by omega))), if_pos hauto]
    by_cases hversion : effectiveFormatVersion zl graph ≥ zl.chunkVersionMin
    · rw [if_pos hversion, if_pos hversion]
      rfl
    · rw [if_neg hversion, if_neg hversion]
      rfl
  · obtain ⟨hexplicit, hsame⟩ := h.chunk_of_nonneg (by omega)
    rw [if_pos hexplicit, if_neg hauto, hsame]

/-- The format version OpenZL gets is the one given exactly if that fits an `int`. -/
theorem version_iff (hmax : FitsInt zl.maxFormatVersion) (h : Converts g level graph)
    (hsupported : graph.VersionSupported zl) :
    ((g.formatVersion = 0 ∧ effectiveFormatVersion zl graph = zl.maxFormatVersion) ∨
      (effectiveFormatVersion zl graph = g.formatVersion ∧
        zl.minFormatVersion ≤ g.formatVersion ∧ g.formatVersion ≤ zl.maxFormatVersion)) ↔
      FitsInt g.formatVersion := by
  unfold effectiveFormatVersion
  rw [h.formatVersion]
  constructor
  · rintro (⟨hzero, -⟩ | ⟨hsame, -, -⟩)
    · rw [hzero]
      exact ⟨by decide, by decide⟩
    · by_cases hwrapped : toInt g.formatVersion = 0
      · rw [if_pos hwrapped] at hsame
        rw [← hsame]
        exact hmax
      · rw [if_neg hwrapped] at hsame
        exact toInt_eq_self_iff.mp hsame
  · intro hfits
    rw [toInt_eq_self_iff.mpr hfits]
    by_cases hzero : g.formatVersion = 0
    · exact .inl ⟨hzero, if_pos hzero⟩
    · have hversion : graph.formatVersion = g.formatVersion :=
        h.formatVersion.trans (toInt_eq_self_iff.mpr hfits)
      have hrange := hsupported (by rwa [hversion])
      rw [hversion] at hrange
      exact .inr ⟨if_neg hzero, hrange⟩

theorem faithful_iff (hmax : FitsInt zl.maxFormatVersion) (h : Converts g level graph)
    (hsupported : graph.VersionSupported zl)
    (hcompressor : ∀ n, compressor = .parquet n →
      n = ((resolveParquetChunkBytes zl graph : ℕ) : ℤ).bmod (2 ^ 32)) :
    Faithful zl g ⟨compressor, effectiveFormatVersion zl graph, level⟩ ↔
      g.InRange ∧ graph.ChunkFits ∧ graph.ChunkSupported zl := by
  constructor
  · intro hfaithful
    refine ⟨⟨(h.version_iff hmax hsupported).mp hfaithful.formatVersion,
      hfaithful.compressionLevel.2⟩, fun hexplicit ↦ ?_, fun hexplicit hpos hprofile ↦ ?_⟩
    · have hnonneg := h.nonneg_of_explicit hexplicit
      rw [(h.chunk_of_nonneg hnonneg).2]
      rcases hfaithful.chunkFits with hauto | hfits
      · omega
      · exact hfits.2
    · have hsame := (h.chunk_of_nonneg (h.nonneg_of_explicit hexplicit)).2
      exact hfaithful.chunkVersion (h.profile.symm.trans hprofile) (by omega)
  · rintro ⟨hrange, hfits, hchunk⟩
    have hlevel : level = g.compressionLevel := by
      rw [h.compressionLevel, toInt_eq_self_iff]
      have := hrange.compressionLevel
      exact ⟨by omega, by omega⟩
    have hexplicit := h.chunkRange
    refine ⟨(h.version_iff hmax hsupported).mpr hrange.formatVersion,
      ⟨hlevel, hrange.compressionLevel⟩, ?_, fun hprofile hpos ↦ ?_, fun n hn ↦ ?_⟩
    · rcases lt_or_ge g.parquetChunkBytes 0 with hneg | hnonneg
      · exact .inl (by omega)
      · obtain ⟨hnot, hsame⟩ := h.chunk_of_nonneg hnonneg
        have := hfits hnot
        exact .inr ⟨hnonneg, by omega⟩
    · obtain ⟨hnot, hsame⟩ := h.chunk_of_nonneg hpos.le
      exact hchunk hnot (by omega) (h.profile.trans hprofile)
    · rw [hcompressor n hn, resolve_bmod hfits, h.resolve_eq]

end Converts

/-! ## The conversions of the entry points -/

section

variable {s : SessionSettings} {o : OpenerSettings}

theorem toInt_toInt (v : ℤ) : toInt (toInt v) = toInt v := by
  unfold toInt
  rw [Int.bmod_bmod]

theorem defaultFormatVersion_eq (s : SessionSettings) :
    (openzlDefaultGraphOptions s.toOpenerSettings).formatVersion = toInt s.given.formatVersion := by
  have hzero : toInt 0 = 0 := toInt_eq_self_iff.mpr ⟨by decide, by decide⟩
  unfold openzlDefaultGraphOptions SessionSettings.given
  cases s.formatVersion with
  | none => exact hzero.symm
  | some v => rfl

theorem defaultCompressionLevel_eq (s : SessionSettings) :
    openzlDefaultCompressionLevel s.toOpenerSettings = toInt s.given.compressionLevel := by
  unfold openzlDefaultCompressionLevel SessionSettings.given
  cases s.compressionLevel with
  | none => exact (toInt_eq_self_iff.mpr ⟨by decide, by decide⟩).symm
  | some v => rfl

theorem defaultChunk_eq (s : SessionSettings) :
    (openzlDefaultGraphOptions s.toOpenerSettings).parquetChunkBytes =
      if s.given.parquetChunkBytes < 0 then kAutoParquetChunkBytes
      else s.given.parquetChunkBytes.toNat := by
  unfold openzlDefaultGraphOptions SessionSettings.given
  cases s.parquetChunkBytes with
  | none => rfl
  | some v => rfl

theorem given_chunkRange (h : s.Checked) :
    -1 ≤ s.given.parquetChunkBytes ∧ s.given.parquetChunkBytes < 2 ^ 63 := by
  unfold SessionSettings.given
  cases hv : s.parquetChunkBytes with
  | none =>
      dsimp only [Option.getD_none]
      omega
  | some v => exact h.parquetChunkBytes v hv

/-- An integer that a statement gives fits, or the statement is refused. -/
theorem given_eq_toInt {given : Option Int64} {default : ℤ}
    (hfits : ∀ v, given.map Int64.toInt = some v → FitsInt v) :
    (given.map Int64.toInt).getD (toInt default) =
      toInt ((given.map Int64.toInt).getD default) := by
  cases given with
  | none => rfl
  | some v => exact (toInt_eq_self_iff.mpr (hfits _ rfl)).symm

theorem given_chunk {given : Option Int64} {default : ℤ}
    (hnonneg : ∀ v, given.map Int64.toInt = some v → 0 ≤ v) :
    ((given.map Int64.toInt).map Int.toNat).getD
        (if default < 0 then kAutoParquetChunkBytes else default.toNat) =
      if (given.map Int64.toInt).getD default < 0 then kAutoParquetChunkBytes
      else ((given.map Int64.toInt).getD default).toNat := by
  cases given with
  | none => rfl
  | some v => exact (if_neg (not_lt.mpr (hnonneg _ rfl))).symm

/-- The settings of the session, with a level that an entry point took. -/
theorem converts_defaults (h : s.Checked) (given : Option Int64)
    (hlevel : ∀ v, given.map Int64.toInt = some v → FitsInt v) :
    Converts (StatementIntegers.given { compressionLevel := given } s s.given.profile)
      ((given.map Int64.toInt).getD (openzlDefaultCompressionLevel s.toOpenerSettings))
      (openzlDefaultGraphOptions s.toOpenerSettings) where
  formatVersion := defaultFormatVersion_eq s
  compressionLevel := by
    rw [defaultCompressionLevel_eq]
    exact given_eq_toInt hlevel
  profile := rfl
  chunkRange := given_chunkRange h
  chunk := defaultChunk_eq s

theorem converts_writeSettings (h : s.Checked) :
    Converts s.given s.toOpenerSettings.writeSettings.compressionLevel
      s.toOpenerSettings.writeSettings.graph :=
  converts_defaults h none nofun

theorem converts_copy (h : s.Checked) {i : StatementIntegers} {options : CopyOptions}
    (haccepted : (i.copy options).Accepted zl s) :
    Converts (i.given s (options.profile.getD s.given.profile))
      ((i.copy options).bindData s).compressionLevel ((i.copy options).bindData s).graph where
  formatVersion := by
    have hdefault := defaultFormatVersion_eq s
    simp only [CopyOptions.bindData, hdefault]
    exact given_eq_toInt haccepted.formatVersion
  compressionLevel := by
    simp only [CopyOptions.bindData, defaultCompressionLevel_eq]
    exact given_eq_toInt haccepted.compressionLevel
  profile := rfl
  chunkRange := by
    have hdefault := given_chunkRange h
    have hgiven := haccepted.parquetChunkSizeBytes
    unfold StatementIntegers.copy at hgiven
    unfold StatementIntegers.given
    cases hchunk : i.parquetChunkBytes with
    | none => exact hdefault
    | some v =>
        have hnonneg : 0 ≤ v.toInt := hgiven _ (by rw [hchunk]; rfl)
        exact ⟨(by decide : (-1 : ℤ) ≤ 0).trans hnonneg, v.toInt_lt⟩
  chunk := by
    have hdefault := defaultChunk_eq s
    simp only [CopyOptions.bindData, hdefault]
    exact given_chunk haccepted.parquetChunkSizeBytes

/-- `openzl_train` takes the chunk size of the session in place of a negative one. -/
def GivenIntegers.orSession (g : GivenIntegers) (s : SessionSettings) : GivenIntegers :=
  { g with
    parquetChunkBytes :=
      if g.parquetChunkBytes < 0 then s.given.parquetChunkBytes else g.parquetChunkBytes }

theorem toInt_getD_toInt (given : Option ℤ) (default : ℤ) :
    toInt (given.getD (toInt default)) = toInt (given.getD default) := by
  cases given with
  | none => exact toInt_toInt default
  | some v => rfl

theorem toSize_eq_toNat {v : ℤ} (hnonneg : 0 ≤ v) (hlt : v < 2 ^ 63) : toSize v = v.toNat := by
  unfold toSize
  rw [Int.emod_eq_of_lt hnonneg (by omega)]

theorem train_chunk (given : Option Int64) (session : ℤ) :
    let chunk := (given.map Int64.toInt).getD (-1)
    let applying := (given.map Int64.toInt).getD session
    let used := if applying < 0 then session else applying
    (if chunk < 0 then if session < 0 then kAutoParquetChunkBytes else session.toNat
      else toSize chunk) = if used < 0 then kAutoParquetChunkBytes else used.toNat := by
  intro chunk applying used
  cases given with
  | none =>
      have hused : used = session := ite_self session
      rw [if_pos (by decide), hused]
  | some v =>
      have hchunk : chunk = v.toInt := rfl
      by_cases hneg : v.toInt < 0
      · have hused : used = session := if_pos hneg
        rw [hchunk, if_pos hneg, hused]
      · have hused : used = v.toInt := if_neg hneg
        rw [hchunk, if_neg hneg, hused, if_neg hneg]
        exact toSize_eq_toNat (not_lt.mp hneg) v.toInt_lt

theorem converts_train (h : s.Checked) (i : StatementIntegers) (parameters : TrainParameters) :
    Converts ((i.given s "parquet").orSession s)
      (openzlTrainBind s.toOpenerSettings (i.train parameters)).compressionLevel
      (openzlTrainBind s.toOpenerSettings (i.train parameters)).graph where
  formatVersion := by
    simp only [TrainOptions.graph, openzlTrainBind, getNamedBigint, defaultFormatVersion_eq]
    exact toInt_getD_toInt _ _
  compressionLevel := by
    simp only [openzlTrainBind, getNamedBigint, defaultCompressionLevel_eq]
    exact toInt_getD_toInt _ _
  profile := rfl
  chunkRange := by
    have hsession := given_chunkRange h
    unfold GivenIntegers.orSession StatementIntegers.given
    cases hchunk : i.parquetChunkBytes with
    | none => simpa using hsession
    | some v =>
        have hlt := v.toInt_lt
        dsimp only [Option.map_some, Option.getD_some]
        split_ifs with hneg
        · exact hsession
        · exact ⟨by omega, hlt⟩
  chunk := by
    have hsession := defaultChunk_eq s
    simp only [TrainOptions.graph, openzlTrainBind, getNamedBigint, hsession]
    exact train_chunk i.parquetChunkBytes s.given.parquetChunkBytes

end

/-! ## Requests -/

/-- The options pass the checks and a compressor can be built for them. -/
structure GraphOptions.Buildable (zl : OpenZL) (graph : GraphOptions) : Prop where
  valid : graph.Valid zl
  serial : graph.profile = "serial" → zl.innerGraphValid = true ∧ zl.graphValid = true

section

variable {size maxInputBytes : ℕ} {compressorBytes : Bytes} {cctx : CCtx}

theorem chooseCompressor_parquet {n : ℤ}
    (h : chooseCompressor zl compressorBytes graph = .ok (.parquet n)) :
    n = ((resolveParquetChunkBytes zl graph : ℕ) : ℤ).bmod (2 ^ 32) := by
  unfold chooseCompressor buildSerialCompressor at h
  split_ifs at h
  · cases Except.ok.inj h
  · cases Except.ok.inj h
  · exact (Compressor.parquet.inj (Except.ok.inj h)).symm

theorem chooseCompressor_buildable (h : graph.Buildable zl) :
    ∃ compressor, chooseCompressor zl [] graph = .ok compressor := by
  by_cases hserial : graph.profile = "serial"
  · obtain ⟨hinner, hgraph⟩ := h.serial hserial
    exact ⟨.serial, by simp [chooseCompressor, hserial, buildSerialCompressor, hinner, hgraph]⟩
  · exact ⟨buildParquetCompressor (resolveParquetChunkBytes zl graph),
      by simp [chooseCompressor, hserial]⟩

/-- A request with valid options is faithful exactly if the conversions kept the integers. -/
theorem Converts.request_faithful_iff (hmax : FitsInt zl.maxFormatVersion)
    (h : Converts g level graph)
    (hrequest : compressRequest zl size compressorBytes level maxInputBytes graph = .ok cctx) :
    Faithful zl g cctx.configured ↔ g.InRange := by
  obtain ⟨hvalid, -, -, compressor, hchoose, rfl⟩ := compressRequest_ok_iff.mp hrequest
  have hiff : Faithful zl g ⟨compressor, effectiveFormatVersion zl graph, level⟩ ↔
      g.InRange ∧ graph.ChunkFits ∧ graph.ChunkSupported zl := by
    refine h.faithful_iff hmax hvalid.version fun n hn ↦ ?_
    rw [hn] at hchoose
    exact chooseCompressor_parquet hchoose
  exact hiff.trans (and_iff_left ⟨hvalid.chunkFits, hvalid.chunkSupported⟩)

theorem compressRequest_of_buildable (h : graph.Buildable zl) (level : ℤ) (maxInputBytes : ℕ) :
    ∃ cctx, compressRequest zl 0 [] level maxInputBytes graph = .ok cctx := by
  obtain ⟨compressor, hchoose⟩ := chooseCompressor_buildable h
  exact ⟨_, compressRequest_ok_iff.mpr
    ⟨h.valid, fun hnil ↦ absurd rfl hnil, Nat.zero_le _, compressor, hchoose, rfl⟩⟩

theorem buildable_of_request
    (h : compressRequest zl size compressorBytes level maxInputBytes graph = .ok cctx) :
    graph.Buildable zl := by
  obtain ⟨hvalid, htrained, -, compressor, hchoose, -⟩ := compressRequest_ok_iff.mp h
  refine ⟨hvalid, fun hserial ↦ ?_⟩
  have hgeneric : compressorBytes = [] := by
    by_contra hsome
    rw [htrained hsome] at hserial
    exact absurd hserial (by decide)
  have hbuild : buildSerialCompressor zl = .ok compressor := by
    simpa [chooseCompressor, hserial, hgeneric] using hchoose
  unfold buildSerialCompressor at hbuild
  split_ifs at hbuild with hinner hgraph
  exact ⟨by simpa using hinner, by simpa using hgraph⟩

end

/-! ## The condition -/

/-- What has to fit, unless the checks on the way refuse the options anyway. -/
def EntryPoint.Keeps (zl : OpenZL) (s : SessionSettings) (e : EntryPoint) : Prop :=
  let graph := openzlDefaultGraphOptions s.toOpenerSettings
  match e with
  | .compress _ => FitsInt (e.given s).compressionLevel → graph.Buildable zl → (e.given s).InRange
  | .compressBlob _ =>
      FitsInt (e.given s).compressionLevel → graph.Valid zl → graph.profile = "parquet" →
        (e.given s).InRange
  | .copy i options =>
      (i.copy options).Accepted zl s → ((i.copy options).bindData s).graph.Buildable zl →
        (e.given s).InRange
  | .train i parameters =>
      let trained := (openzlTrainBind s.toOpenerSettings (i.train parameters)).graph
      trained.Valid zl → (e.given s).InRange ∧
        ((e.given s).parquetChunkBytes < 0 → (e.given s).parquetChunkBytes = -1 ∧
          (s.given.parquetChunkBytes = -1 ∨ s.given.parquetChunkBytes =
            autoParquetChunkBytes zl (effectiveFormatVersion zl trained)))
  | .writeHandle =>
      (graph.Buildable zl → (e.given s).InRange) ∧
        (graph.profile ≠ "serial" → graph.serial.Buildable zl →
          (e.given s).InRange ∧ graph.ChunkFits ∧ graph.ChunkSupported zl)

/-! ## Entry by entry -/

section

variable {s : SessionSettings} {given : Option Int64}

theorem openzlCompressLevel_eq_ok_iff {o : OpenerSettings} {given : Option ℤ} :
    openzlCompressLevel o given = .ok level ↔
      (∀ v, given = some v → FitsInt v) ∧ level = given.getD (openzlDefaultCompressionLevel o) := by
  unfold openzlCompressLevel
  rw [optionOr_eq_ok_iff getInt32_eq_ok_iff, Option.map_id']

/-- The level that applies fits if the one of the call does. -/
theorem fitsInt_level_iff (hchecked : s.Checked) :
    FitsInt ((given.map Int64.toInt).getD s.given.compressionLevel) ↔
      ∀ v, given.map Int64.toInt = some v → FitsInt v := by
  cases given with
  | some v => simp
  | none =>
      refine iff_of_true ?_ nofun
      unfold SessionSettings.given
      cases hlevel : s.compressionLevel with
      | none => exact ⟨by simp, by simp⟩
      | some v =>
          have hrange := hchecked.compressionLevel v hlevel
          exact ⟨by simp; omega, by simp; omega⟩

/-- A disk with one empty file. -/
def emptyInput : World := World.empty.put "a.parquet" []

theorem emptyInput_content : emptyInput.content "a.parquet" = some [] :=
  World.content_put_self _ _ _

theorem compress_keeps_iff (hmax : FitsInt zl.maxFormatVersion) (hchecked : s.Checked) :
    KeepsIntegers zl s (.compress given) ↔ EntryPoint.Keeps zl s (.compress given) := by
  constructor
  · intro hkeeps hfits hbuildable
    have hlevel := (fitsInt_level_iff hchecked).mp hfits
    obtain ⟨cctx, hrequest⟩ := compressRequest_of_buildable hbuildable
      ((given.map Int64.toInt).getD (openzlDefaultCompressionLevel s.toOpenerSettings))
      (openzlMaxCompressBytes s.toOpenerSettings)
    have hreceives : Receives zl s (.compress given) cctx.configured :=
      .compress (openzlCompressLevel_eq_ok_iff.mpr ⟨hlevel, rfl⟩)
        (compressParquetRequest_empty emptyInput_content hrequest)
    exact ((converts_defaults hchecked given hlevel).request_faithful_iff hmax hrequest).mp
      (hkeeps _ hreceives)
  · intro hkeeps r hreceives
    cases hreceives with
    | compress hlevel hrequest =>
        obtain ⟨hfits, rfl⟩ := openzlCompressLevel_eq_ok_iff.mp hlevel
        obtain ⟨compressorBytes, hrequest⟩ := compressParquetRequest_ok hrequest
        refine ((converts_defaults hchecked given hfits).request_faithful_iff hmax hrequest).mpr ?_
        exact hkeeps ((fitsInt_level_iff hchecked).mpr hfits) (buildable_of_request hrequest)

theorem compressBlob_keeps_iff (hmax : FitsInt zl.maxFormatVersion) (hchecked : s.Checked) :
    KeepsIntegers zl s (.compressBlob given) ↔ EntryPoint.Keeps zl s (.compressBlob given) := by
  constructor
  · intro hkeeps hfits hvalid hprofile
    have hlevel := (fitsInt_level_iff hchecked).mp hfits
    obtain ⟨cctx, hrequest⟩ : ∃ cctx, compressRequest zl 0 [0]
        ((given.map Int64.toInt).getD (openzlDefaultCompressionLevel s.toOpenerSettings))
        (openzlMaxCompressBytes s.toOpenerSettings) (openzlDefaultGraphOptions s.toOpenerSettings) =
          .ok cctx :=
      ⟨_, compressRequest_ok_iff.mpr
        ⟨hvalid, fun _ ↦ hprofile, Nat.zero_le _, .trained [0], rfl, rfl⟩⟩
    have hreceives : Receives zl s (.compressBlob given) cctx.configured :=
      .compressBlob (openzlCompressLevel_eq_ok_iff.mpr ⟨hlevel, rfl⟩)
        (compressParquetWithCompressorBytesRequest_empty emptyInput_content (List.cons_ne_nil _ _)
          hrequest)
    exact ((converts_defaults hchecked given hlevel).request_faithful_iff hmax hrequest).mp
      (hkeeps _ hreceives)
  · intro hkeeps r hreceives
    cases hreceives with
    | compressBlob hlevel hrequest =>
        obtain ⟨hfits, rfl⟩ := openzlCompressLevel_eq_ok_iff.mp hlevel
        obtain ⟨hsome, hrequest⟩ := compressParquetWithCompressorBytesRequest_ok hrequest
        obtain ⟨hvalid, htrained, -⟩ := compressRequest_ok_iff.mp hrequest
        refine ((converts_defaults hchecked given hfits).request_faithful_iff hmax hrequest).mpr ?_
        exact hkeeps ((fitsInt_level_iff hchecked).mpr hfits) hvalid (htrained hsome)

theorem copy_keeps_iff (hmax : FitsInt zl.maxFormatVersion) (hchecked : s.Checked)
    (i : StatementIntegers) (options : CopyOptions) :
    KeepsIntegers zl s (.copy i options) ↔ EntryPoint.Keeps zl s (.copy i options) := by
  constructor
  · intro hkeeps haccepted hbuildable
    obtain ⟨cctx, hrequest⟩ := compressRequest_of_buildable hbuildable
      ((i.copy options).bindData s).compressionLevel ((i.copy options).bindData s).maxCompressBytes
    obtain ⟨w, hload⟩ :=
      exists_loadCompressorFile_empty ((i.copy options).bindData s).trainedCompressorPath
    have hreceives : Receives zl s (.copy i options) cctx.configured :=
      .copy (openzlCopyBind_eq_ok_iff.mpr ⟨haccepted, rfl⟩)
        (compressParquetBytesRequest_generic [] hload hrequest)
    exact ((converts_copy hchecked haccepted).request_faithful_iff hmax hrequest).mp
      (hkeeps _ hreceives)
  · intro hkeeps r hreceives
    have hcopy : ∀ {size compressorBytes cctx},
        (i.copy options).Accepted zl s →
        compressRequest zl size compressorBytes ((i.copy options).bindData s).compressionLevel
          ((i.copy options).bindData s).maxCompressBytes ((i.copy options).bindData s).graph =
            .ok cctx → Faithful zl ((EntryPoint.copy i options).given s) cctx.configured := by
      intro size compressorBytes cctx haccepted hrequest
      refine ((converts_copy hchecked haccepted).request_faithful_iff hmax hrequest).mpr ?_
      exact hkeeps haccepted (buildable_of_request hrequest)
    cases hreceives with
    | copy hbind hrequest =>
        obtain ⟨haccepted, rfl⟩ := openzlCopyBind_eq_ok_iff.mp hbind
        obtain ⟨compressorBytes, hrequest⟩ := compressParquetBytesRequest_ok hrequest
        exact hcopy haccepted hrequest
    | copyFallback hbind hfirst hfallback hrequest =>
        obtain ⟨haccepted, rfl⟩ := openzlCopyBind_eq_ok_iff.mp hbind
        obtain ⟨compressorBytes, hrequest⟩ := compressParquetBytesRequest_ok hrequest
        exact hcopy haccepted hrequest

/-- The retry of `Close` checks the format version again and no chunk size. -/
theorem retry_faithful_iff {size maxInputBytes : ℕ} {compressorBytes : Bytes} {cctx : CCtx}
    (hmax : FitsInt zl.maxFormatVersion) (h : Converts g level graph)
    (hrequest : compressRequest zl size compressorBytes level maxInputBytes graph.serial =
      .ok cctx) :
    Faithful zl g cctx.configured ↔ g.InRange ∧ graph.ChunkFits ∧ graph.ChunkSupported zl := by
  obtain ⟨hvalid, htrained, -, compressor, hchoose, rfl⟩ := compressRequest_ok_iff.mp hrequest
  have hgeneric : compressorBytes = [] := by
    by_contra hsome
    exact absurd (htrained hsome) (by decide : ("serial" : String) ≠ "parquet")
  have hbuild : buildSerialCompressor zl = .ok compressor := by
    rw [hgeneric] at hchoose
    exact hchoose
  have hserial : compressor = .serial := by
    unfold buildSerialCompressor at hbuild
    split_ifs at hbuild
    exact (Except.ok.inj hbuild).symm
  rw [hserial]
  exact h.faithful_iff hmax (OpenzlWriteSettings.serial_valid_iff.mp hvalid) nofun

theorem writeHandle_keeps_iff (hmax : FitsInt zl.maxFormatVersion) (hchecked : s.Checked) :
    KeepsIntegers zl s .writeHandle ↔ EntryPoint.Keeps zl s .writeHandle := by
  have hconverts := converts_writeSettings hchecked
  let ws := s.toOpenerSettings.writeSettings
  let h : OpenzlFileHandle := { path := "openzl://a.ozl", writeSettings := ws }
  constructor
  · intro hkeeps
    have hfirst : ws.graph.Buildable zl → s.given.InRange := by
      intro hbuildable
      obtain ⟨cctx, hrequest⟩ :=
        compressRequest_of_buildable hbuildable ws.compressionLevel ws.maxCompressBytes
      have hreceives : Receives zl s .writeHandle cctx.configured :=
        .writeHandle (h := h) (w := World.empty) rfl
          (compressParquetBytesRequest_generic [] rfl hrequest)
      exact (hconverts.request_faithful_iff hmax hrequest).mp (hkeeps _ hreceives)
    refine ⟨hfirst, fun hprofile hbuildable ↦ ?_⟩
    by_cases hvalid : ws.graph.Valid zl
    · have hrange := hfirst ⟨hvalid, fun hserial ↦ absurd hserial hprofile⟩
      exact ⟨hrange, hvalid.chunkFits, hvalid.chunkSupported⟩
    · obtain ⟨e, he⟩ := frame_of_not_valid hvalid []
      have hthrows := compressParquetBytes_eq zl [] h.tmpPath ws ws.graph World.empty
      rw [he] at hthrows
      obtain ⟨cctx, hrequest⟩ :=
        compressRequest_of_buildable hbuildable ws.compressionLevel ws.maxCompressBytes
      have hreceives : Receives zl s .writeHandle cctx.configured :=
        .writeHandleRetry (h := h) rfl hthrows ⟨hprofile, Nat.zero_le _⟩
          (compressParquetBytesRequest_generic [] rfl hrequest)
      exact (retry_faithful_iff hmax hconverts hrequest).mp (hkeeps _ hreceives)
  · intro hkeeps r hreceives
    cases hreceives with
    | writeHandle hsettings hrequest =>
        rw [hsettings] at hrequest
        obtain ⟨compressorBytes, hrequest⟩ := compressParquetBytesRequest_ok hrequest
        exact (hconverts.request_faithful_iff hmax hrequest).mpr
          (hkeeps.1 (buildable_of_request hrequest))
    | writeHandleRetry hsettings hfirst hretry hrequest =>
        rw [hsettings] at hretry hrequest
        obtain ⟨compressorBytes, hrequest⟩ := compressParquetBytesRequest_ok hrequest
        exact (retry_faithful_iff hmax hconverts hrequest).mpr
          (hkeeps.2 hretry.1 (buildable_of_request hrequest))

theorem train_faithful_iff {i : StatementIntegers} {parameters : TrainParameters}
    (hmax : FitsInt zl.maxFormatVersion) (hchecked : s.Checked) :
    let opts := openzlTrainBind s.toOpenerSettings (i.train parameters)
    let g := i.given s "parquet"
    opts.graph.Valid zl → (Faithful zl g (opts.configured zl) ↔ g.InRange ∧
      (g.parquetChunkBytes < 0 → g.parquetChunkBytes = -1 ∧
        (s.given.parquetChunkBytes = -1 ∨ s.given.parquetChunkBytes =
          autoParquetChunkBytes zl (effectiveFormatVersion zl opts.graph)))) := by
  intro opts g hvalid
  have hconverts : Converts (g.orSession s) opts.compressionLevel opts.graph :=
    converts_train hchecked i parameters
  have hparquet : ∀ n, buildParquetCompressor (resolveParquetChunkBytes zl opts.graph) =
      .parquet n → n = ((resolveParquetChunkBytes zl opts.graph : ℕ) : ℤ).bmod (2 ^ 32) :=
    fun n hn ↦ (Compressor.parquet.inj hn).symm
  have hused : Faithful zl (g.orSession s) (opts.configured zl) ↔
      (g.orSession s).InRange ∧ opts.graph.ChunkFits ∧ opts.graph.ChunkSupported zl :=
    hconverts.faithful_iff hmax hvalid.version hparquet
  constructor
  · intro hfaithful
    refine ⟨⟨(hconverts.version_iff hmax hvalid.version).mp hfaithful.formatVersion,
      hfaithful.compressionLevel.2⟩, fun hneg ↦ ?_⟩
    have hauto : g.parquetChunkBytes = -1 := by
      rcases hfaithful.chunkFits with hauto | ⟨hnonneg, -⟩
      · exact hauto
      · omega
    refine ⟨hauto, ?_⟩
    have hchunk := hfaithful.chunk _ rfl
    have hsession : (g.orSession s).parquetChunkBytes = s.given.parquetChunkBytes := if_pos hneg
    rw [resolve_bmod hvalid.chunkFits, hconverts.resolve_eq, hsession, if_pos hauto] at hchunk
    by_cases hsentinel : s.given.parquetChunkBytes = -1
    · exact .inl hsentinel
    · rw [if_neg hsentinel] at hchunk
      exact .inr hchunk
  · rintro ⟨hrange, hchunk⟩
    have hfaithful := hused.mpr
      ⟨⟨hrange.formatVersion, hrange.compressionLevel⟩, hvalid.chunkFits, hvalid.chunkSupported⟩
    by_cases hneg : g.parquetChunkBytes < 0
    · obtain ⟨hauto, hsession⟩ := hchunk hneg
      refine ⟨hfaithful.formatVersion, hfaithful.compressionLevel, .inl hauto,
        fun _ hpos ↦ absurd hpos (by omega), fun n hn ↦ ?_⟩
      have hkept : (g.orSession s).parquetChunkBytes = s.given.parquetChunkBytes := if_pos hneg
      rw [hfaithful.chunk n hn, hkept, if_pos hauto]
      split_ifs with hsentinel
      · rfl
      · exact hsession.resolve_left hsentinel
    · have hkept : g.orSession s = g := by
        unfold GivenIntegers.orSession
        rw [if_neg hneg]
      rwa [hkept] at hfaithful

theorem train_keeps_iff (hmax : FitsInt zl.maxFormatVersion) (hchecked : s.Checked)
    (i : StatementIntegers) (parameters : TrainParameters) :
    KeepsIntegers zl s (.train i parameters) ↔ EntryPoint.Keeps zl s (.train i parameters) := by
  constructor
  · intro hkeeps hvalid
    obtain ⟨samples, w, hrequest⟩ := trainRequest_sample hvalid
    exact (train_faithful_iff hmax hchecked hvalid).mp (hkeeps _ (.train hrequest))
  · intro hkeeps r hreceives
    cases hreceives with
    | train hrequest =>
        obtain ⟨hvalid, rfl⟩ := trainRequest_ok hrequest
        exact (train_faithful_iff hmax hchecked hvalid).mpr (hkeeps hvalid)

/-- After any `SET`s, an entry point keeps the integers exactly if they fit where it needs that. -/
theorem keepsIntegers_iff (hmax : FitsInt zl.maxFormatVersion) (statements : List SetStatement)
    (e : EntryPoint) :
    KeepsIntegers zl (settingsAfter statements) e ↔ e.Keeps zl (settingsAfter statements) := by
  have hchecked := settingsAfter_checked statements
  cases e with
  | compress level => exact compress_keeps_iff hmax hchecked
  | compressBlob level => exact compressBlob_keeps_iff hmax hchecked
  | copy i options => exact copy_keeps_iff hmax hchecked i options
  | train i parameters => exact train_keeps_iff hmax hchecked i parameters
  | writeHandle => exact writeHandle_keeps_iff hmax hchecked

theorem keepsIntegers_pinnedVersion :
    KeepsIntegers .stored (settingsAfter [.formatVersion (some 21)])
      (.copy { parquetChunkBytes := some 1000 } {}) := by
  have hmax : FitsInt OpenZL.stored.maxFormatVersion := ⟨by decide, by decide⟩
  refine (keepsIntegers_iff hmax [.formatVersion (some 21)]
    (.copy { parquetChunkBytes := some 1000 } {})).mpr ?_
  intro _ _
  exact ⟨⟨by decide +kernel, by decide +kernel⟩, by decide +kernel⟩

/-- 2^32 + 21 becomes version 21. -/
theorem not_keepsIntegers_wrappedVersion :
    ¬ KeepsIntegers .stored (settingsAfter [.formatVersion (some 4294967317)]) .writeHandle := by
  intro hkeeps
  have hchecked := settingsAfter_checked [.formatVersion (some 4294967317)]
  have hmax : FitsInt OpenZL.stored.maxFormatVersion := ⟨by decide, by decide⟩
  have hrange := ((writeHandle_keeps_iff hmax hchecked).mp hkeeps).1
    ⟨⟨by decide +kernel, by decide +kernel, by decide +kernel, by decide +kernel⟩,
      by decide +kernel⟩
  exact absurd hrange.formatVersion.2 (by decide +kernel)

end

end DuckdbOpenzl
