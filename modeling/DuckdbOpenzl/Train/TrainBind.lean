import DuckdbOpenzl.Copy.CopyBind
import DuckdbOpenzl.Train.SelectSamples

/-!
# Binding `openzl_train`

The numbers of `openzl_train` come from its named parameters and the settings
of the session. `Train` selects and reads the samples, checks the graph options
and sets up the compressor that OpenZL's training starts from.
-/

set_option autoImplicit false

namespace DuckdbOpenzl

open ExceptionState

/-! ## The parameters -/

/-- The named parameters that the modelled part reads; one that is missing or NULL is `none`. -/
structure TrainParameters where
  numSamples : Option ℤ := none
  maxFileSizeMb : Option ℤ := none
  maxTotalSizeMb : Option ℤ := none
  compressionLevel : Option ℤ := none
  formatVersion : Option ℤ := none
  parquetChunkBytes : Option ℤ := none

def getNamedBigint (given : Option ℤ) (default : ℤ) : ℤ := given.getD default

/-- The numbers of `OpenzlTrainBind`. -/
def openzlTrainBind (o : OpenerSettings) (p : TrainParameters) : TrainOptions :=
  let g := openzlDefaultGraphOptions o
  let chunk := getNamedBigint p.parquetChunkBytes (-1)
  { numSamples := toSize (getNamedBigint p.numSamples 0)
    maxFileSizeMb := toSize (getNamedBigint p.maxFileSizeMb 0)
    maxTotalSizeMb := toSize (getNamedBigint p.maxTotalSizeMb 0)
    compressionLevel := toInt (getNamedBigint p.compressionLevel (openzlDefaultCompressionLevel o))
    formatVersion := toInt (getNamedBigint p.formatVersion g.formatVersion)
    parquetChunkBytes := if chunk < 0 then g.parquetChunkBytes else toSize chunk }

/-! ## `Train` up to the training -/

/-- A compressor and the parameters set on it or on its context. -/
structure ConfiguredCompressor where
  compressor : Compressor
  formatVersion : ℤ
  compressionLevel : ℤ
  deriving DecidableEq

def CCtx.configured (cctx : CCtx) : ConfiguredCompressor :=
  ⟨cctx.compressor, cctx.formatVersion, cctx.compressionLevel⟩

def TrainOptions.graph (opts : TrainOptions) : GraphOptions :=
  { formatVersion := opts.formatVersion, parquetChunkBytes := opts.parquetChunkBytes }

def requireSample (path : Path) (file : Option Bytes) : Except Error Unit :=
  if file.isSome then .ok () else .error ⟨"openzl_bridge: sample file not found: " ++ path⟩

/-- What `Train` does before OpenZL is called: the compressor it starts from, and the samples. -/
def trainRequest (zl : OpenZL) (samplePaths : List Path) (opts : TrainOptions) :
    BridgeM (ConfiguredCompressor × List Bytes) := do
  if samplePaths.isEmpty then
    throw ⟨"openzl_bridge: Train() requires at least one sample file"⟩
  samplePaths.forM fun path ↦ opened path (requireSample path)
  let selectedPaths ← fun w ↦ returned (selectSamplePaths samplePaths opts w) w
  let samples ← selectedPaths.mapM fun path ↦ opened path (readFile path)
  MonadExcept.ofExcept (validateGraphOptions zl opts.graph)
  let compressor := buildParquetCompressor (resolveParquetChunkBytes zl opts.graph)
  return (⟨compressor, effectiveFormatVersion zl opts.graph, opts.compressionLevel⟩, samples)

variable {zl : OpenZL} {samplePaths : List Path} {opts : TrainOptions}

/-- The compressor that training with these options starts from. -/
def TrainOptions.configured (zl : OpenZL) (opts : TrainOptions) : ConfiguredCompressor :=
  ⟨buildParquetCompressor (resolveParquetChunkBytes zl opts.graph),
    effectiveFormatVersion zl opts.graph, opts.compressionLevel⟩

theorem trainRequest_ok {base : ConfiguredCompressor} {samples : List Bytes} {w w' : World}
    (h : trainRequest zl samplePaths opts w = .ok (base, samples) w') :
    opts.graph.Valid zl ∧ base = opts.configured zl := by
  unfold trainRequest at h
  split_ifs at h
  · cases h
  · obtain ⟨u, w₁, -, h⟩ := bind_eq_ok_iff.mp h
    obtain ⟨selectedPaths, w₂, -, h⟩ := bind_eq_ok_iff.mp h
    obtain ⟨read, w₃, -, h⟩ := bind_eq_ok_iff.mp h
    obtain ⟨u', w₄, hvalid, h⟩ := bind_eq_ok_iff.mp h
    obtain ⟨hbase, -⟩ := Prod.mk.inj (EStateM.Result.ok.inj h).1
    refine ⟨validateGraphOptions_ok_iff.mp ?_, hbase.symm⟩
    cases hcheck : validateGraphOptions zl opts.graph with
    | ok u'' => rfl
    | error e =>
        rw [hcheck] at hvalid
        cases hvalid

/-- One empty sample is enough. -/
theorem trainRequest_sample (h : opts.graph.Valid zl) :
    ∃ samples w, trainRequest zl ["s.parquet"] opts (World.empty.put "s.parquet" []) =
      .ok (opts.configured zl, samples) w := by
  let w := World.empty.put "s.parquet" []
  have hcontent : w.content "s.parquet" = some [] := World.content_put_self _ _ _
  have hselected : selectSamplePaths ["s.parquet"] opts w = .ok ["s.parquet"] := by
    have hloop : selectLoop (fun path ↦ fileSize (w.content path)) opts ["s.parquet"] [] 0 =
        ["s.parquet"] := by
      simp only [selectLoop, hcontent, fileSize, List.length_nil]
      rw [if_neg (by omega), if_neg (by omega), if_neg (by simp)]
      rfl
    unfold selectSamplePaths
    rw [hloop]
    rfl
  have hvalid := validateGraphOptions_ok_iff.mpr h
  refine ⟨[[]], w, ?_⟩
  have hopened : opened "s.parquet" (requireSample "s.parquet") w = .ok () w := by
    simp [opened, hcontent, requireSample, returned]
  have hread : opened "s.parquet" (readFile "s.parquet") w = .ok [] w := by
    simp [opened, hcontent, readFile, returned]
  unfold trainRequest
  rw [if_neg (by decide)]
  refine bind_eq_ok_iff.mpr ⟨(), w, ?_, bind_eq_ok_iff.mpr ⟨["s.parquet"], w, ?_,
    bind_eq_ok_iff.mpr ⟨[[]], w, ?_, bind_eq_ok_iff.mpr ⟨(), w, ?_, rfl⟩⟩⟩⟩
  · exact bind_eq_ok_iff.mpr ⟨(), w, hopened, rfl⟩
  · simp [hselected, returned]
  · rw [List.mapM_cons]
    exact bind_eq_ok_iff.mpr ⟨[], w, hread, rfl⟩
  · rw [hvalid]
    rfl

end DuckdbOpenzl
