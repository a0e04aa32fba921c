import DuckdbOpenzl.Library.StateLoops
import DuckdbOpenzl.Session.EntryPoints

/-!
# `openzl_train`

`Train` hands the samples to OpenZL's search, measures the candidates that come
back if it is asked to, and writes one file a candidate. Binding the table
function runs it; the scan afterwards emits one row a candidate, a vector at a
time.
-/

set_option autoImplicit false

namespace DuckdbOpenzl

open ExceptionState

/-! ## The search -/

inductive ClusteringTrainer where
  | greedy
  | bottomUp
  | fullSplit
  deriving DecidableEq

/-- The options of `Train` beside `TrainOptions`; `benchmark` is `none` when it is not set. -/
structure SearchOptions where
  threads : ℕ := 0
  clusteringTrainer : ClusteringTrainer := .greedy
  noAceSuccessors : Bool := false
  noClustering : Bool := false
  dictTraining : Bool := false
  maxTimeSecs : ℕ := 0
  paretoFrontier : Bool := false
  maxNumCandidates : ℕ := 0
  benchmark : Option Bool := none
  benchmarkPaths : List Path := []

/-- `openzl::training::TrainParams`; what is `none` stays as OpenZL has it. -/
structure TrainParams where
  threads : Option ℕ
  clusteringTrainer : ClusteringTrainer
  numSamples : Option ℕ
  noAceSuccessors : Bool
  noClustering : Bool
  dictTraining : Bool
  maxTimeSecs : Option ℕ
  maxFileSizeMb : Option ℕ
  maxTotalSizeMb : Option ℕ
  paretoFrontier : Bool
  maxNumCandidates : Option ℕ

structure TrainedCandidate where
  serializedCompressor : Bytes
  dicts : List Bytes

/-- What a benchmark measures; `δ` is the type of its ratios and speeds. -/
structure BenchmarkResult (δ : Type) where
  originalSize : ℕ
  compressedSize : ℕ
  compressionRatio : δ
  compressionSpeedMBps : δ
  decompressionSpeedMBps : δ

/-- The training part of OpenZL. `benchmark` is given a serialized compressor, its dictionaries and
the inputs. -/
structure Training (δ : Type) where
  train : List Bytes → ConfiguredCompressor → TrainParams → Except String (List TrainedCandidate)
  packFatBundle : TrainedCandidate → Except String Bytes
  benchmark : Bytes → Bytes → List Bytes → Except String (Option (BenchmarkResult δ))

/-- One candidate that was trained; `path` is empty if it was not written. -/
structure TrainedOutput (δ : Type) where
  path : Path
  compressorBytes : Bytes
  benchmark : Option (BenchmarkResult δ)

def unlessZero (n : ℕ) : Option ℕ := if n > 0 then some n else none

def trainParams (opts : TrainOptions) (search : SearchOptions) : TrainParams where
  threads := unlessZero search.threads
  clusteringTrainer := search.clusteringTrainer
  numSamples := unlessZero opts.numSamples
  noAceSuccessors := search.noAceSuccessors
  noClustering := search.noClustering
  dictTraining := search.dictTraining
  maxTimeSecs := unlessZero search.maxTimeSecs
  maxFileSizeMb := unlessZero opts.maxFileSizeMb
  maxTotalSizeMb := unlessZero opts.maxTotalSizeMb
  paretoFrontier := search.paretoFrontier
  maxNumCandidates := unlessZero search.maxNumCandidates

/-! ## `Train` -/

def numberedPath (outputPath : Path) (i : ℕ) : Path := outputPath ++ "." ++ toString i

def trainingFailed (what : String) : Error := ⟨"openzl_bridge: training failed: " ++ what⟩

def SearchOptions.doBenchmark (search : SearchOptions) : Bool :=
  search.benchmark.getD search.paretoFrontier

section

variable {δ : Type} (tr : Training δ) (search : SearchOptions)

def benchmarkCandidate (benchSet : List Bytes) (cand : TrainedCandidate) :
    Except Error (Option (BenchmarkResult δ)) := do
  if !search.doBenchmark then
    return none
  let fatBundle ← if cand.dicts.isEmpty then pure []
    else (tr.packFatBundle cand).mapError trainingFailed
  let res ← (tr.benchmark cand.serializedCompressor fatBundle benchSet).mapError trainingFailed
  if res.isNone then
    throw ⟨"openzl_bridge: benchmarking a trained candidate failed"⟩
  return res

/-- Measure a candidate and write it to `path`, unless there is no output path. -/
def trainOutput (benchSet : List Bytes) (outputPath path : Path) (cand : TrainedCandidate) :
    BridgeM (TrainedOutput δ) := do
  let measured ← MonadExcept.ofExcept (benchmarkCandidate tr search benchSet cand)
  if outputPath.isEmpty then
    return ⟨"", cand.serializedCompressor, measured⟩
  writeFile path cand.serializedCompressor
  return ⟨path, cand.serializedCompressor, measured⟩

def requireBenchmark (path : Path) (file : Option Bytes) : Except Error Unit :=
  if file.isSome then .ok () else .error ⟨"openzl_bridge: benchmark file not found: " ++ path⟩

def readBenchmarks : BridgeM (List Bytes) :=
  if search.doBenchmark then
    search.benchmarkPaths.mapM fun path ↦ do
      opened path (requireBenchmark path)
      opened path (readFile path)
  else pure []

/-- The inputs to measure on: the benchmark files, or the samples if there are none. -/
def benchInputs (samples : List Bytes) : BridgeM (List Bytes) := do
  let inputs ← readBenchmarks search
  return if inputs.isEmpty then samples else inputs

/-- `Train` up to the loop over the candidates, and the inputs to measure them on. -/
def searchCandidates (zl : OpenZL) (samplePaths : List Path) (opts : TrainOptions) :
    BridgeM (List TrainedCandidate × List Bytes) := do
  let (compressor, samples) ← trainRequest zl samplePaths opts
  let candidates ← MonadExcept.ofExcept
    ((tr.train samples compressor (trainParams opts search)).mapError trainingFailed)
  if candidates.isEmpty then
    throw ⟨"openzl_bridge: training produced no candidates"⟩
  let benchSet ← benchInputs search samples
  return (candidates, benchSet)

/-- The rest of `Train`. -/
def outputCandidates (outputPath : Path) (candidates : List TrainedCandidate)
    (benchSet : List Bytes) : BridgeM (List (TrainedOutput δ)) := do
  if search.paretoFrontier then
    candidates.zipIdx.mapM fun cand ↦
      trainOutput tr search benchSet outputPath (numberedPath outputPath cand.2) cand.1
  else
    if candidates.length ≠ 1 then
      throw ⟨"openzl_bridge: non-Pareto training produced " ++ toString candidates.length ++
        " candidates, expected 1"⟩
    candidates.mapM fun cand ↦ trainOutput tr search benchSet outputPath outputPath cand

def train (zl : OpenZL) (samplePaths : List Path) (outputPath : Path) (opts : TrainOptions) :
    BridgeM (List (TrainedOutput δ)) := do
  let (candidates, benchSet) ← searchCandidates tr search zl samplePaths opts
  outputCandidates tr search outputPath candidates benchSet

end

/-! ## The table function -/

/-- The named parameters of `openzl_train` beside `TrainParameters`. -/
structure SearchParameters where
  threads : Option ℤ := none
  clusteringTrainer : Option String := none
  noAceSuccessors : Option Bool := none
  noClustering : Option Bool := none
  dictTraining : Option Bool := none
  maxTimeSecs : Option ℤ := none
  paretoFrontier : Option Bool := none
  maxNumCandidates : Option ℤ := none
  benchmark : Option Bool := none
  benchmarkFiles : Option (List Path) := none

/-- `static_cast<unsigned int>` of an `int64_t`. -/
def toUnsigned (v : ℤ) : ℕ := (v % 2 ^ 32).toNat

def parseClusteringTrainer (value : String) : Except BindException ClusteringTrainer :=
  if value = "greedy" then .ok .greedy
  else if value = "bottom_up" then .ok .bottomUp
  else if value = "full_split" then .ok .fullSplit
  else .error (.binder ("openzl_train: clustering_trainer must be 'greedy', 'bottom_up', or " ++
    "'full_split', got '" ++ value ++ "'"))

def searchOptions (p : SearchParameters) : Except BindException SearchOptions := do
  let clusteringTrainer ← parseClusteringTrainer (p.clusteringTrainer.getD "greedy")
  return {
    threads := toUnsigned (getNamedBigint p.threads 0)
    clusteringTrainer := clusteringTrainer
    noAceSuccessors := p.noAceSuccessors.getD false
    noClustering := p.noClustering.getD false
    dictTraining := p.dictTraining.getD false
    maxTimeSecs := toSize (getNamedBigint p.maxTimeSecs 0)
    paretoFrontier := p.paretoFrontier.getD false
    maxNumCandidates := toSize (getNamedBigint p.maxNumCandidates 0)
    benchmark := p.benchmark
    benchmarkPaths := p.benchmarkFiles.getD [] }

/-- `OpenzlTrainBind`: a list of sample paths, and an output path that may be NULL. -/
def openzlTrain {δ : Type} (zl : OpenZL) (tr : Training δ) (o : OpenerSettings)
    (samplePaths : Option (List Path)) (outputPath : Option Path) (p : TrainParameters)
    (q : SearchParameters) : Except BindException (BridgeM (List (TrainedOutput δ))) := do
  let paths ← samplePaths.elim (throw (.binder ("openzl_train: first argument must be a list of " ++
    "sample file paths, e.g. ['a.parquet', 'b.parquet']"))) pure
  let search ← searchOptions q
  return train tr search zl paths (outputPath.getD "") (openzlTrainBind o p)

/-- A row of the result; what is NULL is `none`. -/
structure TrainRow (δ : Type) where
  candidateIndex : ℤ
  outputPath : Option Path
  compressorBytes : Bytes
  compressionRatio : Option δ
  compressMbS : Option δ
  decompressMbS : Option δ

def trainRow {δ : Type} (offset : ℕ) (out : TrainedOutput δ) : TrainRow δ where
  candidateIndex := offset
  outputPath := if out.path.isEmpty then none else some out.path
  compressorBytes := out.compressorBytes
  compressionRatio := out.benchmark.map (·.compressionRatio)
  compressMbS := out.benchmark.map (·.compressionSpeedMBps)
  decompressMbS := out.benchmark.map (·.decompressionSpeedMBps)

def standardVectorSize : ℕ := 2048

/-- The loop of `OpenzlTrainFunction`, while the vector has room. -/
def trainLoop {δ : Type} (outputs : List (TrainedOutput δ)) : ℕ → ℕ → List (TrainRow δ) × ℕ
  | 0, offset => ([], offset)
  | room + 1, offset =>
      match outputs[offset]? with
      | none => ([], offset)
      | some out =>
          let rest := trainLoop outputs room (offset + 1)
          (trainRow offset out :: rest.1, rest.2)

def openzlTrainFunction {δ : Type} (outputs : List (TrainedOutput δ)) (offset : ℕ) :
    List (TrainRow δ) × ℕ :=
  trainLoop outputs standardVectorSize offset

/-- The vectors of the next calls. -/
def trainVectors {δ : Type} (outputs : List (TrainedOutput δ)) : ℕ → ℕ → List (List (TrainRow δ))
  | 0, _ => []
  | calls + 1, offset =>
      let vector := openzlTrainFunction outputs offset
      vector.1 :: trainVectors outputs calls vector.2

end DuckdbOpenzl
