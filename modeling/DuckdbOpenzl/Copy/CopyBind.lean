import DuckdbOpenzl.Bridge.Requests
import DuckdbOpenzl.Copy.CopyFunction
import DuckdbOpenzl.FileSystem.OpenFile

/-!
# Binding a COPY

`OpenzlCopyBind` takes its defaults from the settings of the session, replaces
those the statement names, and checks the graph options before anything is
written.
-/

set_option autoImplicit false

namespace DuckdbOpenzl

/-! ## Defaults -/

def openzlDefaultCompressionLevel (o : OpenerSettings) : ℤ := (o.compressionLevel.map toInt).getD 9

def openzlMaxCompressBytes (o : OpenerSettings) : ℕ :=
  o.maxCompressBytes.getD kDefaultMaxCompressBytes

def openzlDefaultGraphOptions (o : OpenerSettings) : GraphOptions where
  formatVersion := (o.formatVersion.map toInt).getD 0
  profile := o.profile.getD "parquet"
  permissive := (o.permissiveCompression.map fun p ↦ if p then (1 : ℤ) else 0).getD (-1)
  parquetChunkBytes := (o.parquetChunkBytes.map fun bytes ↦
    if bytes < 0 then kAutoParquetChunkBytes else bytes.toNat).getD kAutoParquetChunkBytes

/-- A file opened for writing is compressed with the defaults of everything else. -/
theorem writeSettings_eq (o : OpenerSettings) : o.writeSettings =
    ⟨openzlDefaultCompressionLevel o, openzlMaxCompressBytes o, openzlDefaultGraphOptions o⟩ :=
  rfl

/-- The settings of a session: those of an opener, and `openzl_chunk_size_bytes`. -/
structure SessionSettings extends OpenerSettings where
  chunkSizeBytes : Option ℕ := none

def openzlDefaultChunkBytes (s : SessionSettings) : ℕ := s.chunkSizeBytes.getD kDefaultChunkBytes

/-! ## The statement -/

/-- The options of a `COPY ... (FORMAT OPENZL)` that are not the parquet writer's; one that is not
given is `none`. -/
structure CopyOptions where
  trainedCompressor : Option Path := none
  compressionLevel : Option ℤ := none
  inMemory : Option Bool := none
  chunkSizeBytes : Option ℤ := none
  formatVersion : Option ℤ := none
  profile : Option String := none
  permissive : Option Bool := none
  fallbackToGeneric : Option Bool := none
  parquetChunkSizeBytes : Option ℤ := none

/-- `castError` is what the database throws for a value that is no `int32_t`. -/
inductive BindException where
  | binder (what : String)
  | castError (value : ℤ)
  deriving DecidableEq, Repr

/-- `GetValue<int32_t>()` -/
def getInt32 (v : ℤ) : Except BindException ℤ :=
  if -2 ^ 31 ≤ v ∧ v < 2 ^ 31 then .ok v else .error (.castError v)

/-- An option that replaces a default, if it is given. -/
def optionOr {α β : Type} (given : Option α) (default : β) (convert : α → Except BindException β) :
    Except BindException β :=
  match given with
  | some v => convert v
  | none => .ok default

/-- A size that an option gives as a `BIGINT`. -/
def nonNegative (message : String) (v : ℤ) : Except BindException ℕ :=
  if v < 0 then .error (.binder message) else .ok v.toNat

/-- `OpenzlCopyBind`, without the binding of the parquet writer. -/
def openzlCopyBind (zl : OpenZL) (s : SessionSettings) (options : CopyOptions) :
    Except BindException OpenzlCopyBindData := do
  let trainedCompressorPath := options.trainedCompressor.getD ""
  let compressionLevel ← optionOr options.compressionLevel
    (openzlDefaultCompressionLevel s.toOpenerSettings) getInt32
  let inMemory := options.inMemory.getD true
  let chunkSizeBytes ← optionOr options.chunkSizeBytes (openzlDefaultChunkBytes s)
    (nonNegative "CHUNK_SIZE_BYTES must be >= 0 (0 disables chunking)")
  let maxCompressBytes := openzlMaxCompressBytes s.toOpenerSettings
  let defaults := openzlDefaultGraphOptions s.toOpenerSettings
  let formatVersion ← optionOr options.formatVersion defaults.formatVersion getInt32
  let profile := options.profile.getD defaults.profile
  let permissive := (options.permissive.map fun p ↦ if p then (1 : ℤ) else 0).getD
    defaults.permissive
  let fallbackToGeneric := options.fallbackToGeneric.getD false
  let parquetChunkBytes ← optionOr options.parquetChunkSizeBytes defaults.parquetChunkBytes
    (nonNegative "PARQUET_CHUNK_SIZE_BYTES must be >= 0 (0 = no internal chunking)")
  let graph : GraphOptions := ⟨formatVersion, profile, parquetChunkBytes, permissive⟩
  (validateGraphOptions zl graph).mapError fun e ↦ .binder e.what
  if !trainedCompressorPath.isEmpty ∧ graph.profile ≠ "parquet" then
    throw (.binder
      ("COPY ... FORMAT OPENZL: TRAINED_COMPRESSOR is built on the parquet profile and " ++
        "can't be combined with PROFILE '" ++ graph.profile ++ "'"))
  return { trainedCompressorPath, compressionLevel, inMemory, chunkSizeBytes, maxCompressBytes
           graph, fallbackToGeneric }

/-! ## When a COPY is bound -/

variable {zl : OpenZL} {s : SessionSettings} {options : CopyOptions} {bind : OpenzlCopyBindData}

def FitsInt (v : ℤ) : Prop := -2 ^ 31 ≤ v ∧ v < 2 ^ 31

theorem toInt_eq_self_iff {v : ℤ} : toInt v = v ↔ FitsInt v := by
  unfold toInt FitsInt
  rw [Int.bmod_def]
  split_ifs <;> omega

section

variable {α β : Type} {given : Option α} {default b : β} {convert : α → Except BindException β}

theorem optionOr_none (default : β) (convert : α → Except BindException β) :
    optionOr none default convert = .ok default :=
  rfl

theorem optionOr_eq_ok_iff {p : α → Prop} {f : α → β}
    (hconvert : ∀ v b, convert v = .ok b ↔ p v ∧ b = f v) :
    optionOr given default convert = .ok b ↔
      (∀ v, given = some v → p v) ∧ b = (given.map f).getD default := by
  cases given with
  | none => simp [optionOr, eq_comm]
  | some v => simp [optionOr, hconvert]

end

theorem getInt32_eq_ok_iff (v b : ℤ) : getInt32 v = .ok b ↔ FitsInt v ∧ b = v := by
  unfold getInt32 FitsInt
  split_ifs with h
  · rw [and_iff_right h]
    exact ⟨fun hb ↦ (Except.ok.inj hb).symm, fun hb ↦ congrArg _ hb.symm⟩
  · exact iff_of_false nofun fun hb ↦ h hb.1

theorem nonNegative_eq_ok_iff (message : String) (v : ℤ) (b : ℕ) :
    nonNegative message v = .ok b ↔ 0 ≤ v ∧ b = v.toNat := by
  unfold nonNegative
  split_ifs with h
  · exact iff_of_false nofun fun hb ↦ absurd hb.1 (by omega)
  · rw [and_iff_right (by omega)]
    exact ⟨fun hb ↦ (Except.ok.inj hb).symm, fun hb ↦ congrArg _ hb.symm⟩

namespace CopyOptions

/-- What a COPY that is bound gets from its statement and the settings. -/
def bindData (options : CopyOptions) (s : SessionSettings) : OpenzlCopyBindData where
  trainedCompressorPath := options.trainedCompressor.getD ""
  compressionLevel :=
    options.compressionLevel.getD (openzlDefaultCompressionLevel s.toOpenerSettings)
  inMemory := options.inMemory.getD true
  chunkSizeBytes := (options.chunkSizeBytes.map Int.toNat).getD (openzlDefaultChunkBytes s)
  maxCompressBytes := openzlMaxCompressBytes s.toOpenerSettings
  graph :=
    let defaults := openzlDefaultGraphOptions s.toOpenerSettings
    { formatVersion := options.formatVersion.getD defaults.formatVersion
      profile := options.profile.getD defaults.profile
      permissive :=
        (options.permissive.map fun p ↦ if p then (1 : ℤ) else 0).getD defaults.permissive
      parquetChunkBytes :=
        (options.parquetChunkSizeBytes.map Int.toNat).getD defaults.parquetChunkBytes }
  fallbackToGeneric := options.fallbackToGeneric.getD false

/-- What `OpenzlCopyBind` asks of the statement and the settings. -/
structure Accepted (zl : OpenZL) (s : SessionSettings) (options : CopyOptions) : Prop where
  compressionLevel : ∀ v, options.compressionLevel = some v → FitsInt v
  chunkSizeBytes : ∀ v, options.chunkSizeBytes = some v → 0 ≤ v
  formatVersion : ∀ v, options.formatVersion = some v → FitsInt v
  parquetChunkSizeBytes : ∀ v, options.parquetChunkSizeBytes = some v → 0 ≤ v
  valid : (options.bindData s).graph.Valid zl
  trainedProfile : (options.bindData s).trainedCompressorPath ≠ "" →
    (options.bindData s).graph.profile = "parquet"

end CopyOptions

theorem openzlCopyBind_eq_ok_iff : openzlCopyBind zl s options = .ok bind ↔
    options.Accepted zl s ∧ bind = options.bindData s := by
  have hint : ∀ {default b : ℤ} {given : Option ℤ}, optionOr given default getInt32 = .ok b ↔
      (∀ v, given = some v → FitsInt v) ∧ b = given.getD default := by
    intro default b given
    rw [optionOr_eq_ok_iff getInt32_eq_ok_iff, Option.map_id']
  have hsize : ∀ {message} {default b : ℕ} {given : Option ℤ},
      optionOr given default (nonNegative message) = .ok b ↔ _ :=
    optionOr_eq_ok_iff (nonNegative_eq_ok_iff _)
  unfold openzlCopyBind
  simp only [ExceptionState.except_bind_eq_ok_iff, ExceptionState.mapError_eq_ok_iff, hint, hsize]
  constructor
  · rintro ⟨_, ⟨hlevel, rfl⟩, _, ⟨hchunk, rfl⟩, _, ⟨hversion, rfl⟩, _, ⟨hparquet, rfl⟩,
      u, hvalid, h⟩
    split_ifs at h with hprofile
    · cases h
    · obtain rfl := Except.ok.inj h
      refine ⟨⟨hlevel, hchunk, hversion, hparquet, validateGraphOptions_ok_iff.mp hvalid, ?_⟩, ?_⟩
      · intro htrained
        by_contra hother
        exact hprofile ⟨by simpa [CopyOptions.bindData] using htrained, hother⟩
      · rfl
  · rintro ⟨h, rfl⟩
    refine ⟨_, ⟨h.compressionLevel, rfl⟩, _, ⟨h.chunkSizeBytes, rfl⟩, _, ⟨h.formatVersion, rfl⟩, _,
      ⟨h.parquetChunkSizeBytes, rfl⟩, (), validateGraphOptions_ok_iff.mpr h.valid, ?_⟩
    rw [if_neg]
    · rfl
    · rintro ⟨htrained, hother⟩
      exact hother (h.trainedProfile (by simpa [CopyOptions.bindData] using htrained))

/-- Without options of its own a COPY refuses what the settings get wrong. -/
theorem openzlCopyBind_refuses {e : Error}
    (h : validateGraphOptions zl (openzlDefaultGraphOptions s.toOpenerSettings) = .error e) :
    openzlCopyBind zl s {} = .error (.binder e.what) := by
  have hgraph : (⟨(openzlDefaultGraphOptions s.toOpenerSettings).formatVersion,
      (openzlDefaultGraphOptions s.toOpenerSettings).profile,
      (openzlDefaultGraphOptions s.toOpenerSettings).parquetChunkBytes,
      (openzlDefaultGraphOptions s.toOpenerSettings).permissive⟩ : GraphOptions) =
      openzlDefaultGraphOptions s.toOpenerSettings := rfl
  unfold openzlCopyBind
  simp only [optionOr_none, bind, Except.bind, Option.getD_none, Option.map_none, hgraph, h,
    ExceptionState.mapError_error]

end DuckdbOpenzl
