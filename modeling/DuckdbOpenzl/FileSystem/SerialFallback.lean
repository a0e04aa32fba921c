import DuckdbOpenzl.Copy.CopyBind
import DuckdbOpenzl.FileSystem.CloseFailures

/-!
# The serial fallback of `Close`

Small files that are no canonical parquet are stored with the serial graph.
The retry is made after any error of the first attempt, and it replaces the two
options that were checked, so it also takes what was refused as a setting or
what the disk did not take.
-/

set_option autoImplicit false

namespace DuckdbOpenzl

open ExceptionState

/-! ## One file -/

namespace IoScript

/-- A `WriteFile` of these bytes that begins after `k` calls returns. -/
def Stores (s : IoScript) (k : ℕ) (bytes : Bytes) : Prop :=
  s.onOpen k = true ∧ (s.onWrite (k + 1)).ok = true ∧ bytes.length < fileSizeLimit

/-- How many calls it makes. -/
def callsOfWrite (s : IoScript) (k : ℕ) : ℕ := if s.onOpen k then 3 else 1

/-- The bytes are stored and the rename after them succeeds. -/
def Moves (s : IoScript) (k : ℕ) (bytes : Bytes) : Prop :=
  s.Stores k bytes ∧ s.onRename (k + 3) = true

end IoScript

variable {zl : OpenZL} {h : OpenzlFileHandle} {buffer : Bytes} {w w' : World} {path : Path}
  {contents : Bytes}

theorem writeFile_calls (path : Path) (contents : Bytes) (w : World) :
    (stateAfter (writeFile path contents) w).calls =
      w.calls + w.script.callsOfWrite w.calls := by
  unfold stateAfter writeFile IoScript.callsOfWrite
  by_cases hopen : w.script.onOpen w.calls = true
  · rw [openTrunc_eq_of_ok path hopen, if_pos hopen]
    simp only [OFStream.write, OFStream.destroy, Bool.not_true, Bool.false_eq_true, if_false,
      Bool.and_self, if_true]
    split
    · rename_i hresult
      split at hresult <;> cases hresult
      rfl
    · rename_i hresult
      split at hresult <;> cases hresult
      rfl
  · rw [openTrunc_eq_of_fail path (by simpa using hopen), if_neg hopen]
    rfl

theorem writeFile_ok_iff (path : Path) (contents : Bytes) (w : World) :
    returns (writeFile path contents) w = true ↔ w.script.Stores w.calls contents := by
  unfold IoScript.Stores
  by_cases hopen : w.script.onOpen w.calls = true
  · obtain ⟨w', -, -, hok, hresult⟩ := writeFile_of_open path contents hopen
    rw [← hok, and_iff_right hopen]
    unfold returns
    rcases hresult with h | ⟨e, h⟩ <;> simp [h]
  · refine iff_of_false ?_ fun h ↦ hopen h.1
    unfold returns writeFile
    rw [openTrunc_eq_of_fail path (by simpa using hopen)]
    simp

/-- The rename after a `WriteFile` that returned is the fourth call. -/
theorem rename_writeFile {source target : Path} (hwrite : writeFile source contents w = .ok () w') :
    (w'.rename source target).1 = true ↔ w.script.onRename (w.calls + 3) = true := by
  have hcalls := writeFile_calls source contents w
  have hstored := (writeFile_ok_iff source contents w).mp (by rw [returns, hwrite])
  have hpresent : (w'.files source).isSome := by
    have hcontent := writeFile_stored hwrite
    rw [World.content] at hcontent
    rw [← Option.isSome_map (f := File.content), hcontent]
    rfl
  rw [stateAfter_of_ok hwrite, IoScript.callsOfWrite, if_pos hstored.1] at hcalls
  unfold World.rename
  rw [(writeFile_touches (.inl hwrite)).script, hcalls, hpresent, Bool.and_true]
  split <;> simp_all

/-! ## What the two graphs make of a buffer -/

namespace OpenzlWriteSettings

variable {s : OpenzlWriteSettings} {frame : Bytes}

def parquetContext (zl : OpenZL) (s : OpenzlWriteSettings) : CCtx :=
  s.graph.context zl [] s.compressionLevel
    (buildParquetCompressor (resolveParquetChunkBytes zl s.graph))

def serialContext (zl : OpenZL) (s : OpenzlWriteSettings) : CCtx :=
  s.graph.serial.context zl [] s.compressionLevel .serial

/-- The configured parquet graph gets the bytes and fails on them. -/
def RejectsBytes (zl : OpenZL) (s : OpenzlWriteSettings) (buffer : Bytes) : Prop :=
  s.graph.profile = "parquet" ∧ buffer.length ≤ s.maxCompressBytes ∧
    ∃ what, zl.compressSerial (s.parquetContext zl) buffer = .error what

/-- The serial graph, with the other settings as they are, makes this frame of the buffer. -/
structure SerialFrame (zl : OpenZL) (s : OpenzlWriteSettings) (buffer frame : Bytes) : Prop where
  version : s.graph.VersionSupported zl
  size : buffer.length ≤ s.maxCompressBytes
  graphs : zl.innerGraphValid = true ∧ zl.graphValid = true
  accepted : zl.compressSerial (s.serialContext zl) buffer = .ok frame

theorem frame_ok_iff {graph : GraphOptions} :
    s.frame zl buffer graph = .ok frame ↔ graph.Valid zl ∧ buffer.length ≤ s.maxCompressBytes ∧
      ∃ compressor, chooseCompressor zl [] graph = .ok compressor ∧
        zl.compressSerial (graph.context zl [] s.compressionLevel compressor) buffer =
          .ok frame := by
  rw [OpenzlWriteSettings.frame, compressBytesImpl_ok_iff]
  simp only [compressRequest_ok_iff]
  constructor
  · rintro ⟨cctx, ⟨hvalid, -, hsize, compressor, hchoose, rfl⟩, hframe⟩
    exact ⟨hvalid, hsize, compressor, hchoose, hframe⟩
  · rintro ⟨hvalid, hsize, compressor, hchoose, hframe⟩
    exact ⟨_, ⟨hvalid, fun h ↦ absurd rfl h, hsize, compressor, hchoose, rfl⟩, hframe⟩

/-- The retry keeps the check of the format version and drops the others. -/
theorem serial_valid_iff {g : GraphOptions} : g.serial.Valid zl ↔ g.VersionSupported zl := by
  refine ⟨fun h ↦ h.version, fun h ↦ ⟨.inr rfl, h, fun _ hpos ↦ ?_, fun _ ↦ ?_⟩⟩
  · exact absurd hpos (by simp [GraphOptions.serial])
  · simp [GraphOptions.serial, intMax]

theorem frame_serial_ok_iff :
    s.frame zl buffer s.graph.serial = .ok frame ↔ s.SerialFrame zl buffer frame := by
  have hchoose : chooseCompressor zl [] s.graph.serial = buildSerialCompressor zl := rfl
  rw [frame_ok_iff, serial_valid_iff, hchoose]
  constructor
  · rintro ⟨hversion, hsize, compressor, hbuild, hframe⟩
    unfold buildSerialCompressor at hbuild
    split_ifs at hbuild with hinner hgraph
    obtain rfl := Except.ok.inj hbuild
    exact ⟨hversion, hsize, ⟨by simpa using hinner, by simpa using hgraph⟩, hframe⟩
  · rintro ⟨hversion, hsize, ⟨hinner, hgraph⟩, hframe⟩
    exact ⟨hversion, hsize, .serial, by simp [buildSerialCompressor, hinner, hgraph], hframe⟩

theorem frame_parquet_ok_iff (hprofile : s.graph.profile = "parquet") :
    s.frame zl buffer s.graph = .ok frame ↔ s.graph.Valid zl ∧ buffer.length ≤ s.maxCompressBytes ∧
      zl.compressSerial (s.parquetContext zl) buffer = .ok frame := by
  have hchoose : chooseCompressor zl [] s.graph =
      .ok (buildParquetCompressor (resolveParquetChunkBytes zl s.graph)) := by
    simp [chooseCompressor, hprofile]
  rw [frame_ok_iff, hchoose]
  simp [parquetContext]

end OpenzlWriteSettings

/-! ## Substitutions -/

/-- `Close` returned although its attempt with the configured graph threw: what it stored is the
frame of the retry. -/
def OpenzlFileHandle.SubstitutesSerial (zl : OpenZL) (h : OpenzlFileHandle) (buffer : Bytes)
    (w : World) : Prop :=
  returns (compressParquetBytes zl buffer h.tmpPath "" h.writeSettings.compressionLevel
      h.writeSettings.maxCompressBytes h.writeSettings.graph) w = false ∧
    returns (OpenzlFileHandle.close zl) (w, h) = true

theorem close_returns_iff (zl : OpenZL) (w : World) (hbuffer : h.writeBuffer = some buffer)
    (hopen : h.closed = false) : returns (OpenzlFileHandle.close zl) (w, h) = true ↔
      ∃ t, OpenzlFileHandle.compressForClose zl buffer h.tmpPath h.writeSettings w = .ok () t ∧
        (t.rename h.tmpPath h.realPath).1 = true := by
  unfold returns
  rcases close_cases zl w hbuffer hopen with ⟨e, t, hrun, hclose⟩ |
    ⟨t, hrun, ⟨hmoved, hclose⟩ | ⟨hmoved, hclose⟩⟩
  · simp [hrun, hclose]
  · rw [hclose, hrun]
    refine iff_of_false (by simp) ?_
    rintro ⟨t', ht, hmoved'⟩
    obtain rfl := (EStateM.Result.ok.inj ht).2
    rw [hmoved] at hmoved'
    cases hmoved'
  · rw [hclose, hrun]
    exact iff_of_true rfl ⟨t, rfl, hmoved⟩

/-- The retry of a first attempt that ended in `t` brings its frame to the target. -/
theorem retry_moves_iff {e : Error} {t : World} (hscript : t.script = w.script)
    (hfirst : compressParquetBytes zl buffer h.tmpPath "" h.writeSettings.compressionLevel
      h.writeSettings.maxCompressBytes h.writeSettings.graph w = .error e t) :
    (∃ t', OpenzlFileHandle.compressForClose zl buffer h.tmpPath h.writeSettings w = .ok () t' ∧
        (t'.rename h.tmpPath h.realPath).1 = true) ↔
      h.writeSettings.graph.profile ≠ "serial" ∧
        buffer.length ≤ OpenzlFileHandle.kSmallFallbackBytes ∧
          ∃ frame, h.writeSettings.SerialFrame zl buffer frame ∧
            w.script.Moves t.calls frame := by
  unfold OpenzlFileHandle.compressForClose
  rw [hfirst]
  dsimp only
  by_cases hlast : h.writeSettings.graph.profile = "serial" ∨
      buffer.length > OpenzlFileHandle.kSmallFallbackBytes
  · rw [if_pos hlast]
    refine iff_of_false (by simp) ?_
    rintro ⟨hprofile, hsmall, -⟩
    rcases hlast with hserial | hlarge
    · exact hprofile hserial
    · omega
  · obtain ⟨hprofile, hsmall⟩ := not_or.mp hlast
    rw [if_neg hlast, and_iff_right hprofile, and_iff_right (by omega)]
    have hretry := compressParquetBytes_eq zl buffer h.tmpPath h.writeSettings
      h.writeSettings.graph.serial t
    constructor
    · rintro ⟨t', hrun, hmoved⟩
      obtain ⟨frame, hframe, hwrite⟩ := compressParquetBytes_eq_ok hrun
      have hstored := (writeFile_ok_iff h.tmpPath frame t).mp (by rw [returns, hwrite])
      have hrename := (rename_writeFile hwrite).mp hmoved
      rw [hscript] at hstored hrename
      exact ⟨frame, OpenzlWriteSettings.frame_serial_ok_iff.mp hframe, hstored, hrename⟩
    · rintro ⟨frame, hframe, hstored, hrename⟩
      rw [← hscript] at hstored hrename
      obtain ⟨⟨⟩, t', hwrite⟩ :=
        exists_of_returns ((writeFile_ok_iff h.tmpPath frame t).mpr hstored)
      rw [OpenzlWriteSettings.frame_serial_ok_iff.mpr hframe] at hretry
      exact ⟨t', hretry.trans hwrite, (rename_writeFile hwrite).mpr hrename⟩

/-- Where the first attempt stops, and what follows from there. -/
theorem substitutesSerial_iff (hbuffer : h.writeBuffer = some buffer) (hopen : h.closed = false) :
    h.SubstitutesSerial zl buffer w ↔
      h.writeSettings.graph.profile ≠ "serial" ∧
        buffer.length ≤ OpenzlFileHandle.kSmallFallbackBytes ∧
          ∃ frame, h.writeSettings.SerialFrame zl buffer frame ∧
            ((∃ e, h.writeSettings.frame zl buffer h.writeSettings.graph = .error e) ∧
                w.script.Moves w.calls frame ∨
              ∃ f, h.writeSettings.frame zl buffer h.writeSettings.graph = .ok f ∧
                ¬ w.script.Stores w.calls f ∧
                  w.script.Moves (w.calls + w.script.callsOfWrite w.calls) frame) := by
  unfold OpenzlFileHandle.SubstitutesSerial
  rw [close_returns_iff zl w hbuffer hopen]
  have hfirst := compressParquetBytes_eq zl buffer h.tmpPath h.writeSettings
    h.writeSettings.graph w
  cases hframe : h.writeSettings.frame zl buffer h.writeSettings.graph with
  | error e =>
      rw [hframe] at hfirst
      rw [retry_moves_iff rfl hfirst, returns_of_error hfirst]
      simp
  | ok f =>
      rw [hframe] at hfirst
      dsimp only at hfirst
      have hstores := writeFile_ok_iff h.tmpPath f w
      cases hwrite : writeFile h.tmpPath f w with
      | ok u t =>
          rw [hwrite] at hfirst
          have hstored := hstores.mp (by rw [returns, hwrite])
          rw [returns, hfirst]
          simp [hstored]
      | error e t =>
          rw [hwrite] at hfirst
          have hcalls := writeFile_calls h.tmpPath f w
          rw [stateAfter_of_error hwrite] at hcalls
          rw [returns_of_error hwrite] at hstores
          have hnot : ¬ w.script.Stores w.calls f := fun hs ↦ absurd (hstores.mpr hs) (by simp)
          have hscript := (writeFile_touches (.inr ⟨e, hwrite⟩)).script
          rw [retry_moves_iff hscript hfirst, returns_of_error hfirst, hcalls]
          simp [hnot]

/-! ## What the fallback hides -/

/-- The serial graph takes what `ValidateGraphOptions` refused, or what the parquet graph took and
the disk did not. -/
def HidesFailure (zl : OpenZL) (s : OpenzlWriteSettings) (buffer : Bytes) (w : World) : Prop :=
  s.graph.profile ≠ "serial" ∧ buffer.length ≤ OpenzlFileHandle.kSmallFallbackBytes ∧
    ∃ frame, s.SerialFrame zl buffer frame ∧
      (¬ s.graph.Valid zl ∧ w.script.Moves w.calls frame ∨
        s.graph.Valid zl ∧ ∃ f, zl.compressSerial (s.parquetContext zl) buffer = .ok f ∧
          ¬ w.script.Stores w.calls f ∧
            w.script.Moves (w.calls + w.script.callsOfWrite w.calls) frame)

/-- The serial graph replaces the configured one only for a small file whose bytes the parquet graph
rejects; settings that are refused when a COPY is bound make `Close` throw and store nothing. -/
structure FallsBackAsMeant (zl : OpenZL) (s : SessionSettings) (h : OpenzlFileHandle)
    (buffer : Bytes) (w : World) : Prop where
  substitutes : h.SubstitutesSerial zl buffer w →
    validateGraphOptions zl h.writeSettings.graph = .ok () ∧
      buffer.length ≤ OpenzlFileHandle.kSmallFallbackBytes ∧ h.writeSettings.RejectsBytes zl buffer
  refuses : ∀ e, validateGraphOptions zl h.writeSettings.graph = .error e →
    openzlCopyBind zl s {} = .error (.binder e.what) ∧
      ∃ e' w' h', OpenzlFileHandle.close zl (w, h) = .error e' (w', h') ∧
        w'.files h.realPath = w.files h.realPath

theorem GraphOptions.Valid.parquet {g : GraphOptions} (h : g.Valid zl)
    (hprofile : g.profile ≠ "serial") :
    g.profile = "parquet" :=
  h.profile.resolve_right hprofile

theorem frame_of_not_valid {s : OpenzlWriteSettings} (h : ¬ s.graph.Valid zl) (buffer : Bytes) :
    ∃ e, s.frame zl buffer s.graph = .error e := by
  cases hframe : s.frame zl buffer s.graph with
  | ok f => exact absurd (OpenzlWriteSettings.frame_ok_iff.mp hframe).1 h
  | error e => exact ⟨e, rfl⟩

/-- A hidden failure is a substitution that was not meant. -/
theorem HidesFailure.substitutes (hbuffer : h.writeBuffer = some buffer) (hopen : h.closed = false)
    (hhides : HidesFailure zl h.writeSettings buffer w) :
    h.SubstitutesSerial zl buffer w ∧
      ¬ (h.writeSettings.graph.Valid zl ∧ h.writeSettings.RejectsBytes zl buffer) := by
  obtain ⟨hprofile, hsmall, frame, hframe, ⟨hnot, hmoves⟩ | ⟨hvalid, f, hf, hstores, hmoves⟩⟩ :=
    hhides
  · refine ⟨(substitutesSerial_iff hbuffer hopen).mpr ?_, fun h ↦ hnot h.1⟩
    exact ⟨hprofile, hsmall, frame, hframe, .inl ⟨frame_of_not_valid hnot buffer, hmoves⟩⟩
  · refine ⟨(substitutesSerial_iff hbuffer hopen).mpr ?_, ?_⟩
    · have hfirst := (OpenzlWriteSettings.frame_parquet_ok_iff (hvalid.parquet hprofile)).mpr
        ⟨hvalid, hframe.size, hf⟩
      exact ⟨hprofile, hsmall, frame, hframe, .inr ⟨f, hfirst, hstores, hmoves⟩⟩
    · rintro ⟨-, -, -, what, hwhat⟩
      cases hf.symm.trans hwhat

/-- And a substitution that hides no failure was meant. -/
theorem OpenzlFileHandle.SubstitutesSerial.meant (hbuffer : h.writeBuffer = some buffer)
    (hopen : h.closed = false)
    (hhides : ¬ HidesFailure zl h.writeSettings buffer w)
    (hsubstitutes : h.SubstitutesSerial zl buffer w) :
    h.writeSettings.graph.Valid zl ∧ buffer.length ≤ OpenzlFileHandle.kSmallFallbackBytes ∧
      h.writeSettings.RejectsBytes zl buffer := by
  obtain ⟨hprofile, hsmall, frame, hframe, ⟨⟨e, he⟩, hmoves⟩ | ⟨f, hf, hstores, hmoves⟩⟩ :=
    (substitutesSerial_iff hbuffer hopen).mp hsubstitutes
  · have hvalid : h.writeSettings.graph.Valid zl := by
      by_contra hnot
      exact hhides ⟨hprofile, hsmall, frame, hframe, .inl ⟨hnot, hmoves⟩⟩
    refine ⟨hvalid, hsmall, hvalid.parquet hprofile, hframe.size, ?_⟩
    cases hcompress : zl.compressSerial (h.writeSettings.parquetContext zl) buffer with
    | error what => exact ⟨what, rfl⟩
    | ok f =>
        have hfirst := (OpenzlWriteSettings.frame_parquet_ok_iff (hvalid.parquet hprofile)).mpr
          ⟨hvalid, hframe.size, hcompress⟩
        cases hfirst.symm.trans he
  · have hvalid := (OpenzlWriteSettings.frame_ok_iff.mp hf).1
    have haccepted :=
      ((OpenzlWriteSettings.frame_parquet_ok_iff (hvalid.parquet hprofile)).mp hf).2.2
    exact absurd ⟨hprofile, hsmall, frame, hframe, .inr ⟨hvalid, f, haccepted, hstores, hmoves⟩⟩
      hhides

/-- `Close` falls back as meant exactly when the fallback hides no failure. -/
theorem fallsBackAsMeant_iff (s : SessionSettings) (w : World)
    (hsettings : h.writeSettings = s.toOpenerSettings.writeSettings)
    (hbuffer : h.writeBuffer = some buffer) (hopen : h.closed = false) :
    FallsBackAsMeant zl s h buffer w ↔ ¬ HidesFailure zl h.writeSettings buffer w := by
  constructor
  · intro hmeant hhides
    obtain ⟨hsubstitutes, hnot⟩ := hhides.substitutes hbuffer hopen
    obtain ⟨haccepted, -, hrejects⟩ := hmeant.substitutes hsubstitutes
    exact hnot ⟨validateGraphOptions_ok_iff.mp haccepted, hrejects⟩
  · intro hhides
    refine ⟨fun hsubstitutes ↦ ?_, fun e he ↦ ?_⟩
    · obtain ⟨hvalid, hrest⟩ := hsubstitutes.meant hbuffer hopen hhides
      exact ⟨validateGraphOptions_ok_iff.mpr hvalid, hrest⟩
    · have hnot : ¬ h.writeSettings.graph.Valid zl := by
        rw [← validateGraphOptions_ok_iff, he]
        exact nofun
      constructor
      · apply openzlCopyBind_refuses
        rw [hsettings, writeSettings_eq] at he
        exact he
      · cases hclose : OpenzlFileHandle.close zl (w, h) with
        | error e' s' => exact ⟨e', s'.1, s'.2, rfl, close_error_target hbuffer hopen hclose⟩
        | ok u s' =>
            obtain ⟨e', he'⟩ := frame_of_not_valid hnot buffer
            have hfirst := compressParquetBytes_eq zl buffer h.tmpPath h.writeSettings
              h.writeSettings.graph w
            rw [he'] at hfirst
            have hsubstitutes : h.SubstitutesSerial zl buffer w :=
              ⟨returns_of_error hfirst, by rw [returns, hclose]⟩
            exact absurd (hsubstitutes.meant hbuffer hopen hhides).1 hnot

/-- Its parquet graph takes what starts like a parquet file. -/
def OpenZL.parquetFiles : OpenZL := { OpenZL.stored with
  compressSerial := fun cctx input ↦
    if cctx.compressor = .serial ∨ "PAR1".toUTF8.toList <+: input then .ok (0 :: input)
    else .error "not a parquet file" }

/-- One byte that is no parquet file, on a disk where every call succeeds, with the settings as
they come. -/
theorem fallsBackAsMeant_oneByte : ∃ h : OpenzlFileHandle,
    h.writeSettings = ({} : SessionSettings).toOpenerSettings.writeSettings ∧
      h.SubstitutesSerial .parquetFiles [9] World.empty ∧
      h.writeSettings.RejectsBytes .parquetFiles [9] ∧
      FallsBackAsMeant .parquetFiles {} h [9] World.empty := by
  let h : OpenzlFileHandle :=
    { path := "openzl://a.ozl", writeBuffer := some [9], realPath := "a.ozl" }
  have hvalid : h.writeSettings.graph.Valid .parquetFiles :=
    validateGraphOptions_ok_iff.mp (by decide +kernel)
  have hframe : h.writeSettings.SerialFrame .parquetFiles [9] [0, 9] :=
    ⟨fun hversion ↦ absurd rfl hversion, by decide, ⟨rfl, rfl⟩, by decide +kernel⟩
  have hrejects : h.writeSettings.RejectsBytes .parquetFiles [9] :=
    ⟨rfl, by decide, "not a parquet file", by decide +kernel⟩
  have hrejected : ∀ f, OpenZL.parquetFiles.compressSerial
      (h.writeSettings.parquetContext .parquetFiles) [9] ≠ .ok f := by
    obtain ⟨-, -, what, hwhat⟩ := hrejects
    intro f hf
    cases hf.symm.trans hwhat
  refine ⟨h, rfl, ?_, hrejects, (fallsBackAsMeant_iff {} World.empty rfl rfl rfl).mpr ?_⟩
  · refine (substitutesSerial_iff rfl rfl).mpr ⟨by decide, by decide, [0, 9], hframe, .inl ⟨?_, ?_⟩⟩
    · cases hfirst : h.writeSettings.frame .parquetFiles [9] h.writeSettings.graph with
      | error e => exact ⟨e, rfl⟩
      | ok f =>
          have haccepted := (OpenzlWriteSettings.frame_parquet_ok_iff rfl).mp hfirst
          exact absurd haccepted.2.2 (hrejected f)
    · exact ⟨⟨rfl, rfl, by decide⟩, rfl⟩
  · rintro ⟨-, -, frame, -, ⟨hnot, -⟩ | ⟨-, f, hf, -⟩⟩
    · exact hnot hvalid
    · exact hrejected f hf

/-- `SET openzl_parquet_chunk_bytes = 3000000000`: a COPY refuses it when it is bound, and `Close`
stores the file with the serial graph. -/
theorem not_fallsBackAsMeant_chunkBytes : ∃ (s : SessionSettings) (h : OpenzlFileHandle),
    s.parquetChunkBytes = some 3000000000 ∧
      h.writeSettings = s.toOpenerSettings.writeSettings ∧ h.writeBuffer = some [9] ∧
        h.closed = false ∧ ¬ FallsBackAsMeant .stored s h [9] World.empty := by
  let s : SessionSettings := { parquetChunkBytes := some 3000000000 }
  let h : OpenzlFileHandle :=
    { path := "openzl://a.ozl", writeBuffer := some [9], realPath := "a.ozl"
      writeSettings := s.toOpenerSettings.writeSettings }
  refine ⟨s, h, rfl, rfl, rfl, rfl, fun hmeant ↦ ?_⟩
  have hinvalid : ¬ h.writeSettings.graph.Valid .stored := by
    rw [← validateGraphOptions_ok_iff]
    decide +kernel
  have hframe : h.writeSettings.SerialFrame .stored [9] [0, 9] :=
    ⟨fun hversion ↦ absurd rfl hversion, by decide, ⟨rfl, rfl⟩, rfl⟩
  have hhides : HidesFailure .stored h.writeSettings [9] World.empty :=
    ⟨by decide, by decide, [0, 9], hframe, .inl ⟨hinvalid, ⟨rfl, rfl, by decide⟩, rfl⟩⟩
  have hsubstitutes := (hhides.substitutes rfl rfl).1
  exact hinvalid (validateGraphOptions_ok_iff.mp (hmeant.substitutes hsubstitutes).1)

end DuckdbOpenzl
