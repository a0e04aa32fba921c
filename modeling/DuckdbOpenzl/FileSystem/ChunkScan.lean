import DuckdbOpenzl.FileSystem.ArchivePaths
import DuckdbOpenzl.FileSystem.OpenSteps

/-!
# One scan while the archive is replaced

`read_openzl` expands a chunked archive into one path per chunk and leaves the
rest to `read_parquet`, which opens them as separate files: `Glob` looks at the
archive twice, and every chunk is looked for again by an open of its own.
-/

set_option autoImplicit false

namespace DuckdbOpenzl

open FileContent Relation Runs

/-! ## The archive's versions -/

/-- A version is a container of these frames. -/
structure IsContainer (frames : List Bytes) (version : Option File) : Prop where
  nonempty : frames ≠ []
  content : version.map File.content = some (containerBytes frames)
  size : (containerBytes frames).length < fileSizeLimit

/-- A version is one frame that does not look like a container. -/
structure IsFrame (frame : Bytes) (version : Option File) : Prop where
  content : version.map File.content = some frame
  magic : slice frame 0 kMagicLen ≠ kContainerMagic

/-- A valid archive with these frames. -/
def IsArchive (frames : List Bytes) (version : Option File) : Prop :=
  IsContainer frames version ∨ ∃ frame, frames = [frame] ∧ IsFrame frame version

/-- The rows of a version: those of its chunks one after the other. -/
def VersionRows {ρ : Type} (zl : OpenZL) (rows : Bytes → List ρ) (version : Option File)
    (result : List ρ) : Prop :=
  ∃ frames chunks, IsArchive frames version ∧
    List.Forall₂ (fun frame bytes ↦ zl.decompressSerial frame = .ok bytes) frames chunks ∧
    result = chunks.flatMap rows

theorem IsContainer.eq_of_isArchive {frames frames' : List Bytes} {version : Option File}
    (h : IsContainer frames version) (h' : IsArchive frames' version) : frames' = frames := by
  rcases h' with h' | ⟨frame, rfl, h'⟩
  · have hcontent := Option.some.inj (h'.content.symm.trans h.content)
    exact containerBytes_injective h'.nonempty h.nonempty h'.size hcontent
  · have hcontent := Option.some.inj (h'.content.symm.trans h.content)
    exact absurd (hcontent ▸ slice_containerBytes_zero frames) h'.magic

variable {zl : OpenZL} {archive : Path} {history : ℕ → Option File}

/-- The world in which the archive has version `k`. -/
def worldAt (history : ℕ → Option File) (k : ℕ) : World :=
  { World.empty with files := fun _ ↦ history k }

theorem IsContainer.holds {frames : List Bytes} {k : ℕ} (h : IsContainer frames (history k)) :
    HoldsContainer archive frames (worldAt history k) :=
  ⟨h.nonempty, h.content, h.size⟩

theorem IsFrame.holds {frame : Bytes} {k : ℕ} (h : IsFrame frame (history k)) :
    HoldsFrame archive frame (worldAt history k) :=
  ⟨h.content, h.magic⟩

/-- Where index and frame are read from one container, the frame is the one of the chunk. -/
theorem IsContainer.frame_of_read {frames : List Bytes} {k i : ℕ} {r : ChunkRange} {frame : Bytes}
    (h : IsContainer frames (history k))
    (hrange : chunkRange archive i (contentAt history k) = .ok r)
    (hframe : readFrame archive i r (contentAt history k) = .ok frame) :
    frames[i]? = some frame := by
  have hholds : HoldsContainer archive frames (worldAt history k) := h.holds
  have hcontent : (worldAt history k).content archive = contentAt history k := rfl
  by_cases hi : i < frames.length
  · have hrange' := hholds.chunkRange hi
    rw [hcontent, hrange] at hrange'
    obtain rfl := Except.ok.inj hrange'
    have hframe' := hholds.readFrame hi
    rw [hcontent, hframe] at hframe'
    obtain rfl := Except.ok.inj hframe'
    exact List.getElem?_eq_getElem hi
  · have hnone : (rangesFrom kMagicLen frames)[i]? = none := by
      rw [List.getElem?_eq_none_iff, length_rangesFrom]
      exact not_lt.mp hi
    have hindex := hholds.containerIndex
    rw [hcontent] at hindex
    unfold chunkRange at hrange
    rw [hindex] at hrange
    simp only [bind, Except.bind, hnone] at hrange
    cases hrange

theorem IsFrame.frame_of_read {frame : Bytes} {k : ℕ} {last : LastRead} {bytes : Bytes}
    (h : IsFrame frame (history k))
    (hlocate : locate archive none (contentAt history k) = .ok last)
    (hread : last.read zl archive (contentAt history k) = .ok bytes) :
    zl.decompressSerial frame = .ok bytes := by
  obtain rfl := eq_file_of_locate hlocate
  obtain ⟨file, hfile, hdecompress⟩ := decompressesTo_of_read hread
  have hcontent := h.content
  rw [hfile] at hcontent
  rwa [Option.some.inj hcontent] at hdecompress

/-! ## The scan -/

/-- `Glob` opens the archive to see whether it is there, and again for the index. -/
inductive GlobPhase where
  | start
  | found
  | expanded (globbed : ℕ) (paths : List String)
  | failed (e : Exception)

structure ScanState where
  glob : GlobPhase := .start
  system : ArchiveSystem := {}

/-- The path that the macro hands to `read_parquet`. -/
def scanPath (archive : Path) : String := "openzl://" ++ archive

def globChecked (archive : Path) (now : ℕ) (file : Option Bytes) : GlobPhase :=
  if file.isSome then .found else .expanded now [scanPath archive]

def globIndexed (archive : Path) (now : ℕ) (file : Option Bytes) : GlobPhase :=
  match containerIndex archive file with
  | .ok (some ranges) =>
      .expanded now ((List.range ranges.length).map (chunkPath (scanPath archive)))
  | .ok none => .expanded now [scanPath archive]
  | .error e => .failed (rethrown e)

def realPaths (paths : List String) : Set Path := {p | p ∈ paths.map stripScheme}

/-- A change of the archive, an open of `Glob` (the path has no chunk suffix), or a step of the
opens of the expanded paths. -/
inductive ScanStep (zl : OpenZL) (archive : Path) (history : ℕ → Option File) :
    ScanState → ScanState → Prop where
  | change {s : ScanState} :
      ScanStep zl archive history s { s with system := { s.system with now := s.system.now + 1 } }
  | check {s : ScanState} (start : s.glob = .start) : ScanStep zl archive history s
      { s with glob := globChecked archive s.system.now (contentAt history s.system.now) }
  | index {s : ScanState} (found : s.glob = .found) : ScanStep zl archive history s
      { s with glob := globIndexed archive s.system.now (contentAt history s.system.now) }
  | openFile {s : ScanState} {globbed : ℕ} {paths : List String} {system : ArchiveSystem}
      (expanded : s.glob = .expanded globbed paths)
      (step : OpenStep zl archive history (realPaths paths) s.system system) :
      ScanStep zl archive history s { s with system := system }

/-- The scan has got this file from each expanded path, all of them by instant `k`. -/
def ScanState.Returns (s : ScanState) (k : ℕ) (out : List Bytes) : Prop :=
  ∃ globbed paths, s.glob = .expanded globbed paths ∧
    List.Forall₂ (fun path bytes ↦ ∃ r ∈ s.system.records, r.realPath = stripScheme path ∧
      r.ended ≤ k ∧ ∃ data, r.result = .ok data ∧ data.bytes = bytes) paths out

variable {s s' : ScanState}

/-- With no step in between, the two opens are `Glob`. -/
theorem run_glob {w : World} (hp : splitChunkSuffix archive = none) (hstart : s.glob = .start)
    (hw : w.At archive history s.system) :
    (∀ paths w', glob (scanPath archive) w = .ok paths w' →
      ReflTransGen (ScanStep zl archive history) s
        { s with glob := .expanded s.system.now paths }) ∧
    ∀ e w', glob (scanPath archive) w = .error e w' →
      ReflTransGen (ScanStep zl archive history) s { s with glob := .failed e } := by
  unfold DuckdbOpenzl.glob scanPath
  rw [stripScheme_scheme, hp, if_neg (by simp)]
  unfold EStateM.adaptExcept globArchive
  rw [opened_bind, hw.content]
  have hcheck : ScanStep zl archive history s
      { s with glob := globChecked archive s.system.now (contentAt history s.system.now) } :=
    .check hstart
  cases hfile : contentAt history s.system.now with
  | none =>
      rw [hfile] at hcheck
      constructor
      · rintro paths w' hok
        obtain ⟨rfl, -⟩ := EStateM.Result.ok.inj hok
        exact .single hcheck
      · rintro e w' herror
        cases herror
  | some file =>
      let found : ScanState := { s with glob := .found }
      have hindex : ScanStep zl archive history found
          { s with glob := globIndexed archive s.system.now (contentAt history s.system.now) } :=
        .index rfl
      rw [hfile] at hcheck hindex
      have hrun := (ReflTransGen.single hcheck).tail hindex
      unfold globIndexed at hrun
      dsimp only [Option.isSome_some]
      rw [if_pos rfl, readContainerIndex, opened_bind, hw.content, hfile]
      cases hranges : containerIndex archive (some file) with
      | error e =>
          rw [hranges] at hrun
          constructor
          · rintro paths w' hok
            cases hok
          · rintro e' w' herror
            obtain ⟨rfl, -⟩ := EStateM.Result.error.inj herror
            exact hrun
      | ok ranges =>
          rw [hranges] at hrun
          constructor
          · rintro paths w' hok
            cases ranges with
            | none =>
                obtain ⟨rfl, -⟩ := EStateM.Result.ok.inj hok
                exact hrun
            | some ranges =>
                obtain ⟨rfl, -⟩ := EStateM.Result.ok.inj hok
                exact hrun
          · rintro e w' herror
            cases ranges <;> cases herror

/-! ## What a scan keeps -/

/-- The expansion comes from one version. -/
inductive GlobsTo (archive : Path) (file : Option Bytes) : List String → Prop where
  | missing (absent : file = none) : GlobsTo archive file [scanPath archive]
  | plain (index : containerIndex archive file = .ok none) :
      GlobsTo archive file [scanPath archive]
  | chunked {ranges : List ChunkRange} (index : containerIndex archive file = .ok (some ranges)) :
      GlobsTo archive file ((List.range ranges.length).map (chunkPath (scanPath archive)))

/-- Nothing is opened before the expansion, and nothing older is read behind it. -/
def GlobPhase.Kept (zl : OpenZL) (archive : Path) (history : ℕ → Option File)
    (system : ArchiveSystem) : GlobPhase → Prop
  | .expanded globbed paths => globbed ≤ system.now ∧
      GlobsTo archive (contentAt history globbed) paths ∧
      system.Sourced zl archive history (realPaths paths) globbed
  | _ => system = { now := system.now }

theorem kept_globChecked {system : ArchiveSystem} (h : system = { now := system.now }) :
    (globChecked archive system.now (contentAt history system.now)).Kept zl archive history
      system := by
  unfold globChecked
  split
  · exact h
  · rename_i hfile
    refine ⟨le_rfl, .missing (by simpa using hfile), ?_⟩
    rw [h]
    exact ArchiveSystem.sourced_initial _

theorem kept_globIndexed {system : ArchiveSystem} (h : system = { now := system.now }) :
    (globIndexed archive system.now (contentAt history system.now)).Kept zl archive history
      system := by
  have hsourced : ∀ paths, system.Sourced zl archive history paths system.now := by
    intro paths
    rw [h]
    exact ArchiveSystem.sourced_initial _
  unfold globIndexed
  split
  · rename_i ranges hindex
    exact ⟨le_rfl, .chunked hindex, hsourced _⟩
  · rename_i hindex
    exact ⟨le_rfl, .plain hindex, hsourced _⟩
  · exact h

theorem GlobPhase.Kept.change {phase : GlobPhase} {system : ArchiveSystem}
    (h : phase.Kept zl archive history system) :
    phase.Kept zl archive history { system with now := system.now + 1 } := by
  cases phase with
  | expanded globbed paths =>
      obtain ⟨hle, hglob, hsourced⟩ := h
      exact ⟨hle.trans (Nat.le_succ _), hglob, hsourced.step hle .change⟩
  | start =>
      change system = _ at h
      rw [h]
      rfl
  | found =>
      change system = _ at h
      rw [h]
      rfl
  | failed e =>
      change system = _ at h
      rw [h]
      rfl

def ScanState.Kept (zl : OpenZL) (archive : Path) (history : ℕ → Option File) (s : ScanState) :
    Prop :=
  s.glob.Kept zl archive history s.system

theorem ScanState.Kept.step (hs : s.Kept zl archive history)
    (hstep : ScanStep zl archive history s s') : s'.Kept zl archive history := by
  unfold ScanState.Kept at hs ⊢
  cases hstep with
  | change => exact hs.change
  | check start =>
      rw [start] at hs
      exact kept_globChecked hs
  | index found =>
      rw [found] at hs
      exact kept_globIndexed hs
  | openFile expanded step =>
      rw [expanded] at hs
      obtain ⟨hle, hglob, hsourced⟩ := hs
      rw [expanded]
      exact ⟨hle.trans step.now_le, hglob, hsourced.step hle step⟩

theorem ScanState.kept_of_run (hrun : ReflTransGen (ScanStep zl archive history) {} s) :
    s.Kept zl archive history := by
  have hinitial : ScanState.Kept zl archive history {} := rfl
  exact Runs.invariant (fun _ _ hs hstep ↦ hs.step hstep) hinitial hrun

/-- What a scan is given comes from versions between its expansion and its last open. -/
theorem ScanState.returns_between {k globbed : ℕ} {paths : List String} {out : List Bytes}
    (hrun : ReflTransGen (ScanStep zl archive history) {} s)
    (hglob : s.glob = .expanded globbed paths) (hreturns : s.Returns k out) :
    List.Forall₂ (fun path bytes ↦ (resolve (stripScheme path)).1 = archive ∧
      ReadBetween zl archive history (resolve (stripScheme path)).2 globbed k bytes) paths out := by
  have hkept := kept_of_run hrun
  unfold ScanState.Kept at hkept
  rw [hglob] at hkept
  obtain ⟨globbed', paths', hglob', hout⟩ := hreturns
  obtain ⟨rfl, rfl⟩ := GlobPhase.expanded.inj (hglob'.symm.trans hglob)
  refine hout.imp ?_
  rintro path bytes ⟨r, hr, hpath, hended, data, hdata, rfl⟩
  have hsourced := hkept.2.2.record r hr
  rw [← hpath]
  exact ⟨hsourced.resolved, (hsourced.read data hdata).mono le_rfl hended⟩

/-! ## The chunks of a scan -/

/-- The bytes that one version has at the range of chunk `i` in the index of the same or an earlier
one, decompressed; both versions are between `a` and `b`. -/
def ChunkBetween (zl : OpenZL) (archive : Path) (history : ℕ → Option File) (i a b : ℕ)
    (bytes : Bytes) : Prop :=
  ∃ j k r frame, a ≤ j ∧ j ≤ k ∧ k ≤ b ∧ chunkRange archive i (contentAt history j) = .ok r ∧
    readFrame archive i r (contentAt history k) = .ok frame ∧ zl.decompressSerial frame = .ok bytes

theorem ReadBetween.chunk {i a b : ℕ} {bytes : Bytes}
    (h : ReadBetween zl archive history (some i) a b bytes) :
    ChunkBetween zl archive history i a b bytes := by
  obtain ⟨last, j, k, haj, hjk, hkb, hlocate, hread⟩ := h
  obtain ⟨r, hr, rfl⟩ := locate_chunk_eq_ok_iff.mp hlocate
  obtain ⟨frame, hframe, hdecompress⟩ := read_frame_eq_ok_iff.mp hread
  exact ⟨j, k, r, frame, haj, hjk, hkb, hr, hframe, hdecompress⟩

@[simp] theorem stripScheme_chunkPath (archive : Path) (i : ℕ) :
    stripScheme (chunkPath (scanPath archive) i) = chunkPath archive i := by
  rw [scanPath, chunkPath_scheme, stripScheme_scheme]

/-- A chunk path that leads to the archive leads to its own chunk. -/
theorem resolve_chunkPath_of_fst {i : ℕ} (h : (resolve (chunkPath archive i)).1 = archive) :
    (resolve (chunkPath archive i)).2 = some i := by
  have hlength : (chunkPath archive i).toList.length ≠ archive.toList.length := by
    rw [toList_chunkPath, List.length_append, List.length_append]
    have hmarker : chunkMarker.toList.length = 7 := by decide
    omega
  unfold resolve at h ⊢
  cases hsplit : splitChunkSuffix (chunkPath archive i) with
  | none =>
      rw [hsplit] at h
      exact absurd (congrArg (fun p ↦ p.toList.length) h) hlength
  | some r =>
      obtain ⟨p, c⟩ := r
      rw [hsplit] at h
      obtain rfl : p = archive := h
      obtain ⟨digits, hdigits, -, rfl⟩ := splitChunkSuffix_eq_some_iff.mp hsplit
      rw [toList_chunkPath] at hdigits
      obtain rfl := List.append_cancel_left (List.append_cancel_left hdigits)
      rw [show (toString i).toList = Nat.toDigits 10 i from Nat.toList_repr]
      exact congrArg some Nat.ofDigitChars_ten_toDigits

theorem GlobsTo.of_container {frames : List Bytes} {k : ℕ} {paths : List String}
    (h : GlobsTo archive (contentAt history k) paths) (hframes : IsContainer frames (history k)) :
    paths = (List.range frames.length).map (chunkPath (scanPath archive)) := by
  have hindex : containerIndex archive (contentAt history k) = _ :=
    hframes.holds.containerIndex
  cases h with
  | missing absent => cases absent.symm.trans hframes.content
  | plain index => cases Except.ok.inj (index.symm.trans hindex)
  | chunked index =>
      obtain rfl := Option.some.inj (Except.ok.inj (index.symm.trans hindex))
      rw [length_rangesFrom]

theorem GlobsTo.of_frame {frame : Bytes} {k : ℕ} {paths : List String}
    (h : GlobsTo archive (contentAt history k) paths) (hframe : IsFrame frame (history k)) :
    paths = [scanPath archive] := by
  have hindex : containerIndex archive (contentAt history k) = _ := hframe.holds.containerIndex
  cases h with
  | missing absent => rfl
  | plain index => rfl
  | chunked index => cases Except.ok.inj (index.symm.trans hindex)

theorem frames_of_chunks {frames out : List Bytes} {a b : ℕ}
    (hframes : IsContainer frames (history a))
    (hsame : ∀ j, a ≤ j → j ≤ b → contentAt history j = contentAt history a)
    (hout : List.Forall₂ (fun i bytes ↦ ChunkBetween zl archive history i a b bytes)
      (List.range frames.length) out) :
    List.Forall₂ (fun frame bytes ↦ zl.decompressSerial frame = .ok bytes) frames out := by
  obtain ⟨hlength, hout⟩ := List.forall₂_iff_get.mp hout
  rw [List.length_range] at hlength
  refine List.forall₂_iff_get.mpr ⟨hlength, ?_⟩
  intro i hi hi'
  obtain ⟨j, k, r, frame, haj, hjk, hkb, hrange, hframe, hdecompress⟩ :=
    hout i (by simpa using hi) hi'
  rw [hsame j haj (hjk.trans hkb)] at hrange
  rw [hsame k (haj.trans hjk) hkb] at hframe
  have hget := hframes.frame_of_read hrange hframe
  simp only [List.get_eq_getElem, List.getElem_range, List.getElem?_eq_getElem hi,
    Option.some.injEq] at hget
  rw [List.get_eq_getElem, hget]
  exact hdecompress

/-- A scan gets one file for each chunk of the version that `Glob` read, but every chunk from a
version of its own; they are the rows of one version if the content stays the same from `Glob` to
the last open. -/
theorem scan_reads_versions {ρ : Type} (rows : Bytes → List ρ) {k globbed : ℕ}
    {paths : List String} {out : List Bytes} (hp : splitChunkSuffix archive = none)
    (hrun : ReflTransGen (ScanStep zl archive history) {} s)
    (hglob : s.glob = .expanded globbed paths) (hreturns : s.Returns k out) :
    (∀ frames, IsContainer frames (history globbed) →
      List.Forall₂ (fun i bytes ↦ ChunkBetween zl archive history i globbed k bytes)
        (List.range frames.length) out) ∧
    ∀ frames, IsArchive frames (history globbed) →
      (∀ j, globbed ≤ j → j ≤ k → contentAt history j = contentAt history globbed) →
      VersionRows zl rows (history globbed) (out.flatMap rows) := by
  have hbetween := s.returns_between hrun hglob hreturns
  have hkept := ScanState.kept_of_run hrun
  unfold ScanState.Kept at hkept
  rw [hglob] at hkept
  obtain ⟨-, hglobs, -⟩ := hkept
  have hchunks : ∀ frames, IsContainer frames (history globbed) →
      List.Forall₂ (fun i bytes ↦ ChunkBetween zl archive history i globbed k bytes)
        (List.range frames.length) out := by
    intro frames hframes
    rw [hglobs.of_container hframes, List.forall₂_map_left_iff] at hbetween
    refine hbetween.imp ?_
    rintro i bytes ⟨hresolved, hread⟩
    rw [stripScheme_chunkPath] at hresolved hread
    rw [resolve_chunkPath_of_fst hresolved] at hread
    exact hread.chunk
  refine ⟨hchunks, ?_⟩
  rintro frames (hframes | ⟨frame, rfl, hframe⟩) hsame
  · exact ⟨frames, out, .inl hframes, frames_of_chunks hframes hsame (hchunks frames hframes), rfl⟩
  · rw [hglobs.of_frame hframe] at hbetween
    obtain ⟨bytes, rest, ⟨-, hread⟩, hrest, rfl⟩ := List.forall₂_cons_left_iff.mp hbetween
    obtain rfl := List.forall₂_nil_left_iff.mp hrest
    obtain ⟨last, j, k', haj, hjk, hkb, hlocate, hread⟩ := hread
    rw [scanPath, stripScheme_scheme, resolve_of_none hp, hsame j haj (hjk.trans hkb)] at hlocate
    rw [hsame k' (haj.trans hjk) hkb] at hread
    exact ⟨_, _, .inr ⟨frame, rfl, hframe⟩, .cons (hframe.frame_of_read hlocate hread) .nil, rfl⟩

/-! ## A scan of two chunks -/

theorem run_opens {globbed : ℕ} {paths : List String} {system : ArchiveSystem}
    (hglob : s.glob = .expanded globbed paths)
    (hrun : ReflTransGen (OpenStep zl archive history (realPaths paths)) s.system system) :
    ReflTransGen (ScanStep zl archive history) s { s with system := system } := by
  induction hrun with
  | refl => exact .refl
  | tail _ hstep ih => exact ih.tail (.openFile hglob hstep)

theorem run_changes (system : ArchiveSystem) (n : ℕ) (paths : Set Path) :
    ReflTransGen (OpenStep zl archive history paths) system
      { system with now := system.now + n } := by
  induction n with
  | zero => exact .refl
  | succ n ih => exact ih.tail .change

theorem run_chunk {system : ArchiveSystem} {paths : Set Path} {frames : List Bytes} {i : ℕ}
    {frame bytes : Bytes} (hframes : IsContainer frames (history system.now))
    (hi : frames[i]? = some frame) (hcount : i < 10 ^ 15) (hmem : chunkPath archive i ∈ paths)
    (hfree : system.lockedBy = none) (hidle : system.calls 0 = none)
    (hmiss : (system.cache (chunkPath archive i)).lookup (statFile (history system.now)) = none)
    (hdecompress : zl.decompressSerial frame = .ok bytes) :
    ∃ slot data, data.bytes = bytes ∧
      ReflTransGen (OpenStep zl archive history paths) system
        (system.opened (chunkPath archive i)
          (Function.update system.cache (chunkPath archive i) slot) (.ok data)) := by
  obtain ⟨hlt, rfl⟩ := List.getElem?_eq_some_iff.mp hi
  have hresolve := resolve_chunkPath archive hcount
  have hholds : HoldsContainer archive frames (worldAt history system.now) := hframes.holds
  have hw : (worldAt history system.now).At archive history system := rfl
  have hdecoded : decompressArchive zl (resolve (chunkPath archive i))
      (worldAt history system.now) = .ok bytes (worldAt history system.now) := by
    have hchunk : decodeChunk zl archive i frames[i] = .ok bytes := by
      rw [decodeChunk, hdecompress]
    rw [hresolve, decompressArchive, hholds.decompressChunkToBuffer hlt, hchunk]
    rfl
  exact ⟨_, _, rfl, run_decompressed hw hmem (by rw [hresolve]) hfree hidle hmiss hdecoded⟩

theorem exists_scan_of_two {n : ℕ} {frames frames' : List Bytes} {frame frame' bytes bytes' : Bytes}
    (hframes : IsContainer frames (history 0)) (hcount : frames.length = 2)
    (hframes' : IsContainer frames' (history n))
    (hp : splitChunkSuffix archive = none)
    (h₀ : frames[0]? = some frame) (hbytes : zl.decompressSerial frame = .ok bytes)
    (h₁ : frames'[1]? = some frame') (hbytes' : zl.decompressSerial frame' = .ok bytes') :
    ∃ s paths, ReflTransGen (ScanStep zl archive history) {} s ∧ s.glob = .expanded 0 paths ∧
      s.Returns n [bytes, bytes'] := by
  let paths : List String := [chunkPath (scanPath archive) 0, chunkPath (scanPath archive) 1]
  have hmem₀ : chunkPath archive 0 ∈ realPaths paths := by simp [realPaths, paths]
  have hmem₁ : chunkPath archive 1 ∈ realPaths paths := by simp [realPaths, paths]
  have hne : chunkPath archive 1 ≠ chunkPath archive 0 := by
    intro h
    have hsuffix := splitChunkSuffix_chunkPath archive (show 1 < 10 ^ 15 by decide)
    rw [h, splitChunkSuffix_chunkPath archive (by decide)] at hsuffix
    cases hsuffix
  -- `Glob` at version 0
  have hholds : HoldsContainer archive frames (worldAt history 0) := hframes.holds
  let expanded : ScanState := { glob := .expanded 0 paths }
  have hglob : ReflTransGen (ScanStep zl archive history) {} expanded := by
    have hresult := hholds.glob hp
    rw [hcount] at hresult
    have hw : (worldAt history 0).At archive history ({} : ScanState).system := rfl
    exact (run_glob hp rfl hw).1 _ _ hresult
  -- the two opens, and the changes between them
  obtain ⟨slot₀, data₀, rfl, hopen₀⟩ := @run_chunk zl archive history {} _ frames 0 frame bytes
    hframes h₀ (by decide) hmem₀ rfl rfl rfl hbytes
  let opened₀ : ArchiveSystem := ArchiveSystem.opened {} (chunkPath archive 0)
    (Function.update (fun _ ↦ {}) (chunkPath archive 0) slot₀) (.ok data₀)
  let changed : ArchiveSystem := { opened₀ with now := n }
  have hchanges : ReflTransGen (OpenStep zl archive history (realPaths paths)) opened₀ changed := by
    have hrun := @run_changes zl archive history opened₀ n (realPaths paths)
    rwa [show opened₀.now + n = n from Nat.zero_add n] at hrun
  have hmiss : (changed.cache (chunkPath archive 1)).lookup (statFile (history n)) = none := by
    have hslot : changed.cache (chunkPath archive 1) = {} := by
      simp [changed, opened₀, ArchiveSystem.opened, Function.update_of_ne hne]
    rw [hslot]
    rfl
  obtain ⟨slot₁, data₁, rfl, hopen₁⟩ := @run_chunk zl archive history changed _ frames' 1 frame'
    bytes' hframes' h₁ (by decide) hmem₁ rfl rfl hmiss hbytes'
  have hopens := run_opens (s := expanded) rfl ((hopen₀.trans hchanges).trans hopen₁)
  refine ⟨_, paths, hglob.trans hopens, rfl, 0, paths, rfl, .cons ?_ (.cons ?_ .nil)⟩
  · rw [stripScheme_chunkPath]
    exact ⟨_, List.mem_cons_of_mem _ List.mem_cons_self, rfl, Nat.zero_le n, data₀, rfl, rfl⟩
  · rw [stripScheme_chunkPath]
    exact ⟨_, List.mem_cons_self, rfl, le_rfl, data₁, rfl, rfl⟩

/-- Two one-byte chunks. -/
def twoFrames (a b : UInt8) : List Bytes := [[0, a], [0, b]]

def twoChunks (a b : UInt8) : Option File := some ⟨containerBytes (twoFrames a b), 0⟩

theorem isContainer_twoChunks (a b : UInt8) : IsContainer (twoFrames a b) (twoChunks a b) := by
  refine ⟨List.cons_ne_nil _ _, rfl, ?_⟩
  rw [length_containerBytes]
  exact (by decide : 8 + 4 + 16 * 2 + 16 < 2 ^ 63)

theorem versionRows_twoChunks {a b : UInt8} {result : List UInt8}
    (h : VersionRows .stored (fun bytes ↦ bytes) (twoChunks a b) result) : result = [a, b] := by
  obtain ⟨frames, chunks, hframes, hchunks, rfl⟩ := h
  obtain rfl := (isContainer_twoChunks a b).eq_of_isArchive hframes
  obtain ⟨x, rest, hx, hrest, rfl⟩ := List.forall₂_cons_left_iff.mp hchunks
  obtain ⟨y, none, hy, hnone, rfl⟩ := List.forall₂_cons_left_iff.mp hrest
  obtain rfl := List.forall₂_nil_left_iff.mp hnone
  obtain rfl := Except.ok.inj hx
  obtain rfl := Except.ok.inj hy
  rfl

/-- The archive is replaced once. -/
def replacedOnce (k : ℕ) : Option File := if k = 0 then twoChunks 1 2 else twoChunks 3 4

/-- The replacement falls between the opens of the two chunks: the scan gets a chunk of each. -/
theorem scan_mixes_versions : ∃ s out,
    ReflTransGen (ScanStep .stored "a" replacedOnce) {} s ∧ s.Returns 1 out ∧
      (∀ k, ∃ frames, IsArchive frames (replacedOnce k)) ∧
      ∀ k, ¬VersionRows .stored (fun bytes ↦ bytes) (replacedOnce k)
        (out.flatMap fun bytes ↦ bytes) := by
  have hp : splitChunkSuffix "a" = none := by decide +kernel
  obtain ⟨s, paths, hrun, hglob, hreturns⟩ := @exists_scan_of_two .stored "a" replacedOnce 1
    (twoFrames 1 2) (twoFrames 3 4) [0, 1] [0, 4] [1] [4] (isContainer_twoChunks 1 2) rfl
    (isContainer_twoChunks 3 4) hp rfl rfl rfl rfl
  refine ⟨s, _, hrun, hreturns, ?_, ?_⟩
  · intro k
    unfold replacedOnce
    split
    · exact ⟨_, .inl (isContainer_twoChunks 1 2)⟩
    · exact ⟨_, .inl (isContainer_twoChunks 3 4)⟩
  · intro k h
    unfold replacedOnce at h
    split at h
    · exact absurd (versionRows_twoChunks h) (by decide)
    · exact absurd (versionRows_twoChunks h) (by decide)

/-- Without a replacement the scan gets both chunks of the version. -/
theorem scan_reads_one_version : ∃ (s : ScanState) (out : List Bytes), s.Returns 0 out ∧
    VersionRows .stored (fun bytes ↦ bytes) (twoChunks 1 2) (out.flatMap fun bytes ↦ bytes) := by
  have hp : splitChunkSuffix "a" = none := by decide +kernel
  obtain ⟨s, paths, hrun, hglob, hreturns⟩ := @exists_scan_of_two .stored "a" replacedOnce 0
    (twoFrames 1 2) (twoFrames 1 2) [0, 1] [0, 2] [1] [2] (isContainer_twoChunks 1 2) rfl
    (isContainer_twoChunks 1 2) hp rfl rfl rfl rfl
  have hsame : ∀ j, 0 ≤ j → j ≤ 0 → contentAt replacedOnce j = contentAt replacedOnce 0 := by
    rintro j - hj
    rw [Nat.le_zero.mp hj]
  exact ⟨s, _, hreturns, (scan_reads_versions (fun bytes ↦ bytes) hp hrun hglob hreturns).2
    (twoFrames 1 2) (.inl (isContainer_twoChunks 1 2)) hsame⟩

end DuckdbOpenzl
