import DuckdbOpenzl.FileSystem.OpenFile

/-!
# Every frame of an archive is reached by its path

What the writer appended, the reader finds again: `Glob` lists one path per
chunk, `OpenFile` resolves each to its archive and index, and the decoder is
handed the frame of that index. An archive of one frame is the frame itself.
-/

set_option autoImplicit false

namespace DuckdbOpenzl

open FileContent ChunkedArchiveWriter

/-! ## Reading a container -/

variable {zl : OpenZL} {p : Path} {w : World} {frames : List Bytes} {i : ℕ}

/-- A container of these frames is at the path, below the size where offsets turn negative. -/
structure HoldsContainer (p : Path) (frames : List Bytes) (w : World) : Prop where
  nonempty : frames ≠ []
  content : w.content p = some (containerBytes frames)
  size : (containerBytes frames).length < fileSizeLimit

namespace HoldsContainer

theorem containerIndex (h : HoldsContainer p frames w) :
    DuckdbOpenzl.containerIndex p (w.content p) = .ok (some (rangesFrom kMagicLen frames)) := by
  rw [h.content]
  exact containerIndex_containerBytes p frames h.nonempty h.size

theorem readContainerIndex (h : HoldsContainer p frames w) :
    DuckdbOpenzl.readContainerIndex p w = .ok (some (rangesFrom kMagicLen frames)) w :=
  opened_eq_ok_iff.mpr ⟨h.containerIndex, rfl⟩

theorem exists_opened (h : HoldsContainer p frames w) :
    opened p (fun file ↦ .ok file.isSome) w = .ok true w :=
  opened_eq_ok_iff.mpr ⟨by rw [h.content]; rfl, rfl⟩

theorem requireFile (h : HoldsContainer p frames w) :
    opened p (DuckdbOpenzl.requireFile p) w = .ok () w :=
  opened_eq_ok_iff.mpr ⟨by rw [h.content]; rfl, rfl⟩

theorem chunkCount (h : HoldsContainer p frames w) :
    DuckdbOpenzl.chunkCount p w = .ok frames.length w := by
  unfold DuckdbOpenzl.chunkCount
  rw [ExceptionState.bind_apply, h.requireFile]
  dsimp only
  rw [ExceptionState.bind_apply, h.readContainerIndex]
  simp [pure, EStateM.pure]

theorem chunkRange (h : HoldsContainer p frames w) (hi : i < frames.length) :
    DuckdbOpenzl.chunkRange p i (w.content p) =
      .ok ⟨kMagicLen + (frames.take i).flatten.length, frames[i].length⟩ := by
  have hrange : (rangesFrom kMagicLen frames)[i]? =
      some ⟨kMagicLen + (frames.take i).flatten.length, frames[i].length⟩ := by
    rw [List.getElem?_eq_getElem (by simpa using hi), getElem_rangesFrom _ _ hi]
  unfold DuckdbOpenzl.chunkRange
  rw [h.containerIndex]
  simp only [bind, Except.bind, hrange]
  rfl

theorem readFrame (h : HoldsContainer p frames w) (hi : i < frames.length) :
    DuckdbOpenzl.readFrame p i ⟨kMagicLen + (frames.take i).flatten.length, frames[i].length⟩
      (w.content p) = .ok frames[i] := by
  have hle := length_flatten_split frames hi
  have hlen := length_containerBytes frames
  rw [h.content]
  unfold DuckdbOpenzl.readFrame
  dsimp only
  rw [if_pos (Or.inr (by omega)), slice_containerBytes frames hi]

/-- The decoder is handed frame `i`, and its answer is the answer. -/
theorem decompressChunkToBuffer (h : HoldsContainer p frames w) (hi : i < frames.length) :
    DuckdbOpenzl.decompressChunkToBuffer zl p i w =
      returned (decodeChunk zl p i frames[i]) w := by
  have hrange : opened p (DuckdbOpenzl.chunkRange p i) w = .ok _ w :=
    opened_eq_ok_iff.mpr ⟨h.chunkRange hi, rfl⟩
  unfold DuckdbOpenzl.decompressChunkToBuffer
  rw [ExceptionState.bind_apply, h.requireFile]
  dsimp only
  rw [ExceptionState.bind_apply, hrange]
  dsimp only
  rw [opened, h.readFrame hi]
  rfl

theorem glob (h : HoldsContainer p frames w) (hp : splitChunkSuffix p = none) :
    DuckdbOpenzl.glob ("openzl://" ++ p) w =
      .ok ((List.range frames.length).map (chunkPath ("openzl://" ++ p))) w := by
  unfold DuckdbOpenzl.glob
  rw [stripScheme_scheme, hp, if_neg (by simp)]
  unfold EStateM.adaptExcept globArchive
  rw [ExceptionState.bind_apply, h.exists_opened]
  dsimp only
  rw [if_pos rfl, ExceptionState.bind_apply, h.readContainerIndex]
  simp [pure, EStateM.pure]

end HoldsContainer

/-! ## Reading a plain archive -/

/-- One frame that does not look like a container is at the path. -/
structure HoldsFrame (p : Path) (frame : Bytes) (w : World) : Prop where
  content : w.content p = some frame
  magic : slice frame 0 kMagicLen ≠ kContainerMagic

namespace HoldsFrame

variable {frame : Bytes}

theorem containerIndex (h : HoldsFrame p frame w) :
    DuckdbOpenzl.containerIndex p (w.content p) = .ok none := by
  rw [h.content]
  exact containerIndex_plain p frame h.magic

theorem readContainerIndex (h : HoldsFrame p frame w) :
    DuckdbOpenzl.readContainerIndex p w = .ok none w :=
  opened_eq_ok_iff.mpr ⟨h.containerIndex, rfl⟩

theorem requireFile (h : HoldsFrame p frame w) :
    opened p (DuckdbOpenzl.requireFile p) w = .ok () w :=
  opened_eq_ok_iff.mpr ⟨by rw [h.content]; rfl, rfl⟩

theorem chunkCount (h : HoldsFrame p frame w) : DuckdbOpenzl.chunkCount p w = .ok 1 w := by
  unfold DuckdbOpenzl.chunkCount
  rw [ExceptionState.bind_apply, h.requireFile]
  dsimp only
  rw [ExceptionState.bind_apply, h.readContainerIndex]
  rfl

theorem decompressToBuffer (h : HoldsFrame p frame w) :
    DuckdbOpenzl.decompressToBuffer zl p w = returned (decodeFile zl p frame) w := by
  have hplain : opened p (requirePlain p) w = .ok () w := by
    refine opened_eq_ok_iff.mpr ⟨?_, rfl⟩
    unfold requirePlain
    rw [h.containerIndex]
    rfl
  unfold DuckdbOpenzl.decompressToBuffer
  rw [ExceptionState.bind_apply, h.requireFile]
  dsimp only
  rw [ExceptionState.bind_apply, hplain]
  dsimp only
  rw [opened, h.content]
  rfl

theorem glob (h : HoldsFrame p frame w) (hp : splitChunkSuffix p = none) :
    DuckdbOpenzl.glob ("openzl://" ++ p) w = .ok ["openzl://" ++ p] w := by
  have hexists : opened p (fun file ↦ .ok file.isSome) w = .ok true w :=
    opened_eq_ok_iff.mpr ⟨by rw [h.content]; rfl, rfl⟩
  unfold DuckdbOpenzl.glob
  rw [stripScheme_scheme, hp, if_neg (by simp)]
  unfold EStateM.adaptExcept globArchive
  rw [ExceptionState.bind_apply, hexists]
  dsimp only
  rw [if_pos rfl, ExceptionState.bind_apply, h.readContainerIndex]
  rfl

end HoldsFrame

/-! ## From the writer to every reader -/

/-- What the readers find at the path of an archive of several frames. -/
structure ContainerRead (zl : OpenZL) (p : Path) (frames : List Bytes) (w : World) : Prop where
  index : ∃ file ranges, w.content p = some file ∧
    readContainerIndex p w = .ok (some ranges) w ∧ ranges.length = frames.length ∧
      ∀ (i : ℕ) (hr : i < ranges.length) (hi : i < frames.length),
        slice file ranges[i].offset ranges[i].length = frames[i]
  chunkCount : chunkCount p w = .ok frames.length w
  glob : glob ("openzl://" ++ p) w =
    .ok ((List.range frames.length).map (chunkPath ("openzl://" ++ p))) w
  resolve : ∀ i < frames.length,
    splitChunkSuffix (stripScheme (chunkPath ("openzl://" ++ p) i)) = some (p, i)
  decode : ∀ (i : ℕ) (hi : i < frames.length),
    decompressChunkToBuffer zl p i w = returned (decodeChunk zl p i frames[i]) w
  openFile : ∀ (i : ℕ) (hi : i < frames.length) (cache : ArchiveCache) (o : OpenerSettings),
    (cache (chunkPath p i)).lock = none →
      Serves (openFile zl (chunkPath ("openzl://" ++ p) i) .read o (w, cache))
        (decodeChunk zl p i frames[i])

/-- What they find at the path of an archive of one frame. -/
structure FrameRead (zl : OpenZL) (p : Path) (frame : Bytes) (w : World) : Prop where
  content : w.content p = some frame
  index : readContainerIndex p w = .ok none w
  chunkCount : chunkCount p w = .ok 1 w
  glob : glob ("openzl://" ++ p) w = .ok ["openzl://" ++ p] w
  openFile : ∀ (cache : ArchiveCache) (o : OpenerSettings), (cache p).lock = none →
    Serves (openFile zl ("openzl://" ++ p) .read o (w, cache)) (decodeFile zl p frame)

theorem HoldsContainer.read (h : HoldsContainer p frames w) (hcount : frames.length < 10 ^ 15)
    (hp : splitChunkSuffix p = none) : ContainerRead zl p frames w where
  index := by
    refine ⟨_, _, h.content, h.readContainerIndex, length_rangesFrom _ _, ?_⟩
    intro i hr hi
    rw [getElem_rangesFrom _ _ hi]
    exact slice_containerBytes frames hi
  chunkCount := h.chunkCount
  glob := h.glob hp
  resolve := by
    intro i hi
    rw [chunkPath_scheme, stripScheme_scheme]
    exact splitChunkSuffix_chunkPath p (hi.trans hcount)
  decode := fun i hi ↦ h.decompressChunkToBuffer hi
  openFile := by
    intro i hi cache o hlock
    have hstrip : stripScheme (chunkPath ("openzl://" ++ p) i) = chunkPath p i := by
      rw [chunkPath_scheme, stripScheme_scheme]
    apply openFile_serves
    · rw [hstrip]
      exact hlock
    · rw [hstrip, resolve_chunkPath p (hi.trans hcount)]
      exact h.decompressChunkToBuffer hi

theorem HoldsFrame.read {frame : Bytes} (h : HoldsFrame p frame w)
    (hp : splitChunkSuffix p = none) : FrameRead zl p frame w where
  content := h.content
  index := h.readContainerIndex
  chunkCount := h.chunkCount
  glob := h.glob hp
  openFile := by
    intro cache o hlock
    apply openFile_serves
    · rw [stripScheme_scheme]
      exact hlock
    · rw [stripScheme_scheme, resolve_of_none hp]
      exact h.decompressToBuffer

/-- The path does not itself end in the marker and 1 to 15 digits. -/
def PlainPath (p : Path) : Prop :=
  ∀ archive digits : String, p = archive ++ "#chunk=" ++ digits →
    ¬ (1 ≤ digits.length ∧ digits.length ≤ 15 ∧ ∀ c ∈ digits.toList, c.isDigit = true)

theorem PlainPath.splitChunkSuffix_eq_none (h : PlainPath p) : splitChunkSuffix p = none := by
  rw [splitChunkSuffix_eq_none_iff]
  intro archive digits hdigits hpath
  exact h archive digits hpath (isChunkDigits_iff.mp hdigits)

/-- Every frame that was appended is handed to the decoder through its own path, and the number
of chunks is the number of frames. -/
theorem writeFrames_read (zl : OpenZL) {frames : List Bytes} {p : Path} {w : World}
    {s : World × ChunkedArchiveWriter} (hcount : frames.length < 10 ^ 15)
    (hsize : (archiveBytes frames).length < 2 ^ 63) (hp : PlainPath p) (hkeep : w.KeepsFlushes)
    (hwrite : writeFrames frames (w, ofPath p) = .ok () s) :
    (2 ≤ frames.length → ContainerRead zl p frames s.1) ∧
      ∀ frame, frames = [frame] → slice frame 0 kMagicLen ≠ kContainerMagic →
        FrameRead zl p frame s.1 := by
  obtain ⟨hne, hcontent⟩ := writeFrames_ok hkeep hwrite
  have hsplit := hp.splitChunkSuffix_eq_none
  constructor
  · intro htwo
    rw [archiveBytes_of_two_le htwo] at hcontent hsize
    exact HoldsContainer.read ⟨hne, hcontent, hsize⟩ hcount hsplit
  · rintro frame rfl hmagic
    exact HoldsFrame.read ⟨hcontent, hmagic⟩ hsplit

theorem writeFrames_read_two : ∃ s,
    writeFrames [[], kContainerMagic] (World.empty, ofPath "a.ozl") = .ok () s ∧
      ContainerRead .stored "a.ozl" [[], kContainerMagic] s.1 := by
  have hruns : ExceptionState.returns (writeFrames [[], kContainerMagic])
      (World.empty, ofPath "a.ozl") = true := by decide +kernel
  obtain ⟨⟨⟩, s, hs⟩ := ExceptionState.exists_of_returns hruns
  have hsize : (archiveBytes [[], kContainerMagic]).length < 2 ^ 63 := by
    rw [show archiveBytes [[], kContainerMagic] = containerBytes [[], kContainerMagic] from rfl,
      length_containerBytes]
    decide
  have hp : PlainPath "a.ozl" := by
    intro archive digits hpath
    have hlen := congrArg String.length hpath
    simp only [String.length_append, show "#chunk=".length = 7 from rfl,
      show "a.ozl".length = 5 from rfl] at hlen
    omega
  exact ⟨s, hs, (writeFrames_read .stored (by decide) hsize hp (fun _ ↦ rfl) hs).1 (by decide)⟩

end DuckdbOpenzl
