import DuckdbOpenzl.Bridge.ArchiveWriter
import DuckdbOpenzl.Bridge.IndexSafety

/-!
# Which containers are the writer's own

The writer lays its frames end to end. The reader checks each entry of the
index by itself, so it also accepts one entry, and entries that overlap, repeat,
change places or leave bytes out.
-/

set_option autoImplicit false

namespace DuckdbOpenzl

open FileContent ChunkedArchiveWriter

/-- The ranges lie end to end from a position to `last`. -/
def Tiles (last : ℕ) : ℕ → List ChunkRange → Prop
  | pos, [] => pos = last
  | pos, r :: ranges => r.offset = pos ∧ Tiles last (pos + r.length) ranges

/-- The bytes each range addresses. -/
def frameSlices (file : Bytes) (ranges : List ChunkRange) : List Bytes :=
  ranges.map fun r ↦ slice file r.offset r.length

/-- Writing the slices gives the file back, whatever happens to the destructors of the streams,
and succeeds on a disk that does not fail. -/
def Rewritten (file : Bytes) (ranges : List ChunkRange) : Prop :=
  ∀ (p : Path) (w : World),
    (∀ s, writeFrames (frameSlices file ranges) (w, ofPath p) = .ok () s →
      s.1.content p = some file) ∧
    (w.Healthy → ∃ s, writeFrames (frameSlices file ranges) (w, ofPath p) = .ok () s)

/-- What `ReadContainerIndex` reports of a corrupt container. -/
def corruptReasons : List String :=
  ["missing trailer", "bad chunk count", "unreadable index", "chunk out of range"]

/-- On this file the reader accepts exactly what the writer emits. -/
structure ReadsGrammar (path : Path) (file : Bytes) : Prop where
  accepted : ∀ ranges, containerIndex path (some file) = .ok (some ranges) →
    2 ≤ ranges.length ∧ Tiles (file.length - 16 - 16 * ranges.length) kMagicLen ranges ∧
      Rewritten file ranges
  emitted : ∀ frames, 2 ≤ frames.length → file = containerBytes frames →
    containerIndex path (some file) = .ok (some (rangesFrom kMagicLen frames))
  rejected : kMagicLen + 16 ≤ file.length → slice file 0 kMagicLen = kContainerMagic →
    (∀ frames, 2 ≤ frames.length → file ≠ containerBytes frames) →
      ∃ reason ∈ corruptReasons, containerIndex path (some file) =
        .error ⟨"openzl_bridge: corrupt chunked archive (" ++ reason ++ "): " ++ path⟩

/-- The index has entries, all of them in the body, but only one or some that are not end to
end from the magic to the index. -/
def LooseIndex (file : Bytes) : Prop :=
  ∃ body ranges, file = containerOf body ranges ∧ ranges ≠ [] ∧
    (∀ r ∈ ranges, r.InBody body.length) ∧
      ¬ (2 ≤ ranges.length ∧ Tiles (kMagicLen + body.length) kMagicLen ranges)

theorem Tiles.le {last pos : ℕ} {ranges : List ChunkRange} (h : Tiles last pos ranges) :
    pos ≤ last := by
  induction ranges generalizing pos with
  | nil => exact Nat.le_of_eq h
  | cons r ranges ih => exact (Nat.le_add_right _ _).trans (ih h.2)

/-- Ranges that lie end to end are those of the frames they address. -/
theorem Tiles.frames {body : Bytes} {pos : ℕ} {ranges : List ChunkRange}
    (h : Tiles (kMagicLen + body.length) pos ranges) (hpos : kMagicLen ≤ pos) :
    rangesFrom pos (ranges.map fun r ↦ slice body (r.offset - kMagicLen) r.length) = ranges ∧
      (ranges.map fun r ↦ slice body (r.offset - kMagicLen) r.length).flatten =
        body.drop (pos - kMagicLen) := by
  induction ranges generalizing pos with
  | nil =>
      refine ⟨rfl, ?_⟩
      have hend : pos = kMagicLen + body.length := h
      rw [List.map_nil, List.flatten_nil, List.drop_eq_nil_of_le (by omega)]
  | cons r ranges ih =>
      obtain ⟨hoffset, hrest⟩ := h
      obtain ⟨hranges, hflat⟩ := ih hrest (by omega)
      have hle := hrest.le
      have hlength : (slice body (r.offset - kMagicLen) r.length).length = r.length := by
        rw [length_slice]
        omega
      constructor
      · rw [List.map_cons, rangesFrom, hlength, hranges]
        exact congrArg₂ List.cons (by cases r; simp_all) rfl
      · rw [List.map_cons, List.flatten_cons, hflat, hoffset,
          show pos + r.length - kMagicLen = pos - kMagicLen + r.length by omega, ← List.drop_drop,
          slice, List.take_append_drop]

theorem frameSlices_containerOf {body : Bytes} {ranges : List ChunkRange}
    (hin : ∀ r ∈ ranges, r.InBody body.length) :
    frameSlices (containerOf body ranges) ranges =
      ranges.map fun r ↦ slice body (r.offset - kMagicLen) r.length :=
  List.map_congr_left fun r hr ↦ slice_containerOf (hin r hr)

/-- A container whose ranges lie end to end is the writer's container of its slices. -/
theorem containerOf_eq_containerBytes {body : Bytes} {ranges : List ChunkRange}
    (hin : ∀ r ∈ ranges, r.InBody body.length)
    (h : Tiles (kMagicLen + body.length) kMagicLen ranges) :
    containerOf body ranges = containerBytes (frameSlices (containerOf body ranges) ranges) := by
  obtain ⟨hranges, hflat⟩ := h.frames le_rfl
  rw [Nat.sub_self, List.drop_zero] at hflat
  rw [frameSlices_containerOf hin, containerBytes_eq, hranges, hflat]

theorem readRanges_cases (path : Path) (index : Bytes) (indexStart count : ℕ) :
    (∃ out, readRanges path index indexStart count = .ok out) ∨
      readRanges path index indexStart count =
        .error ⟨"openzl_bridge: corrupt chunked archive (chunk out of range): " ++ path⟩ := by
  induction count with
  | zero => exact .inl ⟨[], rfl⟩
  | succ i ih =>
      rw [readRanges]
      rcases ih with ⟨out, hread⟩ | hread
      · rw [hread]
        cases hlast : chunkOutOfRange indexStart (chunkRangeAt index i) with
        | true =>
            exact .inr (by simp [bind, Except.bind, hlast, throw, throwThe, MonadExceptOf.throw])
        | false => exact .inl ⟨_, by simp [bind, Except.bind, hlast, pure, Except.pure]; rfl⟩
      · rw [hread]
        exact .inr rfl

/-- A file that starts like a container is read as one or rejected as a corrupt one. -/
theorem containerIndex_of_magic (path : Path) {file : Bytes} (hsize : kMagicLen + 16 ≤ file.length)
    (hmagic : slice file 0 kMagicLen = kContainerMagic) :
    (∃ ranges, containerIndex path (some file) = .ok (some ranges)) ∨
      ∃ reason ∈ corruptReasons, containerIndex path (some file) =
        .error ⟨"openzl_bridge: corrupt chunked archive (" ++ reason ++ "): " ++ path⟩ := by
  unfold containerIndex
  dsimp only
  rw [if_neg (by omega), if_neg (by simp [hmagic])]
  split_ifs with htail hcount hend
  · exact .inr ⟨"missing trailer", by simp [corruptReasons], rfl⟩
  · exact .inr ⟨"bad chunk count", by simp [corruptReasons], rfl⟩
  · exact .inr ⟨"unreadable index", by simp [corruptReasons], rfl⟩
  · rcases readRanges_cases path _ _ _ with ⟨out, hread⟩ | hread
    · rw [hread]
      exact .inl ⟨out, rfl⟩
    · rw [hread]
      exact .inr ⟨"chunk out of range", by simp [corruptReasons], rfl⟩

/-- The reader keeps to the writer's grammar exactly on files without a loose index. -/
theorem readsGrammar_iff (path : Path) {file : Bytes} (hsize : file.length < 2 ^ 63) :
    ReadsGrammar path file ↔ ¬ LooseIndex file := by
  constructor
  · rintro h ⟨body, ranges, rfl, hne, hin, hloose⟩
    have hindex := containerIndex_containerOf path hne hin hsize
    obtain ⟨htwo, htiles, -⟩ := h.accepted ranges hindex
    have hlength := length_containerOf body ranges
    rw [show (containerOf body ranges).length - 16 - 16 * ranges.length =
      kMagicLen + body.length by omega] at htiles
    exact hloose ⟨htwo, htiles⟩
  · intro hstrict
    have haccepted : ∀ ranges, containerIndex path (some file) = .ok (some ranges) →
        ∃ body, file = containerOf body ranges ∧ (∀ r ∈ ranges, r.InBody body.length) ∧
          2 ≤ ranges.length ∧ Tiles (kMagicLen + body.length) kMagicLen ranges := by
      intro ranges hindex
      obtain ⟨hne, body, hfile, hin⟩ := (containerIndex_eq_some_iff hsize).mp hindex
      refine ⟨body, hfile, hin, ?_⟩
      by_contra hloose
      exact hstrict ⟨body, ranges, hfile, hne, hin, hloose⟩
    refine ⟨?_, ?_, ?_⟩
    · intro ranges hindex
      obtain ⟨body, rfl, hin, htwo, htiles⟩ := haccepted ranges hindex
      have hlength := length_containerOf body ranges
      have hwriter := containerOf_eq_containerBytes hin htiles
      have hslices : 2 ≤ (frameSlices (containerOf body ranges) ranges).length := by
        rwa [frameSlices, List.length_map]
      refine ⟨htwo, ?_, ?_⟩
      · rwa [show (containerOf body ranges).length - 16 - 16 * ranges.length =
          kMagicLen + body.length by omega]
      · intro p w
        refine ⟨fun s hs ↦ ?_, fun hw ↦ writeFrames_returns hw hslices (hwriter ▸ hsize)⟩
        rw [writeFrames_container hslices hs, ← hwriter]
    · rintro frames htwo rfl
      exact containerIndex_containerBytes path frames (List.length_pos_iff.mp (by omega)) hsize
    · intro hlong hmagic hother
      rcases containerIndex_of_magic path hlong hmagic with ⟨ranges, hindex⟩ | hrejected
      · obtain ⟨body, rfl, hin, htwo, htiles⟩ := haccepted ranges hindex
        refine absurd (containerOf_eq_containerBytes hin htiles) (hother _ ?_)
        rwa [frameSlices, List.length_map]
      · exact hrejected

/-- A container of two frames as the writer leaves it. -/
theorem readsGrammar_two : ¬ LooseIndex (containerBytes [[1], [2, 3]]) ∧
    ReadsGrammar "a.ozl" (containerBytes [[1], [2, 3]]) := by
  have hsize : (containerBytes [[1], [2, 3]]).length < 2 ^ 63 := by
    rw [length_containerBytes]
    decide
  have hstrict : ¬ LooseIndex (containerBytes [[1], [2, 3]]) := by
    rintro ⟨body, ranges, hfile, hne, hin, hloose⟩
    have hindex := containerIndex_containerBytes "" [[1], [2, 3]] (by decide) hsize
    rw [hfile] at hindex hsize
    rw [containerIndex_containerOf "" hne hin hsize] at hindex
    obtain rfl : ranges = rangesFrom kMagicLen [[1], [2, 3]] :=
      Option.some.inj (Except.ok.inj hindex)
    have hbody : body.length = 3 := by
      have hlength := congrArg List.length hfile
      rw [length_containerBytes, length_containerOf] at hlength
      simp [rangesFrom] at hlength
      omega
    apply hloose
    rw [hbody]
    exact ⟨by decide, rfl, rfl, rfl⟩
  exact ⟨hstrict, (readsGrammar_iff "a.ozl" hsize).mpr hstrict⟩

/-- An index that names the first frame twice and the second one never is accepted. -/
theorem repeated_entry_accepted : ∃ path file, file.length < 2 ^ 63 ∧
    containerIndex path (some file) = .ok (some [⟨8, 1⟩, ⟨8, 1⟩]) ∧ ¬ ReadsGrammar path file := by
  have hsize : (containerOf [1, 2] [⟨8, 1⟩, ⟨8, 1⟩]).length < 2 ^ 63 := by
    rw [length_containerOf]
    decide
  have hindex : containerIndex "a.ozl" (some (containerOf [1, 2] [⟨8, 1⟩, ⟨8, 1⟩])) =
      .ok (some [⟨8, 1⟩, ⟨8, 1⟩]) :=
    containerIndex_containerOf "a.ozl" (by decide) (by decide) hsize
  refine ⟨"a.ozl", containerOf [1, 2] [⟨8, 1⟩, ⟨8, 1⟩], hsize, hindex, ?_⟩
  intro h
  obtain ⟨-, htiles, -⟩ := h.accepted _ hindex
  exact absurd htiles.2.1 (by decide)

end DuckdbOpenzl
