import DuckdbOpenzl.Bridge.Compress
import DuckdbOpenzl.Bridge.ContainerRoundTrip
import DuckdbOpenzl.Library.CheckedAccess

/-!
# Reading an index nobody vouches for

The count, the offsets and the lengths of an index are whatever the file holds.
`containerIndexChecked` is `ReadContainerIndex` with every subtraction, product
and access checked; no file makes it stop. What it accepts is a container whose
ranges lie between the magic and the index.
-/

set_option autoImplicit false

namespace DuckdbOpenzl

open FileContent CheckedAccess

/-! ## The accepted files -/

theorem getLE64_take (p : Bytes) (h : 8 ≤ p.length) : getLE64 (p.take 8) = getLE64 p := by
  rw [getLE64_eq_decode h, getLE64_eq_decode (by simpa using h), List.take_take, Nat.min_self]

theorem encodeIndex_map_chunkRangeAt (index : Bytes) {count : ℕ} (h : index.length = 16 * count) :
    encodeIndex ((List.range count).map (chunkRangeAt index)) = index := by
  induction count generalizing index with
  | zero => exact (List.length_eq_zero_iff.mp h).symm
  | succ count ih =>
      have hrest : ∀ i, chunkRangeAt index (i + 1) = chunkRangeAt (index.drop 16) i := by
        intro i
        rw [chunkRangeAt, chunkRangeAt, List.drop_drop, List.drop_drop,
          show 16 * (i + 1) = 16 + 16 * i by omega, Nat.add_assoc]
      have hoffset : putLE64 (getLE64 index) = index.take 8 := by
        rw [← getLE64_take index (by omega), putLE64_getLE64 (by rw [List.length_take]; omega)]
      have hlength : putLE64 (getLE64 (index.drop 8)) = (index.drop 8).take 8 := by
        rw [← getLE64_take _ (by rw [List.length_drop]; omega),
          putLE64_getLE64 (by rw [List.length_take, List.length_drop]; omega)]
      rw [List.range_succ_eq_map, List.map_cons, List.map_map, encodeIndex_cons]
      simp only [Function.comp_def, Nat.succ_eq_add_one, hrest]
      rw [ih _ (by rw [List.length_drop]; omega)]
      simp only [chunkRangeAt, Nat.mul_zero, List.drop_zero, Nat.zero_add]
      rw [hoffset, hlength, show index.drop 16 = (index.drop 8).drop 8 by rw [List.drop_drop],
        List.take_append_drop, List.take_append_drop]

/-- A trailer is the count it decodes to and the magic. -/
theorem trailer_eq {tail : Bytes} (hlength : tail.length = 16)
    (hmagic : slice tail 8 kMagicLen = kContainerMagic) :
    tail = putLE64 (getLE64 tail) ++ kContainerMagic := by
  have hput : putLE64 (getLE64 tail) = tail.take 8 := by
    rw [← getLE64_take tail (by omega), putLE64_getLE64 (by rw [List.length_take]; omega)]
  have hrest : tail.drop 8 = kContainerMagic := by
    rw [← hmagic, slice, List.take_of_length_le (by rw [List.length_drop, kMagicLen]; omega)]
  rw [hput, ← hrest, List.take_append_drop]

/-- What the checks of `ReadContainerIndex` leave of a file it accepts. -/
theorem containerIndex_some {path : Path} {file : Bytes} {ranges : List ChunkRange}
    (hsize : file.length < 2 ^ 63) (h : containerIndex path (some file) = .ok (some ranges)) :
    ∃ indexStart, kMagicLen ≤ indexStart ∧ 0 < ranges.length ∧
      file.length = indexStart + 16 * ranges.length + 16 ∧
        slice file 0 kMagicLen = kContainerMagic ∧
          slice file (indexStart + 16 * ranges.length) 16 =
            putLE64 ranges.length ++ kContainerMagic ∧
          ranges = (List.range ranges.length).map
            (chunkRangeAt (slice file indexStart (16 * ranges.length))) ∧
            ∀ r ∈ ranges, kMagicLen ≤ r.offset ∧ r.offset + r.length ≤ indexStart := by
  have hmagic : kMagicLen = 8 := rfl
  unfold containerIndex at h
  dsimp only at h
  split_ifs at h with hshort hhead htail hcount hend
  · simp at h
  · simp at h
  · push Not at hcount
    rw [Decidable.not_not] at hhead htail
    rw [sub64_eq (a := file.length) (b := 16) (by omega) (by omega)] at htail hcount hend h
    rw [sub64_eq (a := file.length) (b := kMagicLen) (by omega) (by omega),
      sub64_eq (by omega) (by omega)] at hcount
    have htrailer := trailer_eq (by rw [length_slice]; omega) htail
    generalize getLE64 (slice file (file.length - 16) 16) = count at hcount hend h htrailer
    rw [mul64_eq (by omega), sub64_eq (by omega) (by omega), Nat.mul_comm] at h
    obtain ⟨hnonzero, hquotient⟩ := hcount
    cases hread : readRanges path (slice file (file.length - 16 - 16 * count) (16 * count))
        (file.length - 16 - 16 * count) count with
    | error e =>
        rw [hread] at h
        cases h
    | ok out =>
        rw [hread] at h
        obtain rfl : out = ranges := Option.some.inj (Except.ok.inj h)
        obtain ⟨hranges, hall⟩ := readRanges_eq_ok_iff.mp hread
        have hlength : out.length = count := by rw [hranges, List.length_map, List.length_range]
        rw [hlength]
        refine ⟨file.length - 16 - 16 * count, by omega, by omega, by omega, hhead, ?_, hranges, ?_⟩
        · rwa [show file.length - 16 - 16 * count + 16 * count = file.length - 16 by omega]
        · intro r hr
          rw [hranges] at hr
          obtain ⟨i, hi, rfl⟩ := List.mem_map.mp hr
          exact (chunkOutOfRange_eq_false_iff (by omega) _).mp (hall i (List.mem_range.mp hi))

/-- `ReadContainerIndex` accepts exactly the containers whose ranges lie in their body. -/
theorem containerIndex_eq_some_iff {path : Path} {file : Bytes} {ranges : List ChunkRange}
    (hsize : file.length < 2 ^ 63) :
    containerIndex path (some file) = .ok (some ranges) ↔
      ranges ≠ [] ∧ ∃ body, file = containerOf body ranges ∧
        ∀ r ∈ ranges, r.InBody body.length := by
  constructor
  · intro h
    obtain ⟨indexStart, hstart, hpos, hlength, hhead, htrailer, hranges, hin⟩ :=
      containerIndex_some hsize h
    have hbody : kMagicLen + (indexStart - kMagicLen) = indexStart := by omega
    refine ⟨List.length_pos_iff.mp hpos, slice file kMagicLen (indexStart - kMagicLen), ?_, ?_⟩
    · have hindex : encodeIndex ranges = slice file indexStart (16 * ranges.length) := by
        conv_lhs => rw [hranges]
        exact encodeIndex_map_chunkRangeAt _ (by rw [length_slice]; omega)
      have hfront : kContainerMagic ++ slice file kMagicLen (indexStart - kMagicLen) =
          slice file 0 indexStart := by
        have h := slice_append_slice file 0 kMagicLen (indexStart - kMagicLen)
        rwa [Nat.zero_add, hhead, hbody] at h
      have hback : encodeIndex ranges ++ (putLE64 ranges.length ++ kContainerMagic) =
          slice file indexStart (16 * ranges.length + 16) := by
        rw [hindex, ← htrailer, slice_append_slice]
      have hwhole := slice_append_slice file 0 indexStart (16 * ranges.length + 16)
      rw [Nat.zero_add, ← hfront, ← hback, ← Nat.add_assoc, ← hlength, slice_length] at hwhole
      exact hwhole.symm
    · intro r hr
      obtain ⟨hlow, hhigh⟩ := hin r hr
      refine ⟨hlow, ?_⟩
      rw [length_slice]
      omega
  · rintro ⟨hne, body, rfl, hin⟩
    exact containerIndex_containerOf path hne hin hsize

/-! ## Every step checked -/

/-- `GetLE64` at an offset of a buffer. -/
def loadLE64 (buffer : Bytes) (off : ℕ) : Checked ℕ := do
  return getLE64 (← load buffer off 8)

/-- One turn of the loop over the index. -/
def readRangeChecked (path : Path) (index : Bytes) (indexStart i : ℕ) (out : List ChunkRange) :
    Checked (Except Error (List ChunkRange)) := do
  let entry ← mul 64 16 i
  let offset ← loadLE64 index entry
  let length ← loadLE64 index (← add 64 entry 8)
  if offset < kMagicLen ∨ offset > indexStart then
    return .error ⟨"openzl_bridge: corrupt chunked archive (chunk out of range): " ++ path⟩
  else if length > (← sub indexStart offset) then
    return .error ⟨"openzl_bridge: corrupt chunked archive (chunk out of range): " ++ path⟩
  else
    return .ok (out ++ [⟨offset, length⟩])

def readRangesChecked (path : Path) (index : Bytes) (indexStart : ℕ) :
    ℕ → Checked (Except Error (List ChunkRange))
  | 0 => return .ok []
  | i + 1 => do
      match ← readRangesChecked path index indexStart i with
      | .error e => return .error e
      | .ok out => readRangeChecked path index indexStart i out

/-- `ReadContainerIndex` on a file, stopping where it would wrap around, read outside the file
or a buffer, or ask for more memory than the file has bytes. -/
def containerIndexChecked (path : Path) (file : Bytes) :
    Checked (Except Error (Option (List ChunkRange))) := do
  let size := file.length
  if size < kMagicLen + 16 then
    return .ok none
  else
    let head ← load file 0 kMagicLen
    if head ≠ kContainerMagic then
      return .ok none
    else
      let tail ← load file (← sub size 16) 16
      let magic ← load tail 8 kMagicLen
      if magic ≠ kContainerMagic then
        return .error ⟨"openzl_bridge: corrupt chunked archive (missing trailer): " ++ path⟩
      else
        let count ← loadLE64 tail 0
        let bound := (← sub (← sub size kMagicLen) 16) / 16
        if count = 0 ∨ count > bound then
          return .error ⟨"openzl_bridge: corrupt chunked archive (bad chunk count): " ++ path⟩
        else
          let indexBytes ← mul 64 count 16
          let indexStart ← sub (← sub size 16) indexBytes
          allocate size indexBytes
          let index ← load file indexStart indexBytes
          return (← readRangesChecked path index indexStart count).map some

theorem loadLE64_of_le {buffer : Bytes} {off : ℕ} (h : off + 8 ≤ buffer.length) :
    loadLE64 buffer off = .ok (getLE64 (buffer.drop off)) := by
  have htake := getLE64_take (buffer.drop off) (by rw [List.length_drop]; omega)
  rw [loadLE64, load_of_le h, slice]
  simp only [bind, Except.bind, pure, Except.pure, htake]

theorem readRangeChecked_eq (path : Path) {index : Bytes} {indexStart i : ℕ}
    (out : List ChunkRange) (hindex : 16 * i + 16 ≤ index.length) (hlength : index.length < 2 ^ 64)
    (hstart : indexStart < 2 ^ 64) : readRangeChecked path index indexStart i out =
      .ok (if chunkOutOfRange indexStart (chunkRangeAt index i) then
          .error ⟨"openzl_bridge: corrupt chunked archive (chunk out of range): " ++ path⟩
        else .ok (out ++ [chunkRangeAt index i])) := by
  unfold readRangeChecked chunkOutOfRange chunkRangeAt
  rw [mul_of_lt (by omega)]
  simp only [bind, Except.bind]
  rw [loadLE64_of_le (by omega), add_of_lt (by omega)]
  simp only []
  rw [loadLE64_of_le (by omega)]
  generalize getLE64 (index.drop (16 * i)) = offset
  generalize getLE64 (index.drop (16 * i + 8)) = length
  simp only []
  by_cases hoffset : offset < kMagicLen ∨ offset > indexStart
  · rw [if_pos hoffset]
    rcases hoffset with hlow | hhigh
    · simp [hlow, pure, Except.pure]
    · simp [hhigh, pure, Except.pure]
  · rw [if_neg hoffset]
    rw [not_or, not_lt, not_lt] at hoffset
    obtain ⟨hlow, hhigh⟩ := hoffset
    have hsub := sub64_eq hstart hhigh
    rw [sub_of_le hhigh, hsub]
    by_cases hrest : length > indexStart - offset
    · simp [hrest, pure, Except.pure]
    · simp [hrest, hlow, hhigh, pure, Except.pure]

theorem readRangesChecked_eq (path : Path) {index : Bytes} {indexStart : ℕ} {count : ℕ}
    (hindex : 16 * count ≤ index.length) (hlength : index.length < 2 ^ 64)
    (hstart : indexStart < 2 ^ 64) :
    readRangesChecked path index indexStart count =
      .ok (readRanges path index indexStart count) := by
  induction count with
  | zero => rfl
  | succ i ih =>
      rw [readRangesChecked, readRanges, ih (by omega)]
      cases readRanges path index indexStart i with
      | error e => rfl
      | ok out =>
          have hturn := readRangeChecked_eq path out (show 16 * i + 16 ≤ index.length by omega)
            hlength hstart
          simp only [bind, Except.bind, hturn]
          cases chunkOutOfRange indexStart (chunkRangeAt index i) <;> rfl

/-- On no file does a step of `ReadContainerIndex` go wrong. -/
theorem containerIndexChecked_eq (path : Path) {file : Bytes} (hsize : file.length < 2 ^ 63) :
    containerIndexChecked path file = .ok (containerIndex path (some file)) := by
  have hmagic : kMagicLen = 8 := rfl
  unfold containerIndexChecked containerIndex
  dsimp only
  by_cases hshort : file.length < kMagicLen + 16
  · rw [if_pos hshort, if_pos hshort]
    rfl
  · rw [if_neg hshort, if_neg hshort, load_of_le (by omega)]
    simp only [bind, Except.bind]
    by_cases hhead : slice file 0 kMagicLen ≠ kContainerMagic
    · rw [if_pos hhead, if_pos hhead]
      rfl
    · have htailLength : (slice file (file.length - 16) 16).length = 16 := by
        rw [length_slice]
        omega
      rw [if_neg hhead, if_neg hhead, sub_of_le (by omega), sub64_eq (by omega) (by omega)]
      simp only []
      rw [load_of_le (show file.length - 16 + 16 ≤ file.length by omega)]
      simp only []
      rw [load_of_le (show 8 + kMagicLen ≤ (slice file (file.length - 16) 16).length by omega)]
      simp only []
      by_cases htail : slice (slice file (file.length - 16) 16) 8 kMagicLen ≠ kContainerMagic
      · rw [if_pos htail, if_pos htail]
        rfl
      · rw [if_neg htail, if_neg htail, loadLE64_of_le (by omega), sub_of_le (by omega)]
        simp only [List.drop_zero]
        rw [sub_of_le (by omega), sub64_eq (a := file.length) (by omega) (by omega),
          sub64_eq (by omega) (by omega)]
        simp only []
        generalize getLE64 (slice file (file.length - 16) 16) = count
        by_cases hcount : count = 0 ∨ count > (file.length - kMagicLen - 16) / 16
        · rw [if_pos hcount, if_pos hcount]
          rfl
        · rw [if_neg hcount, if_neg hcount]
          push Not at hcount
          rw [mul_of_lt (by omega), mul64_eq (by omega), sub64_eq (by omega) (by omega),
            if_neg (by omega)]
          simp only []
          rw [sub_of_le (by omega)]
          simp only []
          rw [allocate_of_le (by omega), load_of_le (by omega)]
          simp only []
          rw [readRangesChecked_eq path (by rw [length_slice]; omega)
            (by rw [length_slice]; omega) (by omega)]
          rfl

/-! ## Reading a chunk of an accepted file -/

variable {path : Path} {body : Bytes} {ranges : List ChunkRange}

/-- A range in the body addresses the body's bytes. -/
theorem slice_containerOf {r : ChunkRange} (h : r.InBody body.length) :
    slice (containerOf body ranges) r.offset r.length =
      slice body (r.offset - kMagicLen) r.length := by
  obtain ⟨hlow, hhigh⟩ := h
  have hmagic := length_kContainerMagic
  rw [slice, slice, containerOf, List.append_assoc, List.drop_append,
    List.drop_eq_nil_of_le (by omega), List.nil_append, hmagic, List.drop_append,
    List.take_append_of_le_length (by rw [List.length_drop]; omega)]

theorem chunkRange_of_index {file : Bytes} {index : ℕ} {r : ChunkRange}
    (h : containerIndex path (some file) = .ok (some ranges)) (hr : ranges[index]? = some r) :
    chunkRange path index (some file) = .ok r := by
  unfold chunkRange
  rw [h]
  simp only [bind, Except.bind, hr]
  rfl

theorem chunkRange_of_length_le {file : Bytes} {index : ℕ}
    (h : containerIndex path (some file) = .ok (some ranges)) (hindex : ranges.length ≤ index) :
    chunkRange path index (some file) = .error ⟨"openzl_bridge: chunk " ++ toString index ++
      " out of range (archive has " ++ toString ranges.length ++ ") : " ++ path⟩ := by
  unfold chunkRange
  rw [h]
  simp only [bind, Except.bind, List.getElem?_eq_none hindex]
  rfl

theorem decompressChunkToBuffer_of_index {zl : OpenZL} {w : World} {index : ℕ} {r : ChunkRange}
    (hfile : w.content path = some (containerOf body ranges))
    (h : containerIndex path (some (containerOf body ranges)) = .ok (some ranges))
    (hr : ranges[index]? = some r) (hin : r.InBody body.length) :
    decompressChunkToBuffer zl path index w =
      returned (decodeChunk zl path index (slice body (r.offset - kMagicLen) r.length)) w := by
  have hrequire : opened path (requireFile path) w = .ok () w :=
    opened_eq_ok_iff.mpr ⟨by rw [hfile]; rfl, rfl⟩
  have hrange : opened path (chunkRange path index) w = .ok r w :=
    opened_eq_ok_iff.mpr ⟨by rw [hfile]; exact chunkRange_of_index h hr, rfl⟩
  have hframe : readFrame path index r (some (containerOf body ranges)) =
      .ok (slice body (r.offset - kMagicLen) r.length) := by
    have hlength := length_containerOf body ranges
    obtain ⟨-, hend⟩ := id hin
    unfold readFrame
    dsimp only
    rw [if_pos (Or.inr (by omega)), slice_containerOf hin]
  unfold decompressChunkToBuffer
  rw [ExceptionState.bind_apply, hrequire]
  dsimp only
  rw [ExceptionState.bind_apply, hrange]
  dsimp only
  rw [opened, hfile]
  simp only [bind, Except.bind, hframe]

theorem decompressChunkToBuffer_of_length_le {zl : OpenZL} {file : Bytes} {w : World} {index : ℕ}
    (hfile : w.content path = some file)
    (h : containerIndex path (some file) = .ok (some ranges)) (hindex : ranges.length ≤ index) :
    decompressChunkToBuffer zl path index w = .error ⟨"openzl_bridge: chunk " ++ toString index ++
      " out of range (archive has " ++ toString ranges.length ++ ") : " ++ path⟩ w := by
  have hrequire : opened path (requireFile path) w = .ok () w :=
    opened_eq_ok_iff.mpr ⟨by rw [hfile]; rfl, rfl⟩
  unfold decompressChunkToBuffer
  rw [ExceptionState.bind_apply, hrequire]
  dsimp only
  rw [ExceptionState.bind_apply, opened, hfile, chunkRange_of_length_le h hindex]
  rfl

/-- Whatever a file holds, no step of reading its index goes wrong, and an accepted index leads
every chunk read to the bytes of the body it names. -/
theorem index_reads_stay_in_body (path : Path) (file : Bytes) (hsize : file.length < 2 ^ 63) :
    containerIndexChecked path file = .ok (containerIndex path (some file)) ∧
      ∀ ranges, containerIndex path (some file) = .ok (some ranges) →
        ranges ≠ [] ∧
        (∀ r ∈ ranges, kMagicLen ≤ r.offset ∧
          (r.offset + r.length : ℤ) ≤ file.length - 16 - 16 * ranges.length) ∧
        ∃ body, file = containerOf body ranges ∧
          ∀ (zl : OpenZL) (w : World), w.content path = some file →
            (∀ index, ranges.length ≤ index → decompressChunkToBuffer zl path index w =
              .error ⟨"openzl_bridge: chunk " ++ toString index ++ " out of range (archive has " ++
                toString ranges.length ++ ") : " ++ path⟩ w) ∧
            ∀ index r, ranges[index]? = some r →
              r.offset - kMagicLen + r.length ≤ body.length ∧
              slice file r.offset r.length = slice body (r.offset - kMagicLen) r.length ∧
              decompressChunkToBuffer zl path index w =
                returned (decodeChunk zl path index
                  (slice body (r.offset - kMagicLen) r.length)) w := by
  refine ⟨containerIndexChecked_eq path hsize, ?_⟩
  intro ranges h
  obtain ⟨hne, body, rfl, hin⟩ := (containerIndex_eq_some_iff hsize).mp h
  have hlength := length_containerOf body ranges
  refine ⟨hne, ?_, body, rfl, ?_⟩
  · intro r hr
    obtain ⟨hlow, hhigh⟩ := hin r hr
    exact ⟨hlow, by omega⟩
  · intro zl w hfile
    refine ⟨fun index hindex ↦ decompressChunkToBuffer_of_length_le hfile h hindex, ?_⟩
    intro index r hr
    have hrin := hin r (List.mem_of_getElem? hr)
    obtain ⟨hlow, hhigh⟩ := id hrin
    exact ⟨by omega, slice_containerOf hrin, decompressChunkToBuffer_of_index hfile h hr hrin⟩

/-- The two frames of a small container. -/
theorem index_reads_stay_in_body_two :
    containerIndexChecked "a.ozl" (containerBytes [[1], [2, 3]]) =
        .ok (.ok (some [⟨8, 1⟩, ⟨9, 2⟩])) ∧
      ∃ body, containerBytes [[1], [2, 3]] = containerOf body [⟨8, 1⟩, ⟨9, 2⟩] ∧
        ∀ w : World, w.content "a.ozl" = some (containerBytes [[1], [2, 3]]) →
          decompressChunkToBuffer .stored "a.ozl" 1 w =
            returned (decodeChunk .stored "a.ozl" 1 (slice body 1 2)) w := by
  have hsize : (containerBytes [[1], [2, 3]]).length < 2 ^ 63 := by
    rw [length_containerBytes]
    decide
  have hindex := containerIndex_containerBytes "a.ozl" [[1], [2, 3]] (by decide) hsize
  obtain ⟨hchecked, hread⟩ := index_reads_stay_in_body "a.ozl" (containerBytes [[1], [2, 3]]) hsize
  rw [hindex] at hchecked hread
  obtain ⟨-, -, body, hbody, hchunks⟩ := hread _ rfl
  refine ⟨hchecked, body, hbody, ?_⟩
  intro w hw
  exact ((hchunks .stored w hw).2 1 ⟨9, 2⟩ rfl).2.2

end DuckdbOpenzl
