import DuckdbOpenzl.Bridge.Container

/-!
# Reading back what the writer lays out

The offsets the reader derives from the end of the file are the ones the
writer counted from its start.
-/

set_option autoImplicit false

namespace DuckdbOpenzl

open FileContent

/-! ## Integers -/

theorem putLE64_eq_encode (v : ℕ) : putLE64 v = LittleEndian.encode 8 v :=
  (LittleEndian.encode_eq_shift 8 v).symm

@[simp] theorem length_putLE64 (v : ℕ) : (putLE64 v).length = 8 := by
  simp [putLE64]

theorem getLE64_eq_decode {p : Bytes} (h : 8 ≤ p.length) :
    getLE64 p = LittleEndian.decode (p.take 8) :=
  LittleEndian.foldl_or_eq_decode p h

theorem getLE64_putLE64_append {v : ℕ} (hv : v < 2 ^ 64) (rest : Bytes) :
    getLE64 (putLE64 v ++ rest) = v := by
  rw [getLE64_eq_decode (by simp), List.take_left' (length_putLE64 v), putLE64_eq_encode,
    LittleEndian.decode_encode_of_lt (by simpa using hv)]

theorem putLE64_getLE64 {p : Bytes} (h : p.length = 8) : putLE64 (getLE64 p) = p := by
  have hencode := LittleEndian.encode_decode p
  rwa [putLE64_eq_encode, getLE64_eq_decode h.ge, List.take_of_length_le h.le, ← h]

/-! ## The index -/

@[simp] theorem encodeIndex_cons (r : ChunkRange) (ranges : List ChunkRange) :
    encodeIndex (r :: ranges) =
      putLE64 r.offset ++ (putLE64 r.length ++ encodeIndex ranges) := by
  simp [encodeIndex]

@[simp] theorem length_encodeIndex (ranges : List ChunkRange) :
    (encodeIndex ranges).length = 16 * ranges.length := by
  induction ranges with
  | nil => rfl
  | cons r ranges ih =>
      simp only [encodeIndex_cons, List.length_append, length_putLE64, ih, List.length_cons]
      omega

theorem drop_encodeIndex (ranges : List ChunkRange) (i : ℕ) :
    (encodeIndex ranges).drop (16 * i) = encodeIndex (ranges.drop i) := by
  rcases le_total ranges.length i with hi | hi
  · rw [List.drop_eq_nil_of_le (by simpa using hi), List.drop_eq_nil_of_le hi]
    rfl
  · have hsplit : encodeIndex ranges =
        encodeIndex (ranges.take i) ++ encodeIndex (ranges.drop i) := by
      rw [encodeIndex, encodeIndex, encodeIndex, ← List.flatMap_append, List.take_append_drop]
    rw [hsplit, List.drop_left']
    simp [hi]

theorem chunkRangeAt_encodeIndex (ranges : List ChunkRange) {i : ℕ} (hi : i < ranges.length)
    (hoff : ranges[i].offset < 2 ^ 64) (hlen : ranges[i].length < 2 ^ 64) :
    chunkRangeAt (encodeIndex ranges) i = ranges[i] := by
  have hdrop : (encodeIndex ranges).drop (16 * i) = putLE64 ranges[i].offset ++
      (putLE64 ranges[i].length ++ encodeIndex (ranges.drop (i + 1))) := by
    rw [drop_encodeIndex, List.drop_eq_getElem_cons hi, encodeIndex_cons]
  have hdrop' : (encodeIndex ranges).drop (16 * i + 8) =
      putLE64 ranges[i].length ++ encodeIndex (ranges.drop (i + 1)) := by
    rw [← List.drop_drop, hdrop, List.drop_left' (length_putLE64 _)]
  rw [chunkRangeAt, hdrop, hdrop', getLE64_putLE64_append hoff, getLE64_putLE64_append hlen]

theorem readRanges_succ_eq_ok_iff {path : Path} {index : Bytes} {indexStart i : ℕ}
    {ranges : List ChunkRange} : readRanges path index indexStart (i + 1) = .ok ranges ↔
      ∃ out, readRanges path index indexStart i = .ok out ∧
        chunkOutOfRange indexStart (chunkRangeAt index i) = false ∧
          ranges = out ++ [chunkRangeAt index i] := by
  rw [readRanges]
  cases readRanges path index indexStart i with
  | error e => simp [bind, Except.bind]
  | ok out =>
      cases hlast : chunkOutOfRange indexStart (chunkRangeAt index i) with
      | true => simp [bind, Except.bind, hlast, throw, throwThe, MonadExceptOf.throw]
      | false => simp [bind, Except.bind, hlast, pure, Except.pure, eq_comm]

/-- The loop returns the stored entries exactly when none of them is out of range. -/
theorem readRanges_eq_ok_iff {path : Path} {index : Bytes} {indexStart count : ℕ}
    {ranges : List ChunkRange} : readRanges path index indexStart count = .ok ranges ↔
      ranges = (List.range count).map (chunkRangeAt index) ∧
        ∀ i < count, chunkOutOfRange indexStart (chunkRangeAt index i) = false := by
  induction count generalizing ranges with
  | zero =>
      rw [readRanges, Except.ok.injEq]
      exact ⟨fun h ↦ ⟨h.symm, fun i hi ↦ absurd hi (Nat.not_lt_zero i)⟩, fun h ↦ h.1.symm⟩
  | succ count ih =>
      rw [readRanges_succ_eq_ok_iff, List.range_succ, List.map_append, List.map_singleton]
      constructor
      · rintro ⟨out, hread, hlast, rfl⟩
        obtain ⟨rfl, hall⟩ := ih.mp hread
        refine ⟨rfl, ?_⟩
        intro i hi
        rcases Nat.lt_succ_iff_lt_or_eq.mp hi with hi | rfl
        · exact hall i hi
        · exact hlast
      · rintro ⟨rfl, hall⟩
        exact ⟨_, ih.mpr ⟨rfl, fun i hi ↦ hall i (Nat.lt_succ_of_lt hi)⟩,
          hall count (Nat.lt_succ_self count), rfl⟩

/-! ## Ranges of frames laid end to end -/

@[simp] theorem length_rangesFrom (pos : ℕ) (frames : List Bytes) :
    (rangesFrom pos frames).length = frames.length := by
  induction frames generalizing pos with
  | nil => rfl
  | cons f frames ih => simp [rangesFrom, ih]

theorem rangesFrom_append (pos : ℕ) (frames rest : List Bytes) :
    rangesFrom pos (frames ++ rest) =
      rangesFrom pos frames ++ rangesFrom (pos + frames.flatten.length) rest := by
  induction frames generalizing pos with
  | nil => simp [rangesFrom]
  | cons f frames ih => simp [rangesFrom, ih, Nat.add_assoc]

theorem getElem_rangesFrom (pos : ℕ) (frames : List Bytes) {i : ℕ} (hi : i < frames.length)
    (hr : i < (rangesFrom pos frames).length) : (rangesFrom pos frames)[i] =
      ⟨pos + (frames.take i).flatten.length, frames[i].length⟩ := by
  induction frames generalizing pos i with
  | nil => simp at hi
  | cons f frames ih =>
      cases i with
      | zero => simp [rangesFrom]
      | succ i =>
          have hi' : i < frames.length := by simpa using hi
          simp [rangesFrom, ih (pos + f.length) hi' (by simpa using hi'), Nat.add_assoc]

theorem flatten_split (frames : List Bytes) {i : ℕ} (hi : i < frames.length) :
    frames.flatten = (frames.take i).flatten ++ (frames[i] ++ (frames.drop (i + 1)).flatten) := by
  have h := congrArg List.flatten (List.take_append_drop i frames)
  rw [List.drop_eq_getElem_cons hi, List.flatten_append, List.flatten_cons] at h
  exact h.symm

theorem length_flatten_split (frames : List Bytes) {i : ℕ} (hi : i < frames.length) :
    (frames.take i).flatten.length + frames[i].length ≤ frames.flatten.length := by
  have h := congrArg List.length (flatten_split frames hi)
  rw [List.length_append, List.length_append] at h
  omega

/-! ## The container -/

@[simp] theorem length_kContainerMagic : kContainerMagic.length = kMagicLen := rfl

theorem length_containerBytes (frames : List Bytes) :
    (containerBytes frames).length =
      kMagicLen + frames.flatten.length + 16 * frames.length + 16 := by
  simp only [containerBytes, List.length_append, length_encodeIndex, length_rangesFrom,
    length_putLE64, length_kContainerMagic, kMagicLen]
  omega

theorem slice_containerBytes (frames : List Bytes) {i : ℕ} (hi : i < frames.length) :
    slice (containerBytes frames) (kMagicLen + (frames.take i).flatten.length) frames[i].length =
      frames[i] := by
  have hsplit : containerBytes frames =
      (kContainerMagic ++ (frames.take i).flatten) ++ frames[i] ++
        ((frames.drop (i + 1)).flatten ++
          (encodeIndex (rangesFrom kMagicLen frames) ++
            (putLE64 frames.length ++ kContainerMagic))) := by
    rw [containerBytes, flatten_split frames hi]
    simp only [List.append_assoc]
  have hlen : kMagicLen + (frames.take i).flatten.length =
      (kContainerMagic ++ (frames.take i).flatten).length := by
    rw [List.length_append, length_kContainerMagic]
  rw [hsplit, hlen, slice_append_append]

theorem slice_containerBytes_zero (frames : List Bytes) :
    slice (containerBytes frames) 0 kMagicLen = kContainerMagic := by
  simpa [containerBytes] using slice_append_append ([] : Bytes) kContainerMagic
    (frames.flatten ++ (encodeIndex (rangesFrom kMagicLen frames) ++
      (putLE64 frames.length ++ kContainerMagic)))

/-! ## Any container whose ranges lie in its body -/

/-- A file with `body` between the magic and the index of these ranges. -/
def containerOf (body : Bytes) (ranges : List ChunkRange) : Bytes :=
  kContainerMagic ++ body ++ (encodeIndex ranges ++ (putLE64 ranges.length ++ kContainerMagic))

/-- The range addresses bytes of a body of this length, which starts behind the magic. -/
def ChunkRange.InBody (r : ChunkRange) (bodyLength : ℕ) : Prop :=
  kMagicLen ≤ r.offset ∧ r.offset + r.length ≤ kMagicLen + bodyLength

instance (r : ChunkRange) (bodyLength : ℕ) : Decidable (r.InBody bodyLength) :=
  inferInstanceAs (Decidable (_ ∧ _))

theorem length_containerOf (body : Bytes) (ranges : List ChunkRange) :
    (containerOf body ranges).length = kMagicLen + body.length + 16 * ranges.length + 16 := by
  simp only [containerOf, List.length_append, length_encodeIndex, length_putLE64,
    length_kContainerMagic, kMagicLen]
  omega

theorem chunkOutOfRange_eq_false_iff {indexStart : ℕ} (h : indexStart < 2 ^ 64) (r : ChunkRange) :
    chunkOutOfRange indexStart r = false ↔
      kMagicLen ≤ r.offset ∧ r.offset + r.length ≤ indexStart := by
  simp only [chunkOutOfRange, Bool.or_eq_false_iff, decide_eq_false_iff_not, not_lt]
  constructor
  · rintro ⟨⟨hlow, hhigh⟩, hlength⟩
    rw [sub64_eq h hhigh] at hlength
    omega
  · rintro ⟨hlow, hend⟩
    rw [sub64_eq h (by omega)]
    omega

theorem map_chunkRangeAt_encodeIndex {ranges : List ChunkRange}
    (h : ∀ r ∈ ranges, r.offset < 2 ^ 64 ∧ r.length < 2 ^ 64) :
    (List.range ranges.length).map (chunkRangeAt (encodeIndex ranges)) = ranges := by
  apply List.ext_getElem
  · simp
  · intro i hi hi'
    obtain ⟨hoff, hlen⟩ := h _ (List.getElem_mem hi')
    rw [List.getElem_map, List.getElem_range, chunkRangeAt_encodeIndex _ hi' hoff hlen]

theorem slice_containerOf_zero (body : Bytes) (ranges : List ChunkRange) :
    slice (containerOf body ranges) 0 kMagicLen = kContainerMagic := by
  simpa [containerOf] using slice_append_append ([] : Bytes) kContainerMagic
    (body ++ (encodeIndex ranges ++ (putLE64 ranges.length ++ kContainerMagic)))

theorem slice_containerOf_trailer (body : Bytes) (ranges : List ChunkRange) :
    slice (containerOf body ranges) ((containerOf body ranges).length - 16) 16 =
      putLE64 ranges.length ++ kContainerMagic := by
  have h := slice_append_append (kContainerMagic ++ body ++ encodeIndex ranges)
    (putLE64 ranges.length ++ kContainerMagic) []
  have hmagic : kMagicLen = 8 := rfl
  have hoff : (kContainerMagic ++ body ++ encodeIndex ranges).length =
      (containerOf body ranges).length - 16 := by
    simp only [length_containerOf, List.length_append, length_kContainerMagic, length_encodeIndex]
    omega
  rw [hoff] at h
  simpa [containerOf, List.append_assoc, hmagic] using h

theorem slice_containerOf_index (body : Bytes) (ranges : List ChunkRange) :
    slice (containerOf body ranges) (kMagicLen + body.length) (16 * ranges.length) =
      encodeIndex ranges := by
  have h := slice_append_append (kContainerMagic ++ body) (encodeIndex ranges)
    (putLE64 ranges.length ++ kContainerMagic)
  rw [List.length_append, length_kContainerMagic, length_encodeIndex] at h
  simpa [containerOf, List.append_assoc] using h

/-- The loop over an index whose ranges lie in the body. -/
theorem readRanges_encodeIndex (path : Path) {ranges : List ChunkRange} {bodyLength : ℕ}
    (hin : ∀ r ∈ ranges, r.InBody bodyLength) (hsize : kMagicLen + bodyLength < 2 ^ 64) :
    readRanges path (encodeIndex ranges) (kMagicLen + bodyLength) ranges.length = .ok ranges := by
  have hranges : (List.range ranges.length).map (chunkRangeAt (encodeIndex ranges)) = ranges := by
    apply map_chunkRangeAt_encodeIndex
    intro r hr
    obtain ⟨-, hend⟩ := hin r hr
    omega
  refine readRanges_eq_ok_iff.mpr ⟨hranges.symm, ?_⟩
  intro i hi
  have hmem : chunkRangeAt (encodeIndex ranges) i ∈ ranges := by
    have hi' := List.mem_map_of_mem (f := chunkRangeAt (encodeIndex ranges)) (List.mem_range.mpr hi)
    rwa [hranges] at hi'
  exact (chunkOutOfRange_eq_false_iff hsize _).mpr (hin _ hmem)

/-- The reader returns the ranges of the index as they are stored. -/
theorem containerIndex_containerOf (path : Path) {body : Bytes} {ranges : List ChunkRange}
    (hne : ranges ≠ []) (hin : ∀ r ∈ ranges, r.InBody body.length)
    (hsize : (containerOf body ranges).length < 2 ^ 63) :
    containerIndex path (some (containerOf body ranges)) = .ok (some ranges) := by
  have hpos : 0 < ranges.length := List.length_pos_iff.mpr hne
  have hlen := length_containerOf body ranges
  have hmagic : kMagicLen = 8 := rfl
  have hmagicSlice : slice (putLE64 ranges.length ++ kContainerMagic) 8 kMagicLen =
      kContainerMagic := by
    have h := slice_append_append (putLE64 ranges.length) kContainerMagic []
    simpa [hmagic] using h
  have hcount : getLE64 (putLE64 ranges.length ++ kContainerMagic) = ranges.length :=
    getLE64_putLE64_append (by omega) _
  -- no step of the 64-bit arithmetic wraps
  have hsub : sub64 (containerOf body ranges).length 16 = (containerOf body ranges).length - 16 :=
    sub64_eq (by omega) (by omega)
  have hquot :
      ranges.length ≤ sub64 (sub64 (containerOf body ranges).length kMagicLen) 16 / 16 := by
    rw [sub64_eq (a := (containerOf body ranges).length) (by omega) (by omega),
      sub64_eq (by omega) (by omega)]
    omega
  have hmul : mul64 ranges.length 16 = 16 * ranges.length := by
    rw [mul64_eq (by omega), Nat.mul_comm]
  have hstart : sub64 ((containerOf body ranges).length - 16) (16 * ranges.length) =
      kMagicLen + body.length := by
    rw [sub64_eq (by omega) (by omega)]
    omega
  have hread := readRanges_encodeIndex path hin (by omega)
  unfold containerIndex
  dsimp only
  rw [if_neg (by omega), if_neg (by simp [slice_containerOf_zero]), hsub,
    slice_containerOf_trailer, if_neg (by simp [hmagicSlice]), hcount, if_neg (by omega), hmul,
    hstart, if_neg (by omega), slice_containerOf_index, hread]
  rfl

/-! ## What the writer lays out -/

theorem rangesFrom_inBody (frames : List Bytes) :
    ∀ r ∈ rangesFrom kMagicLen frames, r.InBody frames.flatten.length := by
  intro r hr
  obtain ⟨i, hi, rfl⟩ := List.getElem_of_mem hr
  have hi' : i < frames.length := by simpa using hi
  have hle := length_flatten_split frames hi'
  rw [getElem_rangesFrom _ _ hi']
  exact ⟨Nat.le_add_right _ _, by dsimp only; omega⟩

theorem containerBytes_eq (frames : List Bytes) :
    containerBytes frames = containerOf frames.flatten (rangesFrom kMagicLen frames) := by
  rw [containerOf, length_rangesFrom, containerBytes]

/-- The reader finds exactly the writer's ranges, whatever bytes the frames hold. -/
theorem containerIndex_containerBytes (path : Path) (frames : List Bytes) (hne : frames ≠ [])
    (hsize : (containerBytes frames).length < 2 ^ 63) :
    containerIndex path (some (containerBytes frames)) =
      .ok (some (rangesFrom kMagicLen frames)) := by
  rw [containerBytes_eq] at hsize ⊢
  refine containerIndex_containerOf path ?_ (rangesFrom_inBody frames) hsize
  intro hnil
  have hlength := congrArg List.length hnil
  rw [length_rangesFrom] at hlength
  exact hne (List.length_eq_zero_iff.mp hlength)

theorem archiveBytes_of_two_le {frames : List Bytes} (h : 2 ≤ frames.length) :
    archiveBytes frames = containerBytes frames := by
  match frames, h with
  | f :: g :: rest, _ => rfl

theorem containerBytes_injective {frames frames' : List Bytes} (hne : frames ≠ [])
    (hne' : frames' ≠ []) (hsize : (containerBytes frames).length < 2 ^ 63)
    (h : containerBytes frames = containerBytes frames') : frames = frames' := by
  have hindex := containerIndex_containerBytes "" frames hne hsize
  rw [h, containerIndex_containerBytes "" frames' hne' (h ▸ hsize)] at hindex
  have hranges : rangesFrom kMagicLen frames' = rangesFrom kMagicLen frames :=
    Option.some.inj (Except.ok.inj hindex)
  have hlength : frames'.length = frames.length := by simpa using congrArg List.length hranges
  apply List.ext_getElem hlength.symm
  intro i hi hi'
  have hrange := congrArg (fun ranges ↦ ranges[i]?) hranges
  rw [List.getElem?_eq_getElem (by simpa using hi'), List.getElem?_eq_getElem (by simpa using hi),
    getElem_rangesFrom _ _ hi, getElem_rangesFrom _ _ hi'] at hrange
  obtain ⟨hoffset, hlen⟩ := ChunkRange.mk.inj (Option.some.inj hrange)
  rw [← slice_containerBytes frames hi, ← slice_containerBytes frames' hi', ← hoffset, ← hlen, h]

/-- A file that is too short or starts with other bytes than the magic is a plain frame. -/
theorem containerIndex_plain (path : Path) (file : Bytes)
    (h : slice file 0 kMagicLen ≠ kContainerMagic) :
    containerIndex path (some file) = .ok none := by
  unfold containerIndex
  dsimp only
  by_cases hsize : file.length < kMagicLen + 16
  · rw [if_pos hsize]
  · rw [if_neg hsize, if_pos h]

theorem decodeFile_eq_ok_iff {zl : OpenZL} {path : Path} {input bytes : Bytes} :
    decodeFile zl path input = .ok bytes ↔ zl.decompressSerial input = .ok bytes := by
  unfold decodeFile
  cases zl.decompressSerial input with
  | ok content => simp
  | error what => simp

end DuckdbOpenzl
