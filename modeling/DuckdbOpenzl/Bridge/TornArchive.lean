import DuckdbOpenzl.Bridge.Compress
import DuckdbOpenzl.Bridge.PartialFile

/-!
# Archives that are not finished

The writer works on the destination itself, so a reader may come upon it between
any two calls of the writer, and upon what a call that failed has left. Such a
file is a proper prefix of an archive. It is refused, unless the magic happens
to stand where it was cut.
-/

set_option autoImplicit false

namespace DuckdbOpenzl

open ExceptionState FileContent

/-- Frames start with a magic number of OpenZL's own, and one that was cut is refused. -/
structure OpenZL.Sealed (zl : OpenZL) : Prop extends zl.Lawful where
  ownMagic : ∀ bytes out, zl.decompressSerial bytes = .ok out →
    4 ≤ bytes.length ∧ slice bytes 0 4 ≠ slice kContainerMagic 0 4
  cut : ∀ cctx input frame, zl.compressSerial cctx input = .ok frame →
    ∀ n < frame.length, ∃ what, zl.decompressSerial (frame.take n) = .error what

/-- The magic stands at the start and at the end of these bytes at most. -/
def Unmarked (bytes : Bytes) : Prop :=
  ∀ i < bytes.length - kMagicLen, 0 < i → slice bytes i kMagicLen ≠ kContainerMagic

instance (bytes : Bytes) : Decidable (Unmarked bytes) :=
  inferInstanceAs (Decidable (∀ i < _, _))

/-- No reader gets anything out of the file. -/
structure Unreadable (zl : OpenZL) (path : Path) (w : World) : Prop where
  count : chunkCount path w = .ok 1 w ∨ ∃ e, chunkCount path w = .error e w
  whole : ∃ e, decompressToBuffer zl path w = .error e w
  chunk : ∀ i, ∃ e, decompressChunkToBuffer zl path i w = .error e w

variable {zl : OpenZL} {path : Path} {w w' : World} {t whole frame : Bytes} {frames : List Bytes}

/-! ## Reading a torn file -/

section Readers

variable {α β : Type} {f : Option Bytes → Except Error α} {g : α → BridgeM β} {a : α} {e : Error}

/-- A stage that opens the file and passes. -/
theorem opened_bind_ok (hcontent : w.content path = some t) (hok : f (some t) = .ok a) :
    (opened path f >>= g) w = g a w := by
  rw [bind_apply, opened, hcontent, hok]
  rfl

theorem opened_bind_error (hcontent : w.content path = some t) (herr : f (some t) = .error e) :
    (opened path f >>= g) w = .error e w := by
  rw [bind_apply, opened, hcontent, herr]
  rfl

end Readers

theorem requireFile_some (path : Path) (t : Bytes) : requireFile path (some t) = .ok () := rfl

theorem refused_of_index {e : Error} (hcontent : w.content path = some t)
    (hindex : containerIndex path (some t) = .error e) : Unreadable zl path w where
  count := by
    right
    refine ⟨e, ?_⟩
    exact (opened_bind_ok hcontent (requireFile_some path t)).trans
      (opened_bind_error hcontent hindex)
  whole := by
    have hplain : requirePlain path (some t) = .error e := by
      unfold requirePlain
      rw [hindex]
      rfl
    refine ⟨e, ?_⟩
    exact (opened_bind_ok hcontent (requireFile_some path t)).trans
      (opened_bind_error hcontent hplain)
  chunk := by
    intro i
    have hrange : chunkRange path i (some t) = .error e := by
      unfold chunkRange
      rw [hindex]
      rfl
    refine ⟨e, ?_⟩
    exact (opened_bind_ok hcontent (requireFile_some path t)).trans
      (opened_bind_error hcontent hrange)

theorem refused_of_plain {what : String} (hcontent : w.content path = some t)
    (hindex : containerIndex path (some t) = .ok none)
    (hzl : zl.decompressSerial t = .error what) : Unreadable zl path w where
  count := by
    left
    exact (opened_bind_ok hcontent (requireFile_some path t)).trans
      (opened_bind_ok hcontent hindex)
  whole := by
    have hplain : requirePlain path (some t) = .ok () := by
      unfold requirePlain
      rw [hindex]
      rfl
    let e : Error := ⟨"openzl_bridge: decompress failed for " ++ path ++ ": " ++ what⟩
    have hdecode : decodeFile zl path t = .error e := by
      unfold decodeFile
      rw [hzl]
    have hlast : opened path (fun file ↦ readFile path file >>= decodeFile zl path) w =
        .error e w := by
      rw [opened, hcontent]
      exact congrArg (returned · w) hdecode
    refine ⟨e, (opened_bind_ok hcontent (requireFile_some path t)).trans ?_⟩
    exact (opened_bind_ok hcontent hplain).trans hlast
  chunk := by
    intro i
    let e : Error := ⟨"openzl_bridge: not a chunked archive: " ++ path⟩
    have hrange : chunkRange path i (some t) = .error e := by
      unfold chunkRange
      rw [hindex]
      rfl
    refine ⟨e, ?_⟩
    exact (opened_bind_ok hcontent (requireFile_some path t)).trans
      (opened_bind_error hcontent hrange)

theorem slice_torn {i n : ℕ} (hstarts : t <+: whole) (h : i + n ≤ t.length) :
    slice t i n = slice whole i n := by
  obtain ⟨rest, rfl⟩ := hstarts
  unfold slice
  rw [List.drop_append_of_le_length (by omega), List.take_append_of_le_length]
  rw [List.length_drop]
  omega

theorem slice_slice (xs : Bytes) (off : ℕ) {i m n : ℕ} (h : i + n ≤ m) :
    slice (slice xs off m) i n = slice xs (off + i) n := by
  unfold slice
  rw [List.drop_take, List.take_take, List.drop_drop, min_eq_left (by omega)]

/-- A container that was cut is short, or it lacks its trailer. -/
theorem containerIndex_torn (path : Path) (hstarts : t <+: whole) (hshort : t.length < whole.length)
    (hsize : whole.length < fileSizeLimit) (hmagic : slice whole 0 kMagicLen = kContainerMagic)
    (hunmarked : Unmarked whole) :
    (containerIndex path (some t) = .ok none ∧ t.length < kMagicLen + 16) ∨
      ∃ e, containerIndex path (some t) = .error e := by
  have hlimit : fileSizeLimit < 2 ^ 64 := by decide
  have hlen : kMagicLen = 8 := rfl
  unfold containerIndex
  dsimp only
  by_cases hsmall : t.length < kMagicLen + 16
  · rw [if_pos hsmall]
    exact .inl ⟨rfl, hsmall⟩
  · have hhead : slice t 0 kMagicLen = kContainerMagic := by
      rw [slice_torn hstarts (by omega), hmagic]
    have htail : slice (slice t (t.length - 16) 16) 8 kMagicLen ≠ kContainerMagic := by
      rw [slice_slice _ _ (by omega), slice_torn hstarts (by omega)]
      exact hunmarked _ (by omega) (by omega)
    rw [if_neg hsmall, if_neg (by simp [hhead]), sub64_eq (by omega) (by omega), if_pos htail]
    exact .inr ⟨_, rfl⟩

theorem refused_of_torn_container (hzl : zl.Sealed) (hunmarked : Unmarked (containerBytes frames))
    (hsize : (containerBytes frames).length < fileSizeLimit)
    (hcontent : w.content path = some t) (hstarts : t <+: containerBytes frames)
    (hshort : t.length < (containerBytes frames).length) : Unreadable zl path w := by
  have hmagic := slice_containerBytes_zero frames
  rcases containerIndex_torn path hstarts hshort hsize hmagic hunmarked with
    ⟨hindex, -⟩ | ⟨e, hindex⟩
  · cases hdecompress : zl.decompressSerial t with
    | error what => exact refused_of_plain hcontent hindex hdecompress
    | ok out =>
        obtain ⟨hlength, hown⟩ := hzl.ownMagic _ _ hdecompress
        have hstart : slice t 0 4 = slice (slice (containerBytes frames) 0 kMagicLen) 0 4 := by
          rw [slice_slice _ _ (by decide), slice_torn hstarts (by omega)]
        rw [hmagic] at hstart
        exact absurd hstart hown
  · exact refused_of_index hcontent hindex

theorem refused_of_torn_frame (hzl : zl.Sealed) {cctx : CCtx} {input : Bytes}
    (hframe : zl.compressSerial cctx input = .ok frame) (hcontent : w.content path = some t)
    (hstarts : t <+: frame) (hshort : t.length < frame.length) : Unreadable zl path w := by
  have hplain : slice t 0 kMagicLen ≠ kContainerMagic := by
    intro hmagic
    have hlength := congrArg List.length hmagic
    rw [length_slice, length_kContainerMagic] at hlength
    rw [slice_torn hstarts (by omega)] at hmagic
    exact hzl.magic _ _ _ hframe hmagic
  obtain ⟨what, hcut⟩ := hzl.cut _ _ _ hframe _ hshort
  rw [← List.prefix_iff_eq_take.mp hstarts] at hcut
  exact refused_of_plain hcontent (containerIndex_plain path t hplain) hcut

/-! ## What the writer leaves on the disk -/

/-- The file holds the first of these bytes, perhaps all. -/
def Torn (whole : Bytes) (path : Path) (w : World) : Prop :=
  ∃ t, w.content path = some t ∧ t <+: whole

theorem Torn.mono {more : Bytes} (h : Torn whole path w) (hstarts : whole <+: more) :
    Torn more path w := by
  obtain ⟨t, hcontent, ht⟩ := h
  exact ⟨t, hcontent, ht.trans hstarts⟩

namespace OFStream

theorem accepted_write_of_good {s : OFStream} (bytes : Bytes) (w : World) (hgood : s.good = true)
    (hopen : s.isOpen = true) :
    (s.write bytes w).1.accepted (s.write bytes w).2 = s.accepted w ++ bytes := by
  simp [write, accepted, hgood, hopen]

theorem write_of_bad {s : OFStream} (bytes : Bytes) (w : World) (hbad : s.good = false) :
    s.write bytes w = ({ s with good := false }, w) := by
  simp [write, hbad]

/-- What is on the disk is a part of what was accepted, also behind a failed close. -/
theorem torn_accepted {s : OFStream} {w : World} (hpresent : (w.content s.path).isSome) :
    Torn (s.accepted w) s.path w := by
  obtain ⟨t, ht⟩ := Option.isSome_iff_exists.mp hpresent
  refine ⟨t, ht, ?_⟩
  rw [accepted, ht]
  exact List.prefix_append _ _

theorem torn_store {s : OFStream} {w : World} {more : Bytes} (hmore : more <+: s.pending) :
    Torn (s.accepted w) s.path (w.tick.store s.path more) :=
  ⟨_, World.content_store_self _ _ _, (List.prefix_append_right_inj _).mpr hmore⟩

theorem torn_close {s : OFStream} {w : World} (hopen : s.isOpen = true) :
    Torn (s.accepted w) s.path (s.close w).2 := by
  unfold close
  rw [if_pos hopen]
  apply torn_store
  split_ifs
  · exact List.prefix_rfl
  · exact List.take_prefix _ _

theorem torn_destroy {s : OFStream} {w : World} (hopen : s.isOpen = true) :
    Torn (s.accepted w) s.path (s.destroy w) := by
  unfold destroy
  rw [if_pos hopen]
  apply torn_store
  split_ifs
  · exact List.prefix_rfl
  · exact List.take_prefix _ _

end OFStream

/-- `WriteFile` leaves the file alone or a part of its bytes. -/
theorem writeFile_torn (path : Path) (contents : Bytes) (w : World) :
    (stateAfter (writeFile path contents) w).files path = w.files path ∨
      Torn contents path (stateAfter (writeFile path contents) w) := by
  cases hopen : w.script.onOpen w.calls with
  | false =>
      left
      unfold stateAfter writeFile
      rw [openTrunc_eq_of_fail path hopen]
      rfl
  | true =>
      right
      generalize hstream : ({ path := path, isOpen := true } : OFStream) = f
      have hisOpen : f.isOpen = true := by rw [← hstream]
      have hgood : f.good = true := by rw [← hstream]
      have hpath : f.path = path := by rw [← hstream]
      have hnone : f.accepted (w.tick.put path []) = [] := by simp [← hstream, OFStream.accepted]
      have htorn := OFStream.torn_destroy (s := (f.write contents (w.tick.put path [])).1)
        (w := (f.write contents (w.tick.put path [])).2) (by simpa using hisOpen)
      rw [OFStream.accepted_write_of_good contents _ hgood hisOpen, hnone, List.nil_append,
        OFStream.write_path, hpath] at htorn
      unfold stateAfter writeFile
      rw [openTrunc_eq_of_ok path hopen, hstream]
      dsimp only
      rw [hgood]
      cases (f.write contents (w.tick.put path [])).1.good <;> exact htorn

/-! ## A container that is being laid out -/

namespace ChunkedArchiveWriter

/-- Of the magic and these frames the stream has accepted a part, and all while it is good. -/
structure LaidOut (frames : List Bytes) (out : OFStream) (w : World) : Prop where
  isOpen : out.isOpen = true
  part : out.accepted w <+: kContainerMagic ++ frames.flatten
  all : out.good = true → out.accepted w = kContainerMagic ++ frames.flatten

theorem LaidOut.write {out : OFStream} (h : LaidOut frames out w) (frame : Bytes) :
    LaidOut (frames ++ [frame]) (out.write frame w).1 (out.write frame w).2 := by
  have hflat : kContainerMagic ++ (frames ++ [frame]).flatten =
      kContainerMagic ++ frames.flatten ++ frame := by simp
  have hopen : (out.write frame w).1.isOpen = true := by simpa using h.isOpen
  rw [← List.append_nil (kContainerMagic ++ frames.flatten)] at hflat
  cases hgood : out.good with
  | true =>
      have hall := OFStream.accepted_write_of_good frame w hgood h.isOpen
      rw [h.all hgood] at hall
      refine ⟨hopen, ?_, fun _ ↦ ?_⟩
      · rw [hall]
        simp
      · rw [hall]
        simp
  | false =>
      have hpart := h.part
      rw [OFStream.write_of_bad frame w hgood]
      refine ⟨h.isOpen, ?_, fun hbad ↦ (by cases hbad)⟩
      refine hpart.trans ⟨frame, ?_⟩
      simp

theorem laidOut_second (f g : Bytes) (path : Path) (w : World)
    (hopen : w.script.onOpen w.calls = true) :
    LaidOut [f, g] (stateAfter (append g) (w, waiting path f)).2.out
      (stateAfter (append g) (w, waiting path f)).1 := by
  generalize hstream : ({ path := path, isOpen := true } : OFStream) = out
  have hisOpen : out.isOpen = true := by rw [← hstream]
  have hgood : out.good = true := by rw [← hstream]
  have hnone : out.accepted (w.tick.put path []) = [] := by simp [← hstream, OFStream.accepted]
  have hmagic : LaidOut [] (out.write kContainerMagic (w.tick.put path [])).1
      (out.write kContainerMagic (w.tick.put path [])).2 := by
    have hall := OFStream.accepted_write_of_good kContainerMagic (w.tick.put path []) hgood hisOpen
    rw [hnone] at hall
    refine ⟨by simpa using hisOpen, ?_, fun _ ↦ ?_⟩
    · rw [hall]
      simp
    · rw [hall]
      simp
  have hlaid := (hmagic.write f).write g
  rw [stateAfter_second f g path w hopen, stateAfter_appendFrame]
  unfold secondStream
  rw [hstream]
  exact hlaid

theorem laidOut_appendAll (f g : Bytes) (rest : List Bytes) (path : Path) (w : World)
    (hopen : w.script.onOpen w.calls = true) :
    LaidOut (f :: g :: rest) (appendAll (f :: g :: rest) (w, ofPath path)).2.out
      (appendAll (f :: g :: rest) (w, ofPath path)).1 := by
  induction rest using List.reverseRecOn with
  | nil => exact laidOut_second f g path w hopen
  | append_singleton rest x ih =>
      have hsplit : f :: g :: (rest ++ [x]) = (f :: g :: rest) ++ [x] := rfl
      have hcount := ((appendAll_cases f g rest path w).2 hopen).numChunks
      have hlaid := ih.write x
      rw [hsplit, appendAll_append]
      generalize appendAll (f :: g :: rest) (w, ofPath path) = s at hcount hlaid
      obtain ⟨w', a⟩ := s
      change LaidOut _ (stateAfter (append x) (w', a)).2.out (stateAfter (append x) (w', a)).1
      rw [stateAfter_append_of_two_le x (le_of_le_of_eq (by simp) hcount.symm),
        stateAfter_appendFrame]
      exact hlaid

/-- The trailer and the close bring no more than the container to the disk. -/
theorem LaidOut.close {out : OFStream} (trailer : Bytes) (h : LaidOut frames out w)
    (htrailer : out.good = true →
      kContainerMagic ++ frames.flatten ++ trailer = containerBytes frames) :
    Torn (containerBytes frames) out.path
      ((out.write trailer w).1.close (out.write trailer w).2).2 := by
  have htorn := OFStream.torn_close (s := (out.write trailer w).1) (w := (out.write trailer w).2)
    (by simpa using h.isOpen)
  rw [OFStream.write_path] at htorn
  apply htorn.mono
  cases hgood : out.good with
  | true =>
      rw [OFStream.accepted_write_of_good trailer w hgood h.isOpen, h.all hgood, htrailer hgood]
  | false =>
      rw [OFStream.write_of_bad trailer w hgood]
      apply h.part.trans
      rw [containerBytes]
      exact List.prefix_append _ _

/-! ## What a reader may come upon -/

/-- The disk behind some calls of a writer with these frames: all its `Append`s, its `Finish`, or
its whole life. -/
inductive Seen (path : Path) (w : World) (frames : List Bytes) : World → Prop
  | appended : Seen path w frames (appendAll frames (w, ofPath path)).1
  | finished : Seen path w frames (stateAfter finish (appendAll frames (w, ofPath path))).1
  | ended (ending : WriterEnding) : Seen path w frames (lifetime frames ending path w).world

/-- The file is as it was, or gone, or a part of the archive. -/
def PartLeft (path : Path) (w : World) (whole : Bytes) (w' : World) : Prop :=
  w'.files path = w.files path ∨ w'.files path = none ∨ Torn whole path w'

/-- Behind a `Finish` that closed the stream the destructor has nothing to do. -/
theorem lifetime_finish_of_closed
    (hfinish : (stateAfter finish (appendAll frames (w, ofPath path))).2.out.isOpen = false) :
    (lifetime frames .finish path w).world =
      (stateAfter finish (appendAll frames (w, ofPath path))).1 := by
  unfold lifetime
  dsimp only
  cases hrun : finish (appendAll frames (w, ofPath path)) with
  | ok u t =>
      rw [stateAfter_of_ok hrun] at hfinish ⊢
      exact destroy_of_closed hfinish
  | error e t =>
      rw [stateAfter_of_error hrun] at hfinish ⊢
      exact destroy_of_closed hfinish

/-- A writer without an open stream leaves the disk as it is. -/
theorem lifetime_of_closed (hclosed : (appendAll frames (w, ofPath path)).2.out.isOpen = false)
    (hfinish : (stateAfter finish (appendAll frames (w, ofPath path))).2.out.isOpen = false)
    (ending : WriterEnding) : (lifetime frames ending path w).world =
      (appendAll frames (w, ofPath path)).1 ∨
    (lifetime frames ending path w).world =
      (stateAfter finish (appendAll frames (w, ofPath path))).1 := by
  cases ending with
  | finish => exact .inr (lifetime_finish_of_closed hfinish)
  | abort =>
      left
      have habort : abort (appendAll frames (w, ofPath path)) =
          ((appendAll frames (w, ofPath path)).1,
            { (appendAll frames (w, ofPath path)).2 with finished := true }) := by
        simp [abort, hclosed]
      unfold lifetime
      dsimp only
      rw [habort]
      exact destroy_of_closed hclosed
  | none =>
      left
      exact destroy_of_closed hclosed

theorem partLeft_of_closed {whole : Bytes}
    (hclosed : (appendAll frames (w, ofPath path)).2.out.isOpen = false)
    (hfinish : (stateAfter finish (appendAll frames (w, ofPath path))).2.out.isOpen = false)
    (happended : PartLeft path w whole (appendAll frames (w, ofPath path)).1)
    (hfinished : PartLeft path w whole (stateAfter finish (appendAll frames (w, ofPath path))).1)
    (hseen : Seen path w frames w') : PartLeft path w whole w' := by
  cases hseen with
  | appended => exact happended
  | finished => exact hfinished
  | ended ending =>
      rcases lifetime_of_closed hclosed hfinish ending with hworld | hworld
      · rw [hworld]
        exact happended
      · rw [hworld]
        exact hfinished

theorem partLeft_lone (f : Bytes) (hseen : Seen path w [f] w') : PartLeft path w f w' := by
  have hwritten : ∃ a : ChunkedArchiveWriter, stateAfter finish (w, waiting path f) =
      (stateAfter (writeFile path f) w, a) ∧ a.out.isOpen = false := by
    unfold stateAfter finish
    dsimp only [waiting, ofPath]
    rw [if_neg (by decide), if_pos rfl]
    cases writeFile path f w with
    | ok u t => exact ⟨_, rfl, rfl⟩
    | error e t => exact ⟨_, rfl, rfl⟩
  obtain ⟨a, hstate, hclosed⟩ := hwritten
  refine partLeft_of_closed rfl ?_ (.inl rfl) ?_ hseen
  · rw [appendAll_singleton, hstate]
    exact hclosed
  · rw [appendAll_singleton, hstate]
    exact (writeFile_torn path f w).imp_right .inr

/-- `Finish` of a container whose file could not be opened. -/
theorem Unopened.finish_closed {s : World × ChunkedArchiveWriter} (h : Unopened frames path w s)
    (htwo : 2 ≤ frames.length) : (stateAfter finish s).1 = s.1 ∧
      (stateAfter finish s).2.out.isOpen = false := by
  obtain ⟨w', a⟩ := s
  have hcount : a.numChunks = frames.length := h.numChunks
  have hclosed : a.out.isOpen = false := h.isOpen
  unfold stateAfter finish
  dsimp only
  rw [if_neg (by omega), if_neg (by omega), write_closed _ _ _ hclosed]
  simp [OFStream.close, hclosed]

/-- `Finish` brings a part of the container to the disk, and closes the stream. -/
theorem torn_finish {s : World × ChunkedArchiveWriter}
    (h : Streaming frames path w s) (hlaid : LaidOut frames s.2.out s.1)
    (hrep : s.2.out.good = true → Represents frames s) (htwo : 2 ≤ frames.length) :
    Torn (containerBytes frames) path (stateAfter finish s).1 ∧
      (stateAfter finish s).2.out.isOpen = false := by
  obtain ⟨w₁, a⟩ := s
  have hcount : a.numChunks = frames.length := h.numChunks
  have hpath : a.out.path = path := h.outPath
  have htorn := hlaid.close (encodeIndex a.ranges ++
    (putLE64 a.ranges.length ++ kContainerMagic)) fun hgood ↦ by
      obtain ⟨-, -, -, -, hranges, -⟩ := (hrep hgood).container htwo
      have hranges : a.ranges = rangesFrom kMagicLen frames := hranges
      rw [hranges, length_rangesFrom, containerBytes]
  rw [hpath] at htorn
  unfold stateAfter finish
  dsimp only
  rw [if_neg (by omega), if_neg (by omega)]
  split_ifs
  · exact ⟨htorn, by simp⟩
  · exact ⟨htorn, by simp⟩

/-- Between its calls the writer has brought a part of what it accepted to the disk. -/
theorem torn_appended {s : World × ChunkedArchiveWriter}
    (h : Streaming frames path w s) (hlaid : LaidOut frames s.2.out s.1) :
    Torn (containerBytes frames) path s.1 := by
  have htorn := OFStream.torn_accepted (s := s.2.out) (w := s.1)
    (by rw [h.outPath]; exact h.present)
  rw [h.outPath] at htorn
  apply htorn.mono (hlaid.part.trans _)
  rw [containerBytes]
  exact List.prefix_append _ _

theorem partLeft_container {f g : Bytes} {rest : List Bytes}
    (hseen : Seen path w (f :: g :: rest) w') :
    PartLeft path w (containerBytes (f :: g :: rest)) w' := by
  have htwo : 2 ≤ (f :: g :: rest).length := by simp
  cases hopen : w.script.onOpen w.calls with
  | false =>
      have hunopened := (appendAll_cases f g rest path w).1 hopen
      obtain ⟨hworld, hclosed⟩ := hunopened.finish_closed htwo
      refine partLeft_of_closed hunopened.isOpen hclosed (.inl hunopened.files) (.inl ?_) hseen
      rw [hworld]
      exact hunopened.files
  | true =>
      have hstream := (appendAll_cases f g rest path w).2 hopen
      have hlaid := laidOut_appendAll f g rest path w hopen
      obtain ⟨htorn, hclosed⟩ :=
        torn_finish hstream hlaid (represents_appendAll f g rest path w) htwo
      cases hseen with
      | appended => exact .inr (.inr (torn_appended hstream hlaid))
      | finished => exact .inr (.inr htorn)
      | ended ending =>
          cases ending with
          | finish =>
              rw [lifetime_finish_of_closed hclosed]
              exact .inr (.inr htorn)
          | abort =>
              have hgone := files_destroy_abort hstream.isOpen
              rw [hstream.ownPath] at hgone
              exact .inr (.inl hgone)
          | none =>
              have hgone := files_destroy_abort hstream.isOpen
              rw [hstream.ownPath, ← destroy_eq_destroy_abort hstream.unfinished] at hgone
              exact .inr (.inl hgone)

theorem seen_partLeft (hseen : Seen path w frames w') :
    PartLeft path w (archiveBytes frames) w' := by
  rcases frames with _ | ⟨f, _ | ⟨g, rest⟩⟩
  · exact partLeft_of_closed rfl rfl (.inl rfl) (.inl rfl) hseen
  · exact partLeft_lone f hseen
  · exact partLeft_container hseen

/-- Whatever calls on the disk fail, and whenever a reader comes: it finds the file as it was
before the writer, no file, the whole archive, or it is refused. -/
theorem unfinished_archive_refused (hzl : zl.Sealed)
    (hframes : ∀ f ∈ frames, ∃ cctx input, zl.compressSerial cctx input = .ok f)
    (hunmarked : 2 ≤ frames.length → Unmarked (containerBytes frames))
    (hsize : (archiveBytes frames).length < fileSizeLimit) (hseen : Seen path w frames w') :
    w'.files path = w.files path ∨ w'.files path = none ∨
      w'.content path = some (archiveBytes frames) ∨ Unreadable zl path w' := by
  rcases seen_partLeft hseen with hsame | hnone | ⟨t, hcontent, hstarts⟩
  · exact .inl hsame
  · exact .inr (.inl hnone)
  · rcases hstarts.length_le.eq_or_lt with hlength | hshort
    · rw [hstarts.eq_of_length hlength] at hcontent
      exact .inr (.inr (.inl hcontent))
    · refine .inr (.inr (.inr ?_))
      rcases frames with _ | ⟨f, _ | ⟨g, rest⟩⟩
      · have hempty : Unmarked (containerBytes []) := by decide
        exact refused_of_torn_container hzl hempty hsize hcontent hstarts hshort
      · obtain ⟨cctx, input, hframe⟩ := hframes f List.mem_cons_self
        exact refused_of_torn_frame hzl hframe hcontent hstarts hshort
      · exact refused_of_torn_container hzl (hunmarked (by simp)) hsize hcontent hstarts hshort

end ChunkedArchiveWriter

/-! ## An instance -/

/-- Frames that store the length of their input in front of it. -/
def OpenZL.sized : OpenZL := { OpenZL.stored with
  compressSerial := fun _ input ↦
    if input.length < fileSizeLimit then .ok (0 :: (putLE64 input.length ++ input))
    else .error "srcSize_tooLarge"
  decompressSerial
    | 0 :: rest =>
        if 8 ≤ rest.length ∧ getLE64 rest = rest.length - 8 then .ok (rest.drop 8)
        else .error "srcSize_tooSmall"
    | _ => .error "corruption" }

theorem OpenZL.sized_ok {cctx : CCtx} {input : Bytes}
    (h : OpenZL.sized.compressSerial cctx input = .ok frame) :
    input.length < fileSizeLimit ∧ frame = 0 :: (putLE64 input.length ++ input) := by
  by_cases hsize : input.length < fileSizeLimit
  · have hok : OpenZL.sized.compressSerial cctx input =
        .ok (0 :: (putLE64 input.length ++ input)) := if_pos hsize
    exact ⟨hsize, Except.ok.inj (h.symm.trans hok)⟩
  · have herr : OpenZL.sized.compressSerial cctx input = .error "srcSize_tooLarge" := if_neg hsize
    cases h.symm.trans herr

/-- The length in front of some bytes is read back, cut or not. -/
theorem getLE64_take_length {n : ℕ} {input : Bytes} (hn : 8 ≤ n)
    (hsize : input.length < fileSizeLimit) :
    getLE64 ((putLE64 input.length ++ input).take n) = input.length := by
  have hlimit : fileSizeLimit < 2 ^ 64 := by decide
  rw [List.take_append, length_putLE64, List.take_of_length_le (by simpa using hn)]
  exact getLE64_putLE64_append (by omega) _

theorem OpenZL.sized_sealed : OpenZL.sized.Sealed where
  decompress := by
    intro cctx input frame h
    obtain ⟨hsize, rfl⟩ := OpenZL.sized_ok h
    have hlength := getLE64_take_length (n := 8 + input.length) (by omega) hsize
    rw [List.take_of_length_le (by simp)] at hlength
    have hcond : 8 ≤ (putLE64 input.length ++ input).length ∧
        getLE64 (putLE64 input.length ++ input) = (putLE64 input.length ++ input).length - 8 := by
      rw [hlength]
      simp
    refine (if_pos hcond).trans ?_
    rw [List.drop_left' (length_putLE64 _)]
  magic := by
    intro cctx input frame h hmagic
    obtain ⟨-, rfl⟩ := OpenZL.sized_ok h
    have hhead : (0 : UInt8) = 79 := congrArg (fun bytes ↦ bytes.headD 0) hmagic
    exact absurd hhead (by decide)
  ownMagic := by
    intro bytes out h
    simp only [OpenZL.sized] at h
    split at h
    · rename_i rest
      split_ifs at h with hcond
      refine ⟨by simp; omega, fun hmagic ↦ ?_⟩
      have hhead : (0 : UInt8) = 79 := congrArg (fun bytes ↦ bytes.headD 0) hmagic
      exact absurd hhead (by decide)
    · cases h
  cut := by
    intro cctx input frame h n hn
    obtain ⟨hsize, rfl⟩ := OpenZL.sized_ok h
    rcases n with _ | n
    · exact ⟨_, rfl⟩
    · have hcond : ¬ (8 ≤ ((putLE64 input.length ++ input).take n).length ∧
          getLE64 ((putLE64 input.length ++ input).take n) =
            ((putLE64 input.length ++ input).take n).length - 8) := by
        rintro ⟨hlong, hlength⟩
        simp only [List.length_take, List.length_cons, List.length_append, length_putLE64]
          at hlong hn hlength
        rw [getLE64_take_length (by omega) hsize] at hlength
        omega
      exact ⟨_, if_neg hcond⟩

namespace ChunkedArchiveWriter

/-- A disk that takes every write, and at the close only a part of what was left. -/
def partialClose : World :=
  { World.empty with script := { World.empty.script with
      onWrite := fun _ ↦ ⟨true, 12⟩
      onClose := fun _ ↦ ⟨false, 20⟩ } }

def tornFrames : List Bytes := [0 :: (putLE64 2 ++ [1, 2]), 0 :: (putLE64 1 ++ [3])]

/-- The torn file of a container whose close has failed is refused. -/
theorem unfinished_archive_refused_close :
    ((lifetime tornFrames .finish "a.zl" partialClose).world.content "a.zl").isSome ∧
      Unreadable .sized "a.zl" (lifetime tornFrames .finish "a.zl" partialClose).world := by
  have hframes : ∀ f ∈ tornFrames,
      ∃ cctx input, OpenZL.sized.compressSerial cctx input = .ok f := by
    intro f hf
    rcases List.mem_pair.mp hf with rfl | rfl
    · exact ⟨⟨.serial, 0, 0, true⟩, [1, 2], rfl⟩
    · exact ⟨⟨.serial, 0, 0, true⟩, [3], rfl⟩
  have hpresent :
      ((lifetime tornFrames .finish "a.zl" partialClose).world.content "a.zl").isSome := by
    decide +kernel
  refine ⟨hpresent, ?_⟩
  rcases unfinished_archive_refused OpenZL.sized_sealed hframes (fun _ ↦ by decide +kernel)
    (by decide +kernel) (.ended .finish : Seen "a.zl" partialClose tornFrames _) with
    hsame | hnone | hwhole | hrefused
  · unfold World.content at hpresent
    rw [hsame] at hpresent
    cases hpresent
  · unfold World.content at hpresent
    rw [hnone] at hpresent
    cases hpresent
  · exact absurd hwhole (by decide +kernel)
  · exact hrefused

end ChunkedArchiveWriter

end DuckdbOpenzl
