import DuckdbOpenzl.Bridge.ContainerRoundTrip

/-!
# Building an archive one frame at a time

`ChunkedArchiveWriter` keeps the first frame in memory until a second one
arrives, so a lone frame becomes a plain file. `Represents` relates the writer
to the frames appended so far; it is established by the constructor, kept by
`append` and used up by `finish`.
-/

set_option autoImplicit false

namespace DuckdbOpenzl

structure ChunkedArchiveWriter where
  path : Path
  first : Bytes := []
  out : OFStream := {}
  ranges : List ChunkRange := []
  pos : ℕ := 0
  numChunks : ℕ := 0
  finished : Bool := false

abbrev WriterM := EStateM Error (World × ChunkedArchiveWriter)

namespace ChunkedArchiveWriter

/-- The second `Append`: open the container and move the first frame into it. -/
def startContainer : WriterM Unit := fun (w, a) ↦
  let (out, w) := OFStream.openTrunc a.path w
  if !out.good then
    .error ⟨"openzl_bridge: could not open file for writing: " ++ a.path⟩ (w, { a with out := out })
  else
    let (out, w) := out.write kContainerMagic w
    let ranges := a.ranges ++ [⟨kMagicLen, a.first.length⟩]
    let (out, w) := out.write a.first w
    .ok () (w, { a with out := out, ranges := ranges, pos := add64 kMagicLen a.first.length,
                        first := [] })

def appendFrame (frame : Bytes) : WriterM Unit := fun (w, a) ↦
  let ranges := a.ranges ++ [⟨a.pos, frame.length⟩]
  let (out, w) := a.out.write frame w
  let a := { a with out := out, ranges := ranges, pos := add64 a.pos frame.length }
  if !out.good then
    .error ⟨"openzl_bridge: error writing file: " ++ a.path⟩ (w, a)
  else
    .ok () (w, a)

def append (frame : Bytes) : WriterM Unit := fun (w, a) ↦
  let a := { a with numChunks := a.numChunks + 1 }
  if a.numChunks = 1 then
    .ok () (w, { a with first := frame })
  else if a.numChunks = 2 then
    (startContainer >>= fun _ ↦ appendFrame frame) (w, a)
  else
    appendFrame frame (w, a)

def finish : WriterM Unit := fun (w, a) ↦
  if a.numChunks = 0 then
    .error ⟨"openzl_bridge: cannot finish an archive with no chunks: " ++ a.path⟩ (w, a)
  else if a.numChunks = 1 then
    match writeFile a.path a.first w with
    | .ok () w => .ok () (w, { a with finished := true })
    | .error e w => .error e (w, a)
  else
    let trailer := encodeIndex a.ranges ++ (putLE64 a.ranges.length ++ kContainerMagic)
    let (out, w) := a.out.write trailer w
    let (out, w) := out.close w
    let a := { a with out := out }
    if !out.good then
      .error ⟨"openzl_bridge: error writing file: " ++ a.path⟩ (w, a)
    else
      .ok () (w, { a with finished := true })

def abort : World × ChunkedArchiveWriter → World × ChunkedArchiveWriter := fun (w, a) ↦
  let a := { a with finished := true }
  if a.out.isOpen then
    let (out, w) := a.out.close w
    (w.remove a.path, { a with out := out })
  else
    (w, a)

/-- `~ChunkedArchiveWriter`, with the destructor of its stream. -/
def destroy (s : World × ChunkedArchiveWriter) : World :=
  let s := if !s.2.finished then abort s else s
  s.2.out.destroy s.1

/-- The constructor. -/
def ofPath (path : Path) : ChunkedArchiveWriter := { path := path, out := { path := path } }

/-! ## Only the archive's own file is touched -/

/-- What every call on the writer keeps: the archive's path, which its stream shares, and
the files at other paths. -/
structure Step (s s' : World × ChunkedArchiveWriter) : Prop where
  touches : s.1.OnlyTouches s.2.path s'.1
  path : s'.2.path = s.2.path
  outPath : s'.2.out.path = s.2.path

namespace Step

variable {s s' s'' : World × ChunkedArchiveWriter}

theorem trans (h : Step s s') (h' : Step s' s'') : Step s s'' where
  touches := by
    have ht := h'.touches
    rw [h.path] at ht
    exact h.touches.trans ht
  path := h'.path.trans h.path
  outPath := h'.outPath.trans h.path

end Step

theorem startContainer_step {s : World × ChunkedArchiveWriter} :
    Step s (ExceptionState.stateAfter startContainer s) := by
  obtain ⟨w, a⟩ := s
  have hopen := OFStream.openTrunc_touches a.path w
  have hmagic := OFStream.write_touches (OFStream.openTrunc a.path w).1 kContainerMagic
    (OFStream.openTrunc a.path w).2
  have hfirst := OFStream.write_touches
    ((OFStream.openTrunc a.path w).1.write kContainerMagic (OFStream.openTrunc a.path w).2).1
    a.first
    ((OFStream.openTrunc a.path w).1.write kContainerMagic (OFStream.openTrunc a.path w).2).2
  simp only [OFStream.openTrunc_path, OFStream.write_path] at hmagic hfirst
  unfold ExceptionState.stateAfter startContainer
  dsimp only
  by_cases hgood : (OFStream.openTrunc a.path w).1.good = true
  · simp only [hgood, Bool.not_true, Bool.false_eq_true, if_false]
    exact ⟨(hopen.trans hmagic).trans hfirst, rfl, by simp⟩
  · simp only [hgood, Bool.not_false, if_true]
    exact ⟨hopen, rfl, by simp⟩

/-- `appendFrame` leaves the same state whether or not the stream survived the write. -/
theorem stateAfter_appendFrame (frame : Bytes) (w : World) (a : ChunkedArchiveWriter) :
    ExceptionState.stateAfter (appendFrame frame) (w, a) =
      ((a.out.write frame w).2, { a with
        out := (a.out.write frame w).1
        ranges := a.ranges ++ [⟨a.pos, frame.length⟩]
        pos := add64 a.pos frame.length }) := by
  unfold ExceptionState.stateAfter appendFrame
  dsimp only
  by_cases hgood : (a.out.write frame w).1.good = true
  · simp [hgood]
  · simp [hgood]

theorem appendFrame_step {s : World × ChunkedArchiveWriter} (frame : Bytes)
    (hout : s.2.out.path = s.2.path) :
    Step s (ExceptionState.stateAfter (appendFrame frame) s) := by
  obtain ⟨w, a⟩ := s
  have hwrite := OFStream.write_touches a.out frame w
  rw [show a.out.path = a.path from hout] at hwrite
  rw [stateAfter_appendFrame]
  exact ⟨hwrite, rfl, by simpa using hout⟩

theorem append_step {s : World × ChunkedArchiveWriter} (frame : Bytes)
    (hout : s.2.out.path = s.2.path) : Step s (ExceptionState.stateAfter (append frame) s) := by
  obtain ⟨w, a⟩ := s
  have hcount : Step (w, a) (w, { a with numChunks := a.numChunks + 1 }) :=
    ⟨World.OnlyTouches.refl _ _, rfl, hout⟩
  rw [show ExceptionState.stateAfter (append frame) (w, a) =
    if a.numChunks + 1 = 1 then (w, { a with numChunks := a.numChunks + 1, first := frame })
    else if a.numChunks + 1 = 2 then
      ExceptionState.stateAfter (startContainer >>= fun _ ↦ appendFrame frame)
        (w, { a with numChunks := a.numChunks + 1 })
    else ExceptionState.stateAfter (appendFrame frame)
      (w, { a with numChunks := a.numChunks + 1 }) from by
        unfold append ExceptionState.stateAfter
        dsimp only
        split_ifs <;> rfl]
  split_ifs
  · exact ⟨World.OnlyTouches.refl _ _, rfl, hout⟩
  · have hstart := startContainer_step (s := (w, { a with numChunks := a.numChunks + 1 }))
    rcases ExceptionState.stateAfter_bind startContainer (fun _ ↦ appendFrame frame)
      (w, { a with numChunks := a.numChunks + 1 }) with ⟨e, t, hx, ht⟩ | ⟨u, t, hx, ht⟩
    · rw [ExceptionState.stateAfter_of_error hx] at hstart
      rw [ht]
      exact hcount.trans hstart
    · rw [ExceptionState.stateAfter_of_ok hx] at hstart
      rw [ht]
      exact (hcount.trans hstart).trans
        (appendFrame_step frame (hstart.outPath.trans hstart.path.symm))
  · exact hcount.trans (appendFrame_step frame hout)

theorem finish_step {s : World × ChunkedArchiveWriter} (hout : s.2.out.path = s.2.path) :
    Step s (ExceptionState.stateAfter finish s) := by
  obtain ⟨w, a⟩ := s
  have houtPath : a.out.path = a.path := hout
  unfold ExceptionState.stateAfter finish
  dsimp only
  by_cases hzero : a.numChunks = 0
  · rw [if_pos hzero]
    exact ⟨World.OnlyTouches.refl _ _, rfl, hout⟩
  · rw [if_neg hzero]
    by_cases hone : a.numChunks = 1
    · rw [if_pos hone]
      cases hwrite : writeFile a.path a.first w with
      | ok u w' => exact ⟨writeFile_touches (.inl hwrite), rfl, hout⟩
      | error e w' => exact ⟨writeFile_touches (.inr ⟨e, hwrite⟩), rfl, hout⟩
    · rw [if_neg hone]
      generalize encodeIndex a.ranges ++ (putLE64 a.ranges.length ++ kContainerMagic) = trailer
      have hwrite := OFStream.write_touches a.out trailer w
      have hclose := OFStream.close_touches (a.out.write trailer w).1 (a.out.write trailer w).2
      rw [houtPath] at hwrite
      rw [OFStream.write_path, houtPath] at hclose
      by_cases hgood : ((a.out.write trailer w).1.close (a.out.write trailer w).2).1.good = true
      · simp only [hgood, Bool.not_true, Bool.false_eq_true, if_false]
        exact ⟨hwrite.trans hclose, rfl, by simpa using houtPath⟩
      · simp only [hgood, Bool.not_false, if_true]
        exact ⟨hwrite.trans hclose, rfl, by simpa using houtPath⟩

theorem abort_step {s : World × ChunkedArchiveWriter} (hout : s.2.out.path = s.2.path) :
    Step s (abort s) := by
  obtain ⟨w, a⟩ := s
  have houtPath : a.out.path = a.path := hout
  have hclose := OFStream.close_touches a.out w
  rw [houtPath] at hclose
  unfold abort
  dsimp only
  split
  · exact ⟨hclose.trans (World.OnlyTouches.remove _ _), rfl, by simpa using houtPath⟩
  · exact ⟨World.OnlyTouches.refl _ _, rfl, houtPath⟩

theorem destroy_touches {s : World × ChunkedArchiveWriter} (hout : s.2.out.path = s.2.path) :
    s.1.OnlyTouches s.2.path (destroy s) := by
  have habort := abort_step hout
  unfold destroy
  dsimp only
  split
  · have hdestroy := OFStream.destroy_touches (abort s).2.out (abort s).1
    rw [habort.outPath] at hdestroy
    exact habort.touches.trans hdestroy
  · have hdestroy := OFStream.destroy_touches s.2.out s.1
    rwa [hout] at hdestroy

theorem destroy_of_closed {s : World × ChunkedArchiveWriter} (h : s.2.out.isOpen = false) :
    destroy s = s.1 := by
  obtain ⟨w, a⟩ := s
  have hopen : a.out.isOpen = false := h
  cases hfin : a.finished <;> simp [destroy, abort, OFStream.destroy, hfin, hopen]

/-! ## The frames a writer stands for -/

/-- The writer has been given `frames` and every call returned: a lone frame waits in memory,
several have been accepted by the open container in order. -/
structure Represents (frames : List Bytes) (s : World × ChunkedArchiveWriter) : Prop where
  numChunks : s.2.numChunks = frames.length
  unfinished : s.2.finished = false
  outPath : s.2.out.path = s.2.path
  lone : frames.length ≤ 1 →
    s.2.out.isOpen = false ∧ s.2.ranges = [] ∧ s.2.first = frames.flatten
  container : 2 ≤ frames.length →
    s.2.out.isOpen = true ∧ s.2.out.good = true ∧
      s.2.out.accepted s.1 = kContainerMagic ++ frames.flatten ∧
      (kContainerMagic ++ frames.flatten).length < fileSizeLimit ∧
      s.2.ranges = rangesFrom kMagicLen frames ∧
      s.2.pos = kMagicLen + frames.flatten.length

theorem represents_ofPath (path : Path) (w : World) : Represents [] (w, ofPath path) where
  numChunks := rfl
  unfinished := rfl
  outPath := rfl
  lone := fun _ ↦ ⟨rfl, rfl, rfl⟩
  container := fun h ↦ absurd h (by simp)

theorem Represents.of_content {frames : List Bytes} {w w' : World} {a : ChunkedArchiveWriter}
    (h : Represents frames (w, a)) (hw : w'.content a.path = w.content a.path) :
    Represents frames (w', a) where
  numChunks := h.numChunks
  unfinished := h.unfinished
  outPath := h.outPath
  lone := h.lone
  container := by
    intro hlen
    have hpath : a.out.path = a.path := h.outPath
    have hcontent : w'.content a.out.path = w.content a.out.path := by rw [hpath, hw]
    simpa only [OFStream.accepted, hcontent] using h.container hlen

/-- What one more frame adds to an open container whose stream stays good. -/
theorem represents_appendFrame {frames : List Bytes} {frame : Bytes} {w : World}
    {a : ChunkedArchiveWriter} {s' : World × ChunkedArchiveWriter}
    (hlen : 1 ≤ frames.length) (hcount : a.numChunks = frames.length + 1)
    (hunfinished : a.finished = false) (houtPath : a.out.path = a.path)
    (haccepted : a.out.accepted w = kContainerMagic ++ frames.flatten)
    (hranges : a.ranges = rangesFrom kMagicLen frames)
    (hpos : (a.out.accepted w).length < fileSizeLimit → a.pos = kMagicLen + frames.flatten.length)
    (hok : appendFrame frame (w, a) = .ok () s') : Represents (frames ++ [frame]) s' := by
  unfold appendFrame at hok
  dsimp only at hok
  split at hok
  · cases hok
  · rename_i hgood
    simp only [Bool.not_eq_true', Bool.not_eq_false] at hgood
    obtain ⟨haccepted', hsize⟩ := OFStream.accepted_write hgood
    have hopen := (OFStream.write_good_before hgood).2
    rw [haccepted] at haccepted' hsize hpos
    rw [List.append_assoc] at haccepted' hsize
    have hpos' := hpos (lt_of_le_of_lt (by simp) hsize)
    have hmagic : kContainerMagic.length = kMagicLen := rfl
    have hflat : (frames ++ [frame]).flatten = frames.flatten ++ frame := by simp
    cases hok
    refine ⟨by simp [hcount], hunfinished, by simpa using houtPath, ?_, ?_⟩
    · intro h
      rw [List.length_append, List.length_singleton] at h
      omega
    · intro _
      rw [hflat]
      refine ⟨by simpa using hopen, hgood, haccepted', hsize, ?_, ?_⟩
      · simp only [hranges, rangesFrom_append, rangesFrom, hpos']
      · simp only [List.length_append, fileSizeLimit] at hsize
        rw [hpos', add64_eq (by omega), List.length_append, Nat.add_assoc]

theorem startContainer_ok {w : World} {a : ChunkedArchiveWriter} {s' : World × ChunkedArchiveWriter}
    (hranges : a.ranges = []) (hok : startContainer (w, a) = .ok () s') :
    s'.2.path = a.path ∧ s'.2.numChunks = a.numChunks ∧ s'.2.finished = a.finished ∧
      s'.2.out.path = a.path ∧ s'.2.ranges = rangesFrom kMagicLen [a.first] ∧
      s'.2.pos = add64 kMagicLen a.first.length ∧
      (s'.2.out.good = true → s'.2.out.accepted s'.1 = kContainerMagic ++ a.first) := by
  unfold startContainer at hok
  dsimp only at hok
  split at hok
  · cases hok
  · rename_i hopen
    simp only [Bool.not_eq_true', Bool.not_eq_false] at hopen
    obtain ⟨hpending, hcontent⟩ := OFStream.openTrunc_good hopen
    cases hok
    refine ⟨rfl, rfl, rfl, by simp, by simp [hranges, rangesFrom], rfl, ?_⟩
    intro hgood
    have hfirst := (OFStream.accepted_write hgood).1
    have hmagic := (OFStream.accepted_write (OFStream.write_good_before hgood).1).1
    rw [hfirst, hmagic]
    simp [OFStream.accepted, hpending, hcontent]

theorem represents_append {frames : List Bytes} {frame : Bytes}
    {s s' : World × ChunkedArchiveWriter} (h : Represents frames s)
    (hok : append frame s = .ok () s') : Represents (frames ++ [frame]) s' := by
  obtain ⟨w, a⟩ := s
  have hcount : a.numChunks = frames.length := h.numChunks
  unfold append at hok
  dsimp only at hok
  split at hok
  · -- the first frame only waits
    rename_i hone
    have hnil : frames = [] := List.length_eq_zero_iff.mp (by omega)
    subst hnil
    obtain ⟨hopen, hranges, -⟩ := h.lone (by simp)
    cases hok
    refine ⟨by simpa using hone, h.unfinished, h.outPath, fun _ ↦ ⟨hopen, hranges, by simp⟩, ?_⟩
    intro hlen
    simp at hlen
  · split at hok
    · -- the second frame opens the container
      rename_i htwo
      obtain ⟨f, rfl⟩ := List.length_eq_one_iff.mp (show frames.length = 1 by omega)
      obtain ⟨hopen, hranges, hfirst⟩ := h.lone (by simp)
      obtain ⟨u, t, hstart, hframe⟩ := ExceptionState.bind_eq_ok_iff.mp hok
      obtain ⟨hpath, hnum, hfin, hout, hranges', hpos, haccepted⟩ :=
        startContainer_ok (a := { a with numChunks := a.numChunks + 1 }) hranges hstart
      have hgood : t.2.out.good = true := by
        unfold appendFrame at hframe
        dsimp only at hframe
        split at hframe
        · cases hframe
        · rename_i hgood
          simp only [Bool.not_eq_true', Bool.not_eq_false] at hgood
          exact (OFStream.write_good_before hgood).1
      have hfirst' : a.first = f := by simpa using hfirst
      have haccepted' := haccepted hgood
      simp only [hfirst'] at haccepted' hpos hranges'
      refine represents_appendFrame (a := t.2) (w := t.1) (by simp) (by simp [hnum, htwo])
        (by simpa [hfin] using h.unfinished) (hout.trans hpath.symm) (by simpa using haccepted')
        hranges' ?_ hframe
      intro hsize
      rw [haccepted', List.length_append] at hsize
      rw [hpos, add64_eq (by simp only [fileSizeLimit, length_kContainerMagic] at hsize; omega)]
      simp
    · -- the container is open already
      obtain ⟨hopen, hgood, haccepted, hsize, hranges, hpos⟩ := h.container (by omega)
      exact represents_appendFrame (a := { a with numChunks := a.numChunks + 1 }) (by omega)
        (by simp [hcount]) h.unfinished h.outPath haccepted hranges (fun _ ↦ hpos) hok

/-- A lone frame is handed to `WriteFile`. -/
theorem finish_lone {f : Bytes} {s s' : World × ChunkedArchiveWriter} (h : Represents [f] s)
    (hok : finish s = .ok () s') :
    writeFile s.2.path f s.1 = .ok () s'.1 ∧ s'.2.out.isOpen = false := by
  obtain ⟨w, a⟩ := s
  have hcount : a.numChunks = 1 := h.numChunks
  obtain ⟨hopen, -, hfirst⟩ := h.lone (by simp)
  have hfirst' : a.first = f := by simpa using hfirst
  unfold finish at hok
  dsimp only at hok
  rw [if_neg (by omega), if_pos hcount, hfirst'] at hok
  split at hok
  · rename_i w' hwrite
    cases hok
    exact ⟨hwrite, hopen⟩
  · cases hok

/-- The container is closed before the last check, so a `Finish` that returns has stored it. -/
theorem finish_container {frames : List Bytes} {s s' : World × ChunkedArchiveWriter}
    (h : Represents frames s) (htwo : 2 ≤ frames.length) (hok : finish s = .ok () s') :
    s'.1.content s.2.path = some (containerBytes frames) ∧
      (containerBytes frames).length < fileSizeLimit ∧ s'.2.out.isOpen = false := by
  obtain ⟨w, a⟩ := s
  have hcount : a.numChunks = frames.length := h.numChunks
  have houtPath : a.out.path = a.path := h.outPath
  obtain ⟨hopen, hgood, haccepted, hsize, hranges, hposn⟩ := h.container htwo
  unfold finish at hok
  dsimp only at hok
  rw [if_neg (by omega), if_neg (by omega)] at hok
  split at hok
  · cases hok
  · rename_i hclose
    simp only [Bool.not_eq_true', Bool.not_eq_false] at hclose
    obtain ⟨htrailer, hcontent⟩ := OFStream.close_good hclose
    obtain ⟨haccepted', hsize'⟩ := OFStream.accepted_write htrailer
    have hbytes : kContainerMagic ++ frames.flatten ++ (encodeIndex a.ranges ++
        (putLE64 a.ranges.length ++ kContainerMagic)) = containerBytes frames := by
      simp only at hranges
      rw [hranges, length_rangesFrom, containerBytes]
    simp only at haccepted
    rw [haccepted, hbytes] at haccepted' hsize'
    cases hok
    rw [OFStream.write_path, houtPath, haccepted'] at hcontent
    exact ⟨hcontent, hsize', by simp⟩

/-- The stream of `Finish` is closed before it is checked, or the destructor of the lone frame's
`WriteFile` loses nothing. -/
def FinishKeeps (s : World × ChunkedArchiveWriter) : Prop :=
  2 ≤ s.2.numChunks ∨ s.1.FlushKept s.2.first

theorem finishKeeps_of_keepsFlushes {s : World × ChunkedArchiveWriter} (hkeep : s.1.KeepsFlushes) :
    FinishKeeps s := .inr (.inl (hkeep _))

/-- What is at the path when a `Finish` has returned. -/
structure Finished (frames : List Bytes) (s s' : World × ChunkedArchiveWriter) : Prop where
  numChunks : s.2.numChunks = frames.length
  nonempty : frames ≠ []
  size : 2 ≤ frames.length → (containerBytes frames).length < fileSizeLimit
  closed : s'.2.out.isOpen = false
  whole : s'.1.content s.2.path = some (archiveBytes frames) ↔ FinishKeeps s
  starts : ∃ t, s'.1.content s.2.path = some t ∧ t <+: archiveBytes frames

/-- A `Finish` that returns leaves the archive of the frames, unless it is one frame and the last
of its bytes were lost. -/
theorem finish_finished {frames : List Bytes} {s s' : World × ChunkedArchiveWriter}
    (h : Represents frames s) (hok : finish s = .ok () s') : Finished frames s s' := by
  match frames, h with
  | [], h =>
      obtain ⟨w, a⟩ := s
      have hcount : a.numChunks = 0 := h.numChunks
      unfold finish at hok
      dsimp only at hok
      rw [if_pos hcount] at hok
      cases hok
  | [f], h =>
      obtain ⟨hwrite, hopen⟩ := finish_lone h hok
      have hfirst : s.2.first = f := by simpa using (h.lone (by simp)).2.2
      have hone : ¬ 2 ≤ s.2.numChunks := by
        rw [h.numChunks]
        simp
      refine ⟨h.numChunks, by simp, fun hlen ↦ absurd hlen (by simp), hopen, ?_, ?_⟩
      · rw [FinishKeeps, hfirst]
        exact (writeFile_complete_iff hwrite).trans ⟨.inr, fun hkeep ↦ hkeep.resolve_left hone⟩
      · refine ⟨_, writeFile_stored hwrite, ?_⟩
        split
        · exact List.prefix_rfl
        · exact List.take_prefix _ _
  | f :: g :: rest, h =>
      obtain ⟨hcontent, hsize, hopen⟩ := finish_container h (by simp) hok
      have htwo : 2 ≤ s.2.numChunks := by
        rw [h.numChunks]
        simp
      exact ⟨h.numChunks, by simp, fun _ ↦ hsize, hopen, iff_of_true hcontent (.inl htwo), _,
        hcontent, List.prefix_rfl⟩

/-- A `Finish` that returns leaves the archive of the frames, in a file below the size limit
when it is a container. -/
theorem finish_ok {frames : List Bytes} {s s' : World × ChunkedArchiveWriter}
    (h : Represents frames s) (hkeep : s.1.KeepsFlushes) (hok : finish s = .ok () s') :
    frames ≠ [] ∧ s'.1.content s.2.path = some (archiveBytes frames) ∧
      (2 ≤ frames.length → (containerBytes frames).length < fileSizeLimit) ∧
        s'.2.out.isOpen = false := by
  have hfinished := finish_finished h hok
  exact ⟨hfinished.nonempty, hfinished.whole.mpr (finishKeeps_of_keepsFlushes hkeep),
    hfinished.size, hfinished.closed⟩

end ChunkedArchiveWriter

/-! ## A whole archive -/

open ChunkedArchiveWriter

/-- `Append` of each frame, then `Finish`. -/
def writeFrames (frames : List Bytes) : WriterM Unit := do
  frames.forM append
  finish

theorem represents_appends {frames : List Bytes} {p : Path} {w : World}
    {s : World × ChunkedArchiveWriter} (h : frames.forM append (w, ofPath p) = .ok () s) :
    Represents frames s ∧ s.1.script = w.script ∧ s.2.path = p := by
  have hloop : ExceptionState.Triple
      (fun s ↦ Represents [] s ∧ s.1.script = w.script ∧ s.2.path = p)
      (frames.forM append)
      (fun _ s ↦ Represents frames s ∧ s.1.script = w.script ∧ s.2.path = p)
      (fun _ _ ↦ True) := by
    refine ExceptionState.Triple.forM
      (fun done s ↦ Represents done s ∧ s.1.script = w.script ∧ s.2.path = p) ?_ frames
    intro done f
    apply ExceptionState.Triple.of_runs
    · rintro s u t ⟨hrep, hscript, hpath⟩ hok
      have hstep := append_step f hrep.outPath
      rw [ExceptionState.stateAfter_of_ok hok] at hstep
      exact ⟨represents_append hrep hok, hstep.touches.script.trans hscript,
        hstep.path.trans hpath⟩
    · exact fun _ _ _ _ _ ↦ trivial
  exact hloop.ok ⟨represents_ofPath p w, rfl, rfl⟩ h

theorem writeFrames_ok {frames : List Bytes} {p : Path} {w : World}
    {s : World × ChunkedArchiveWriter} (hkeep : w.KeepsFlushes)
    (h : writeFrames frames (w, ofPath p) = .ok () s) :
    frames ≠ [] ∧ s.1.content p = some (archiveBytes frames) := by
  obtain ⟨⟨⟩, t, happends, hfinish⟩ := ExceptionState.bind_eq_ok_iff.mp h
  obtain ⟨hrep, hscript, hpath⟩ := represents_appends happends
  have hkeep' : t.1.KeepsFlushes := by
    unfold World.KeepsFlushes
    rw [hscript]
    exact hkeep
  obtain ⟨hne, hcontent, -, -⟩ := finish_ok hrep hkeep' hfinish
  rw [hpath] at hcontent
  exact ⟨hne, hcontent⟩

/-! ## A disk on which nothing fails -/

/-- No open, write or close fails. -/
def World.Healthy (w : World) : Prop :=
  ∀ k, w.script.onOpen k = true ∧ (w.script.onWrite k).ok = true ∧ (w.script.onClose k).ok = true

theorem World.Healthy.of_script {w w' : World} (h : w.Healthy) (hscript : w'.script = w.script) :
    w'.Healthy := by
  unfold World.Healthy
  rw [hscript]
  exact h

namespace ChunkedArchiveWriter

variable {frames : List Bytes} {s : World × ChunkedArchiveWriter}

theorem appendFrame_returns {frame : Bytes} {w : World} {a : ChunkedArchiveWriter}
    (hgood : (a.out.write frame w).1.good = true) : ∃ s', appendFrame frame (w, a) = .ok () s' := by
  unfold appendFrame
  simp only [hgood, Bool.not_true, Bool.false_eq_true, if_false]
  exact ⟨_, rfl⟩

theorem startContainer_returns {w : World} {a : ChunkedArchiveWriter} (hw : w.Healthy)
    (hsize : (kContainerMagic ++ a.first).length < fileSizeLimit) :
    ∃ s', startContainer (w, a) = .ok () s' ∧ s'.2.out.good = true ∧ s'.2.out.isOpen = true := by
  have hopen := openTrunc_eq_of_ok a.path (hw w.calls).1
  have hmagicSize : kContainerMagic.length < fileSizeLimit := by
    rw [List.length_append] at hsize
    omega
  have hmagic : (({ path := a.path, isOpen := true } : OFStream).write kContainerMagic
      (w.tick.put a.path [])).1.good = true :=
    (OFStream.write_good _ _ _).mpr
      ⟨rfl, rfl, (hw _).2.1, by simpa [OFStream.accepted] using hmagicSize⟩
  have hfirst : ((({ path := a.path, isOpen := true } : OFStream).write kContainerMagic
      (w.tick.put a.path [])).1.write a.first (({ path := a.path, isOpen := true } :
        OFStream).write kContainerMagic (w.tick.put a.path [])).2).1.good = true := by
    refine (OFStream.write_good _ _ _).mpr ⟨hmagic, by simp, ?_, ?_⟩
    · rw [(OFStream.write_touches _ _ _).script]
      exact (hw _).2.1
    · rw [(OFStream.accepted_write hmagic).1]
      simpa [OFStream.accepted] using hsize
  unfold startContainer
  dsimp only
  rw [hopen]
  exact ⟨_, rfl, hfirst, by simp⟩

theorem append_returns (h : Represents frames s) (hw : s.1.Healthy) (frame : Bytes)
    (hsize : (kContainerMagic ++ (frames ++ [frame]).flatten).length < fileSizeLimit) :
    ∃ s', append frame s = .ok () s' := by
  obtain ⟨w, a⟩ := s
  have hcount : a.numChunks = frames.length := h.numChunks
  simp only [List.flatten_append, List.flatten_singleton, List.length_append] at hsize
  unfold append
  dsimp only
  by_cases hzero : a.numChunks + 1 = 1
  · rw [if_pos hzero]
    exact ⟨_, rfl⟩
  · rw [if_neg hzero]
    by_cases hone : a.numChunks + 1 = 2
    · obtain ⟨f, rfl⟩ := List.length_eq_one_iff.mp (show frames.length = 1 by omega)
      obtain ⟨-, hranges, hfirst⟩ := h.lone (by simp)
      have hfirst' : a.first = f := by simpa using hfirst
      have hfirstSize : (kContainerMagic ++ a.first).length < fileSizeLimit := by
        rw [hfirst', List.length_append]
        simp only [List.flatten_singleton] at hsize
        omega
      obtain ⟨t, hstart, hgood, hisOpen⟩ :=
        startContainer_returns (a := { a with numChunks := a.numChunks + 1 }) hw hfirstSize
      have hscript := (startContainer_step
        (s := (w, { a with numChunks := a.numChunks + 1 }))).touches.script
      rw [ExceptionState.stateAfter_of_ok hstart] at hscript
      obtain ⟨-, -, -, -, -, -, haccepted⟩ :=
        startContainer_ok (a := { a with numChunks := a.numChunks + 1 }) hranges hstart
      have hwrite : (t.2.out.write frame t.1).1.good = true := by
        refine (OFStream.write_good _ _ _).mpr ⟨hgood, hisOpen, ?_, ?_⟩
        · exact ((hw.of_script hscript) _).2.1
        · rw [haccepted hgood, List.length_append, List.length_append, hfirst', Nat.add_assoc]
          simpa using hsize
      obtain ⟨s', hframe⟩ := appendFrame_returns (a := t.2) (w := t.1) hwrite
      rw [if_pos hone]
      exact ⟨s', ExceptionState.bind_eq_ok_iff.mpr ⟨(), t, hstart, hframe⟩⟩
    · obtain ⟨hopen, hgood, haccepted, -, -, -⟩ := h.container (by omega)
      rw [if_neg hone]
      apply appendFrame_returns
      refine (OFStream.write_good _ _ _).mpr ⟨hgood, hopen, (hw _).2.1, ?_⟩
      simp only at haccepted
      rw [haccepted, List.length_append, List.length_append]
      omega

theorem appends_return (rest : List Bytes) (h : Represents frames s) (hw : s.1.Healthy)
    (hsize : (kContainerMagic ++ (frames ++ rest).flatten).length < fileSizeLimit) :
    ∃ t, rest.forM append s = .ok () t ∧ Represents (frames ++ rest) t ∧ t.1.Healthy := by
  induction rest generalizing frames s with
  | nil => exact ⟨s, rfl, by simpa using h, hw⟩
  | cons frame rest ih =>
      have hsplit : frames ++ frame :: rest = (frames ++ [frame]) ++ rest := by simp
      rw [hsplit] at hsize ⊢
      have hnext : (kContainerMagic ++ (frames ++ [frame]).flatten).length < fileSizeLimit := by
        rw [List.flatten_append, ← List.append_assoc, List.length_append] at hsize
        omega
      obtain ⟨s', happend⟩ := append_returns h hw frame hnext
      have hstep := append_step frame h.outPath
      rw [ExceptionState.stateAfter_of_ok happend] at hstep
      obtain ⟨t, hrest, hrep, hwt⟩ := ih (represents_append h happend)
        (hw.of_script hstep.touches.script) hsize
      exact ⟨t, ExceptionState.bind_eq_ok_iff.mpr ⟨(), s', happend, hrest⟩, hrep, hwt⟩

theorem finish_returns (h : Represents frames s) (htwo : 2 ≤ frames.length) (hw : s.1.Healthy)
    (hsize : (containerBytes frames).length < fileSizeLimit) : ∃ s', finish s = .ok () s' := by
  obtain ⟨w, a⟩ := s
  have hcount : a.numChunks = frames.length := h.numChunks
  obtain ⟨hopen, hgood, haccepted, -, hranges, -⟩ := h.container htwo
  simp only at hranges haccepted
  have hwrite : (a.out.write (encodeIndex a.ranges ++
      (putLE64 a.ranges.length ++ kContainerMagic)) w).1.good = true := by
    refine (OFStream.write_good _ _ _).mpr ⟨hgood, hopen, (hw _).2.1, ?_⟩
    rwa [haccepted, hranges, length_rangesFrom, ← containerBytes]
  have hclose : ((a.out.write (encodeIndex a.ranges ++
      (putLE64 a.ranges.length ++ kContainerMagic)) w).1.close (a.out.write (encodeIndex a.ranges ++
      (putLE64 a.ranges.length ++ kContainerMagic)) w).2).1.good = true := by
    refine (OFStream.close_good_iff _ _ (by simpa using hopen)).mpr ⟨hwrite, ?_⟩
    rw [(OFStream.write_touches _ _ _).script]
    exact (hw _).2.2
  unfold finish
  dsimp only
  rw [if_neg (by omega), if_neg (by omega)]
  simp only [hclose, Bool.not_true, Bool.false_eq_true, if_false]
  exact ⟨_, rfl⟩

end ChunkedArchiveWriter

/-- Several frames are always brought into their container when the disk does not fail. -/
theorem writeFrames_returns {frames : List Bytes} {p : Path} {w : World} (hw : w.Healthy)
    (htwo : 2 ≤ frames.length) (hsize : (containerBytes frames).length < fileSizeLimit) :
    ∃ s, writeFrames frames (w, ofPath p) = .ok () s := by
  have hbody : (kContainerMagic ++ ([] ++ frames).flatten).length < fileSizeLimit := by
    rw [length_containerBytes] at hsize
    rw [List.nil_append, List.length_append, length_kContainerMagic]
    omega
  obtain ⟨t, happends, hrep, hwt⟩ := appends_return frames (represents_ofPath p w) hw hbody
  rw [List.nil_append] at hrep
  obtain ⟨s, hfinish⟩ := finish_returns hrep htwo hwt hsize
  exact ⟨s, ExceptionState.bind_eq_ok_iff.mpr ⟨(), t, happends, hfinish⟩⟩

/-- What a run that returns leaves of several frames does not depend on any destructor. -/
theorem writeFrames_container {frames : List Bytes} {p : Path} {w : World}
    {s : World × ChunkedArchiveWriter} (htwo : 2 ≤ frames.length)
    (h : writeFrames frames (w, ofPath p) = .ok () s) :
    s.1.content p = some (containerBytes frames) := by
  obtain ⟨⟨⟩, t, happends, hfinish⟩ := ExceptionState.bind_eq_ok_iff.mp h
  obtain ⟨hrep, -, hpath⟩ := represents_appends happends
  rw [← hpath]
  exact (finish_container hrep htwo hfinish).1

end DuckdbOpenzl
