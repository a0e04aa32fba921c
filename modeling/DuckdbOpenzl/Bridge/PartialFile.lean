import DuckdbOpenzl.Bridge.ArchiveWriter

/-!
# What a failed archive leaves at its path

The writer's cleanup is keyed on its stream being open. That is so until
`Finish` is called: a lone frame is written through a stream of its own, and a
container is closed before the last error check, so an error found there leaves
the file behind.
-/

set_option autoImplicit false

namespace DuckdbOpenzl.ChunkedArchiveWriter

open ExceptionState

inductive WriterEnding where
  | finish
  | abort
  | none
  deriving DecidableEq

structure WriterRun where
  finishReturned : Bool
  world : World

/-- Every `Append` of the list is called, whether or not the ones before it threw. -/
def appendAll (frames : List Bytes) (s : World × ChunkedArchiveWriter) :
    World × ChunkedArchiveWriter :=
  frames.foldl (fun s frame ↦ stateAfter (append frame) s) s

/-- A writer from its constructor to its destructor. -/
def lifetime (frames : List Bytes) (ending : WriterEnding) (path : Path) (w : World) :
    WriterRun :=
  let s := appendAll frames (w, ofPath path)
  match ending with
  | .finish =>
      match finish s with
      | .ok () s => ⟨true, destroy s⟩
      | .error _ s => ⟨false, destroy s⟩
  | .abort => ⟨false, destroy (abort s)⟩
  | .none => ⟨false, destroy s⟩

/-- The first call a writer makes on a stream is the open of its file. -/
def Created (w : World) (run : WriterRun) : Prop :=
  w.calls < run.world.calls ∧ w.script.onOpen w.calls = true

/-- Unless `Finish` returned, a file the writer created is gone. -/
def NoPartialFile (path : Path) (w : World) (run : WriterRun) : Prop :=
  run.finishReturned = false → Created w run → run.world.files path = none

/-- After the open at call `w.calls`, no write of the archive and no close fails: a lone frame is
one write, a container has its magic, its frames and its trailer, and is closed. -/
def WritesSucceed (frames : List Bytes) (w : World) : Prop :=
  (archiveBytes frames).length < fileSizeLimit ∧
    if frames.length = 1 then (w.script.onWrite (w.calls + 1)).ok = true
    else (∀ k < frames.length + 2, (w.script.onWrite (w.calls + 1 + k)).ok = true) ∧
      (w.script.onClose (w.calls + frames.length + 3)).ok = true

/-- `Finish` is not called, or has nothing to write, or cannot open the file, or succeeds. -/
def CleanupHolds (frames : List Bytes) (ending : WriterEnding) (w : World) : Prop :=
  ending ≠ .finish ∨ frames = [] ∨ w.script.onOpen w.calls = false ∨ WritesSucceed frames w

theorem stateAfter_append_of_two_le (frame : Bytes) {w : World} {a : ChunkedArchiveWriter}
    (h : 2 ≤ a.numChunks) : stateAfter (append frame) (w, a) =
      stateAfter (appendFrame frame) (w, { a with numChunks := a.numChunks + 1 }) := by
  unfold stateAfter append
  dsimp only
  rw [if_neg (by omega), if_neg (by omega)]

/-! ## A container that could not be opened -/

/-- At least two frames were appended and the one open failed: nothing was touched. -/
structure Unopened (frames : List Bytes) (path : Path) (w : World)
    (s : World × ChunkedArchiveWriter) : Prop where
  isOpen : s.2.out.isOpen = false
  files : s.1.files path = w.files path
  ownPath : s.2.path = path
  outPath : s.2.out.path = path
  numChunks : s.2.numChunks = frames.length
  unfinished : s.2.finished = false

theorem write_closed (s : OFStream) (bytes : Bytes) (w : World) (h : s.isOpen = false) :
    s.write bytes w = ({ s with good := false }, w) := by
  simp [OFStream.write, h]

theorem Unopened.append {frames : List Bytes} {path : Path} {w : World}
    {s : World × ChunkedArchiveWriter} (h : Unopened frames path w s) (hlen : 2 ≤ frames.length)
    (frame : Bytes) :
    Unopened (frames ++ [frame]) path w (stateAfter (append frame) s) := by
  obtain ⟨w', a⟩ := s
  have hcount : a.numChunks = frames.length := h.numChunks
  have hclosed := write_closed a.out frame w' h.isOpen
  rw [stateAfter_append_of_two_le frame (by omega), stateAfter_appendFrame, hclosed]
  exact ⟨h.isOpen, h.files, h.ownPath, h.outPath, by simp [hcount], h.unfinished⟩

/-! ## A container that is being written -/

/-- These frames were written after a successful open. The stream is good exactly
when none of the writes failed. -/
structure Streaming (frames : List Bytes) (path : Path) (w : World)
    (s : World × ChunkedArchiveWriter) : Prop where
  isOpen : s.2.out.isOpen = true
  present : (s.1.content path).isSome
  ownPath : s.2.path = path
  outPath : s.2.out.path = path
  numChunks : s.2.numChunks = frames.length
  ranges : s.2.ranges.length = frames.length
  unfinished : s.2.finished = false
  script : s.1.script = w.script
  started : w.calls < s.1.calls
  good : s.2.out.good = true ↔
    (∀ k < frames.length + 1, (w.script.onWrite (w.calls + 1 + k)).ok = true) ∧
      (kContainerMagic ++ frames.flatten).length < fileSizeLimit
  calls : s.2.out.good = true → s.1.calls = w.calls + frames.length + 2
  accepted : s.2.out.good = true → s.2.out.accepted s.1 = kContainerMagic ++ frames.flatten

theorem Streaming.appendFrame {frames : List Bytes} {path : Path} {w : World}
    {s : World × ChunkedArchiveWriter} (h : Streaming frames path w s) (frame : Bytes) :
    Streaming (frames ++ [frame]) path w (stateAfter (ChunkedArchiveWriter.appendFrame frame)
      (s.1, { s.2 with numChunks := s.2.numChunks + 1 })) := by
  obtain ⟨w', a⟩ := s
  have hcount : a.numChunks = frames.length := h.numChunks
  have houtPath : a.out.path = path := h.outPath
  have hflat : (frames ++ [frame]).flatten = frames.flatten ++ frame := by simp
  have hlen' : (frames ++ [frame]).length = frames.length + 1 := by simp
  have hscript : w'.script = w.script := h.script
  rw [stateAfter_appendFrame]
  refine ⟨by simpa using h.isOpen, ?_, h.ownPath, by simpa using houtPath, by simp [hcount],
    by simp [h.ranges], h.unfinished, ?_,
    h.started.trans_le (OFStream.write_touches a.out frame w').calls, ?_, ?_, ?_⟩
  · have hp := OFStream.write_isSome a.out frame w' (by rw [houtPath]; exact h.present)
    rwa [houtPath] at hp
  · exact (OFStream.write_touches a.out frame w').script.trans hscript
  · rw [OFStream.write_good, hflat, hlen']
    dsimp only
    constructor
    · rintro ⟨hgood, -, hok, hsize⟩
      have hcalls : w'.calls = w.calls + frames.length + 2 := h.calls hgood
      have haccepted : a.out.accepted w' = kContainerMagic ++ frames.flatten := h.accepted hgood
      rw [hscript, hcalls] at hok
      rw [haccepted] at hsize
      refine ⟨?_, by simpa [List.append_assoc] using hsize⟩
      intro k hk
      rcases Nat.lt_succ_iff_lt_or_eq.mp hk with hk | rfl
      · exact (h.good.mp hgood).1 k hk
      · rwa [show w.calls + 1 + (frames.length + 1) = w.calls + frames.length + 2 by omega]
    · rintro ⟨hok, hsize⟩
      have hgood : a.out.good = true := h.good.mpr
        ⟨fun k hk ↦ hok k (by omega), lt_of_le_of_lt (by simp) hsize⟩
      have hcalls : w'.calls = w.calls + frames.length + 2 := h.calls hgood
      have haccepted : a.out.accepted w' = kContainerMagic ++ frames.flatten := h.accepted hgood
      refine ⟨hgood, h.isOpen, ?_, by rw [haccepted]; simpa [List.append_assoc] using hsize⟩
      rw [hscript, hcalls,
        show w.calls + frames.length + 2 = w.calls + 1 + (frames.length + 1) by omega]
      exact hok (frames.length + 1) (by omega)
  · intro hgood
    obtain ⟨hbefore, hopen⟩ := OFStream.write_good_before hgood
    have hcalls : w'.calls = w.calls + frames.length + 2 := h.calls hbefore
    rw [OFStream.write_calls _ _ _ hbefore hopen, hcalls, hlen']
    omega
  · intro hgood
    have hbefore := (OFStream.write_good_before hgood).1
    have haccepted : a.out.accepted w' = kContainerMagic ++ frames.flatten := h.accepted hbefore
    rw [(OFStream.accepted_write hgood).1, haccepted, hflat, List.append_assoc]

theorem Streaming.append {frames : List Bytes} {path : Path} {w : World}
    {s : World × ChunkedArchiveWriter} (h : Streaming frames path w s) (hlen : 2 ≤ frames.length)
    (frame : Bytes) : Streaming (frames ++ [frame]) path w (stateAfter (append frame) s) := by
  have hcount := h.numChunks
  have hafter := stateAfter_append_of_two_le frame (w := s.1) (a := s.2) (by omega)
  rw [show s = (s.1, s.2) from rfl, hafter]
  exact h.appendFrame frame

/-! ## The second frame decides -/

/-- The state while a lone frame waits. -/
def waiting (path : Path) (f : Bytes) : ChunkedArchiveWriter :=
  { ofPath path with first := f, numChunks := 1 }

theorem appendAll_singleton (f : Bytes) (path : Path) (w : World) :
    appendAll [f] (w, ofPath path) = (w, waiting path f) := rfl

theorem unopened_second (f g : Bytes) (path : Path) (w : World)
    (hopen : w.script.onOpen w.calls = false) :
    Unopened [f, g] path w (stateAfter (append g) (w, waiting path f)) := by
  have hstart := openTrunc_eq_of_fail path hopen
  have hafter : stateAfter (append g) (w, waiting path f) =
      (w.tick, { waiting path f with numChunks := 2, out := { path := path, good := false } }) := by
    have hsecond : append g (w, waiting path f) = (startContainer >>= fun _ ↦ appendFrame g)
        (w, { waiting path f with numChunks := 2 }) := rfl
    rw [stateAfter, hsecond, bind_apply]
    simp [startContainer, waiting, ofPath, hstart]
  rw [hafter]
  exact ⟨rfl, rfl, rfl, rfl, rfl, rfl⟩

/-- The stream after the second `Append` has opened the file and written twice. -/
def secondStream (f : Bytes) (path : Path) (w : World) : OFStream × World :=
  let opened : OFStream := { path := path, isOpen := true }
  (opened.write kContainerMagic (w.tick.put path [])).1.write f
    (opened.write kContainerMagic (w.tick.put path [])).2

theorem stateAfter_second (f g : Bytes) (path : Path) (w : World)
    (hopen : w.script.onOpen w.calls = true) :
    stateAfter (append g) (w, waiting path f) =
      stateAfter (appendFrame g) ((secondStream f path w).2, { waiting path f with
        numChunks := 1 + 1
        out := (secondStream f path w).1
        ranges := [⟨kMagicLen, f.length⟩]
        pos := add64 kMagicLen f.length
        first := [] }) := by
  have hstart := openTrunc_eq_of_ok path hopen
  have hsecond : append g (w, waiting path f) = (startContainer >>= fun _ ↦ appendFrame g)
      (w, { waiting path f with numChunks := 2 }) := rfl
  rw [stateAfter, hsecond, bind_apply]
  simp [startContainer, waiting, ofPath, hstart, secondStream, stateAfter]

/-- The magic is written and no frame yet. -/
theorem streaming_magic (f : Bytes) (path : Path) (w : World) :
    Streaming [] path w
      ((({ path := path, isOpen := true } : OFStream).write kContainerMagic
        (w.tick.put path [])).2, { waiting path f with
          numChunks := 0
          out := (({ path := path, isOpen := true } : OFStream).write kContainerMagic
            (w.tick.put path [])).1
          pos := kMagicLen
          first := [] }) := by
  generalize hs : ({ path := path, isOpen := true } : OFStream) = s
  generalize hw : w.tick.put path [] = w₀
  have hspath : s.path = path := by rw [← hs]
  have hsopen : s.isOpen = true := by rw [← hs]
  have hsgood : s.good = true := by rw [← hs]
  have hpresent : (w₀.content s.path).isSome := by rw [hspath, ← hw]; simp
  have haccepted : s.accepted w₀ = [] := by simp [← hs, ← hw, OFStream.accepted]
  have hscript : w₀.script = w.script := by rw [← hw]; rfl
  have hcalls : w₀.calls = w.calls + 1 := by rw [← hw]; rfl
  have hwritten := OFStream.write_calls s kContainerMagic w₀ hsgood hsopen
  refine ⟨by simpa using hsopen, ?_, rfl, by simp [hspath], rfl, rfl, rfl,
    (OFStream.write_touches s kContainerMagic w₀).script.trans hscript, ?_, ?_, ?_, ?_⟩
  · have hp := OFStream.write_isSome s kContainerMagic w₀ hpresent
    rwa [hspath] at hp
  · change w.calls < (s.write kContainerMagic w₀).2.calls
    omega
  · rw [OFStream.write_good, haccepted, hscript, hcalls]
    simp [hsgood, hsopen]
  · intro _
    change (s.write kContainerMagic w₀).2.calls = w.calls + 0 + 2
    omega
  · intro hgood
    rw [(OFStream.accepted_write hgood).1, haccepted]
    simp

/-- Magic and first frame are written without a check in between. -/
theorem streaming_first (f : Bytes) (path : Path) (w : World) :
    Streaming [f] path w ((secondStream f path w).2, { waiting path f with
      out := (secondStream f path w).1
      ranges := [⟨kMagicLen, f.length⟩]
      pos := add64 kMagicLen f.length
      first := [] }) := by
  have h := (streaming_magic f path w).appendFrame f
  rw [stateAfter_appendFrame] at h
  exact h

theorem appendAll_append (frames rest : List Bytes) (s : World × ChunkedArchiveWriter) :
    appendAll (frames ++ rest) s = appendAll rest (appendAll frames s) := by
  simp [appendAll]

theorem appendAll_cases (f g : Bytes) (rest : List Bytes) (path : Path) (w : World) :
    (w.script.onOpen w.calls = false →
      Unopened (f :: g :: rest) path w (appendAll (f :: g :: rest) (w, ofPath path))) ∧
    (w.script.onOpen w.calls = true →
      Streaming (f :: g :: rest) path w (appendAll (f :: g :: rest) (w, ofPath path))) := by
  induction rest using List.reverseRecOn with
  | nil =>
      refine ⟨unopened_second f g path w, fun hopen ↦ ?_⟩
      have hstream := (streaming_first f path w).appendFrame g
      rw [show appendAll [f, g] (w, ofPath path) =
          stateAfter (append g) (w, waiting path f) from rfl, stateAfter_second f g path w hopen]
      exact hstream
  | append_singleton rest x ih =>
      have hsplit : f :: g :: (rest ++ [x]) = (f :: g :: rest) ++ [x] := rfl
      rw [hsplit, appendAll_append]
      exact ⟨fun hopen ↦ (ih.1 hopen).append (by simp) x,
        fun hopen ↦ (ih.2 hopen).append (by simp) x⟩

/-! ## The endings -/

theorem files_destroy_abort {s : World × ChunkedArchiveWriter} (h : s.2.out.isOpen = true) :
    (destroy (abort s)).files s.2.path = none := by
  obtain ⟨w, a⟩ := s
  have hopen : a.out.isOpen = true := h
  simp [destroy, abort, OFStream.destroy, hopen, World.remove]

theorem destroy_eq_destroy_abort {s : World × ChunkedArchiveWriter} (h : s.2.finished = false) :
    destroy s = destroy (abort s) := by
  obtain ⟨w, a⟩ := s
  have hfin : a.finished = false := h
  have habort : (abort (w, a)).2.finished = true := by
    unfold abort
    dsimp only
    split <;> rfl
  simp [destroy, hfin, habort]

/-- A file the writer opened and left behind at its end. -/
structure Left (path : Path) (w w' : World) : Prop where
  present : (w'.files path).isSome
  called : w.calls < w'.calls

/-- What `finish` writes behind the frames. -/
theorem length_trailer {frames : List Bytes} {ranges : List ChunkRange}
    (hranges : ranges.length = frames.length) :
    (kContainerMagic ++ frames.flatten).length +
      (encodeIndex ranges ++ (putLE64 ranges.length ++ kContainerMagic)).length =
        (containerBytes frames).length := by
  simp only [length_containerBytes, List.length_append, length_encodeIndex, hranges,
    length_putLE64, length_kContainerMagic, kMagicLen]
  omega

/-- The stream survives trailer and close exactly when nothing failed. -/
theorem Streaming.close_good_iff {frames : List Bytes} {path : Path} {w w' : World}
    {a : ChunkedArchiveWriter} (h : Streaming frames path w (w', a)) (hlen : 2 ≤ frames.length)
    {trailer : Bytes} (htrailer : (kContainerMagic ++ frames.flatten).length + trailer.length =
      (containerBytes frames).length) :
    ((a.out.write trailer w').1.close (a.out.write trailer w').2).1.good = true ↔
      WritesSucceed frames w := by
  have hscript : w'.script = w.script := h.script
  have hopen : a.out.isOpen = true := h.isOpen
  have hwriteOpen : (a.out.write trailer w').1.isOpen = true := by simpa using hopen
  rw [OFStream.close_good_iff _ _ hwriteOpen, OFStream.write_good,
    (OFStream.write_touches a.out trailer w').script, hscript, WritesSucceed,
    archiveBytes_of_two_le hlen, if_neg (by omega)]
  constructor
  · rintro ⟨⟨hg, -, hok, hsize⟩, hclose⟩
    have hcalls : w'.calls = w.calls + frames.length + 2 := h.calls hg
    have haccepted : a.out.accepted w' = kContainerMagic ++ frames.flatten := h.accepted hg
    rw [haccepted, List.length_append, htrailer] at hsize
    rw [OFStream.write_calls _ _ _ hg hopen, hcalls] at hclose
    refine ⟨hsize, ?_, hclose⟩
    intro k hk
    rcases Nat.lt_succ_iff_lt_or_eq.mp hk with hk | rfl
    · exact (h.good.mp hg).1 k hk
    · rwa [hcalls, show w.calls + frames.length + 2 = w.calls + 1 + (frames.length + 1) by
        omega] at hok
  · rintro ⟨hsize, hok, hclose⟩
    have hg : a.out.good = true :=
      h.good.mpr ⟨fun k hk ↦ hok k (by omega), by omega⟩
    have hcalls : w'.calls = w.calls + frames.length + 2 := h.calls hg
    have haccepted : a.out.accepted w' = kContainerMagic ++ frames.flatten := h.accepted hg
    rw [OFStream.write_calls _ _ _ hg hopen, hcalls, haccepted, List.length_append, htrailer]
    refine ⟨⟨hg, hopen, ?_, hsize⟩, hclose⟩
    rw [show w.calls + frames.length + 2 = w.calls + 1 + (frames.length + 1) by omega]
    exact hok (frames.length + 1) (by omega)

/-- Closing comes before the last error check, so a container whose `Finish` throws stays. -/
theorem Streaming.finish {frames : List Bytes} {path : Path} {w : World}
    {s : World × ChunkedArchiveWriter} (h : Streaming frames path w s) (hlen : 2 ≤ frames.length) :
    ∃ s', Left path w (destroy s') ∧
      ((WritesSucceed frames w ∧ finish s = .ok () s') ∨
        (¬ WritesSucceed frames w ∧ ∃ e, finish s = .error e s')) := by
  obtain ⟨w', a⟩ := s
  have hcount : a.numChunks = frames.length := h.numChunks
  have houtPath : a.out.path = path := h.outPath
  have hpresent : (w'.content a.out.path).isSome := by rw [houtPath]; exact h.present
  have hgood := h.close_good_iff hlen (length_trailer h.ranges)
  generalize htrailer : encodeIndex a.ranges ++
    (putLE64 a.ranges.length ++ kContainerMagic) = trailer at hgood
  have hleft : Left path w ((a.out.write trailer w').1.close (a.out.write trailer w').2).2 := by
    have hp := OFStream.close_isSome (a.out.write trailer w').1 (a.out.write trailer w').2
      (by rw [OFStream.write_path]; exact OFStream.write_isSome a.out trailer w' hpresent)
    rw [OFStream.write_path, houtPath] at hp
    exact ⟨by simpa [World.content] using hp,
      h.started.trans_le ((OFStream.write_touches a.out trailer w').calls.trans
        (OFStream.close_touches _ _).calls)⟩
  unfold ChunkedArchiveWriter.finish
  dsimp only
  rw [if_neg (by omega), if_neg (by omega), htrailer]
  by_cases hw : WritesSucceed frames w
  · simp only [hgood.mpr hw, Bool.not_true, Bool.false_eq_true, if_false]
    refine ⟨_, ?_, .inl ⟨hw, rfl⟩⟩
    rw [destroy_of_closed (by simp)]
    exact hleft
  · simp only [mt hgood.mp hw, Bool.not_false, if_true]
    refine ⟨_, ?_, .inr ⟨hw, _, rfl⟩⟩
    rw [destroy_of_closed (by simp)]
    exact hleft

theorem lone_finish (f : Bytes) (path : Path) (w : World) :
    (w.script.onOpen w.calls = false → ∃ e s', finish (w, waiting path f) = .error e s') ∧
    (w.script.onOpen w.calls = true →
      ∃ s', Left path w (destroy s') ∧
        ((WritesSucceed [f] w ∧ finish (w, waiting path f) = .ok () s') ∨
          (¬ WritesSucceed [f] w ∧ ∃ e, finish (w, waiting path f) = .error e s'))) := by
  have hok : ∀ {t}, writeFile path f w = .ok () t →
      finish (w, waiting path f) = .ok () (t, { waiting path f with finished := true }) := by
    intro t ht
    have hwrite : writeFile (ofPath path).path f w = .ok () t := ht
    simp [finish, waiting, hwrite]
  have herror : ∀ {e t}, writeFile path f w = .error e t →
      finish (w, waiting path f) = .error e (t, waiting path f) := by
    intro e t ht
    have hwrite : writeFile (ofPath path).path f w = .error e t := ht
    simp [finish, waiting, hwrite]
  constructor
  · intro hopen
    have hwrite : writeFile path f w =
        .error ⟨"openzl_bridge: could not open file for writing: " ++ path⟩ w.tick := by
      unfold writeFile
      rw [openTrunc_eq_of_fail path hopen]
      rfl
    exact ⟨_, _, herror hwrite⟩
  · intro hopen
    obtain ⟨w', hpresent, hcalls, hiff, hends⟩ :=
      writeFile_of_open path f hopen
    have hsucceed : WritesSucceed [f] w ↔ (w.script.onWrite (w.calls + 1)).ok = true ∧
        f.length < fileSizeLimit := by
      simp [WritesSucceed, archiveBytes, and_comm]
    rcases hends with hwrite | ⟨e, hwrite⟩
    · exact ⟨(w', { waiting path f with finished := true }), ⟨hpresent, hcalls⟩,
        .inl ⟨hsucceed.mpr (hiff.mp hwrite), hok hwrite⟩⟩
    · have hnot : ¬ WritesSucceed [f] w := by
        rw [hsucceed, ← hiff, hwrite]
        simp
      exact ⟨(w', waiting path f), ⟨hpresent, hcalls⟩, .inr ⟨hnot, _, herror hwrite⟩⟩

theorem Left.not_noPartialFile {path : Path} {w w' : World} (h : Left path w w')
    (hopen : w.script.onOpen w.calls = true) : ¬ NoPartialFile path w ⟨false, w'⟩ := by
  intro hno
  have hpresent := h.present
  rw [hno rfl ⟨h.called, hopen⟩] at hpresent
  cases hpresent

theorem noPartialFile_of_unopened {path : Path} {w : World}
    (hopen : w.script.onOpen w.calls = false)
    (run : WriterRun) : NoPartialFile path w run := by
  rintro - ⟨-, hopened⟩
  rw [hopen] at hopened
  cases hopened

theorem noPartialFile_finish_iff {frames : List Bytes} {path : Path} {w : World}
    (hne : frames ≠ []) (hopen : w.script.onOpen w.calls = true)
    {s s' : World × ChunkedArchiveWriter} (hs : appendAll frames (w, ofPath path) = s)
    (hleft : Left path w (destroy s'))
    (hends : (WritesSucceed frames w ∧ finish s = .ok () s') ∨
      (¬ WritesSucceed frames w ∧ ∃ e, finish s = .error e s')) :
    NoPartialFile path w (lifetime frames .finish path w) ↔ CleanupHolds frames .finish w := by
  have hcond : CleanupHolds frames .finish w ↔ WritesSucceed frames w := by
    simp [CleanupHolds, hne, hopen]
  rw [hcond, lifetime, hs]
  rcases hends with ⟨hworks, hok⟩ | ⟨hworks, e, herr⟩
  · rw [hok]
    exact ⟨fun _ ↦ hworks, fun _ h ↦ by cases h⟩
  · rw [herr]
    exact ⟨fun h ↦ absurd h (hleft.not_noPartialFile hopen), fun h ↦ absurd h hworks⟩

/-- No partial file stays behind exactly when `Finish` is not called or meets no failure after
its file was opened. -/
theorem noPartialFile_iff_cleanupHolds (frames : List Bytes) (ending : WriterEnding) (path : Path)
    (w : World) :
    NoPartialFile path w (lifetime frames ending path w) ↔ CleanupHolds frames ending w := by
  match frames, ending with
  | [], ending =>
      have hcalls : (lifetime [] ending path w).world = w := by cases ending <;> rfl
      refine iff_of_true ?_ (.inr (.inl rfl))
      rintro - ⟨hcalled, -⟩
      rw [hcalls] at hcalled
      exact absurd hcalled (lt_irrefl _)
  | [f], .finish =>
      cases hopen : w.script.onOpen w.calls with
      | false => exact iff_of_true (noPartialFile_of_unopened hopen _) (.inr (.inr (.inl hopen)))
      | true =>
          obtain ⟨s', hleft, hends⟩ := (lone_finish f path w).2 hopen
          exact noPartialFile_finish_iff (by simp) hopen (appendAll_singleton f path w) hleft hends
  | [f], .abort =>
      refine iff_of_true ?_ (.inl (by decide))
      rintro - ⟨hcalled, -⟩
      exact absurd hcalled (lt_irrefl _)
  | [f], .none =>
      refine iff_of_true ?_ (.inl (by decide))
      rintro - ⟨hcalled, -⟩
      exact absurd hcalled (lt_irrefl _)
  | f :: g :: rest, ending =>
      cases hopen : w.script.onOpen w.calls with
      | false => exact iff_of_true (noPartialFile_of_unopened hopen _) (.inr (.inr (.inl hopen)))
      | true =>
          have hstream := (appendAll_cases f g rest path w).2 hopen
          have hgone := files_destroy_abort hstream.isOpen
          rw [hstream.ownPath] at hgone
          cases ending with
          | finish =>
              obtain ⟨s', hleft, hends⟩ := hstream.finish (by simp)
              exact noPartialFile_finish_iff (by simp) hopen rfl hleft hends
          | abort => exact iff_of_true (fun _ _ ↦ hgone) (.inl (by decide))
          | none =>
              refine iff_of_true (fun _ _ ↦ ?_) (.inl (by decide))
              rw [← destroy_eq_destroy_abort hstream.unfinished] at hgone
              exact hgone

/-! ## Reported success -/

theorem startContainer_good {s : World × ChunkedArchiveWriter}
    (h : (stateAfter startContainer s).2.out.good = true) : ∃ t, startContainer s = .ok () t := by
  obtain ⟨w, a⟩ := s
  unfold stateAfter startContainer at h
  unfold startContainer
  dsimp only at h ⊢
  split
  · rename_i hbad
    rw [if_pos hbad] at h
    simp only [Bool.not_eq_true'] at hbad
    rw [hbad] at h
    cases h
  · exact ⟨_, rfl⟩

/-- An `Append` behind which the stream is good has returned, and found it good if it was open. -/
theorem append_returned {s : World × ChunkedArchiveWriter} (frame : Bytes)
    (hcount : 1 ≤ s.2.numChunks) (h : (stateAfter (append frame) s).2.out.good = true) :
    (∃ s', append frame s = .ok () s') ∧ (2 ≤ s.2.numChunks → s.2.out.good = true) := by
  obtain ⟨w, a⟩ := s
  have hcount' : 1 ≤ a.numChunks := hcount
  by_cases hone : a.numChunks = 1
  · have happend : append frame (w, a) = (startContainer >>= fun _ ↦ appendFrame frame)
        (w, { a with numChunks := a.numChunks + 1 }) := by
      unfold append
      dsimp only
      rw [if_neg (by omega), if_pos (by omega)]
    rw [stateAfter, happend] at h
    refine ⟨?_, fun htwo ↦ absurd htwo (by simp [hone])⟩
    rcases stateAfter_bind startContainer (fun _ ↦ appendFrame frame)
      (w, { a with numChunks := a.numChunks + 1 }) with
      ⟨e, t, hstart, hafter⟩ | ⟨u, t, hstart, hafter⟩
    · have hgood : (stateAfter startContainer
          (w, { a with numChunks := a.numChunks + 1 })).2.out.good = true := by
        rw [stateAfter_of_error hstart, ← hafter]
        exact h
      obtain ⟨t', hok⟩ := startContainer_good hgood
      rw [hstart] at hok
      cases hok
    · have hgood : (stateAfter (appendFrame frame) t).2.out.good = true := by
        rw [← hafter]
        exact h
      rw [stateAfter_appendFrame] at hgood
      obtain ⟨s', hframe⟩ := appendFrame_returns (a := t.2) (w := t.1) hgood
      exact ⟨s', by rw [happend]; exact bind_eq_ok_iff.mpr ⟨u, t, hstart, hframe⟩⟩
  · have happend : append frame (w, a) =
        appendFrame frame (w, { a with numChunks := a.numChunks + 1 }) := by
      unfold append
      dsimp only
      rw [if_neg (by omega), if_neg (by omega)]
    rw [stateAfter_append_of_two_le frame (by omega), stateAfter_appendFrame] at h
    rw [happend]
    exact ⟨appendFrame_returns h, fun _ ↦ (OFStream.write_good_before h).1⟩

/-- If the stream is good after all calls, every `Append` returned. -/
theorem represents_appendAll (f g : Bytes) (rest : List Bytes) (path : Path) (w : World)
    (h : (appendAll (f :: g :: rest) (w, ofPath path)).2.out.good = true) :
    Represents (f :: g :: rest) (appendAll (f :: g :: rest) (w, ofPath path)) := by
  have hlone : Represents [f] (w, waiting path f) :=
    represents_append (s := (w, ofPath path)) (represents_ofPath path w) rfl
  induction rest using List.reverseRecOn with
  | nil =>
      have hstate : appendAll [f, g] (w, ofPath path) =
          stateAfter (append g) (w, waiting path f) := rfl
      rw [hstate] at h ⊢
      obtain ⟨⟨s', happend⟩, -⟩ := append_returned g (Nat.le_refl 1) h
      rw [stateAfter_of_ok happend]
      exact represents_append hlone happend
  | append_singleton rest x ih =>
      have hsplit : f :: g :: (rest ++ [x]) = (f :: g :: rest) ++ [x] := rfl
      rw [hsplit, appendAll_append] at h ⊢
      have hcount : 2 ≤ (appendAll (f :: g :: rest) (w, ofPath path)).2.numChunks := by
        have hcases := appendAll_cases f g rest path w
        cases hopen : w.script.onOpen w.calls with
        | false => rw [(hcases.1 hopen).numChunks]; simp
        | true => rw [(hcases.2 hopen).numChunks]; simp
      obtain ⟨⟨s', happend⟩, hgood⟩ := append_returned x (by omega) h
      have hlast : appendAll [x] (appendAll (f :: g :: rest) (w, ofPath path)) = s' :=
        stateAfter_of_ok happend
      rw [hlast]
      exact represents_append (ih (hgood hcount)) happend

theorem finish_found_good {s s' : World × ChunkedArchiveWriter} (hcount : 2 ≤ s.2.numChunks)
    (h : finish s = .ok () s') : s.2.out.good = true := by
  obtain ⟨w, a⟩ := s
  have hcount' : 2 ≤ a.numChunks := hcount
  unfold finish at h
  dsimp only at h
  rw [if_neg (by omega), if_neg (by omega)] at h
  split at h
  · cases h
  · rename_i hclose
    simp only [Bool.not_eq_true', Bool.not_eq_false] at hclose
    exact (OFStream.write_good_before (OFStream.close_good hclose).1).1

theorem finish_of_lifetime {frames : List Bytes} {path : Path} {w w' : World}
    (h : lifetime frames .finish path w = ⟨true, w'⟩) :
    ∃ s', finish (appendAll frames (w, ofPath path)) = .ok () s' ∧ destroy s' = w' := by
  unfold lifetime at h
  dsimp only at h
  split at h
  · rename_i s' hfinish
    exact ⟨s', hfinish, (WriterRun.mk.inj h).2⟩
  · cases h

/-- A `Finish` of several frames that returned left their container. -/
theorem lifetime_container {frames : List Bytes} {path : Path} {w w' : World}
    (htwo : 2 ≤ frames.length) (h : lifetime frames .finish path w = ⟨true, w'⟩) :
    w'.content path = some (containerBytes frames) := by
  obtain ⟨s', hfinish, rfl⟩ := finish_of_lifetime h
  match frames, htwo with
  | f :: g :: rest, _ =>
      have hcases := appendAll_cases f g rest path w
      have hnum : (appendAll (f :: g :: rest) (w, ofPath path)).2.numChunks = rest.length + 2 ∧
          (appendAll (f :: g :: rest) (w, ofPath path)).2.path = path := by
        cases hopen : w.script.onOpen w.calls with
        | false => exact ⟨(hcases.1 hopen).numChunks, (hcases.1 hopen).ownPath⟩
        | true => exact ⟨(hcases.2 hopen).numChunks, (hcases.2 hopen).ownPath⟩
      have hgood := finish_found_good (by omega) hfinish
      obtain ⟨hcontent, -, hclosed⟩ :=
        finish_container (represents_appendAll f g rest path w hgood) (by simp) hfinish
      rw [destroy_of_closed hclosed, ← hnum.2]
      exact hcontent

/-- A `Finish` of a lone frame is its `WriteFile`. -/
theorem lifetime_lone {f : Bytes} {path : Path} {w w' : World}
    (h : lifetime [f] .finish path w = ⟨true, w'⟩) : writeFile path f w = .ok () w' := by
  obtain ⟨s', hfinish, rfl⟩ := finish_of_lifetime h
  rw [appendAll_singleton] at hfinish
  have hrep : Represents [f] (w, waiting path f) :=
    represents_append (s := (w, ofPath path)) (represents_ofPath path w) rfl
  obtain ⟨hwrite, hclosed⟩ := finish_lone hrep hfinish
  rw [destroy_of_closed hclosed]
  exact hwrite

theorem lifetime_nil {path : Path} {w w' : World} :
    lifetime [] .finish path w ≠ ⟨true, w'⟩ := by
  intro h
  obtain ⟨s', hfinish, -⟩ := finish_of_lifetime h
  cases hfinish

/-- A disk that takes every write and fails the close. -/
def failingClose : World :=
  ⟨fun _ ↦ none, 0, ⟨fun _ ↦ true, fun _ ↦ ⟨true, 0⟩, fun _ ↦ ⟨false, 0⟩, fun _ ↦ ⟨true, 0⟩,
    fun _ ↦ true⟩, 0⟩

/-- The container of two chunks is written and its close fails: the file stays. -/
theorem partial_file_after_failed_close :
    ¬ NoPartialFile "a.ozl" failingClose (lifetime [[1], [2]] .finish "a.ozl" failingClose) := by
  intro hno
  have hfiles := hno (by decide) ⟨by decide, rfl⟩
  revert hfiles
  decide

end DuckdbOpenzl.ChunkedArchiveWriter
