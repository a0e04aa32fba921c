import DuckdbOpenzl.Bridge.TornArchive
import DuckdbOpenzl.Copy.ChunkFiles
import DuckdbOpenzl.FileSystem.ArchivePaths
import DuckdbOpenzl.FileSystem.LostFlushes

/-!
# Every row reaches the archive, in order

While a run is going its rows are in three places: in frames already appended,
with the parquet writer of the current chunk, and in the local state's buffer.
Read in that order they are the rows sunk so far; a rotation moves them from
the last two places to the first. At the end they are all in frames, and in the
archive unless the last bytes of a lone frame get lost.
-/

set_option autoImplicit false

namespace DuckdbOpenzl

open ExceptionState FileContent

/-- What can be seen of the parquet writer: the rows it was given, the bytes it has written to
its target, the rows that wait in a local state, and a reader of finished files. -/
structure ParquetView (P : ParquetCopyFunction) where
  handed : P.GlobalState → List P.Row
  written : P.GlobalState → Bytes
  buffered : P.LocalState → List P.Row
  readParquet : Bytes → Option (List P.Row)

/-- The parquet writer keeps rows in order, its target stays empty until a row group was flushed,
and a finished file holds the rows it was given. -/
structure ParquetView.Lawful {P : ParquetCopyFunction} (V : ParquetView P) : Prop where
  initializeGlobal : ∀ k o g, P.initializeGlobal k = .ok o → o.result = .ok g →
    V.handed g = [] ∧ V.written g = o.written
  initializeLocal : ∀ k l, P.initializeLocal k = .ok l → V.buffered l = []
  sink : ∀ k input g l g' l', (P.sink k input g l).result = .ok (g', l') →
    V.handed g' ++ V.buffered l' = V.handed g ++ V.buffered l ++ input ∧
      V.written g' = V.written g ++ (P.sink k input g l).written
  combine : ∀ k g l g', (P.combine k g l).result = .ok g' →
    V.handed g' = V.handed g ++ V.buffered l ∧
      V.written g' = V.written g ++ (P.combine k g l).written
  finalize : ∀ k g, (P.finalize k g).result = .ok () →
    V.readParquet (V.written g ++ (P.finalize k g).written) = some (V.handed g)
  flushed : ∀ g, V.handed g = [] → V.written g = []

variable {P : ParquetCopyFunction} {V : ParquetView P} {zl : OpenZL} {bind : OpenzlCopyBindData}
  {path : Path} {files : List Bytes} {done : List (List P.Row)} {s s' : CopyState P}
  {g : P.GlobalState} {l : P.LocalState}

/-! ## Where the rows are -/

/-- The frame decompresses to a parquet file of these rows. -/
structure Decodes (zl : OpenZL) (V : ParquetView P) (frame : Bytes) (rows : List P.Row) : Prop where
  rows : ∃ bytes, zl.decompressSerial frame = .ok bytes ∧ V.readParquet bytes = some rows
  magic : slice frame 0 kMagicLen ≠ kContainerMagic

/-- Each file is a parquet file of its rows. -/
def FilesOf (V : ParquetView P) (files : List Bytes) (done : List (List P.Row)) : Prop :=
  List.Forall₂ (fun file rows ↦ V.readParquet file = some rows) files done

theorem decodes_of_files (hzl : zl.Lawful) {frames : List Bytes}
    (hframes : FramesOf zl frames files)
    (hread : FilesOf V files done) : List.Forall₂ (Decodes zl V) frames done := by
  induction hframes generalizing done with
  | nil =>
      cases hread
      exact .nil
  | cons hframe _ ih =>
      cases hread with
      | cons hrows hread =>
          obtain ⟨cctx, hframe⟩ := hframe
          refine .cons ⟨⟨_, hzl.decompress cctx _ _ hframe, hrows⟩, ?_⟩ (ih hread)
          exact hzl.magic cctx _ _ hframe

/-- Between two callbacks of the sink: the rows of the appended files, and the parquet writer at
work on the staged one. -/
structure Filling (zl : OpenZL) (bind : OpenzlCopyBindData) (V : ParquetView P) (path : Path)
    (s : CopyState P) (files : List Bytes) (g : P.GlobalState) (l : P.LocalState)
    (done : List (List P.Row)) : Prop where
  staged : StagedFile (fun _ ↦ True) zl bind path files (V.written g) s
  parquetGlobalState : s.gstate.parquetGlobalState = some g
  lstate : s.lstate = some l
  read : FilesOf V files done

/-- The rows of the current chunk: those that the parquet writer has, and those that wait. -/
def ParquetView.current (V : ParquetView P) (g : P.GlobalState) (l : P.LocalState) : List P.Row :=
  V.handed g ++ V.buffered l

/-! ## Chunks -/

/-- A chunk that starts has no rows yet. -/
theorem startChunk_filling (hV : V.Lawful) (h : Appending (fun _ ↦ True) zl bind path files s)
    (hread : FilesOf V files done)
    (hok : (openzlStartChunk bind >>= fun _ ↦ openzlCopyInitLocal) s = .ok () s') :
    ∃ g l, Filling zl bind V path s' files g l done ∧ V.current g l = [] := by
  obtain ⟨⟨⟩, s₁, hstart, hinit⟩ := bind_eq_ok_iff.mp hok
  obtain ⟨k, o, g, ho, hg, hstaged, hgstate⟩ := openzlStartChunk_ok h hstart
  obtain ⟨k', l, hl, hstaged', hgstate', hlstate⟩ := openzlCopyInitLocal_ok hstaged hgstate hinit
  obtain ⟨hhanded, hwritten⟩ := hV.initializeGlobal k o g ho hg
  rw [← hwritten] at hstaged'
  refine ⟨g, l, ⟨hstaged', hgstate', hlstate, hread⟩, ?_⟩
  rw [ParquetView.current, hhanded, hV.initializeLocal k' l hl, List.append_nil]

/-- A chunk that ends, after its local state was combined, is a file of its rows. -/
theorem endChunk_file (hV : V.Lawful) (h : Filling zl bind V path s files g l done)
    (hok : (parquetCombine bind >>= fun _ ↦ openzlEndChunk zl bind) s = .ok () s') :
    ∃ file, Appending (fun _ ↦ True) zl bind path (files ++ [file]) s' ∧
      FilesOf V (files ++ [file]) (done ++ [V.current g l]) := by
  obtain ⟨⟨⟩, s₁, hcombine, hend⟩ := bind_eq_ok_iff.mp hok
  obtain ⟨k, g', hres, hstaged, hgstate⟩ :=
    parquetCombine_ok h.staged h.parquetGlobalState h.lstate hcombine
  obtain ⟨hrows, hwritten⟩ := hV.combine k g l g' hres
  rw [← hwritten] at hstaged
  obtain ⟨k', hfinal, happending⟩ := openzlEndChunk_ok hstaged hgstate hend
  have hfile := hV.finalize k' g' hfinal
  rw [hrows] at hfile
  exact ⟨_, happending, List.rel_append h.read (.cons hfile .nil)⟩

theorem parquetSink_filling (hV : V.Lawful) {input : List P.Row}
    (h : Filling zl bind V path s files g l done) (hok : parquetSink bind input s = .ok () s') :
    ∃ g' l', Filling zl bind V path s' files g' l' done ∧
      V.current g' l' = V.current g l ++ input := by
  obtain ⟨k, g', l', hres, hstaged, hgstate, hlstate⟩ :=
    parquetSink_ok h.staged h.parquetGlobalState h.lstate hok
  obtain ⟨hrows, hwritten⟩ := hV.sink k input g l g' l' hres
  rw [← hwritten] at hstaged
  exact ⟨g', l', ⟨hstaged, hgstate, hlstate, h.read⟩, hrows⟩

/-! ## The sink -/

/-- The rows sunk so far are those of the appended chunks and of the current one, in this order.
No appended chunk is empty, and the current one is not once another was appended. -/
structure Sunk (zl : OpenZL) (bind : OpenzlCopyBindData) (V : ParquetView P) (path : Path)
    (sunk : List P.Row) (s : CopyState P) : Prop where
  rows : ∃ files g l done, Filling zl bind V path s files g l done ∧
    done.flatten ++ V.current g l = sunk ∧ (bind.chunkSizeBytes = 0 → done = []) ∧
      (∀ rows ∈ done, rows ≠ []) ∧ (done ≠ [] → V.current g l ≠ [])

theorem current_ne_nil_of_rotation (hV : V.Lawful) (h : Filling zl bind V path s files g l done)
    (hrotate : bind.chunkSizeBytes > 0 ∧ openzlStagedBytes bind s ≥ bind.chunkSizeBytes) :
    V.current g l ≠ [] := by
  intro hnone
  have hzero : openzlStagedBytes bind s = 0 := by
    rw [openzlStagedBytes, h.staged.target, hV.flushed g (List.append_eq_nil_iff.mp hnone).1]
    rfl
  omega

theorem openzlCopySink_sunk (hV : V.Lawful) {sunk input : List P.Row} (hinput : input ≠ [])
    (h : Sunk zl bind V path sunk s) (hok : openzlCopySink zl bind input s = .ok () s') :
    Sunk zl bind V path (sunk ++ input) s' := by
  obtain ⟨files, g, l, done, hfilling, rfl, hunchunked, hnonempty, -⟩ := h.rows
  unfold openzlCopySink at hok
  by_cases hrotate : bind.chunkSizeBytes > 0 ∧ openzlStagedBytes bind s ≥ bind.chunkSizeBytes
  · rw [if_pos hrotate, rotateChunk_eq] at hok
    obtain ⟨⟨⟩, s₁, hrotated, hsink⟩ := bind_eq_ok_iff.mp hok
    obtain ⟨⟨⟩, s₂, hend, hstart⟩ := bind_eq_ok_iff.mp hrotated
    obtain ⟨file, happending, hread⟩ := endChunk_file hV hfilling hend
    obtain ⟨g₁, l₁, hfilling₁, hnone⟩ := startChunk_filling hV happending hread hstart
    obtain ⟨g', l', hfilling', hrows⟩ := parquetSink_filling hV hfilling₁ hsink
    rw [hnone, List.nil_append] at hrows
    refine ⟨_, g', l', _, hfilling', ?_, ?_, ?_, ?_⟩
    · simp [hrows]
    · intro hzero
      omega
    · intro rows hmem
      rcases List.mem_append.mp hmem with hmem | hmem
      · exact hnonempty rows hmem
      · rw [List.mem_singleton.mp hmem]
        exact current_ne_nil_of_rotation hV hfilling hrotate
    · intro _
      rw [hrows]
      exact hinput
  · rw [if_neg hrotate] at hok
    obtain ⟨g', l', hfilling', hrows⟩ := parquetSink_filling hV hfilling hok
    refine ⟨files, g', l', done, hfilling', ?_, hunchunked, hnonempty, ?_⟩
    · rw [hrows, List.append_assoc]
    · intro _
      rw [hrows]
      simp [hinput]

theorem openzlCopySink_forM_sunk (hV : V.Lawful) {batches : List (List P.Row)}
    (hbatches : ∀ input ∈ batches, input ≠ []) {sunk : List P.Row}
    (h : Sunk zl bind V path sunk s) (hok : batches.forM (openzlCopySink zl bind) s = .ok () s') :
    Sunk zl bind V path (sunk ++ batches.flatten) s' := by
  induction batches generalizing sunk s with
  | nil =>
      obtain ⟨-, rfl⟩ := EStateM.Result.ok.inj hok
      simpa using h
  | cons input batches ih =>
      obtain ⟨⟨⟩, s₁, hsink, hrest⟩ := bind_eq_ok_iff.mp hok
      have hfirst := openzlCopySink_sunk hV (hbatches input List.mem_cons_self) h hsink
      have hall := ih (fun b hb ↦ hbatches b (List.mem_cons_of_mem input hb)) hfirst hrest
      simpa [List.append_assoc] using hall

/-! ## The archive of a whole run -/

/-- The archive at the path has these chunks: so many are counted, and each one decompresses to
a parquet file of its rows. -/
structure ArchiveRows (zl : OpenZL) (V : ParquetView P) (path : Path) (chunks : List (List P.Row))
    (w : World) : Prop where
  nonempty : 1 ≤ chunks.length
  chunkCount : chunkCount path w = .ok chunks.length w
  rows : ∀ (i : ℕ) (hi : i < chunks.length), ∃ bytes,
    (if chunks.length = 1 then decompressToBuffer zl path w
      else decompressChunkToBuffer zl path i w) = .ok bytes w ∧ V.readParquet bytes = some chunks[i]

theorem archiveRows_of_content {frames : List Bytes} {chunks : List (List P.Row)} {w : World}
    (hne : frames ≠ []) (hdecodes : List.Forall₂ (Decodes zl V) frames chunks)
    (hcontent : w.content path = some (archiveBytes frames))
    (hsize : 2 ≤ frames.length → (containerBytes frames).length < fileSizeLimit) :
    ArchiveRows zl V path chunks w := by
  have hlength := hdecodes.length_eq
  have hpos : 0 < frames.length := List.length_pos_iff.mpr hne
  by_cases hone : frames.length = 1
  · obtain ⟨f, rfl⟩ := List.length_eq_one_iff.mp hone
    obtain ⟨rows, rfl⟩ := List.length_eq_one_iff.mp (hlength.symm.trans hone)
    obtain ⟨⟨bytes, hdecompress, hread⟩, hmagic⟩ := (List.forall₂_cons.mp hdecodes).1
    have hholds : HoldsFrame path f w := ⟨hcontent, hmagic⟩
    refine ⟨le_rfl, hholds.chunkCount, fun i hi ↦ ⟨bytes, ?_, ?_⟩⟩
    · rw [List.length_singleton, if_pos rfl, hholds.decompressToBuffer,
        decodeFile_eq_ok_iff.mpr hdecompress]
      rfl
    · obtain rfl : i = 0 := by simpa using hi
      exact hread
  · have htwo : 2 ≤ frames.length := by omega
    rw [archiveBytes_of_two_le htwo] at hcontent
    have hholds : HoldsContainer path frames w := ⟨hne, hcontent, hsize htwo⟩
    refine ⟨by omega, by rw [← hlength]; exact hholds.chunkCount, fun i hi ↦ ?_⟩
    have hi' : i < frames.length := by omega
    obtain ⟨⟨bytes, hdecompress, hread⟩, -⟩ := (List.forall₂_iff_get.mp hdecodes).2 i hi' hi
    refine ⟨bytes, ?_, hread⟩
    rw [if_neg (by omega), hholds.decompressChunkToBuffer hi', decodeChunk]
    rw [show zl.decompressSerial frames[i] = .ok bytes from hdecompress]
    rfl

/-- `Finish` leaves an archive of the rows of its files, unless the last bytes get lost; then the
archive cannot be read. -/
theorem finish_archiveRows (hzl : zl.Lawful) (h : Appending (fun _ ↦ True) zl bind path files s)
    (hread : FilesOf V files done)
    (hok : callArchive ChunkedArchiveWriter.finish s = .ok () s') :
    (ChunkedArchiveWriter.FinishKeeps s.writer → ArchiveRows zl V path done s'.destroy.world) ∧
      (zl.Sealed → ¬ ChunkedArchiveWriter.FinishKeeps s.writer →
        Unreadable zl path s'.destroy.world) := by
  obtain ⟨frames, hframes, hfinished, hworld⟩ := finish_framesOf h hok
  have hpath : s.writer.2.path = path := h.archivePath
  rw [hworld]
  constructor
  · intro hkeeps
    have hcontent := hfinished.whole.mpr hkeeps
    rw [hpath] at hcontent
    exact archiveRows_of_content hfinished.nonempty (decodes_of_files hzl hframes hread) hcontent
      hfinished.size
  · intro hsealed hlost
    obtain ⟨t, hcontent, hstarts⟩ := hfinished.starts
    have htorn : t ≠ archiveBytes frames := by
      rintro rfl
      exact hlost (hfinished.whole.mp hcontent)
    have hone : frames.length = 1 := by
      have hpos := List.length_pos_iff.mpr hfinished.nonempty
      by_contra hmany
      exact hlost (.inl (by rw [hfinished.numChunks]; omega))
    obtain ⟨f, rfl⟩ := List.length_eq_one_iff.mp hone
    cases hframes with
    | cons hframe _ =>
        obtain ⟨cctx, hframe⟩ := hframe
        rw [hpath] at hcontent
        have hshort : t.length < f.length :=
          lt_of_le_of_ne hstarts.length_le fun hlength ↦ htorn (hstarts.eq_of_length hlength)
        exact refused_of_torn_frame hsealed hframe hcontent hstarts hshort

theorem Unreadable.not_archiveRows {chunks : List (List P.Row)} {w : World}
    (h : Unreadable zl path w) : ¬ ArchiveRows zl V path chunks w := by
  intro hrows
  have hone : chunks.length = 1 := by
    rcases h.count with hcount | ⟨e, hcount⟩
    · rw [hrows.chunkCount] at hcount
      exact (EStateM.Result.ok.inj hcount).1
    · rw [hrows.chunkCount] at hcount
      cases hcount
  obtain ⟨e, hwhole⟩ := h.whole
  obtain ⟨bytes, hread, -⟩ := hrows.rows 0 (by omega)
  rw [if_pos hone, hwhole] at hread
  cases hread

/-! ## Every row, in order -/

/-- The archive has every row of the batches, in their order; it has one chunk unless chunking is
on, and no empty chunk among several. -/
def CopiedInOrder (zl : OpenZL) (V : ParquetView P) (bind : OpenzlCopyBindData) (path : Path)
    (batches : List (List P.Row)) (w : World) : Prop :=
  ∃ chunks, ArchiveRows zl V path chunks w ∧ chunks.flatten = batches.flatten ∧
    (bind.chunkSizeBytes = 0 → chunks.length = 1) ∧
      (2 ≤ chunks.length → ∀ rows ∈ chunks, rows ≠ [])

/-- The chunks of a COPY before `Finish`. -/
theorem runToFinish_chunks (hV : V.Lawful) {p₀ : CopyProcess}
    (hfree : bind.inMemory = true → ∀ k, p₀.counter ≤ k → p₀.buffers (bufferPath k) = none)
    {batches : List (List P.Row)} (hbatches : ∀ input ∈ batches, input ≠ [])
    {queryError : Option String}
    (hok : runToFinish zl bind batches queryError (CopyState.initial P p₀ path) = .ok () s) :
    ∃ files chunks, Appending (fun _ ↦ True) zl bind path files s ∧ FilesOf V files chunks ∧
      chunks.flatten = batches.flatten ∧ (bind.chunkSizeBytes = 0 → chunks.length = 1) ∧
        (2 ≤ chunks.length → ∀ rows ∈ chunks, rows ≠ []) := by
  have hinitial : Appending (fun _ ↦ True) zl bind path [] (CopyState.initial P p₀ path) :=
    ⟨trivial, rfl, rfl, rfl, hfree, [], .nil,
      ChunkedArchiveWriter.represents_ofPath path p₀.world⟩
  obtain ⟨s₁, s₂, s₃, s₄, hstart, hinit, hsinks, hcombine, hend⟩ := runToFinish_eq_ok hok
  obtain ⟨g, l, hfilling, hnone⟩ := startChunk_filling hV hinitial .nil
    (bind_eq_ok_iff.mpr ⟨(), s₁, hstart, hinit⟩)
  have hfirst : Sunk zl bind V path [] s₂ :=
    ⟨[], g, l, [], hfilling, hnone, fun _ ↦ rfl, by simp, fun h ↦ absurd rfl h⟩
  have hsunk := openzlCopySink_forM_sunk hV hbatches hfirst hsinks
  obtain ⟨files, g, l, done, hfilling, hrows, hunchunked, hnonempty, hlast⟩ := hsunk.rows
  obtain ⟨file, happending, hread⟩ :=
    endChunk_file hV hfilling (bind_eq_ok_iff.mpr ⟨(), s₄, hcombine, hend⟩)
  refine ⟨_, _, happending, hread, ?_, ?_, ?_⟩
  · simpa using hrows
  · intro hzero
    simp [hunchunked hzero]
  · intro htwo rows hmem
    have hdone : done ≠ [] := by
      rintro rfl
      simp at htwo
    rcases List.mem_append.mp hmem with hmem | hmem
    · exact hnonempty rows hmem
    · rw [List.mem_singleton.mp hmem]
      exact hlast hdone

/-- A COPY that succeeds leaves an archive of every row it was given, in the order it was given
them, exactly if `Finish` closes a container or the lone frame is kept by the destructor of its
stream. With the container or the frame torn there is nothing to read, for frames that do not
decode when they are cut short. -/
theorem copied_rows_in_order_iff (hzl : zl.Lawful) (hV : V.Lawful) {p₀ : CopyProcess}
    (hfree : bind.inMemory = true → ∀ k, p₀.counter ≤ k → p₀.buffers (bufferPath k) = none)
    {batches : List (List P.Row)} (hbatches : ∀ input ∈ batches, input ≠ [])
    {queryError : Option String}
    (hok : runCopy zl bind batches queryError (CopyState.initial P p₀ path) = .ok () s) :
    ∃ t, runToFinish zl bind batches queryError (CopyState.initial P p₀ path) = .ok () t ∧
      (ChunkedArchiveWriter.FinishKeeps t.writer →
        CopiedInOrder zl V bind path batches s.destroy.world) ∧
      (zl.Sealed → CopiedInOrder zl V bind path batches s.destroy.world →
        ChunkedArchiveWriter.FinishKeeps t.writer) := by
  rw [runCopy_eq_finish] at hok
  obtain ⟨⟨⟩, t, hrun, hfinish⟩ := bind_eq_ok_iff.mp hok
  obtain ⟨files, chunks, happending, hread, hshape⟩ := runToFinish_chunks hV hfree hbatches hrun
  obtain ⟨hkept, hlost⟩ := finish_archiveRows hzl happending hread hfinish
  refine ⟨t, hrun, fun hkeeps ↦ ⟨chunks, hkept hkeeps, hshape⟩, ?_⟩
  rintro hsealed ⟨chunks', hrows, -⟩
  by_contra htorn
  exact (hlost hsealed htorn).not_archiveRows hrows

/-! ## An instance -/

def ParquetView.plain : ParquetView .plain where
  handed := fun g ↦ g
  written := fun g ↦ g
  buffered := fun l ↦ l
  readParquet := fun bytes ↦ some bytes

theorem ParquetView.plain_lawful : ParquetView.plain.Lawful where
  initializeGlobal := by
    rintro k o g ho hg
    obtain rfl := Except.ok.inj ho
    obtain rfl := Except.ok.inj hg
    exact ⟨rfl, rfl⟩
  initializeLocal := fun _ _ hl ↦ (Except.ok.inj hl).symm
  sink := by
    rintro k input g l g' l' h
    obtain ⟨rfl, rfl⟩ := Prod.mk.inj (Except.ok.inj h)
    exact ⟨(List.append_nil _).trans (List.append_assoc g l input).symm, rfl⟩
  combine := by
    rintro k g l g' h
    obtain rfl := Except.ok.inj h
    exact ⟨rfl, rfl⟩
  finalize := fun _ g _ ↦ congrArg some (List.append_nil g)
  flushed := fun _ h ↦ h

/-- Two batches and a rotation between them, on a disk that loses every flush. -/
theorem copied_rows_in_order_rotation : OpenZL.sized.Sealed ∧ ∃ t s,
    runToFinish .sized { chunkSizeBytes := 2 } ParquetCopyFunction.plainBatches none
        (CopyState.initial .plain { world := fullDisk } "t.zl") = .ok () t ∧
      runCopy .sized { chunkSizeBytes := 2 } ParquetCopyFunction.plainBatches none
        (CopyState.initial .plain { world := fullDisk } "t.zl") = .ok () s ∧
      CopiedInOrder .sized ParquetView.plain { chunkSizeBytes := 2 } "t.zl"
        ParquetCopyFunction.plainBatches s.destroy.world ∧
      ChunkedArchiveWriter.FinishKeeps t.writer := by
  have hreturns : returns (runCopy .sized { chunkSizeBytes := 2 }
      ParquetCopyFunction.plainBatches none)
      (CopyState.initial .plain { world := fullDisk } "t.zl") = true := by decide +kernel
  obtain ⟨⟨⟩, s, hs⟩ := exists_of_returns hreturns
  have hbatches : ∀ input ∈ ParquetCopyFunction.plainBatches, input ≠ [] := by
    intro input hmem
    rcases List.mem_pair.mp hmem with rfl | rfl
    · exact List.cons_ne_nil _ _
    · exact List.cons_ne_nil _ _
  obtain ⟨t, hrun, hcopied, hkeeps⟩ := copied_rows_in_order_iff OpenZL.sized_sealed.toLawful
    ParquetView.plain_lawful (fun _ _ _ ↦ rfl) hbatches hs
  have hnum : (stateAfter (runToFinish .sized { chunkSizeBytes := 2 }
      ParquetCopyFunction.plainBatches none)
      (CopyState.initial .plain { world := fullDisk } "t.zl")).gstate.archive.numChunks = 2 := by
    decide +kernel
  rw [stateAfter_of_ok hrun] at hnum
  have hrows := hcopied (.inl hnum.ge)
  exact ⟨OpenZL.sized_sealed, t, s, hrun, hs, hrows, hkeeps OpenZL.sized_sealed hrows⟩

/-- The same batches in one chunk: its frame is lost, and the COPY succeeds. -/
theorem rows_lost_in_one_chunk : ∃ s,
    runCopy .stored {} ParquetCopyFunction.plainBatches none
        (CopyState.initial .plain { world := fullDisk } "t.zl") = .ok () s ∧
      s.destroy.world.content "t.zl" = some [] ∧
      ¬ CopiedInOrder .stored ParquetView.plain {} "t.zl" ParquetCopyFunction.plainBatches
        s.destroy.world := by
  have hreturns : returns (runCopy .stored {} ParquetCopyFunction.plainBatches none)
      (CopyState.initial .plain { world := fullDisk } "t.zl") = true := by decide +kernel
  obtain ⟨⟨⟩, s, hs⟩ := exists_of_returns hreturns
  have hempty : (stateAfter (runCopy .stored {} ParquetCopyFunction.plainBatches none)
      (CopyState.initial .plain { world := fullDisk } "t.zl")).destroy.world.content "t.zl" =
        some [] := by decide +kernel
  have hrefused : returns (decompressToBuffer .stored "t.zl")
      (stateAfter (runCopy .stored {} ParquetCopyFunction.plainBatches none)
        (CopyState.initial .plain { world := fullDisk } "t.zl")).destroy.world = false := by
    decide +kernel
  rw [stateAfter_of_ok hs] at hempty hrefused
  refine ⟨s, hs, hempty, ?_⟩
  rintro ⟨chunks, hrows, -, hone, -⟩
  have hone := hone rfl
  obtain ⟨bytes, hread, -⟩ := hrows.rows 0 (by omega)
  rw [if_pos hone] at hread
  rw [returns, hread] at hrefused
  cases hrefused

end DuckdbOpenzl
