import DuckdbOpenzl.Copy.ChunkFiles

/-!
# How far a chunk overshoots

Rows that wait in the local state are not in the staged file. They are flushed
together with the next rows, and only while the staged file is below the
target; when it has reached the target nothing waits.
-/

set_option autoImplicit false

namespace DuckdbOpenzl

open ExceptionState

/-- The bytes in front of the first row group, and the sizes of the row groups. -/
structure ChunkLayout where
  front : ℕ
  rowGroups : List ℕ
  deriving DecidableEq, Repr

namespace ChunkLayout

/-- The staged size, without the footer. -/
def size (c : ChunkLayout) : ℕ := c.front + c.rowGroups.sum

/-- The staged size when the last row group was flushed. -/
def beforeLast (c : ChunkLayout) : ℕ := c.front + c.rowGroups.dropLast.sum

/-- The last row group was flushed below the target, or it is the only one and what is in front of
it reaches the target. -/
def Bounded (target : ℕ) (c : ChunkLayout) : Prop :=
  c.beforeLast < target ∨ c.rowGroups.length ≤ 1 ∧ target ≤ c.front

variable {c : ChunkLayout} {target : ℕ}

theorem bounded_of_length (h : c.rowGroups.length ≤ 1) : c.Bounded target := by
  rcases lt_or_ge c.front target with hlt | hge
  · have hdrop : c.rowGroups.dropLast = [] := by
      apply List.eq_nil_of_length_eq_zero
      rw [List.length_dropLast]
      omega
    left
    rw [beforeLast, hdrop]
    exact hlt
  · exact .inr ⟨h, hge⟩

theorem beforeLast_concat (front : ℕ) (rowGroups : List ℕ) (n : ℕ) :
    beforeLast ⟨front, rowGroups ++ [n]⟩ = size ⟨front, rowGroups⟩ := by
  rw [beforeLast, size, List.dropLast_concat]

theorem size_concat (front : ℕ) (rowGroups : List ℕ) (n : ℕ) :
    size ⟨front, rowGroups ++ [n]⟩ = size ⟨front, rowGroups⟩ + n := by
  rw [size, size, List.sum_append, List.sum_singleton, Nat.add_assoc]

end ChunkLayout

/-- What can be seen of the parquet writer: the bytes it wrote before any row group, the row groups
it flushed, the rows that wait in a local state, and the layout a finished file says it has. -/
structure RowGroupView (P : ParquetCopyFunction) where
  front : P.GlobalState → Bytes
  rowGroups : P.GlobalState → List Bytes
  buffered : P.LocalState → List P.Row
  readLayout : Bytes → Option ChunkLayout

namespace RowGroupView

variable {P : ParquetCopyFunction}

def staged (V : RowGroupView P) (g : P.GlobalState) : Bytes := V.front g ++ (V.rowGroups g).flatten

def layout (V : RowGroupView P) (g : P.GlobalState) : ChunkLayout :=
  ⟨(V.front g).length, (V.rowGroups g).map List.length⟩

/-- A sink call only buffers its rows or flushes everything as one row group, combine flushes what
is left, and a finished file lists its row groups. -/
structure Lawful (V : RowGroupView P) : Prop where
  initializeGlobal : ∀ k o g, P.initializeGlobal k = .ok o → o.result = .ok g →
    V.front g = o.written ∧ V.rowGroups g = []
  initializeLocal : ∀ k l, P.initializeLocal k = .ok l → V.buffered l = []
  sink : ∀ k input g l g' l', (P.sink k input g l).result = .ok (g', l') → V.front g' = V.front g ∧
    ((V.buffered l' = V.buffered l ++ input ∧ V.rowGroups g' = V.rowGroups g ∧
        (P.sink k input g l).written = []) ∨
      (V.buffered l' = [] ∧ V.rowGroups g' = V.rowGroups g ++ [(P.sink k input g l).written]))
  combine : ∀ k g l g', (P.combine k g l).result = .ok g' → V.front g' = V.front g ∧
    (V.buffered l = [] → V.rowGroups g' = V.rowGroups g ∧ (P.combine k g l).written = []) ∧
      (V.buffered l ≠ [] → V.rowGroups g' = V.rowGroups g ++ [(P.combine k g l).written])
  finalize : ∀ k g, (P.finalize k g).result = .ok () →
    V.readLayout (V.staged g ++ (P.finalize k g).written) = some (V.layout g)

variable {V : RowGroupView P} {g g' : P.GlobalState} {l l' : P.LocalState} {written : Bytes}
  {target k : ℕ}

theorem length_staged (V : RowGroupView P) (g : P.GlobalState) :
    (V.staged g).length = (V.layout g).size := by
  rw [staged, layout, ChunkLayout.size, List.length_append, List.length_flatten]

/-! ## One more row group -/

theorem staged_same (hfront : V.front g' = V.front g) (hsame : V.rowGroups g' = V.rowGroups g) :
    V.staged g' = V.staged g := by
  rw [staged, staged, hfront, hsame]

theorem layout_same (hfront : V.front g' = V.front g) (hsame : V.rowGroups g' = V.rowGroups g) :
    V.layout g' = V.layout g := by
  rw [layout, layout, hfront, hsame]

theorem staged_flush (hfront : V.front g' = V.front g)
    (hflush : V.rowGroups g' = V.rowGroups g ++ [written]) :
    V.staged g' = V.staged g ++ written := by
  rw [staged, staged, hfront, hflush, List.flatten_concat, List.append_assoc]

theorem layout_flush (hfront : V.front g' = V.front g)
    (hflush : V.rowGroups g' = V.rowGroups g ++ [written]) :
    V.layout g' = ⟨(V.layout g).front, (V.layout g).rowGroups ++ [written.length]⟩ := by
  rw [layout, layout, hfront, hflush, List.map_append, List.map_singleton]

/-- A row group that is flushed while the staged file is below the target, or as the first. -/
theorem bounded_flush (hfront : V.front g' = V.front g)
    (hflush : V.rowGroups g' = V.rowGroups g ++ [written])
    (hroom : (V.layout g).size < target ∨ V.rowGroups g = []) : (V.layout g').Bounded target := by
  rcases hroom with hroom | hfirst
  · left
    rw [layout_flush hfront hflush, ChunkLayout.beforeLast_concat]
    exact hroom
  · apply ChunkLayout.bounded_of_length
    rw [layout_flush hfront hflush, layout, hfirst]
    exact le_rfl

/-- Between two calls: once the staged file has reached the target, nothing waits. -/
structure Open (V : RowGroupView P) (target : ℕ) (g : P.GlobalState) (l : P.LocalState) : Prop where
  bounded : (V.layout g).Bounded target
  waiting : (V.layout g).size < target ∨ V.rowGroups g = [] ∨ V.buffered l = []

/-- A sink call below the target, or on a new file. -/
theorem Lawful.sink_open (hV : V.Lawful) {input : List P.Row}
    (hres : (P.sink k input g l).result = .ok (g', l')) (hbounded : (V.layout g).Bounded target)
    (hroom : (V.layout g).size < target ∨ V.rowGroups g = []) :
    V.Open target g' l' ∧ V.staged g' = V.staged g ++ (P.sink k input g l).written := by
  obtain ⟨hfront, ⟨-, hsame, hnone⟩ | ⟨hempty, hflush⟩⟩ := hV.sink k input g l g' l' hres
  · rw [hnone, List.append_nil]
    have hlayout := layout_same hfront hsame
    refine ⟨⟨?_, ?_⟩, staged_same hfront hsame⟩
    · rw [hlayout]
      exact hbounded
    · rw [hlayout, hsame, ← or_assoc]
      exact .inl hroom
  · exact ⟨⟨bounded_flush hfront hflush hroom, .inr (.inr hempty)⟩, staged_flush hfront hflush⟩

theorem Lawful.combine_open (hV : V.Lawful) (hres : (P.combine k g l).result = .ok g')
    (hopen : V.Open target g l) :
    (V.layout g').Bounded target ∧ (V.layout g).size ≤ (V.layout g').size ∧
      V.staged g' = V.staged g ++ (P.combine k g l).written := by
  obtain ⟨hfront, hnothing, hrest⟩ := hV.combine k g l g' hres
  by_cases hempty : V.buffered l = []
  · obtain ⟨hsame, hnone⟩ := hnothing hempty
    have hlayout := layout_same hfront hsame
    rw [hlayout, hnone, List.append_nil]
    exact ⟨hopen.bounded, le_rfl, staged_same hfront hsame⟩
  · have hflush := hrest hempty
    have hroom : (V.layout g).size < target ∨ V.rowGroups g = [] :=
      hopen.waiting.imp_right fun h ↦ h.resolve_right hempty
    refine ⟨bounded_flush hfront hflush hroom, ?_, staged_flush hfront hflush⟩
    rw [layout_flush hfront hflush, ChunkLayout.size_concat]
    exact Nat.le_add_right ..

end RowGroupView

variable {P : ParquetCopyFunction} {V : RowGroupView P} {zl : OpenZL} {bind : OpenzlCopyBindData}
  {path : Path} {files : List Bytes} {s s' : CopyState P} {g : P.GlobalState} {l : P.LocalState}

/-! ## Whole runs -/

/-- The layouts of the files behind the chunks so far, all of them closed by a rotation. -/
structure Rotated (V : RowGroupView P) (target : ℕ) (files : List Bytes)
    (chunks : List ChunkLayout) : Prop where
  layouts : List.Forall₂ (fun file c ↦ V.readLayout file = some c) files chunks
  bounded : ∀ c ∈ chunks, c.Bounded target
  full : ∀ c ∈ chunks, target ≤ c.size

/-- Between two callbacks of the sink. -/
structure Measured (zl : OpenZL) (bind : OpenzlCopyBindData) (V : RowGroupView P) (path : Path)
    (s : CopyState P) (files : List Bytes) (g : P.GlobalState) (l : P.LocalState) : Prop where
  staged : StagedFile IoScript.KeepsFlushes zl bind path files (V.staged g) s
  parquetGlobalState : s.gstate.parquetGlobalState = some g
  lstate : s.lstate = some l
  waiting : V.Open bind.chunkSizeBytes g l
  rotated : ∃ chunks, Rotated V bind.chunkSizeBytes files chunks

theorem StagedFile.openzlStagedBytes_eq {bytes : Bytes}
    (h : StagedFile IoScript.KeepsFlushes zl bind path files bytes s) :
    openzlStagedBytes bind s = bytes.length := by
  rw [openzlStagedBytes, h.target]

theorem startChunk_measured (hV : V.Lawful)
    (h : Appending IoScript.KeepsFlushes zl bind path files s)
    (hrotated : ∃ chunks, Rotated V bind.chunkSizeBytes files chunks)
    (hok : (openzlStartChunk bind >>= fun _ ↦ openzlCopyInitLocal) s = .ok () s') :
    ∃ g l, Measured zl bind V path s' files g l ∧ V.rowGroups g = [] := by
  obtain ⟨⟨⟩, s₁, hstart, hinit⟩ := bind_eq_ok_iff.mp hok
  obtain ⟨k, o, g, ho, hg, hstaged, hgstate⟩ := openzlStartChunk_ok h hstart
  obtain ⟨k', l, hl, hstaged', hgstate', hlstate⟩ := openzlCopyInitLocal_ok hstaged hgstate hinit
  obtain ⟨hfront, hnone⟩ := hV.initializeGlobal k o g ho hg
  have hwritten : V.staged g = o.written := by
    rw [RowGroupView.staged, hfront, hnone, List.flatten_nil, List.append_nil]
  rw [← hwritten] at hstaged'
  refine ⟨g, l, ⟨hstaged', hgstate', hlstate, ⟨?_, .inr (.inl hnone)⟩, hrotated⟩, hnone⟩
  apply ChunkLayout.bounded_of_length
  rw [RowGroupView.layout, hnone]
  exact Nat.zero_le _

/-- A chunk that ends, after its local state was combined, has the bound and what it had. -/
theorem endChunk_measured (hV : V.Lawful) (h : Measured zl bind V path s files g l)
    (hok : (parquetCombine bind >>= fun _ ↦ openzlEndChunk zl bind) s = .ok () s') :
    ∃ file c, Appending IoScript.KeepsFlushes zl bind path (files ++ [file]) s' ∧
      V.readLayout file = some c ∧
      c.Bounded bind.chunkSizeBytes ∧ openzlStagedBytes bind s ≤ c.size := by
  obtain ⟨⟨⟩, s₁, hcombine, hend⟩ := bind_eq_ok_iff.mp hok
  obtain ⟨k, g', hres, hstaged, hgstate⟩ :=
    parquetCombine_ok h.staged h.parquetGlobalState h.lstate hcombine
  obtain ⟨hbounded, hsize, hbytes⟩ := hV.combine_open hres h.waiting
  rw [← hbytes] at hstaged
  obtain ⟨k', hfinal, happending⟩ := openzlEndChunk_ok hstaged hgstate hend
  refine ⟨_, V.layout g', happending, hV.finalize k' g' hfinal, hbounded, ?_⟩
  rw [h.staged.openzlStagedBytes_eq, V.length_staged]
  exact hsize

theorem sink_measured (hV : V.Lawful) {input : List P.Row} (h : Measured zl bind V path s files g l)
    (hroom : (V.layout g).size < bind.chunkSizeBytes ∨ V.rowGroups g = [])
    (hok : parquetSink bind input s = .ok () s') :
    ∃ g' l', Measured zl bind V path s' files g' l' := by
  obtain ⟨k, g', l', hres, hstaged, hgstate, hlstate⟩ :=
    parquetSink_ok h.staged h.parquetGlobalState h.lstate hok
  obtain ⟨hopen, hbytes⟩ := hV.sink_open hres h.waiting.bounded hroom
  rw [← hbytes] at hstaged
  exact ⟨g', l', hstaged, hgstate, hlstate, hopen, h.rotated⟩

theorem openzlCopySink_measured (hV : V.Lawful) (hchunking : bind.chunkSizeBytes > 0)
    {input : List P.Row} (h : Measured zl bind V path s files g l)
    (hok : openzlCopySink zl bind input s = .ok () s') :
    ∃ files' g' l', Measured zl bind V path s' files' g' l' := by
  have hstaged := h.staged.openzlStagedBytes_eq
  rw [V.length_staged] at hstaged
  unfold openzlCopySink at hok
  by_cases hrotate : bind.chunkSizeBytes > 0 ∧ openzlStagedBytes bind s ≥ bind.chunkSizeBytes
  · rw [if_pos hrotate, rotateChunk_eq] at hok
    obtain ⟨⟨⟩, s₁, hrotated, hsink⟩ := bind_eq_ok_iff.mp hok
    obtain ⟨⟨⟩, s₂, hend, hstart⟩ := bind_eq_ok_iff.mp hrotated
    obtain ⟨file, c, happending, hlayout, hbounded, hsize⟩ := endChunk_measured hV h hend
    obtain ⟨chunks, hchunks⟩ := h.rotated
    have hall : Rotated V bind.chunkSizeBytes (files ++ [file]) (chunks ++ [c]) := by
      refine ⟨List.rel_append hchunks.layouts (.cons hlayout .nil), ?_, ?_⟩
      · intro d hd
        rcases List.mem_append.mp hd with hd | hd
        · exact hchunks.bounded d hd
        · exact List.mem_singleton.mp hd ▸ hbounded
      · intro d hd
        rcases List.mem_append.mp hd with hd | hd
        · exact hchunks.full d hd
        · exact List.mem_singleton.mp hd ▸ hrotate.2.trans hsize
    obtain ⟨g', l', hmeasured, hnone⟩ := startChunk_measured hV happending ⟨_, hall⟩ hstart
    obtain ⟨g'', l'', hmeasured'⟩ := sink_measured hV hmeasured (.inr hnone) hsink
    exact ⟨_, g'', l'', hmeasured'⟩
  · rw [if_neg hrotate] at hok
    have hroom : (V.layout g).size < bind.chunkSizeBytes := by
      by_contra hfull
      exact hrotate ⟨hchunking, by rw [hstaged]; exact not_lt.mp hfull⟩
    obtain ⟨g', l', hmeasured⟩ := sink_measured hV h (.inl hroom) hok
    exact ⟨files, g', l', hmeasured⟩

theorem openzlCopySink_forM_measured (hV : V.Lawful) (hchunking : bind.chunkSizeBytes > 0)
    {batches : List (List P.Row)} (h : Measured zl bind V path s files g l)
    (hok : batches.forM (openzlCopySink zl bind) s = .ok () s') :
    ∃ files' g' l', Measured zl bind V path s' files' g' l' := by
  induction batches generalizing s files g l with
  | nil =>
      obtain ⟨-, rfl⟩ := EStateM.Result.ok.inj hok
      exact ⟨files, g, l, h⟩
  | cons input batches ih =>
      obtain ⟨⟨⟩, s₁, hsink, hrest⟩ := bind_eq_ok_iff.mp hok
      obtain ⟨files', g', l', h'⟩ := openzlCopySink_measured hV hchunking h hsink
      exact ih h' hrest

/-- The layouts of the chunks of a finished archive. -/
def ArchiveLayouts (zl : OpenZL) (V : RowGroupView P) (path : Path) (chunks : List ChunkLayout)
    (w : World) : Prop :=
  ∃ frames files, w.content path = some (archiveBytes frames) ∧ FramesOf zl frames files ∧
    List.Forall₂ (fun file c ↦ V.readLayout file = some c) files chunks

/-- In the archive of a COPY that succeeds every chunk but the last has reached the target, and the
last row group of each was flushed below it, unless already the bytes in front of its one row group
reach the target. -/
theorem chunks_overshoot_by_row_group (hV : V.Lawful) (hchunking : bind.chunkSizeBytes > 0)
    {p₀ : CopyProcess} (hkeep : p₀.world.KeepsFlushes)
    (hfree : bind.inMemory = true → ∀ k, p₀.counter ≤ k → p₀.buffers (bufferPath k) = none)
    {batches : List (List P.Row)} {queryError : Option String}
    (hok : runCopy zl bind batches queryError (CopyState.initial P p₀ path) = .ok () s) :
    ∃ chunks, ArchiveLayouts zl V path chunks s.destroy.world ∧
      (∀ c ∈ chunks, c.beforeLast < bind.chunkSizeBytes ∨
        c.rowGroups.length ≤ 1 ∧ bind.chunkSizeBytes ≤ c.front) ∧
          ∀ c ∈ chunks.dropLast, bind.chunkSizeBytes ≤ c.size := by
  have hinitial : Appending IoScript.KeepsFlushes zl bind path [] (CopyState.initial P p₀ path) :=
    ⟨hkeep, rfl, rfl, rfl, hfree, [], .nil, ChunkedArchiveWriter.represents_ofPath path p₀.world⟩
  rw [runCopy_eq_finish] at hok
  obtain ⟨⟨⟩, s₅, hrun, hfinish⟩ := bind_eq_ok_iff.mp hok
  obtain ⟨s₁, s₂, s₃, s₄, hstart, hinit, hsinks, hcombine, hend⟩ := runToFinish_eq_ok hrun
  obtain ⟨g, l, hmeasured, -⟩ := startChunk_measured hV hinitial
    ⟨[], .nil, by simp, by simp⟩ (bind_eq_ok_iff.mpr ⟨(), s₁, hstart, hinit⟩)
  obtain ⟨files, g, l, hmeasured⟩ := openzlCopySink_forM_measured hV hchunking hmeasured hsinks
  obtain ⟨file, c, happending, hlayout, hbounded, -⟩ :=
    endChunk_measured hV hmeasured (bind_eq_ok_iff.mpr ⟨(), s₄, hcombine, hend⟩)
  obtain ⟨chunks, hchunks⟩ := hmeasured.rotated
  obtain ⟨frames, hframes, hfinished, hworld⟩ := finish_framesOf happending hfinish
  have hcontent := hfinished.whole.mpr
    (ChunkedArchiveWriter.finishKeeps_of_keepsFlushes happending.script)
  rw [show s₅.writer.2.path = path from happending.archivePath] at hcontent
  rw [← hworld] at hcontent
  refine ⟨chunks ++ [c], ⟨frames, files ++ [file], hcontent, hframes,
    List.rel_append hchunks.layouts (.cons hlayout .nil)⟩, ?_, ?_⟩
  · intro d hd
    rcases List.mem_append.mp hd with hd | hd
    · exact hchunks.bounded d hd
    · exact List.mem_singleton.mp hd ▸ hbounded
  · rw [List.dropLast_concat]
    exact hchunks.full

/-! ## An instance -/

/-- A list of numbers, to be read from the end of a file. -/
def unaryNumbers : List ℕ → Bytes
  | [] => [2]
  | n :: ns => List.replicate n 1 ++ 0 :: unaryNumbers ns

def readUnaryNumbers : Bytes → Option (List ℕ)
  | [] => none
  | b :: rest =>
      if b = 2 then some []
      else match readUnaryNumbers rest with
        | none => none
        | some ns => if b = 0 then some (0 :: ns) else
            match ns with
            | [] => none
            | n :: ns => some ((n + 1) :: ns)

theorem readUnaryNumbers_append (ns : List ℕ) (rest : Bytes) :
    readUnaryNumbers (unaryNumbers ns ++ rest) = some ns := by
  induction ns with
  | nil => rfl
  | cons n ns ih =>
      rw [unaryNumbers, List.append_assoc, List.cons_append]
      induction n with
      | zero =>
          rw [List.replicate_zero, List.nil_append, readUnaryNumbers, ih]
          rfl
      | succ n ihn =>
          rw [List.replicate_succ, List.cons_append, readUnaryNumbers, ihn]
          rfl

section

variable {rowGroupSize : ℕ} {input l l' : List UInt8} {g g' : List Bytes}

def groupedSink (rowGroupSize : ℕ) (input : List UInt8) (g : List Bytes) (l : List UInt8) :
    HostOutcome (List Bytes × List UInt8) :=
  if rowGroupSize ≤ (l ++ input).length then ⟨l ++ input, .ok (g ++ [l ++ input], [])⟩
  else ⟨[], .ok (g, l ++ input)⟩

def groupedCombine (g : List Bytes) (l : List UInt8) : HostOutcome (List Bytes) :=
  if l = [] then ⟨[], .ok g⟩ else ⟨l, .ok (g ++ [l])⟩

theorem groupedSink_ok (h : (groupedSink rowGroupSize input g l).result = .ok (g', l')) :
    (l' = l ++ input ∧ g' = g ∧ (groupedSink rowGroupSize input g l).written = []) ∨
      (l' = [] ∧ g' = g ++ [(groupedSink rowGroupSize input g l).written]) := by
  unfold groupedSink at h ⊢
  by_cases hfull : rowGroupSize ≤ (l ++ input).length
  · rw [if_pos hfull] at h ⊢
    obtain ⟨rfl, rfl⟩ := Prod.mk.inj (Except.ok.inj h)
    exact .inr ⟨rfl, rfl⟩
  · rw [if_neg hfull] at h ⊢
    obtain ⟨rfl, rfl⟩ := Prod.mk.inj (Except.ok.inj h)
    exact .inl ⟨rfl, rfl, rfl⟩

theorem groupedCombine_ok (h : (groupedCombine g l).result = .ok g') :
    (l = [] → g' = g ∧ (groupedCombine g l).written = []) ∧
      (l ≠ [] → g' = g ++ [(groupedCombine g l).written]) := by
  unfold groupedCombine at h ⊢
  by_cases hempty : l = []
  · rw [if_pos hempty] at h ⊢
    obtain rfl := Except.ok.inj h
    exact ⟨fun _ ↦ ⟨rfl, rfl⟩, fun hne ↦ absurd hempty hne⟩
  · rw [if_neg hempty] at h ⊢
    obtain rfl := Except.ok.inj h
    exact ⟨fun h ↦ absurd h hempty, fun _ ↦ rfl⟩

end

/-- A writer of one-byte rows that starts a file with its magic, flushes a row group once so many
rows wait, and lists the sizes at the end. -/
def ParquetCopyFunction.grouped (magic : Bytes) (rowGroupSize : ℕ) : ParquetCopyFunction where
  Row := UInt8
  GlobalState := List Bytes
  LocalState := List UInt8
  initializeGlobal := fun _ ↦ .ok ⟨magic, .ok []⟩
  initializeLocal := fun _ ↦ .ok []
  sink := fun _ ↦ groupedSink rowGroupSize
  combine := fun _ ↦ groupedCombine
  finalize := fun _ g ↦ ⟨(unaryNumbers (magic.length :: g.map List.length)).reverse, .ok ()⟩

def RowGroupView.grouped (magic : Bytes) (rowGroupSize : ℕ) :
    RowGroupView (.grouped magic rowGroupSize) where
  front := fun _ ↦ magic
  rowGroups := fun g ↦ g
  buffered := fun l ↦ l
  readLayout := fun file ↦ match readUnaryNumbers file.reverse with
    | some (front :: rowGroups) => some ⟨front, rowGroups⟩
    | _ => none

theorem RowGroupView.grouped_lawful (magic : Bytes) (rowGroupSize : ℕ) :
    (RowGroupView.grouped magic rowGroupSize).Lawful where
  initializeGlobal := by
    rintro k o g ho hg
    obtain rfl := Except.ok.inj ho
    obtain rfl := Except.ok.inj hg
    exact ⟨rfl, rfl⟩
  initializeLocal := fun _ _ hl ↦ (Except.ok.inj hl).symm
  sink := fun _ _ _ _ _ _ h ↦ ⟨rfl, groupedSink_ok h⟩
  combine := fun _ _ _ _ h ↦ ⟨rfl, groupedCombine_ok h⟩
  finalize := by
    intro k g _
    have hread := readUnaryNumbers_append (magic.length :: g.map List.length)
      (magic ++ g.flatten).reverse
    rw [← List.reverse_reverse (unaryNumbers _), ← List.reverse_append] at hread
    change (match readUnaryNumbers (magic ++ g.flatten ++
      (unaryNumbers (magic.length :: g.map List.length)).reverse).reverse with
      | some (front :: rowGroups) => some (ChunkLayout.mk front rowGroups)
      | _ => none) = some ⟨magic.length, g.map List.length⟩
    rw [hread]

def groupedBatches (magic : Bytes) :
    List (List (ParquetCopyFunction.grouped magic 2).Row) :=
  ([[1], [2], [3]] : List (List UInt8))

/-- Three batches, a rotation after the second. -/
theorem chunks_overshoot_by_row_group_rotation : ∃ s chunks,
    runCopy .stored { chunkSizeBytes := 2 } (groupedBatches []) none
        (CopyState.initial (.grouped [] 2) CopyProcess.empty "t.zl") = .ok () s ∧
      ArchiveLayouts .stored (.grouped [] 2) "t.zl" chunks s.destroy.world ∧
        (∀ c ∈ chunks, c.beforeLast < 2 ∨ c.rowGroups.length ≤ 1 ∧ 2 ≤ c.front) ∧
          ∀ c ∈ chunks.dropLast, 2 ≤ c.size := by
  have hreturns : returns (runCopy .stored { chunkSizeBytes := 2 } (groupedBatches []) none)
      (CopyState.initial (.grouped [] 2) CopyProcess.empty "t.zl") = true := by decide +kernel
  obtain ⟨⟨⟩, s, hs⟩ := exists_of_returns hreturns
  have hbind : ({ chunkSizeBytes := 2 } : OpenzlCopyBindData).chunkSizeBytes > 0 := by decide
  obtain ⟨chunks, hlayouts, hbounded, hfull⟩ := chunks_overshoot_by_row_group
    (RowGroupView.grouped_lawful [] 2) hbind (fun _ ↦ rfl) (fun _ _ _ ↦ rfl) hs
  exact ⟨s, chunks, hs, hlayouts, hbounded, hfull⟩

theorem framesOf_stored (files : List Bytes) : FramesOf .stored (files.map (0 :: ·)) files :=
  List.forall₂_map_left_iff.mpr (List.forall₂_same.mpr fun _ _ ↦ ⟨⟨.serial, 8, 9, false⟩, rfl⟩)

/-- A target of four bytes, which the magic of the empty file reaches: the rotation flushes the
row that waits, at a staged size that is not below the target. -/
theorem row_group_flushed_at_target : ∃ s chunks,
    runCopy .stored { chunkSizeBytes := 4 } (groupedBatches [80, 65, 82, 49]) none
        (CopyState.initial (.grouped [80, 65, 82, 49] 2) CopyProcess.empty "t.zl") = .ok () s ∧
      ArchiveLayouts .stored (.grouped [80, 65, 82, 49] 2) "t.zl" chunks s.destroy.world ∧
        ∃ c ∈ chunks, c.rowGroups ≠ [] ∧ ¬c.beforeLast < 4 := by
  have hreturns : returns (runCopy .stored { chunkSizeBytes := 4 } (groupedBatches [80, 65, 82, 49])
      none) (CopyState.initial (.grouped [80, 65, 82, 49] 2) CopyProcess.empty "t.zl") = true := by
    decide +kernel
  let files : List Bytes := [[80, 65, 82, 49, 2, 0, 1, 1, 1, 1],
    [80, 65, 82, 49, 1, 2, 0, 1, 0, 1, 1, 1, 1], [80, 65, 82, 49, 2, 2, 0, 1, 0, 1, 1, 1, 1],
    [80, 65, 82, 49, 3, 2, 0, 1, 0, 1, 1, 1, 1]]
  have hcontent : (stateAfter (runCopy .stored { chunkSizeBytes := 4 }
      (groupedBatches [80, 65, 82, 49]) none) (CopyState.initial (.grouped [80, 65, 82, 49] 2)
        CopyProcess.empty "t.zl")).destroy.world.content "t.zl" =
      some (archiveBytes (files.map (0 :: ·))) := by
    decide +kernel
  obtain ⟨⟨⟩, s, hs⟩ := exists_of_returns hreturns
  rw [stateAfter_of_ok hs] at hcontent
  refine ⟨s, [⟨4, []⟩, ⟨4, [1]⟩, ⟨4, [1]⟩, ⟨4, [1]⟩], hs, ⟨_, files, hcontent,
    framesOf_stored files, ?_⟩, ⟨4, [1]⟩, by decide, by decide, by decide⟩
  exact .cons rfl (.cons rfl (.cons rfl (.cons rfl .nil)))

end DuckdbOpenzl
