import DuckdbOpenzl.FileSystem.Handle
import DuckdbOpenzl.Library.NamedFiles
import DuckdbOpenzl.Library.Runs

/-!
# Interleaved closes

`Close` step by step, on a disk whose files stay open under a stream or a
reader when their names move. The temporary file is named after the target, so
the calls on one target share it.
-/

set_option autoImplicit false

namespace DuckdbOpenzl

open FileContent NamedFiles Relation Runs

/-! ## One call -/

/-- The stream of `WriteFile`: so many bytes of the frame are in the file. -/
structure WriteStream where
  file : FileId Path
  frame : Bytes
  stored : ℕ

namespace WriteStream

def portion (f : WriteStream) (n : ℕ) : Bytes := slice f.frame f.stored n

def advance (f : WriteStream) (n : ℕ) : WriteStream :=
  { f with stored := f.stored + (f.portion n).length }

end WriteStream

/-- The write has not returned yet, has failed, or has succeeded and the destructor flushes. -/
inductive WriteStage where
  | writing (generic : Bool)
  | unwinding (generic : Bool)
  | flushing

inductive ClosePhase where
  | compressing (generic : Bool)
  | streaming (stage : WriteStage) (f : WriteStream)
  | moving
  | removing (e : Exception)
  | done (result : Except Exception Unit)

structure CloseCall where
  handle : OpenzlFileHandle
  buffer : Bytes
  phase : ClosePhase

namespace CloseCall

/-- The configured graph, or the generic one of the retry. -/
def graph (call : CloseCall) (generic : Bool) : GraphOptions :=
  if generic then
    { call.handle.writeSettings.graph with profile := "serial", parquetChunkBytes := 0 }
  else call.handle.writeSettings.graph

/-- What the call compresses its buffer to. -/
def compress (zl : OpenZL) (call : CloseCall) (generic : Bool) : Except Error Bytes :=
  compressBytesImpl zl call.buffer "<in-memory input>" [] call.handle.writeSettings.compressionLevel
    call.handle.writeSettings.maxCompressBytes (call.graph generic)

/-- Where the call goes on when `CompressParquetBytes` throws. -/
def failed (call : CloseCall) (generic : Bool) (e : Error) : ClosePhase :=
  if generic = true ∨ call.handle.writeSettings.graph.profile = "serial" ∨
      call.buffer.length > OpenzlFileHandle.kSmallFallbackBytes then
    .removing (call.handle.cannotWrite e)
  else .compressing true

def tmpPath (call : CloseCall) : Path := call.handle.tmpPath

def cannotOpen (call : CloseCall) : Error :=
  ⟨"openzl_bridge: could not open file for writing: " ++ call.tmpPath⟩

def errorWriting (call : CloseCall) : Error :=
  ⟨"openzl_bridge: error writing file: " ++ call.tmpPath⟩

def cannotMove (call : CloseCall) : Exception :=
  .io ("OpenzlFileSystem: cannot move the finished archive into place at \"" ++
    call.handle.realPath ++ "\"")

/-- The temporary file is open, or written and not moved yet. -/
def Holds (call : CloseCall) : Prop :=
  (∃ stage f, call.phase = .streaming stage f) ∨ call.phase = .moving

def Writes (call : CloseCall) (file : FileId Path) : Prop :=
  ∃ stage f, call.phase = .streaming stage f ∧ f.file = file

/-- The bytes are an archive the call can produce. -/
def Produces (zl : OpenZL) (call : CloseCall) (bytes : Bytes) : Prop :=
  ∃ generic, call.compress zl generic = .ok bytes

theorem Writes.holds {call : CloseCall} {file : FileId Path} (h : call.Writes file) :
    call.Holds := by
  obtain ⟨stage, f, hphase, -⟩ := h
  exact .inl ⟨stage, f, hphase⟩

end CloseCall

/-- What a call does next without touching the disk. -/
inductive PhaseMove (zl : OpenZL) (call : CloseCall) : ClosePhase → Prop where
  | rejected {generic : Bool} {e : Error} (compressing : call.phase = .compressing generic)
      (rejected : call.compress zl generic = .error e) : PhaseMove zl call (call.failed generic e)
  | cannotOpen {generic : Bool} {frame : Bytes} (compressing : call.phase = .compressing generic)
      (compressed : call.compress zl generic = .ok frame) :
      PhaseMove zl call (call.failed generic call.cannotOpen)
  | wrote {generic : Bool} {f : WriteStream}
      (writing : call.phase = .streaming (.writing generic) f) :
      PhaseMove zl call (.streaming .flushing f)
  | errorWriting {generic : Bool} {f : WriteStream}
      (writing : call.phase = .streaming (.writing generic) f) :
      PhaseMove zl call (.streaming (.unwinding generic) f)
  | destroyed {f : WriteStream} (flushing : call.phase = .streaming .flushing f) :
      PhaseMove zl call .moving
  | unwound {generic : Bool} {f : WriteStream}
      (unwinding : call.phase = .streaming (.unwinding generic) f) :
      PhaseMove zl call (call.failed generic call.errorWriting)
  | notMoved (moving : call.phase = .moving) : PhaseMove zl call (.removing call.cannotMove)
  | notRemoved {e : Exception} (removing : call.phase = .removing e) :
      PhaseMove zl call (.done (.error e))

inductive CloseMove (zl : OpenZL) (call : CloseCall) (d : Disk Path UInt8) :
    Disk Path UInt8 → ClosePhase → Prop where
  | phase {phase : ClosePhase} (move : PhaseMove zl call phase) : CloseMove zl call d d phase
  | openTrunc {generic : Bool} {frame : Bytes} (compressing : call.phase = .compressing generic)
      (compressed : call.compress zl generic = .ok frame) :
      CloseMove zl call d (d.openTrunc call.tmpPath).2
        (.streaming (.writing generic) ⟨(d.openTrunc call.tmpPath).1, frame, 0⟩)
  | store {stage : WriteStage} {f : WriteStream} {n : ℕ}
      (streaming : call.phase = .streaming stage f)
      (some : f.portion n ≠ []) :
      CloseMove zl call d (d.writeAt f.file f.stored (f.portion n)) (.streaming stage (f.advance n))
  | moved (moving : call.phase = .moving) (present : (d.names call.tmpPath).isSome) :
      CloseMove zl call d (d.rename call.tmpPath call.handle.realPath) (.done (.ok ()))
  | removed {e : Exception} (removing : call.phase = .removing e) :
      CloseMove zl call d (d.remove call.tmpPath) (.done (.error e))

/-! ## Any number of calls and readers -/

/-- A file opened at a path, and the bytes read from it so far. -/
structure ArchiveReader where
  path : Path
  file : FileId Path
  seen : Bytes

structure CloseSystem where
  disk : Disk Path UInt8
  calls : ℕ → Option CloseCall := fun _ ↦ none
  readers : ℕ → Option ArchiveReader := fun _ ↦ none

namespace CloseSystem

def setCall (s : CloseSystem) (i : ℕ) (call : CloseCall) : CloseSystem :=
  { s with calls := Function.update s.calls i (some call) }

theorem setCall_setCall (s : CloseSystem) (d d' : Disk Path UInt8) (i : ℕ)
    (call call' : CloseCall) :
    ({ { s with disk := d }.setCall i call with disk := d' } : CloseSystem).setCall i call' =
      { s with disk := d' }.setCall i call' := by
  simp [setCall]

def setReader (s : CloseSystem) (j : ℕ) (r : ArchiveReader) : CloseSystem :=
  { s with readers := Function.update s.readers j (some r) }

end CloseSystem

section Steps

variable (zl : OpenZL) (targets : Set Path)

/-- A step of the write handles' closes and of the readers of their targets. -/
inductive CloseStep : CloseSystem → CloseSystem → Prop where
  | start {s : CloseSystem} {i : ℕ} {h : OpenzlFileHandle} {buffer : Bytes}
      (target : h.realPath ∈ targets) (idle : s.calls i = none)
      (buffered : h.writeBuffer = some buffer) (open_ : h.closed = false) :
      CloseStep s (s.setCall i ⟨h, buffer, .compressing false⟩)
  | move {s : CloseSystem} {i : ℕ} {call : CloseCall} {disk : Disk Path UInt8} {phase : ClosePhase}
      (running : s.calls i = some call) (move : CloseMove zl call s.disk disk phase) :
      CloseStep s ({ s with disk := disk }.setCall i { call with phase := phase })
  | openReader {s : CloseSystem} {j : ℕ} {path : Path} {file : FileId Path}
      (target : path ∈ targets) (idle : s.readers j = none)
      (found : s.disk.names path = some file) : CloseStep s (s.setReader j ⟨path, file, []⟩)
  | read {s : CloseSystem} {j : ℕ} {r : ArchiveReader} (n : ℕ) (reading : s.readers j = some r) :
      CloseStep s (s.setReader j
        { r with seen := r.seen ++ slice (s.disk.contents r.file) r.seen.length n })

end Steps

/-! ## What one move can do -/

section Moves

variable {zl : OpenZL} {call : CloseCall} {d d' : Disk Path UInt8} {phase : ClosePhase}
  {generic : Bool} {e : Error} {file : FileId Path}

theorem CloseCall.failed_cases (call : CloseCall) (generic : Bool) (e : Error) :
    call.failed generic e = .removing (call.handle.cannotWrite e) ∨
      call.failed generic e = .compressing true := by
  unfold failed
  split
  · exact .inl rfl
  · exact .inr rfl

theorem CloseCall.not_holds_failed (generic : Bool) (e : Error) :
    ¬({ call with phase := call.failed generic e } : CloseCall).Holds := by
  rintro (⟨stage, f, hphase⟩ | hphase) <;>
    rcases call.failed_cases generic e with h | h <;> cases h.symm.trans hphase

/-- Without touching the disk a call only goes on with the file it has, or is done with it once
its stream is destroyed. -/
theorem PhaseMove.holds (h : PhaseMove zl call phase)
    (hholds : ({ call with phase := phase } : CloseCall).Holds) :
    ∃ stage f, call.phase = .streaming stage f ∧
      ((∃ stage', phase = .streaming stage' f) ∨ phase = .moving ∧ stage = .flushing) := by
  cases h with
  | rejected _ _ => exact absurd hholds (CloseCall.not_holds_failed _ _)
  | cannotOpen _ _ => exact absurd hholds (CloseCall.not_holds_failed _ _)
  | unwound _ => exact absurd hholds (CloseCall.not_holds_failed _ _)
  | wrote writing => exact ⟨_, _, writing, .inl ⟨_, rfl⟩⟩
  | errorWriting writing => exact ⟨_, _, writing, .inl ⟨_, rfl⟩⟩
  | destroyed flushing => exact ⟨_, _, flushing, .inr ⟨rfl, rfl⟩⟩
  | notMoved moving =>
      rcases hholds with ⟨stage, f, hphase⟩ | hphase <;> cases hphase
  | notRemoved removing =>
      rcases hholds with ⟨stage, f, hphase⟩ | hphase <;> cases hphase

theorem PhaseMove.writes (h : PhaseMove zl call phase)
    (hwrites : ({ call with phase := phase } : CloseCall).Writes file) : call.Writes file := by
  obtain ⟨stage, f, hphase, hnext⟩ := h.holds hwrites.holds
  obtain ⟨stage', f', hphase', rfl⟩ := hwrites
  rcases hnext with ⟨stage'', hnext⟩ | ⟨hnext, -⟩
  · obtain ⟨-, rfl⟩ := ClosePhase.streaming.inj (hphase'.symm.trans hnext)
    exact ⟨stage, _, hphase, rfl⟩
  · cases hphase'.symm.trans hnext

namespace CloseMove

theorem distinct (h : CloseMove zl call d d' phase) (hd : d.Distinct) : d'.Distinct := by
  cases h with
  | phase move => exact hd
  | openTrunc compressing compressed => exact hd.openTrunc _
  | store streaming some => exact ⟨hd.unique, hd.created⟩
  | moved moving present => exact hd.rename _ _
  | removed removing => exact hd.remove _

theorem known (h : CloseMove zl call d d' phase) (hfile : d.Known file) : d'.Known file := by
  cases h with
  | phase move => exact hfile
  | openTrunc compressing compressed => exact hfile.openTrunc _
  | store streaming some => exact hfile
  | moved moving present => exact hfile
  | removed removing => exact hfile

/-- The file opened is the one behind the temporary name, if there was one. -/
theorem writes (h : CloseMove zl call d d' phase)
    (hwrites : ({ call with phase := phase } : CloseCall).Writes file) :
    call.Writes file ∨ ¬call.Holds ∧ (d.Known file → d.names call.tmpPath = some file) := by
  cases h with
  | phase move => exact .inl (move.writes hwrites)
  | openTrunc compressing compressed =>
      obtain ⟨stage, f, hphase, rfl⟩ := hwrites
      obtain ⟨-, rfl⟩ := ClosePhase.streaming.inj hphase
      refine .inr ⟨?_, Disk.names_of_openTrunc⟩
      rintro (⟨stage, f, hphase⟩ | hphase) <;> cases compressing.symm.trans hphase
  | store streaming some =>
      obtain ⟨stage, f, hphase, rfl⟩ := hwrites
      obtain ⟨-, rfl⟩ := ClosePhase.streaming.inj hphase
      exact .inl ⟨_, _, streaming, rfl⟩
  | moved moving present =>
      obtain ⟨stage, f, hphase, -⟩ := hwrites
      cases hphase
  | removed removing =>
      obtain ⟨stage, f, hphase, -⟩ := hwrites
      cases hphase

theorem contents (h : CloseMove zl call d d' phase) (hbefore : ¬call.Writes file)
    (hafter : ¬({ call with phase := phase } : CloseCall).Writes file) :
    d'.contents file = d.contents file := by
  cases h with
  | phase move => rfl
  | openTrunc compressing compressed =>
      apply Disk.contents_openTrunc_of_ne
      rintro rfl
      exact hafter ⟨_, _, rfl, rfl⟩
  | store streaming some =>
      apply Disk.contents_writeAt_of_ne
      rintro rfl
      exact hbefore ⟨_, _, streaming, rfl⟩
  | moved moving present => rfl
  | removed removing => rfl

/-- A name leads where it led before, unless the file was opened or moved there. -/
theorem names {name : Path} (h : CloseMove zl call d d' phase) (hname : d'.names name = some file) :
    d.names name = some file ∨
      name = call.tmpPath ∧ ({ call with phase := phase } : CloseCall).Writes file ∨
      name = call.handle.realPath ∧ d.names call.tmpPath = some file ∧ call.phase = .moving ∧
        phase = .done (.ok ()) := by
  cases h with
  | phase move => exact .inl hname
  | openTrunc compressing compressed =>
      rcases eq_or_ne name call.tmpPath with rfl | hne
      · rw [Disk.names_openTrunc_self] at hname
        exact .inr (.inl ⟨rfl, _, _, rfl, Option.some.inj hname⟩)
      · rw [Disk.names_openTrunc_of_ne hne] at hname
        exact .inl hname
  | store streaming some => exact .inl hname
  | moved moving present =>
      rcases Disk.names_of_rename hname with ⟨rfl, htmp⟩ | ⟨-, hsame⟩
      · exact .inr (.inr ⟨rfl, htmp, moving, rfl⟩)
      · exact .inl hsame
  | removed removing => exact .inl (Disk.names_of_remove hname).2

theorem not_done (h : CloseMove zl call d d' phase) (result : Except Exception Unit) :
    call.phase ≠ .done result := by
  intro hdone
  cases h with
  | phase move =>
      cases move with
      | rejected before _ => cases hdone.symm.trans before
      | cannotOpen before _ => cases hdone.symm.trans before
      | wrote before => cases hdone.symm.trans before
      | errorWriting before => cases hdone.symm.trans before
      | destroyed before => cases hdone.symm.trans before
      | unwound before => cases hdone.symm.trans before
      | notMoved before => cases hdone.symm.trans before
      | notRemoved before => cases hdone.symm.trans before
  | openTrunc before _ => cases hdone.symm.trans before
  | store before _ => cases hdone.symm.trans before
  | moved before _ => cases hdone.symm.trans before
  | removed before => cases hdone.symm.trans before

end CloseMove

end Moves

/-! ## A call that nothing interrupts -/

section Alone

/-- The disk holds the files of the world, each under one name. -/
structure Agrees (d : Disk Path UInt8) (w : World) : Prop where
  distinct : d.Distinct
  content : ∀ path, d.content path = w.content path

namespace Agrees

variable {d : Disk Path UInt8} {w w' : World} {path : Path} {file : FileId Path}

theorem congr (h : Agrees d w) (hw : ∀ path, w'.content path = w.content path) : Agrees d w' :=
  ⟨h.distinct, fun path ↦ (h.content path).trans (hw path).symm⟩

theorem openTrunc (h : Agrees d w) (path : Path) :
    Agrees (d.openTrunc path).2 (w.put path []) := by
  refine ⟨h.distinct.openTrunc path, fun other ↦ ?_⟩
  rcases eq_or_ne other path with rfl | hne
  · rw [World.content_put_self, Disk.content, Disk.names_openTrunc_self, Option.map_some,
      Disk.contents_openTrunc_self]
  · rw [World.content_put_of_ne _ _ hne, ← h.content other, Disk.content, Disk.content,
      Disk.names_openTrunc_of_ne hne]
    cases hname : d.names other with
    | none => rfl
    | some file =>
        have hother : file ≠ (d.openTrunc path).1 := by
          rintro rfl
          exact hne (h.distinct.unique _ _ _ hname
            (Disk.names_of_openTrunc (h.distinct.known hname)))
        rw [Option.map_some, Option.map_some, Disk.contents_openTrunc_of_ne hother]

theorem writeAt (h : Agrees d w) (hname : d.names path = some file) (items : Bytes) :
    Agrees (d.writeAt file (d.contents file).length items) (w.store path items) := by
  refine ⟨⟨h.distinct.unique, h.distinct.created⟩, fun other ↦ ?_⟩
  rcases eq_or_ne other path with rfl | hne
  · have hbefore : w.content other = some (d.contents file) := by
      rw [← h.content, Disk.content, hname, Option.map_some]
    rw [Disk.content_writeAt_self hname rfl, apply_write_length, World.content_store_self, hbefore,
      Option.getD_some]
  · rw [World.content_store_of_ne _ _ hne, ← h.content]
    exact Disk.content_writeAt_of_ne fun hother ↦ hne (h.distinct.unique _ _ _ hother hname)

theorem remove (h : Agrees d w) (path : Path) : Agrees (d.remove path) (w.remove path) := by
  refine ⟨h.distinct.remove path, fun other ↦ ?_⟩
  rcases eq_or_ne other path with rfl | hne
  · simp [Disk.content, Disk.remove]
  · rw [World.content_remove_of_ne _ hne, ← h.content]
    simp [Disk.content, Disk.remove, hne]

theorem rename {target : Path} (h : Agrees d w) (hne : path ≠ target)
    (hmoved : (w.rename path target).1 = true) :
    Agrees (d.rename path target) (w.rename path target).2 := by
  refine ⟨h.distinct.rename _ _, fun other ↦ ?_⟩
  rcases eq_or_ne other target with rfl | htarget
  · rw [World.content_rename hmoved, ← h.content, Disk.content, Disk.names_rename_target]
    rfl
  · unfold World.rename at hmoved ⊢
    split at hmoved
    · rename_i hok
      rw [if_pos hok]
      rcases eq_or_ne other path with rfl | hsource
      · simp [Disk.content, Disk.rename, World.content, htarget]
      · have hsame := h.content other
        simp only [Disk.content, World.content] at hsame
        simp [Disk.content, Disk.rename, World.content, htarget, hsource, hsame]
    · cases hmoved

end Agrees

variable {zl : OpenZL} {targets : Set Path} {call : CloseCall} {d d' : Disk Path UInt8}
  {phase phase' : ClosePhase} {w w' : World}

/-- A call alone with the disk. -/
def CallRun (zl : OpenZL) (call : CloseCall) :
    Disk Path UInt8 × ClosePhase → Disk Path UInt8 × ClosePhase → Prop :=
  ReflTransGen fun x y ↦ CloseMove zl { call with phase := x.2 } x.1 y.1 y.2

theorem CallRun.lift (targets : Set Path) {s : CloseSystem} {i : ℕ}
    (hrunning : s.calls i = some call)
    (hrun : CallRun zl call (s.disk, call.phase) (d', phase')) :
    ReflTransGen (CloseStep zl targets) s
      ({ s with disk := d' }.setCall i { call with phase := phase' }) := by
  generalize hx : (d', phase') = x at hrun
  induction hrun generalizing d' phase' with
  | refl =>
      obtain ⟨rfl, rfl⟩ := Prod.mk.inj hx
      have hsame : Function.update s.calls i (some call) = s.calls := by
        rw [← hrunning, Function.update_eq_self]
      rw [CloseSystem.setCall, hsame]
  | @tail x y _ hstep ih =>
      subst hx
      have hself : ({ s with disk := x.1 }.setCall i { call with phase := x.2 }).calls i =
          some { call with phase := x.2 } := Function.update_self ..
      have hmove : CloseStep zl targets _ _ := .move hself hstep
      rw [CloseSystem.setCall_setCall] at hmove
      exact (ih rfl).tail hmove

theorem CallRun.store (zl : OpenZL) (stage : WriteStage) (f : WriteStream) (h : Agrees d w)
    (hname : d.names call.tmpPath = some f.file) (hlength : (d.contents f.file).length = f.stored)
    (n : ℕ) : ∃ d', CallRun zl call (d, .streaming stage f) (d', .streaming stage (f.advance n)) ∧
      Agrees d' (w.store call.tmpPath (f.portion n)) ∧
      d'.names call.tmpPath = some f.file ∧ (d'.contents f.file).length = (f.advance n).stored := by
  have happended := h.writeAt hname (f.portion n)
  rw [hlength] at happended
  by_cases hnil : f.portion n = []
  · have hsame : f.advance n = f := by simp [WriteStream.advance, hnil]
    refine ⟨d, ?_, h.congr fun path ↦ ?_, hname, ?_⟩
    · rw [hsame]
      exact .refl
    swap
    · rw [hsame]
      exact hlength
    have hpresent : w.content call.tmpPath = some (d.contents f.file) := by
      rw [← h.content, Disk.content, hname, Option.map_some]
    rcases eq_or_ne path call.tmpPath with rfl | hne
    · simp [hnil, hpresent]
    · exact World.content_store_of_ne _ _ hne
  · refine ⟨d.writeAt f.file f.stored (f.portion n), .single (.store rfl hnil),
      happended, hname, ?_⟩
    rw [Disk.contents_writeAt_self, ← hlength, apply_write_length, List.length_append,
      hlength]
    rfl

theorem content_destroy_eq (f : OFStream) (hopen : f.isOpen = true) (w : World) :
    ∃ m, (f.destroy w).content = (w.store f.path (f.pending.take m)).content := by
  unfold OFStream.destroy
  rw [if_pos hopen]
  dsimp only
  split
  · exact ⟨f.pending.length, by rw [List.take_length]; rfl⟩
  · exact ⟨_, rfl⟩

/-- What a `WriteFile` writes before the destructor and in it, and what it reports. -/
theorem writeFile_cases (path : Path) (frame : Bytes) (w : World) :
    (∃ t, writeFile path frame w =
        .error ⟨"openzl_bridge: could not open file for writing: " ++ path⟩ t ∧
          t.content = w.content) ∨
      ∃ n m t, t.content = (((w.put path []).store path (slice frame 0 n)).store path
          (slice frame (slice frame 0 n).length m)).content ∧
        (writeFile path frame w = .ok () t ∨
          writeFile path frame w = .error ⟨"openzl_bridge: error writing file: " ++ path⟩ t) := by
  unfold writeFile
  by_cases hopen : w.script.onOpen w.calls = true
  · right
    rw [openTrunc_eq_of_ok path hopen]
    have hwrite : ∃ n good, ({ path := path, isOpen := true } : OFStream).write frame
        (w.tick.put path []) = (⟨path, true, good, frame.drop n⟩,
          (w.tick.put path []).tick.store path (frame.take n)) := ⟨_, _, rfl⟩
    obtain ⟨n, good, hwrite⟩ := hwrite
    obtain ⟨m, hdestroy⟩ := content_destroy_eq ⟨path, true, good, frame.drop n⟩ rfl
      ((w.tick.put path []).tick.store path (frame.take n))
    have hrest : (frame.drop n).take m = slice frame (slice frame 0 n).length m := by
      rw [length_slice, Nat.sub_zero, slice]
      rcases le_total n frame.length with hle | hle
      · rw [min_eq_left hle]
      · rw [min_eq_right hle, List.drop_length, List.drop_eq_nil_of_le hle]
    rw [hrest] at hdestroy
    dsimp only
    rw [hwrite]
    refine ⟨n, m, _, hdestroy, ?_⟩
    cases good
    · exact .inr rfl
    · exact .inl rfl
  · left
    rw [openTrunc_eq_of_fail path (by simpa using hopen)]
    exact ⟨_, rfl, rfl⟩

/-- Alone, the call gets to this phase, and the disk to these files. -/
def CallRun.Ends (zl : OpenZL) (call : CloseCall) (x : Disk Path UInt8 × ClosePhase) (w : World)
    (phase : ClosePhase) : Prop :=
  ∃ d, CallRun zl call x (d, phase) ∧ Agrees d w

theorem CallRun.writeFile {generic : Bool} {frame : Bytes} (h : Agrees d w)
    (hframe : call.compress zl generic = .ok frame) :
    (∀ t, DuckdbOpenzl.writeFile call.tmpPath frame w = .ok () t →
      CallRun.Ends zl call (d, .compressing generic) t .moving) ∧
    ∀ e t, DuckdbOpenzl.writeFile call.tmpPath frame w = .error e t →
      CallRun.Ends zl call (d, .compressing generic) t (call.failed generic e) := by
  rcases writeFile_cases call.tmpPath frame w with
    ⟨u, hfail, hcontent⟩ | ⟨n, m, u, hcontent, hresult⟩
  · rw [hfail]
    refine ⟨nofun, ?_⟩
    intro e t ht
    obtain ⟨rfl, rfl⟩ := EStateM.Result.error.inj ht
    have hmove : PhaseMove zl { call with phase := .compressing generic } _ :=
      .cannotOpen rfl hframe
    exact ⟨d, .single (.phase hmove), h.congr fun path ↦ congrFun hcontent path⟩
  · have hopen : CallRun zl call (d, .compressing generic) ((d.openTrunc call.tmpPath).2,
        .streaming (.writing generic) ⟨(d.openTrunc call.tmpPath).1, frame, 0⟩) :=
      .single (.openTrunc rfl hframe)
    have hlength :
        ((d.openTrunc call.tmpPath).2.contents (d.openTrunc call.tmpPath).1).length = 0 := by
      rw [Disk.contents_openTrunc_self, List.length_nil]
    obtain ⟨d₁, hfirst, hagrees₁, hname₁, hlength₁⟩ := CallRun.store zl (.writing generic)
      ⟨(d.openTrunc call.tmpPath).1, frame, 0⟩ (h.openTrunc call.tmpPath)
      (Disk.names_openTrunc_self d _) hlength n
    have hwritten := hopen.trans hfirst
    let f₁ : WriteStream := ⟨(d.openTrunc call.tmpPath).1, frame, (slice frame 0 n).length⟩
    have hadvance : (⟨(d.openTrunc call.tmpPath).1, frame, 0⟩ : WriteStream).advance n = f₁ := by
      simp [WriteStream.advance, WriteStream.portion, f₁]
    rw [hadvance] at hwritten hlength₁
    have hstore : ∀ stage, ∃ d₂, CallRun zl call (d₁, .streaming stage f₁)
        (d₂, .streaming stage (f₁.advance m)) ∧ Agrees d₂ u := by
      intro stage
      obtain ⟨d₂, hsecond, hagrees₂, -⟩ := CallRun.store zl stage f₁ hagrees₁ hname₁ hlength₁ m
      exact ⟨d₂, hsecond, hagrees₂.congr fun path ↦ congrFun hcontent path⟩
    constructor
    · intro t ht
      obtain rfl : u = t := by
        rcases hresult with hok | hfail
        · exact (EStateM.Result.ok.inj (hok.symm.trans ht)).2
        · cases hfail.symm.trans ht
      obtain ⟨d₂, hsecond, hagrees₂⟩ := hstore .flushing
      have hwrote : CallRun zl call (d, .compressing generic) (d₁, .streaming .flushing f₁) :=
        hwritten.tail (.phase (@PhaseMove.wrote zl _ generic _ rfl))
      exact ⟨d₂, (hwrote.trans hsecond).tail (.phase (.destroyed rfl)), hagrees₂⟩
    · intro e t ht
      obtain ⟨rfl, rfl⟩ : ⟨"openzl_bridge: error writing file: " ++ call.tmpPath⟩ = e ∧ u = t := by
        rcases hresult with hok | hfail
        · cases hok.symm.trans ht
        · exact EStateM.Result.error.inj (hfail.symm.trans ht)
      obtain ⟨d₂, hsecond, hagrees₂⟩ := hstore (.unwinding generic)
      have hfailed : CallRun zl call (d, .compressing generic)
          (d₁, .streaming (.unwinding generic) f₁) :=
        hwritten.tail (.phase (@PhaseMove.errorWriting zl _ generic _ rfl))
      exact ⟨d₂, (hfailed.trans hsecond).tail (.phase (.unwound rfl)), hagrees₂⟩

theorem CallRun.attempt (zl : OpenZL) (call : CloseCall) (generic : Bool) (h : Agrees d w) :
    (∀ t, compressParquetBytes zl call.buffer call.tmpPath ""
        call.handle.writeSettings.compressionLevel call.handle.writeSettings.maxCompressBytes
        (call.graph generic) w = .ok () t →
      CallRun.Ends zl call (d, .compressing generic) t .moving) ∧
    ∀ e t, compressParquetBytes zl call.buffer call.tmpPath ""
        call.handle.writeSettings.compressionLevel call.handle.writeSettings.maxCompressBytes
        (call.graph generic) w = .error e t →
      CallRun.Ends zl call (d, .compressing generic) t (call.failed generic e) := by
  have hrun : compressParquetBytes zl call.buffer call.tmpPath ""
      call.handle.writeSettings.compressionLevel call.handle.writeSettings.maxCompressBytes
      (call.graph generic) w = (MonadExcept.ofExcept (call.compress zl generic) >>= fun frame ↦
        DuckdbOpenzl.writeFile call.tmpPath frame : BridgeM Unit) w := rfl
  rw [hrun]
  cases hcompress : call.compress zl generic with
  | ok frame => exact CallRun.writeFile h hcompress
  | error e =>
      refine ⟨fun t ht ↦ (by cases ht), ?_⟩
      intro e' t ht
      obtain ⟨rfl, rfl⟩ := EStateM.Result.error.inj ht
      exact ⟨d, .single (.phase (.rejected rfl hcompress)), h⟩

/-- Both attempts, and what is left behind when they fail. -/
theorem CallRun.compressForClose (zl : OpenZL) (call : CloseCall) (h : Agrees d w) :
    (∀ t, OpenzlFileHandle.compressForClose zl call.buffer call.tmpPath
        call.handle.writeSettings w = .ok () t →
          CallRun.Ends zl call (d, .compressing false) t .moving) ∧
    ∀ e t, OpenzlFileHandle.compressForClose zl call.buffer call.tmpPath
        call.handle.writeSettings w = .error e t → CallRun.Ends zl call (d, .compressing false) t
          (.removing (call.handle.cannotWrite e)) := by
  obtain ⟨hok, herror⟩ := CallRun.attempt zl call false h
  unfold OpenzlFileHandle.compressForClose
  cases hfirst : compressParquetBytes zl call.buffer call.tmpPath ""
      call.handle.writeSettings.compressionLevel call.handle.writeSettings.maxCompressBytes
      call.handle.writeSettings.graph w with
  | ok u t =>
      refine ⟨?_, nofun⟩
      intro t' ht
      obtain ⟨-, rfl⟩ := EStateM.Result.ok.inj ht
      exact hok t hfirst
  | error e t =>
      obtain ⟨d₁, hrun, hagrees⟩ := herror e t hfirst
      dsimp only
      by_cases hlast : call.handle.writeSettings.graph.profile = "serial" ∨
          call.buffer.length > OpenzlFileHandle.kSmallFallbackBytes
      · rw [if_pos hlast]
        refine ⟨nofun, ?_⟩
        intro e' t' ht
        obtain ⟨rfl, rfl⟩ := EStateM.Result.error.inj ht
        have hfailed : call.failed false e = .removing (call.handle.cannotWrite e) :=
          if_pos (.inr hlast)
        rw [hfailed] at hrun
        exact ⟨d₁, hrun, hagrees⟩
      · rw [if_neg hlast]
        have hretry : call.failed false e = .compressing true := by
          rw [CloseCall.failed, if_neg]
          rintro (hgeneric | hlast')
          · cases hgeneric
          · exact hlast hlast'
        rw [hretry] at hrun
        obtain ⟨hok', herror'⟩ := CallRun.attempt zl call true hagrees
        constructor
        · intro t' ht
          obtain ⟨d₂, hrun', hagrees'⟩ := hok' t' ht
          exact ⟨d₂, hrun.trans hrun', hagrees'⟩
        · intro e' t' ht
          obtain ⟨d₂, hrun', hagrees'⟩ := herror' e' t' ht
          have hfailed : call.failed true e' = .removing (call.handle.cannotWrite e') :=
            if_pos (.inl rfl)
          rw [hfailed] at hrun'
          exact ⟨d₂, hrun.trans hrun', hagrees'⟩

theorem CallRun.close (zl : OpenZL) (w' : World) (h' : OpenzlFileHandle) {h : OpenzlFileHandle}
    {buffer : Bytes} (hagrees : Agrees d w) (hbuffer : h.writeBuffer = some buffer)
    (hopen : h.closed = false) :
    (OpenzlFileHandle.close zl (w, h) = .ok () (w', h') →
      CallRun.Ends zl ⟨h, buffer, .compressing false⟩ (d, .compressing false) w' (.done (.ok ()))) ∧
    ∀ e, OpenzlFileHandle.close zl (w, h) = .error e (w', h') →
      CallRun.Ends zl ⟨h, buffer, .compressing false⟩ (d, .compressing false) w'
        (.done (.error e)) := by
  obtain ⟨hok, herror⟩ := CallRun.compressForClose zl ⟨h, buffer, .compressing false⟩ hagrees
  unfold OpenzlFileHandle.close
  simp only [hbuffer, hopen, Bool.false_eq_true, if_false]
  split
  · rename_i e t hcompress
    obtain ⟨d₁, hrun, hagrees₁⟩ := herror e t hcompress
    refine ⟨fun hresult ↦ (by cases hresult), ?_⟩
    intro e' he
    obtain ⟨rfl, hstate⟩ := EStateM.Result.error.inj he
    obtain ⟨rfl, -⟩ := Prod.mk.inj hstate
    exact ⟨_, hrun.tail (.removed rfl), hagrees₁.remove _⟩
  · rename_i t hcompress
    obtain ⟨d₁, hrun, hagrees₁⟩ := hok t hcompress
    by_cases hmoved : (t.rename h.tmpPath h.realPath).1 = true
    · rw [if_pos hmoved]
      refine ⟨?_, fun e he ↦ by cases he⟩
      intro hresult
      obtain ⟨rfl, -⟩ := Prod.mk.inj (EStateM.Result.ok.inj hresult).2
      have hrenamed := hagrees₁.rename (tmpPath_ne h) hmoved
      refine ⟨_, hrun.tail (.moved rfl ?_), hrenamed⟩
      have hsource : (t.content h.tmpPath).isSome := by
        unfold World.rename at hmoved
        split at hmoved
        · rename_i hpresent
          rw [World.content, Option.isSome_map]
          exact (Bool.and_eq_true_iff.mp hpresent).2
        · cases hmoved
      rw [← hagrees₁.content, Disk.content, Option.isSome_map] at hsource
      exact hsource
    · rw [if_neg hmoved]
      refine ⟨fun hresult ↦ (by cases hresult), ?_⟩
      intro e' he
      obtain ⟨rfl, hstate⟩ := EStateM.Result.error.inj he
      obtain ⟨rfl, -⟩ := Prod.mk.inj hstate
      have hsame : (t.rename h.tmpPath h.realPath).2 = t.tick := by
        unfold World.rename at hmoved ⊢
        split at hmoved
        · exact absurd rfl hmoved
        · rename_i hfail
          rw [if_neg hfail]
      have hticked : Agrees d₁ t.tick := hagrees₁.congr fun _ ↦ rfl
      rw [hsame]
      have hnot : CallRun zl ⟨h, buffer, .compressing false⟩ (d, .compressing false)
          (d₁, .removing (CloseCall.cannotMove ⟨h, buffer, .moving⟩)) :=
        hrun.tail (.phase (.notMoved rfl))
      exact ⟨_, hnot.tail (.removed rfl), hticked.remove _⟩

/-- The steps of a `Close` that nothing interrupts leave the files that `close` leaves, and end in
the result it returns. -/
theorem run_close {s : CloseSystem} {i : ℕ} {h h' : OpenzlFileHandle} {buffer : Bytes}
    (hagrees : Agrees s.disk w) (hidle : s.calls i = none) (htarget : h.realPath ∈ targets)
    (hbuffer : h.writeBuffer = some buffer) (hopen : h.closed = false) :
    (OpenzlFileHandle.close zl (w, h) = .ok () (w', h') → ∃ d, Agrees d w' ∧
      ReflTransGen (CloseStep zl targets) s
        ({ s with disk := d }.setCall i ⟨h, buffer, .done (.ok ())⟩)) ∧
    ∀ e, OpenzlFileHandle.close zl (w, h) = .error e (w', h') → ∃ d, Agrees d w' ∧
      ReflTransGen (CloseStep zl targets) s
        ({ s with disk := d }.setCall i ⟨h, buffer, .done (.error e)⟩) := by
  obtain ⟨hok, herror⟩ := CallRun.close zl w' h' hagrees hbuffer hopen
  have hstart : CloseStep zl targets s (s.setCall i ⟨h, buffer, .compressing false⟩) :=
    .start htarget hidle hbuffer hopen
  have hself : (s.setCall i ⟨h, buffer, .compressing false⟩).calls i =
      some ⟨h, buffer, .compressing false⟩ := Function.update_self ..
  constructor
  · intro hresult
    obtain ⟨d, hrun, hd⟩ := hok hresult
    have hlifted := (CallRun.lift targets hself hrun).head hstart
    rw [CloseSystem.setCall_setCall] at hlifted
    exact ⟨d, hd, hlifted⟩
  · intro e hresult
    obtain ⟨d, hrun, hd⟩ := herror e hresult
    have hlifted := (CallRun.lift targets hself hrun).head hstart
    rw [CloseSystem.setCall_setCall] at hlifted
    exact ⟨d, hd, hlifted⟩

end Alone

end DuckdbOpenzl
