import DuckdbOpenzl.Copy.ChunkFiles

/-!
# What a COPY touches

Every call of a COPY keeps to its destination, its staging file, its own buffer
and the free ones; the rest of the disk and of the registry stays as it is. So
what a COPY has staged and appended survives the moves of another one whose
destination is elsewhere.
-/

set_option autoImplicit false

namespace DuckdbOpenzl

open ExceptionState

variable {P : ParquetCopyFunction} {zl : OpenZL} {bind : OpenzlCopyBindData}
  {path tmp : Path} {p p' : CopyProcess}

/-! ## What a COPY leaves alone -/

/-- From `p` to `p'` a COPY with this destination and this staging target has moved. -/
structure Leaves (bind : OpenzlCopyBindData) (path tmp : Path) (p p' : CopyProcess) : Prop where
  files : ∀ other, other ≠ path → other ≠ stagingFile path →
    p'.world.files other = p.world.files other
  script : p'.world.script = p.world.script
  counter : p.counter ≤ p'.counter
  buffers : ∀ k < p.counter, (bind.inMemory = true → tmp ≠ bufferPath k) →
    p'.buffers (bufferPath k) = p.buffers (bufferPath k)
  fresh : (∀ k, p.counter ≤ k → p.buffers (bufferPath k) = none) →
    ∀ k, p'.counter ≤ k → p'.buffers (bufferPath k) = none

/-- The writers of a COPY are at work on its destination. -/
structure WritesTo (path : Path) (s : CopyState P) : Prop where
  finalZlPath : s.gstate.finalZlPath = path
  archivePath : s.gstate.archive.path = path
  outPath : s.gstate.archive.out.path = path

/-- The staging target is one of the buffers handed out, or the file next to the destination. -/
structure StagesAt (bind : OpenzlCopyBindData) (path : Path) (s : CopyState P) : Prop where
  memory : bind.inMemory = true → ∃ k < s.process.counter, s.gstate.tmpParquetPath = bufferPath k
  disk : bind.inMemory = false → s.gstate.tmpParquetPath = stagingFile path

/-- A call keeps to what is the COPY's own. -/
structure Contained (bind : OpenzlCopyBindData) (path : Path) (s s' : CopyState P) : Prop
    extends WritesTo path s' where
  leaves : Leaves bind path s.gstate.tmpParquetPath s.process s'.process
  target : bind.inMemory = true → s'.gstate.tmpParquetPath = s.gstate.tmpParquetPath ∨
    (s'.gstate.tmpParquetPath = bufferPath s.process.counter ∧
      s.process.counter < s'.process.counter)

namespace Leaves

theorem refl (bind : OpenzlCopyBindData) (path tmp : Path) (p : CopyProcess) :
    Leaves bind path tmp p p :=
  ⟨fun _ _ _ ↦ rfl, rfl, le_rfl, fun _ _ _ ↦ rfl, fun h ↦ h⟩

theorem called (bind : OpenzlCopyBindData) (path tmp : Path) (p : CopyProcess) :
    Leaves bind path tmp p p.called :=
  ⟨fun _ _ _ ↦ rfl, rfl, le_rfl, fun _ _ _ ↦ rfl, fun h ↦ h⟩

/-- Only the disk has changed, at the destination or the staging file. -/
theorem of_world {w : World} (htouches : p.world.OnlyTouches path w ∨
      p.world.OnlyTouches (stagingFile path) w) (n m : ℕ) :
    Leaves bind path tmp p { p with world := w, fallbackChunks := n, hostCalls := m } where
  files := by
    intro other hpath hstaging
    rcases htouches with h | h
    · exact h.files other hpath
    · exact h.files other hstaging
  script := htouches.elim (fun h ↦ h.script) (fun h ↦ h.script)
  counter := le_rfl
  buffers := fun _ _ _ ↦ rfl
  fresh := fun h ↦ h

/-- Only the COPY's own buffer has changed. -/
theorem of_buffer {k : ℕ} (hk : k < p.counter) (hmode : bind.inMemory = true)
    (htmp : tmp = bufferPath k) (content : Option Bytes) (n m : ℕ) :
    Leaves bind path tmp p { p with
      buffers := Function.update p.buffers tmp content, fallbackChunks := n, hostCalls := m } where
  files := fun _ _ _ ↦ rfl
  script := rfl
  counter := le_rfl
  buffers := by
    intro j _ hother
    exact Function.update_of_ne (hother hmode).symm ..
  fresh := by
    intro hfresh j hj
    have hne : bufferPath j ≠ tmp := by
      rw [htmp]
      exact bufferPath_ne (hk.trans_le hj).ne'
    exact (Function.update_of_ne hne ..).trans (hfresh j hj)

end Leaves

/-! ## The calls of a COPY keep to what is its own -/

namespace Contained

variable {s s' : CopyState P}

/-- Nothing has changed but the states of the parquet writer. -/
theorem of_process (hs : WritesTo path s) (hleaves : Leaves bind path s.gstate.tmpParquetPath
      s.process s'.process) (hfinal : s'.gstate.finalZlPath = s.gstate.finalZlPath)
    (harchive : s'.gstate.archive = s.gstate.archive)
    (htmp : s'.gstate.tmpParquetPath = s.gstate.tmpParquetPath) : Contained bind path s s' where
  finalZlPath := hfinal.trans hs.finalZlPath
  archivePath := by rw [harchive, hs.archivePath]
  outPath := by rw [harchive, hs.outPath]
  leaves := hleaves
  target := fun _ ↦ .inl htmp

theorem refl (hs : WritesTo path s) : Contained bind path s s :=
  of_process hs (.refl ..) rfl rfl rfl

theorem leaves_wrote (hstages : StagesAt bind path s) (bytes : Bytes) :
    Leaves bind path s.gstate.tmpParquetPath s.process (s.wrote bind bytes).process := by
  cases hmode : bind.inMemory with
  | true =>
      obtain ⟨k, hk, htmp⟩ := hstages.memory hmode
      simp only [CopyState.wrote, CopyProcess.appendTarget, CopyProcess.called, hmode, if_true]
      exact .of_buffer hk hmode htmp _ _ _
  | false =>
      simp only [CopyState.wrote, CopyProcess.appendTarget, CopyProcess.called, hmode,
        Bool.false_eq_true, if_false]
      apply Leaves.of_world
      rw [hstages.disk hmode]
      exact .inr (.store _ _ _)

/-- What a call on the parquet writer leaves is what it found, or what it wrote to. -/
theorem callHost_cases {α : Type} (bind : OpenzlCopyBindData) (step : HostStep)
    (f : ℕ → P.GlobalState → HostOutcome α) (s : CopyState P) :
    stateAfter (callHost bind step f) s = s ∨
      ∃ bytes, stateAfter (callHost bind step f) s = s.wrote bind bytes := by
  cases hg : s.gstate.parquetGlobalState with
  | none =>
      left
      unfold stateAfter callHost
      simp only [hg]
  | some g =>
      right
      refine ⟨(f s.process.hostCalls g).written, ?_⟩
      rw [stateAfter, callHost_eq hg]
      cases (f s.process.hostCalls g).result <;> rfl

theorem callHost {α : Type} {step : HostStep} {f : ℕ → P.GlobalState → HostOutcome α}
    (hs : WritesTo path s) (hstages : StagesAt bind path s) :
    Contained bind path s (stateAfter (DuckdbOpenzl.callHost bind step f) s) := by
  rcases callHost_cases bind step f s with hsame | ⟨bytes, hwrote⟩
  · rw [hsame]
    exact .refl hs
  · rw [hwrote]
    exact of_process hs (leaves_wrote hstages bytes) rfl rfl rfl

/-- A later change of the parquet writer's states shows nowhere else. -/
theorem of_gstate {t : CopyState P} (h : Contained bind path s t)
    (hprocess : s'.process = t.process) (hfinal : s'.gstate.finalZlPath = t.gstate.finalZlPath)
    (harchive : s'.gstate.archive = t.gstate.archive)
    (htmp : s'.gstate.tmpParquetPath = t.gstate.tmpParquetPath) : Contained bind path s s' where
  finalZlPath := hfinal.trans h.finalZlPath
  archivePath := by rw [harchive, h.archivePath]
  outPath := by rw [harchive, h.outPath]
  leaves := by
    rw [hprocess]
    exact h.leaves
  target := by
    rw [hprocess, htmp]
    exact h.target

theorem parquetSink (hs : WritesTo path s) (hstages : StagesAt bind path s)
    (input : List P.Row) :
    Contained bind path s (stateAfter (DuckdbOpenzl.parquetSink bind input) s) := by
  cases hl : s.lstate with
  | none =>
      have hsame : stateAfter (DuckdbOpenzl.parquetSink bind input) s = s := by
        unfold stateAfter DuckdbOpenzl.parquetSink
        simp only [hl]
      rw [hsame]
      exact .refl hs
  | some l =>
      have hcall : Contained bind path s (stateAfter (DuckdbOpenzl.callHost bind .sink
          fun k g ↦ P.sink k input g l) s) := .callHost hs hstages
      unfold stateAfter DuckdbOpenzl.parquetSink
      simp only [hl]
      cases hrun : DuckdbOpenzl.callHost bind .sink (fun k g ↦ P.sink k input g l) s with
      | ok r t =>
          rw [stateAfter_of_ok hrun] at hcall
          exact hcall.of_gstate rfl rfl rfl rfl
      | error e t =>
          rw [stateAfter_of_error hrun] at hcall
          exact hcall

theorem parquetCombine (hs : WritesTo path s) (hstages : StagesAt bind path s) :
    Contained bind path s (stateAfter (DuckdbOpenzl.parquetCombine bind) s) := by
  cases hl : s.lstate with
  | none =>
      have hsame : stateAfter (DuckdbOpenzl.parquetCombine bind) s = s := by
        unfold stateAfter DuckdbOpenzl.parquetCombine
        simp only [hl]
      rw [hsame]
      exact .refl hs
  | some l =>
      have hcall : Contained bind path s (stateAfter (DuckdbOpenzl.callHost bind .combine
          fun k g ↦ P.combine k g l) s) := .callHost hs hstages
      unfold stateAfter DuckdbOpenzl.parquetCombine
      simp only [hl]
      cases hrun : DuckdbOpenzl.callHost bind .combine (fun k g ↦ P.combine k g l) s with
      | ok g t =>
          rw [stateAfter_of_ok hrun] at hcall
          exact hcall.of_gstate rfl rfl rfl rfl
      | error e t =>
          rw [stateAfter_of_error hrun] at hcall
          exact hcall

theorem parquetFinalize (hs : WritesTo path s) (hstages : StagesAt bind path s) :
    Contained bind path s (stateAfter (DuckdbOpenzl.parquetFinalize bind) s) := by
  have hcall : Contained bind path s (stateAfter (DuckdbOpenzl.callHost bind .finalize
      P.finalize) s) := .callHost hs hstages
  unfold stateAfter DuckdbOpenzl.parquetFinalize
  cases hrun : DuckdbOpenzl.callHost bind .finalize P.finalize s with
  | ok u t =>
      rw [stateAfter_of_ok hrun] at hcall
      exact hcall.of_gstate rfl rfl rfl rfl
  | error e t =>
      rw [stateAfter_of_error hrun] at hcall
      exact hcall

theorem openzlCopyInitLocal (hs : WritesTo path s) :
    Contained bind path s (stateAfter DuckdbOpenzl.openzlCopyInitLocal s) := by
  unfold stateAfter DuckdbOpenzl.openzlCopyInitLocal
  cases P.initializeLocal s.process.hostCalls with
  | ok l => exact of_process hs (.called ..) rfl rfl rfl
  | error what => exact of_process hs (.called ..) rfl rfl rfl

/-- The next chunk gets a buffer of its own, or the file next to the destination. -/
theorem openedTarget (hs : WritesTo path s)
    (hfresh : ∀ k, s.process.counter ≤ k → s.process.buffers (bufferPath k) = none)
    (bytes : Bytes) : Contained bind path s ((s.nextTarget bind).openedTarget bind bytes) := by
  cases hmode : bind.inMemory with
  | true =>
      simp only [CopyState.nextTarget, CopyState.openedTarget, CopyProcess.openTarget,
        CopyProcess.appendTarget, CopyProcess.called, hmode, if_true]
      refine ⟨⟨hs.finalZlPath, hs.archivePath, hs.outPath⟩, ⟨fun _ _ _ ↦ rfl, rfl,
        Nat.le_succ _, ?_, ?_⟩, fun _ ↦ .inr ⟨rfl, Nat.lt_succ_self _⟩⟩
      · intro k hk _
        have hne : bufferPath k ≠ bufferPath s.process.counter := bufferPath_ne hk.ne
        exact (Function.update_of_ne hne ..).trans (Function.update_of_ne hne ..)
      · intro _ k hk
        have hne : bufferPath k ≠ bufferPath s.process.counter := bufferPath_ne (Nat.ne_of_gt hk)
        apply (Function.update_of_ne hne ..).trans
        apply (Function.update_of_ne hne ..).trans
        exact hfresh k (Nat.le_of_succ_le hk)
  | false =>
      simp only [CopyState.nextTarget, CopyState.openedTarget, CopyProcess.openTarget,
        CopyProcess.appendTarget, CopyProcess.called, hmode, Bool.false_eq_true, if_false,
        hs.finalZlPath]
      refine ⟨⟨rfl, hs.archivePath, hs.outPath⟩, ?_, fun h ↦ ?_⟩
      · apply Leaves.of_world
        exact .inr ((World.OnlyTouches.put _ _ _).trans (.store _ _ _))
      · rw [hmode] at h
        cases h

theorem nextTarget_called (hs : WritesTo path s)
    (hfresh : ∀ k, s.process.counter ≤ k → s.process.buffers (bufferPath k) = none) :
    Contained bind path s { s.nextTarget bind with
      process := (s.nextTarget bind).process.called } := by
  cases hmode : bind.inMemory with
  | true =>
      simp only [CopyState.nextTarget, CopyProcess.called, hmode, if_true]
      refine ⟨⟨hs.finalZlPath, hs.archivePath, hs.outPath⟩, ⟨fun _ _ _ ↦ rfl, rfl,
        Nat.le_succ _, fun _ _ _ ↦ rfl, ?_⟩, fun _ ↦ .inr ⟨rfl, Nat.lt_succ_self _⟩⟩
      intro _ k hk
      exact hfresh k (Nat.le_of_succ_le hk)
  | false =>
      simp only [CopyState.nextTarget, hmode, Bool.false_eq_true, if_false]
      refine ⟨⟨hs.finalZlPath, hs.archivePath, hs.outPath⟩, .called .., fun h ↦ ?_⟩
      rw [hmode] at h
      cases h

theorem openzlStartChunk (hs : WritesTo path s)
    (hfresh : ∀ k, s.process.counter ≤ k → s.process.buffers (bufferPath k) = none) :
    Contained bind path s (stateAfter (DuckdbOpenzl.openzlStartChunk bind) s) := by
  unfold stateAfter DuckdbOpenzl.openzlStartChunk
  dsimp only
  cases P.initializeGlobal (s.nextTarget bind).process.hostCalls with
  | error what => exact nextTarget_called hs hfresh
  | ok o =>
      dsimp only
      have hopened : Contained bind path s ((s.nextTarget bind).openedTarget bind o.written) :=
        openedTarget hs hfresh o.written
      cases o.result with
      | error what => exact hopened
      | ok g => exact hopened.of_gstate rfl rfl rfl rfl

theorem released (hs : WritesTo path s) (hstages : StagesAt bind path s) (n : ℕ) :
    Contained bind path s (s.released bind n) := by
  unfold CopyState.released
  by_cases hmode : bind.inMemory = true
  · rw [if_pos hmode]
    obtain ⟨k, hk, htmp⟩ := hstages.memory hmode
    exact of_process hs (.of_buffer hk hmode htmp _ _ _) rfl rfl rfl
  · rw [if_neg hmode]
    refine of_process hs ?_ rfl rfl rfl
    apply Leaves.of_world
    rw [hstages.disk (Bool.eq_false_iff.mpr hmode)]
    exact .inr (.remove _ _)

theorem compressStaged (hs : WritesTo path s) (hstages : StagesAt bind path s) :
    Contained bind path s (stateAfter (DuckdbOpenzl.compressStaged zl bind) s) := by
  have hcases := compressStaged_cases zl bind s
  unfold stateAfter
  generalize DuckdbOpenzl.compressStaged zl bind s = r at hcases ⊢
  cases hcases with
  | noBuffer memory gone what => exact of_process hs (.refl ..) rfl rfl rfl
  | unread disk e => exact released hs hstages _
  | dropped memory => exact released hs hstages _
  | kept disk read refused => exact of_process hs (.refl ..) rfl rfl rfl
  | failed e n => exact released hs hstages n
  | compressed staged made => exact released hs hstages _

/-- A call on the archive writer that keeps to the destination. -/
theorem callArchive {x : WriterM Unit} (hs : WritesTo path s)
    (hstep : ChunkedArchiveWriter.Step (s.process.world, s.gstate.archive)
      (stateAfter x (s.process.world, s.gstate.archive))) :
    Contained bind path s (stateAfter (DuckdbOpenzl.callArchive x) s) := by
  have htouches := hstep.touches
  have hpath := hstep.path.trans hs.archivePath
  have hout := hstep.outPath.trans hs.archivePath
  rw [show (s.process.world, s.gstate.archive).2.path = path from hs.archivePath] at htouches
  unfold stateAfter DuckdbOpenzl.callArchive
  cases hrun : x (s.process.world, s.gstate.archive) with
  | ok u t =>
      rw [stateAfter_of_ok hrun] at htouches hpath hout
      exact ⟨⟨hs.finalZlPath, hpath, hout⟩, .of_world (.inl htouches) _ _, fun _ ↦ .inl rfl⟩
  | error e t =>
      rw [stateAfter_of_error hrun] at htouches hpath hout
      exact ⟨⟨hs.finalZlPath, hpath, hout⟩, .of_world (.inl htouches) _ _, fun _ ↦ .inl rfl⟩

theorem appendChunk (hs : WritesTo path s) (frame : Bytes) :
    Contained bind path s (stateAfter (DuckdbOpenzl.appendChunk frame) s) := by
  have hcall : Contained bind path s (stateAfter (DuckdbOpenzl.callArchive
      (ChunkedArchiveWriter.append frame)) s) := by
    apply callArchive hs
    apply ChunkedArchiveWriter.append_step
    exact hs.outPath.trans hs.archivePath.symm
  unfold stateAfter DuckdbOpenzl.appendChunk
  cases hrun : DuckdbOpenzl.callArchive (ChunkedArchiveWriter.append frame) s with
  | ok u t =>
      rw [stateAfter_of_ok hrun] at hcall
      exact hcall.of_gstate rfl rfl rfl rfl
  | error e t =>
      rw [stateAfter_of_error hrun] at hcall
      exact hcall

theorem finish (hs : WritesTo path s) :
    Contained bind path s
      (stateAfter (DuckdbOpenzl.callArchive ChunkedArchiveWriter.finish) s) := by
  apply callArchive hs
  apply ChunkedArchiveWriter.finish_step
  exact hs.outPath.trans hs.archivePath.symm

end Contained

theorem WritesTo.leaves_destroy {s : CopyState P} (hs : WritesTo path s) :
    Leaves bind path tmp s.process s.destroy := by
  have htouches := ChunkedArchiveWriter.destroy_touches
    (s := (s.process.world, s.gstate.archive)) (hs.outPath.trans hs.archivePath.symm)
  rw [show (s.process.world, s.gstate.archive).2.path = path from hs.archivePath] at htouches
  exact .of_world (.inl htouches) _ _

/-! ## What it leaves to the others -/

namespace Leaves

variable {other : OpenzlCopyBindData} {path' tmp' : Path}

theorem content (path : Path) (h : Leaves other path' tmp' p p') (hpath : path ≠ path')
    (hstaging : path ≠ stagingFile path') : p'.world.content path = p.world.content path := by
  unfold World.content
  rw [h.files path hpath hstaging]

end Leaves

theorem stagingFile_injective {path path' : Path} (h : stagingFile path = stagingFile path') :
    path = path' := by
  unfold stagingFile at h
  exact (String.append_left_inj _).mp h

/-- No file of one COPY is a file of the other. -/
structure FilesApart (path path' : Path) : Prop where
  destination : path ≠ path'
  left : path ≠ stagingFile path'
  right : path' ≠ stagingFile path

theorem FilesApart.symm {path path' : Path} (h : FilesApart path path') : FilesApart path' path :=
  ⟨h.destination.symm, h.right, h.left⟩

section Frame

variable {known : IoScript → Prop} {other : OpenzlCopyBindData} {path' tmp' : Path}
  {files : List Bytes} {bytes : Bytes} {s : CopyState P}

theorem Appending.frame (h : Appending known zl bind path files s)
    (hleaves : Leaves other path' tmp' s.process p') (hapart : FilesApart path path') :
    Appending known zl bind path files { s with process := p' } :=
  h.of_eq hleaves.script (hleaves.content path hapart.destination hapart.left)
    (fun hmode ↦ hleaves.fresh (h.fresh hmode)) rfl rfl

theorem StagedFile.frame (h : StagedFile known zl bind path files bytes s)
    (hleaves : Leaves other path' tmp' s.process p') (hapart : FilesApart path path')
    (hbuffer : ∀ k, bind.inMemory = true → s.gstate.tmpParquetPath = bufferPath k →
      other.inMemory = true → tmp' ≠ bufferPath k) :
    StagedFile known zl bind path files bytes { s with process := p' } where
  toAppending := h.toAppending.frame hleaves hapart
  target := by
    have htarget := h.target
    cases hmode : bind.inMemory with
    | true =>
        obtain ⟨k, hk, htmp⟩ := h.memory hmode
        have hsame := hleaves.buffers k hk (hbuffer k hmode htmp)
        simp only [CopyState.target, CopyProcess.target, hmode, if_true, htmp] at htarget ⊢
        rw [hsame]
        exact htarget
    | false =>
        have hsame := hleaves.content (stagingFile path) hapart.right.symm
          fun h ↦ hapart.destination (stagingFile_injective h)
        simp only [CopyState.target, CopyProcess.target, hmode, Bool.false_eq_true, if_false,
          h.disk hmode] at htarget ⊢
        rw [hsame]
        exact htarget
  memory := by
    intro hmode
    obtain ⟨k, hk, htmp⟩ := h.memory hmode
    exact ⟨k, hk.trans_le hleaves.counter, htmp⟩
  disk := h.disk

end Frame

end DuckdbOpenzl
