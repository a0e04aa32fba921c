import DuckdbOpenzl.Copy.Cleanup
import DuckdbOpenzl.FileSystem.BufferFileSystem

/-!
# The parquet files behind the frames

What one callback does to the file that is being staged, and to the files whose
frames were appended: the bytes of each call on the parquet writer go to the
end of the staged file, and `OpenzlEndChunk` turns that file into a frame.
-/

set_option autoImplicit false

namespace DuckdbOpenzl

open ExceptionState FileContent

variable {P : ParquetCopyFunction} {known : IoScript → Prop} {zl : OpenZL}
  {bind : OpenzlCopyBindData} {path : Path} {files : List Bytes} {bytes : Bytes}

/-! ## What a call that succeeds leaves -/

section Calls

variable {s s' : CopyState P} {g : P.GlobalState} {l : P.LocalState} {frame : Bytes}

theorem parquetSink_eq_ok {input : List P.Row} (hg : s.gstate.parquetGlobalState = some g)
    (hl : s.lstate = some l) (hok : parquetSink bind input s = .ok () s') :
    ∃ g' l', (P.sink s.process.hostCalls input g l).result = .ok (g', l') ∧
      s' = { s.wrote bind (P.sink s.process.hostCalls input g l).written with
        gstate := { s.gstate with parquetGlobalState := some g' }
        lstate := some l' } := by
  simp only [parquetSink, hl, callHost_eq hg] at hok
  cases hres : (P.sink s.process.hostCalls input g l).result with
  | error what =>
      rw [hres] at hok
      cases hok
  | ok r =>
      rw [hres] at hok
      obtain ⟨-, rfl⟩ := EStateM.Result.ok.inj hok
      exact ⟨r.1, r.2, rfl, rfl⟩

theorem parquetCombine_eq_ok (hg : s.gstate.parquetGlobalState = some g) (hl : s.lstate = some l)
    (hok : parquetCombine bind s = .ok () s') :
    ∃ g', (P.combine s.process.hostCalls g l).result = .ok g' ∧
      s' = { s.wrote bind (P.combine s.process.hostCalls g l).written with
        gstate := { s.gstate with parquetGlobalState := some g' } } := by
  simp only [parquetCombine, hl, callHost_eq hg] at hok
  cases hres : (P.combine s.process.hostCalls g l).result with
  | error what =>
      rw [hres] at hok
      cases hok
  | ok g' =>
      rw [hres] at hok
      obtain ⟨-, rfl⟩ := EStateM.Result.ok.inj hok
      exact ⟨g', rfl, rfl⟩

theorem parquetFinalize_eq_ok (hg : s.gstate.parquetGlobalState = some g)
    (hok : parquetFinalize bind s = .ok () s') :
    (P.finalize s.process.hostCalls g).result = .ok () ∧
      s' = { s.wrote bind (P.finalize s.process.hostCalls g).written with
        gstate := { s.gstate with parquetGlobalState := none, currentChunkOpen := false } } := by
  simp only [parquetFinalize, callHost_eq hg] at hok
  cases hres : (P.finalize s.process.hostCalls g).result with
  | error what =>
      rw [hres] at hok
      cases hok
  | ok u =>
      rw [hres] at hok
      obtain ⟨-, rfl⟩ := EStateM.Result.ok.inj hok
      exact ⟨rfl, rfl⟩

theorem openzlStartChunk_eq_ok (hok : openzlStartChunk bind s = .ok () s') :
    ∃ o g, P.initializeGlobal (s.nextTarget bind).process.hostCalls = .ok o ∧
      o.result = .ok g ∧
      s' = { (s.nextTarget bind).openedTarget bind o.written with
        gstate := { (s.nextTarget bind).gstate with
          parquetGlobalState := some g, currentChunkOpen := true } } := by
  unfold openzlStartChunk at hok
  dsimp only at hok
  cases hinit : P.initializeGlobal (s.nextTarget bind).process.hostCalls with
  | error what =>
      rw [hinit] at hok
      cases hok
  | ok o =>
      rw [hinit] at hok
      dsimp only at hok
      cases hres : o.result with
      | error what =>
          rw [hres] at hok
          cases hok
      | ok g =>
          rw [hres] at hok
          obtain ⟨-, rfl⟩ := EStateM.Result.ok.inj hok
          exact ⟨o, g, rfl, hres, rfl⟩

theorem openzlCopyInitLocal_eq_ok (hok : openzlCopyInitLocal s = .ok () s') :
    ∃ l, P.initializeLocal s.process.hostCalls = .ok l ∧
      s' = { s with process := s.process.called, lstate := some l } := by
  unfold openzlCopyInitLocal at hok
  cases hinit : P.initializeLocal s.process.hostCalls with
  | error what =>
      rw [hinit] at hok
      cases hok
  | ok l =>
      rw [hinit] at hok
      obtain ⟨-, rfl⟩ := EStateM.Result.ok.inj hok
      exact ⟨l, rfl, rfl⟩

/-- The staged file is compressed, and its staging is gone. -/
theorem compressStaged_eq_ok (htarget : s.target bind = some bytes)
    (hok : compressStaged zl bind s = .ok frame s') :
    (∃ cctx, zl.compressSerial cctx bytes = .ok frame) ∧ ∃ n, s' = s.released bind n := by
  have hcases := compressStaged_cases zl bind s
  rw [hok] at hcases
  cases hcases with
  | compressed staged made =>
      obtain rfl := Option.some.inj (staged.symm.trans htarget)
      exact ⟨made, _, rfl⟩

/-- The frame is appended to those the archive represents. -/
theorem appendChunk_eq_ok {frames : List Bytes}
    (hout : s.gstate.archive.out.path = s.gstate.archive.path)
    (hrep : ChunkedArchiveWriter.Represents frames (s.process.world, s.gstate.archive))
    (hok : appendChunk frame s = .ok () s') :
    ∃ t : World × ChunkedArchiveWriter,
      ChunkedArchiveWriter.Step (s.process.world, s.gstate.archive) t ∧
      ChunkedArchiveWriter.Represents (frames ++ [frame]) t ∧
      s' = { s with
        process := { s.process with world := t.1 }
        gstate := { s.gstate with archive := t.2, chunkIndex := s.gstate.chunkIndex + 1 } } := by
  have hstep := ChunkedArchiveWriter.append_step (s := (s.process.world, s.gstate.archive)) frame
    hout
  unfold appendChunk callArchive at hok
  cases hrun : ChunkedArchiveWriter.append frame (s.process.world, s.gstate.archive) with
  | error e t =>
      rw [hrun] at hok
      cases hok
  | ok u t =>
      rw [stateAfter_of_ok hrun] at hstep
      have hrep' := ChunkedArchiveWriter.represents_append hrep hrun
      rw [hrun] at hok
      obtain ⟨-, rfl⟩ := EStateM.Result.ok.inj hok
      exact ⟨t, hstep, hrep', rfl⟩

theorem rotateChunk_eq (zl : OpenZL) (bind : OpenzlCopyBindData) :
    (rotateChunk zl bind : CopyM P Unit) =
      (parquetCombine bind >>= fun _ ↦ openzlEndChunk zl bind) >>= fun _ ↦
        openzlStartChunk bind >>= fun _ ↦ openzlCopyInitLocal := by
  unfold rotateChunk
  rw [bind_assoc]

/-- The steps of a COPY that gets to its `Finish`; the query before its end left the state
alone. -/
theorem runToFinish_eq_ok {batches : List (List P.Row)} {queryError : Option String}
    (hok : runToFinish zl bind batches queryError s = .ok () s') :
    ∃ s₁ s₂ s₃ s₄, openzlStartChunk bind s = .ok () s₁ ∧ openzlCopyInitLocal s₁ = .ok () s₂ ∧
      batches.forM (openzlCopySink zl bind) s₂ = .ok () s₃ ∧
      openzlCopyCombine bind s₃ = .ok () s₄ ∧ openzlEndChunk zl bind s₄ = .ok () s' := by
  obtain ⟨⟨⟩, s₁, hstart, hrest⟩ := bind_eq_ok_iff.mp hok
  obtain ⟨⟨⟩, s₂, hinit, hrest⟩ := bind_eq_ok_iff.mp hrest
  obtain ⟨⟨⟩, s₃, hsinks, hrest⟩ := bind_eq_ok_iff.mp hrest
  obtain ⟨⟨⟩, s₃', hquery, hrest⟩ := bind_eq_ok_iff.mp hrest
  obtain ⟨⟨⟩, s₄, hcombine, hend⟩ := bind_eq_ok_iff.mp hrest
  have hsame : s₃' = s₃ := by
    unfold endQuery at hquery
    cases queryError with
    | none => exact (EStateM.Result.ok.inj hquery).2.symm
    | some what => cases hquery
  rw [hsame] at hcombine
  exact ⟨s₁, s₂, s₃, s₄, hstart, hinit, hsinks, hcombine, hend⟩

/-! ## The staged file -/

theorem target_wrote (h : s.target bind = some bytes) (more : Bytes) :
    (s.wrote bind more).target bind = some (bytes ++ more) := by
  cases hmode : bind.inMemory with
  | true =>
      simp only [CopyState.target, CopyProcess.target, hmode, if_true] at h
      simp [CopyState.target, CopyState.wrote, CopyProcess.target, CopyProcess.appendTarget,
        CopyProcess.called, hmode, h]
  | false =>
      simp only [CopyState.target, CopyProcess.target, hmode, Bool.false_eq_true, if_false] at h
      simp [CopyState.target, CopyState.wrote, CopyProcess.target, CopyProcess.appendTarget,
        CopyProcess.called, hmode, h]

/-- A fresh target holds what the call that opened it wrote. -/
theorem target_openedTarget
    (hfresh : bind.inMemory = true → s.process.buffers (bufferPath s.process.counter) = none)
    (bytes : Bytes) :
    ((s.nextTarget bind).openedTarget bind bytes).target bind = some bytes := by
  cases hmode : bind.inMemory with
  | true =>
      simp [CopyState.nextTarget, CopyState.openedTarget, CopyState.target, CopyProcess.target,
        CopyProcess.appendTarget, CopyProcess.openTarget, CopyProcess.called, hmode, hfresh hmode]
  | false =>
      simp [CopyState.nextTarget, CopyState.openedTarget, CopyState.target, CopyProcess.target,
        CopyProcess.appendTarget, CopyProcess.openTarget, CopyProcess.called, hmode]

theorem content_openedTarget (bind : OpenzlCopyBindData) (hfinal : s.gstate.finalZlPath = path)
    (bytes : Bytes) :
    ((s.nextTarget bind).openedTarget bind bytes).process.world.content path =
      s.process.world.content path := by
  cases hmode : bind.inMemory with
  | true =>
      simp [CopyState.nextTarget, CopyState.openedTarget, CopyProcess.appendTarget,
        CopyProcess.openTarget, CopyProcess.called, hmode]
  | false =>
      simp only [CopyState.nextTarget, CopyState.openedTarget, hmode, Bool.false_eq_true, if_false,
        CopyProcess.appendTarget, CopyProcess.openTarget, CopyProcess.called, hfinal]
      exact (World.content_store_of_ne _ _ (stagingFile_ne path).symm).trans
        (World.content_put_of_ne _ _ (stagingFile_ne path).symm)

end Calls

/-! ## The files behind the frames -/

/-- Each frame is a compression of its file. -/
def FramesOf (zl : OpenZL) (frames files : List Bytes) : Prop :=
  List.Forall₂ (fun frame file ↦ ∃ cctx, zl.compressSerial cctx file = .ok frame) frames files

/-- Frames of these files were appended, the buffers this COPY will be given are free, and this
much is known of the disk's answers. -/
structure Appending (known : IoScript → Prop) (zl : OpenZL) (bind : OpenzlCopyBindData)
    (path : Path) (files : List Bytes) (s : CopyState P) : Prop where
  script : known s.process.world.script
  finalZlPath : s.gstate.finalZlPath = path
  archivePath : s.gstate.archive.path = path
  outPath : s.gstate.archive.out.path = path
  fresh : bind.inMemory = true → ∀ k, s.process.counter ≤ k →
    s.process.buffers (bufferPath k) = none
  frames : ∃ frames, FramesOf zl frames files ∧
    ChunkedArchiveWriter.Represents frames (s.process.world, s.gstate.archive)

/-- Besides, a file of these bytes is staged. -/
structure StagedFile (known : IoScript → Prop) (zl : OpenZL) (bind : OpenzlCopyBindData)
    (path : Path) (files : List Bytes) (bytes : Bytes) (s : CopyState P) : Prop
    extends Appending known zl bind path files s where
  target : s.target bind = some bytes
  memory : bind.inMemory = true →
    ∃ k < s.process.counter, s.gstate.tmpParquetPath = bufferPath k
  disk : bind.inMemory = false → s.gstate.tmpParquetPath = stagingFile path

/-- Nothing of the archive or of the free buffers has changed. -/
theorem Appending.of_eq {s s' : CopyState P} (h : Appending known zl bind path files s)
    (hscript : s'.process.world.script = s.process.world.script)
    (hcontent : s'.process.world.content path = s.process.world.content path)
    (hfresh : bind.inMemory = true → ∀ k, s'.process.counter ≤ k →
      s'.process.buffers (bufferPath k) = none)
    (hfinal : s'.gstate.finalZlPath = s.gstate.finalZlPath)
    (harchive : s'.gstate.archive = s.gstate.archive) : Appending known zl bind path files s' where
  script := by
    rw [hscript]
    exact h.script
  finalZlPath := hfinal.trans h.finalZlPath
  archivePath := by rw [harchive, h.archivePath]
  outPath := by rw [harchive, h.outPath]
  fresh := hfresh
  frames := by
    obtain ⟨frames, hframes, hrep⟩ := h.frames
    refine ⟨frames, hframes, ?_⟩
    rw [harchive]
    apply hrep.of_content
    rw [show (s.process.world, s.gstate.archive).2.path = path from h.archivePath]
    exact hcontent

theorem Appending.of_gstate {s s' : CopyState P} (h : Appending known zl bind path files s)
    (hprocess : s'.process = s.process) (hfinal : s'.gstate.finalZlPath = s.gstate.finalZlPath)
    (harchive : s'.gstate.archive = s.gstate.archive) : Appending known zl bind path files s' := by
  refine h.of_eq ?_ ?_ ?_ hfinal harchive
  · rw [hprocess]
  · rw [hprocess]
  · rw [hprocess]
    exact h.fresh

theorem StagedFile.of_gstate {s s' : CopyState P} (h : StagedFile known zl bind path files bytes s)
    (hprocess : s'.process = s.process) (hfinal : s'.gstate.finalZlPath = s.gstate.finalZlPath)
    (harchive : s'.gstate.archive = s.gstate.archive)
    (htmp : s'.gstate.tmpParquetPath = s.gstate.tmpParquetPath) :
    StagedFile known zl bind path files bytes s' where
  toAppending := h.toAppending.of_gstate hprocess hfinal harchive
  target := by
    unfold CopyState.target
    rw [hprocess, htmp]
    exact h.target
  memory := by
    rw [hprocess, htmp]
    exact h.memory
  disk := by
    rw [htmp]
    exact h.disk

/-! ## Writing to the target -/

theorem bufferPath_ne {j k : ℕ} (h : j ≠ k) : bufferPath j ≠ bufferPath k :=
  fun heq ↦ h (uniquePath_injective heq)

theorem StagedFile.wrote {s : CopyState P} (h : StagedFile known zl bind path files bytes s)
    (more : Bytes) : StagedFile known zl bind path files (bytes ++ more) (s.wrote bind more) := by
  have htarget := target_wrote h.target more
  cases hmode : bind.inMemory with
  | true =>
      obtain ⟨k, hk, htmp⟩ := h.memory hmode
      let buffers := Function.update s.process.buffers (bufferPath k)
        ((s.process.buffers (bufferPath k)).map (· ++ more))
      have hprocess : (s.wrote bind more).process =
          { s.process.called with buffers := buffers } := by
        simp [buffers, CopyState.wrote, CopyProcess.appendTarget, CopyProcess.called, hmode, htmp]
      refine ⟨h.toAppending.of_eq ?_ ?_ ?_ rfl rfl, htarget, fun _ ↦ ?_, h.disk⟩
      · rw [hprocess]
        rfl
      · rw [hprocess]
        rfl
      · rw [hprocess]
        intro _ j hj
        have hne : bufferPath j ≠ bufferPath k := bufferPath_ne (hk.trans_le hj).ne'
        exact (Function.update_of_ne hne ..).trans (h.fresh hmode j hj)
      · rw [hprocess]
        exact ⟨k, hk, htmp⟩
  | false =>
      have htmp := h.disk hmode
      let world := s.process.world.store (stagingFile path) more
      have hprocess : (s.wrote bind more).process = { s.process.called with world := world } := by
        simp [world, CopyState.wrote, CopyProcess.appendTarget, CopyProcess.called, hmode, htmp]
      refine ⟨h.toAppending.of_eq ?_ ?_ ?_ rfl rfl, htarget, ?_, h.disk⟩
      · rw [hprocess]
        rfl
      · rw [hprocess]
        exact World.content_store_of_ne _ _ (stagingFile_ne path).symm
      · intro hmem
        rw [hmode] at hmem
        cases hmem
      · intro hmem
        rw [hmode] at hmem
        cases hmem

/-! ## Calls on the parquet writer -/

section

variable {s s' : CopyState P} {g : P.GlobalState} {l : P.LocalState}

theorem parquetSink_ok {input : List P.Row} (h : StagedFile known zl bind path files bytes s)
    (hg : s.gstate.parquetGlobalState = some g) (hl : s.lstate = some l)
    (hok : parquetSink bind input s = .ok () s') :
    ∃ k g' l', (P.sink k input g l).result = .ok (g', l') ∧
      StagedFile known zl bind path files (bytes ++ (P.sink k input g l).written) s' ∧
        s'.gstate.parquetGlobalState = some g' ∧ s'.lstate = some l' := by
  obtain ⟨g', l', hres, rfl⟩ := parquetSink_eq_ok hg hl hok
  have hwrote := h.wrote (P.sink s.process.hostCalls input g l).written
  exact ⟨_, g', l', hres, hwrote.of_gstate rfl rfl rfl rfl, rfl, rfl⟩

theorem parquetCombine_ok (h : StagedFile known zl bind path files bytes s)
    (hg : s.gstate.parquetGlobalState = some g) (hl : s.lstate = some l)
    (hok : parquetCombine bind s = .ok () s') :
    ∃ k g', (P.combine k g l).result = .ok g' ∧
      StagedFile known zl bind path files (bytes ++ (P.combine k g l).written) s' ∧
        s'.gstate.parquetGlobalState = some g' := by
  obtain ⟨g', hres, rfl⟩ := parquetCombine_eq_ok hg hl hok
  have hwrote := h.wrote (P.combine s.process.hostCalls g l).written
  exact ⟨_, g', hres, hwrote.of_gstate rfl rfl rfl rfl, rfl⟩

theorem parquetFinalize_ok (h : StagedFile known zl bind path files bytes s)
    (hg : s.gstate.parquetGlobalState = some g) (hok : parquetFinalize bind s = .ok () s') :
    ∃ k, (P.finalize k g).result = .ok () ∧
      StagedFile known zl bind path files (bytes ++ (P.finalize k g).written) s' := by
  obtain ⟨hres, rfl⟩ := parquetFinalize_eq_ok hg hok
  have hwrote := h.wrote (P.finalize s.process.hostCalls g).written
  exact ⟨_, hres, hwrote.of_gstate rfl rfl rfl rfl⟩

end

/-! ## Ending and starting a chunk -/

section

variable {s s' : CopyState P} {frame : Bytes} {g : P.GlobalState}

theorem compressStaged_ok (h : StagedFile known zl bind path files bytes s)
    (hok : compressStaged zl bind s = .ok frame s') :
    Appending known zl bind path files s' ∧ ∃ cctx, zl.compressSerial cctx bytes = .ok frame := by
  obtain ⟨hframe, n, rfl⟩ := compressStaged_eq_ok h.target hok
  refine ⟨?_, hframe⟩
  unfold CopyState.released
  by_cases hmode : bind.inMemory = true
  · rw [if_pos hmode]
    refine h.toAppending.of_eq rfl rfl ?_ rfl rfl
    intro _ j hj
    change Function.update s.process.buffers s.gstate.tmpParquetPath none (bufferPath j) = none
    by_cases heq : bufferPath j = s.gstate.tmpParquetPath
    · rw [heq, Function.update_self]
    · rw [Function.update_of_ne heq]
      exact h.fresh hmode j hj
  · rw [if_neg hmode]
    refine h.toAppending.of_eq rfl ?_ h.fresh rfl rfl
    rw [h.disk (Bool.eq_false_iff.mpr hmode)]
    exact World.content_remove_of_ne _ (stagingFile_ne path).symm

theorem appendChunk_ok (h : Appending known zl bind path files s)
    (hframe : ∃ cctx, zl.compressSerial cctx bytes = .ok frame)
    (hok : appendChunk frame s = .ok () s') :
    Appending known zl bind path (files ++ [bytes]) s' := by
  obtain ⟨frames, hframes, hrep⟩ := h.frames
  obtain ⟨t, hstep, hrep', rfl⟩ :=
    appendChunk_eq_ok (h.outPath.trans h.archivePath.symm) hrep hok
  refine ⟨?_, h.finalZlPath, hstep.path.trans h.archivePath, hstep.outPath.trans h.archivePath,
    h.fresh, frames ++ [frame], List.rel_append hframes (.cons hframe .nil), hrep'⟩
  have hscript : t.1.script = s.process.world.script := hstep.touches.script
  simp only [hscript]
  exact h.script

theorem openzlEndChunk_ok (h : StagedFile known zl bind path files bytes s)
    (hg : s.gstate.parquetGlobalState = some g) (hok : openzlEndChunk zl bind s = .ok () s') :
    ∃ k, (P.finalize k g).result = .ok () ∧
      Appending known zl bind path (files ++ [bytes ++ (P.finalize k g).written]) s' := by
  obtain ⟨⟨⟩, s₁, hfinalize, hrest⟩ := bind_eq_ok_iff.mp hok
  obtain ⟨frame, s₂, hcompress, happend⟩ := bind_eq_ok_iff.mp hrest
  obtain ⟨k, hres, hstaged⟩ := parquetFinalize_ok h hg hfinalize
  obtain ⟨happending, hframe⟩ := compressStaged_ok hstaged hcompress
  exact ⟨k, hres, appendChunk_ok happending hframe happend⟩

theorem Appending.openedTarget (h : Appending known zl bind path files s) (bytes : Bytes) :
    StagedFile known zl bind path files bytes ((s.nextTarget bind).openedTarget bind bytes) := by
  have htarget := target_openedTarget (s := s) (fun hmode ↦ h.fresh hmode _ le_rfl) bytes
  have hcontent := content_openedTarget bind h.finalZlPath bytes
  cases hmode : bind.inMemory with
  | true =>
      simp only [CopyState.nextTarget, CopyState.openedTarget, hmode, if_true] at htarget hcontent ⊢
      refine ⟨h.of_eq rfl hcontent ?_ rfl rfl, htarget, fun _ ↦ ⟨_, Nat.lt_succ_self _, rfl⟩, ?_⟩
      · intro _ j hj
        have hne : bufferPath j ≠ bufferPath s.process.counter := bufferPath_ne (Nat.ne_of_gt hj)
        simp only [CopyProcess.appendTarget, CopyProcess.openTarget, CopyProcess.called, if_true]
        rw [Function.update_of_ne hne, Function.update_of_ne hne]
        exact h.fresh hmode j (Nat.le_of_succ_le hj)
      · intro hdisk
        rw [hmode] at hdisk
        cases hdisk
  | false =>
      simp only [CopyState.nextTarget, CopyState.openedTarget, hmode, Bool.false_eq_true, if_false,
        CopyProcess.appendTarget, CopyProcess.openTarget, CopyProcess.called, h.finalZlPath]
        at htarget hcontent ⊢
      refine ⟨h.of_eq rfl hcontent h.fresh h.finalZlPath.symm rfl, htarget, ?_, fun _ ↦ rfl⟩
      intro hmem
      rw [hmode] at hmem
      cases hmem

theorem openzlStartChunk_ok (h : Appending known zl bind path files s)
    (hok : openzlStartChunk bind s = .ok () s') :
    ∃ k o g, P.initializeGlobal k = .ok o ∧ o.result = .ok g ∧
      StagedFile known zl bind path files o.written s' ∧ s'.gstate.parquetGlobalState = some g := by
  obtain ⟨o, g, hinit, hres, rfl⟩ := openzlStartChunk_eq_ok hok
  exact ⟨_, o, g, hinit, hres, (h.openedTarget o.written).of_gstate rfl rfl rfl rfl, rfl⟩

theorem openzlCopyInitLocal_ok (h : StagedFile known zl bind path files bytes s)
    (hg : s.gstate.parquetGlobalState = some g) (hok : openzlCopyInitLocal s = .ok () s') :
    ∃ k l, P.initializeLocal k = .ok l ∧ StagedFile known zl bind path files bytes s' ∧
      s'.gstate.parquetGlobalState = some g ∧ s'.lstate = some l := by
  obtain ⟨l, hinit, rfl⟩ := openzlCopyInitLocal_eq_ok hok
  exact ⟨_, l, hinit, ⟨h.toAppending.of_eq rfl rfl h.fresh rfl rfl, h.target, h.memory, h.disk⟩,
    hg, rfl⟩

/-- The world and the writer of a COPY. -/
def CopyState.writer (s : CopyState P) : World × ChunkedArchiveWriter :=
  (s.process.world, s.gstate.archive)

/-- The archive is made of a frame of each file. -/
theorem finish_framesOf (h : Appending known zl bind path files s)
    (hok : callArchive ChunkedArchiveWriter.finish s = .ok () s') :
    ∃ frames, FramesOf zl frames files ∧
      ChunkedArchiveWriter.Finished frames s.writer s'.writer ∧
        s'.destroy.world = s'.writer.1 := by
  obtain ⟨frames, hframes, hrep⟩ := h.frames
  unfold callArchive at hok
  cases hrun : ChunkedArchiveWriter.finish (s.process.world, s.gstate.archive) with
  | error e t =>
      rw [hrun] at hok
      cases hok
  | ok u t =>
      have hfinished := ChunkedArchiveWriter.finish_finished hrep hrun
      rw [hrun] at hok
      obtain ⟨-, rfl⟩ := EStateM.Result.ok.inj hok
      exact ⟨frames, hframes, hfinished, ChunkedArchiveWriter.destroy_of_closed hfinished.closed⟩

end

end DuckdbOpenzl
