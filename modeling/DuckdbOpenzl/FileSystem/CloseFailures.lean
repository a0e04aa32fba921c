import DuckdbOpenzl.FileSystem.Handle

/-!
# A `Close` that fails

`Close` compresses next to the target, at most twice, and moves the result into
place last. Whatever fails on the way, the target stays what it was and nothing
stays next to it.
-/

set_option autoImplicit false

namespace DuckdbOpenzl

open ExceptionState

/-- The options of the second attempt of `Close`. -/
def GraphOptions.serial (g : GraphOptions) : GraphOptions :=
  { g with profile := "serial", parquetChunkBytes := 0 }

/-- The frame `Close` makes of a buffer with these options. -/
def OpenzlWriteSettings.frame (zl : OpenZL) (s : OpenzlWriteSettings) (buffer : Bytes)
    (graph : GraphOptions) : Except Error Bytes :=
  compressBytesImpl zl buffer "<in-memory input>" [] s.compressionLevel s.maxCompressBytes graph

section

variable {zl : OpenZL} {buffer : Bytes} {s : OpenzlWriteSettings} {graph : GraphOptions}
  {tmpPath : Path} {w w' : World}

/-- Without a trained compressor one attempt compresses, and writes what it got. -/
theorem compressParquetBytes_eq (zl : OpenZL) (buffer : Bytes) (tmpPath : Path)
    (s : OpenzlWriteSettings) (graph : GraphOptions) (w : World) :
    compressParquetBytes zl buffer tmpPath "" s.compressionLevel s.maxCompressBytes graph w =
      match s.frame zl buffer graph with
      | .ok frame => writeFile tmpPath frame w
      | .error e => .error e w := by
  have hload : loadCompressorFile "" = (pure [] : BridgeM Bytes) := rfl
  unfold compressParquetBytes compressParquetBytesToString OpenzlWriteSettings.frame
  rw [hload, pure_bind]
  cases compressBytesImpl zl buffer "<in-memory input>" [] s.compressionLevel s.maxCompressBytes
    graph with
  | ok frame => rfl
  | error e => rfl

theorem compressParquetBytes_eq_ok
    (h : compressParquetBytes zl buffer tmpPath "" s.compressionLevel s.maxCompressBytes graph w =
      .ok () w') :
    ∃ frame, s.frame zl buffer graph = .ok frame ∧ writeFile tmpPath frame w = .ok () w' := by
  rw [compressParquetBytes_eq] at h
  cases hframe : s.frame zl buffer graph with
  | ok frame =>
      rw [hframe] at h
      exact ⟨frame, rfl, h⟩
  | error e =>
      rw [hframe] at h
      cases h

/-- However its two attempts end, compressing for `Close` touches the temporary file only. -/
theorem compressForClose_touches (zl : OpenZL) (buffer : Bytes) (tmpPath : Path)
    (s : OpenzlWriteSettings) (w : World) :
    w.OnlyTouches tmpPath
      (stateAfter (OpenzlFileHandle.compressForClose zl buffer tmpPath s) w) := by
  have hfirst := compressParquetBytes_touches zl buffer tmpPath "" s.compressionLevel
    s.maxCompressBytes s.graph w
  unfold stateAfter OpenzlFileHandle.compressForClose
  cases hrun : compressParquetBytes zl buffer tmpPath "" s.compressionLevel s.maxCompressBytes
      s.graph w with
  | ok u t =>
      rw [stateAfter_of_ok hrun] at hfirst
      exact hfirst
  | error e t =>
      rw [stateAfter_of_error hrun] at hfirst
      dsimp only
      split_ifs
      · exact hfirst
      · exact hfirst.trans (compressParquetBytes_touches zl buffer tmpPath "" s.compressionLevel
          s.maxCompressBytes s.graph.serial t)

/-- What returns has written a frame of the whole buffer, made by the configured graph or by the
serial one. -/
theorem compressForClose_frame
    (h : OpenzlFileHandle.compressForClose zl buffer tmpPath s w = .ok () w') :
    ∃ g frame t, (g = s.graph ∨ g = s.graph.serial) ∧ s.frame zl buffer g = .ok frame ∧
      t.script = w.script ∧ writeFile tmpPath frame t = .ok () w' := by
  unfold OpenzlFileHandle.compressForClose at h
  cases hrun : compressParquetBytes zl buffer tmpPath "" s.compressionLevel s.maxCompressBytes
      s.graph w with
  | ok u t =>
      rw [hrun] at h
      obtain ⟨-, rfl⟩ := EStateM.Result.ok.inj h
      obtain ⟨frame, hframe, hwrite⟩ := compressParquetBytes_eq_ok hrun
      exact ⟨s.graph, frame, w, .inl rfl, hframe, rfl, hwrite⟩
  | error e t =>
      have htouches := compressParquetBytes_touches zl buffer tmpPath "" s.compressionLevel
        s.maxCompressBytes s.graph w
      rw [stateAfter_of_error hrun] at htouches
      rw [hrun] at h
      dsimp only at h
      split_ifs at h
      obtain ⟨frame, hframe, hwrite⟩ := compressParquetBytes_eq_ok h
      exact ⟨s.graph.serial, frame, t, .inr rfl, hframe, htouches.script, hwrite⟩

end

/-! ## The three ends of a `Close` -/

variable {zl : OpenZL} {h h' : OpenzlFileHandle} {buffer : Bytes} {w w' : World}

/-- Compressing failed and the buffer stays, the rename failed, or the archive is in place. -/
theorem close_cases (zl : OpenZL) (w : World) (hbuffer : h.writeBuffer = some buffer)
    (hopen : h.closed = false) :
    (∃ e t, OpenzlFileHandle.compressForClose zl buffer h.tmpPath h.writeSettings w = .error e t ∧
      OpenzlFileHandle.close zl (w, h) =
        .error (h.cannotWrite e) (t.remove h.tmpPath, { h with closed := true })) ∨
    ∃ t, OpenzlFileHandle.compressForClose zl buffer h.tmpPath h.writeSettings w = .ok () t ∧
      ((t.rename h.tmpPath h.realPath).1 = false ∧
        OpenzlFileHandle.close zl (w, h) = .error (.io ("OpenzlFileSystem: cannot move the " ++
          "finished archive into place at \"" ++ h.realPath ++ "\""))
          ((t.rename h.tmpPath h.realPath).2.remove h.tmpPath,
            { h with closed := true, writeBuffer := none }) ∨
      (t.rename h.tmpPath h.realPath).1 = true ∧
        OpenzlFileHandle.close zl (w, h) = .ok () ((t.rename h.tmpPath h.realPath).2,
          { h with closed := true, writeBuffer := none })) := by
  unfold OpenzlFileHandle.close
  simp only [hbuffer, hopen, Bool.false_eq_true, if_false]
  cases hrun : OpenzlFileHandle.compressForClose zl buffer h.tmpPath h.writeSettings w with
  | error e t => exact .inl ⟨e, t, rfl, rfl⟩
  | ok u t =>
      refine .inr ⟨t, rfl, ?_⟩
      cases hmoved : (t.rename h.tmpPath h.realPath).1 with
      | false => exact .inl ⟨rfl, by simp [hmoved]⟩
      | true => exact .inr ⟨rfl, by simp [hmoved]⟩

theorem World.rename_failed {source target : Path} (h : (w.rename source target).1 = false) :
    (w.rename source target).2 = w.tick := by
  unfold World.rename at h ⊢
  split at h
  · cases h
  · rename_i hfail
    rw [if_neg hfail]

/-- A handle whose `closed` flag is set, or that has nothing to write, is left alone. -/
theorem close_again (w : World) (h' : h.writeBuffer = none ∨ h.closed = true) :
    OpenzlFileHandle.close zl (w, h) = .ok () (w, h) := by
  unfold OpenzlFileHandle.close
  cases hbuffer : h.writeBuffer with
  | none => simp only [hbuffer]
  | some buffer =>
      rcases h' with hnone | hclosed
      · rw [hbuffer] at hnone
        cases hnone
      · simp only [hbuffer, hclosed, if_true]

/-- Whatever a `Close` of a handle that is open for writing does, it is the last one. -/
theorem close_closes (zl : OpenZL) (w : World) (h : OpenzlFileHandle) :
    (stateAfter (OpenzlFileHandle.close zl) (w, h)).2.writeBuffer = none ∨
      (stateAfter (OpenzlFileHandle.close zl) (w, h)).2.closed = true := by
  by_cases hdone : h.writeBuffer = none ∨ h.closed = true
  · rw [stateAfter_of_ok (close_again w hdone)]
    exact hdone
  · obtain ⟨hsome, hopen⟩ := not_or.mp hdone
    obtain ⟨buffer, hbuffer⟩ := Option.ne_none_iff_exists'.mp hsome
    right
    rcases close_cases zl w hbuffer (Bool.eq_false_of_not_eq_true hopen) with ⟨e, t, -, hclose⟩ |
      ⟨t, -, ⟨-, hclose⟩ | ⟨-, hclose⟩⟩
    · rw [stateAfter_of_error hclose]
    · rw [stateAfter_of_error hclose]
    · rw [stateAfter_of_ok hclose]

/-- A `Close` that throws has touched the temporary file only, and then removed it. -/
theorem close_error_touches {e : Exception} (hbuffer : h.writeBuffer = some buffer)
    (hopen : h.closed = false) (hclose : OpenzlFileHandle.close zl (w, h) = .error e (w', h')) :
    ∃ t, w.OnlyTouches h.tmpPath t ∧ w' = t.remove h.tmpPath := by
  have htouches := compressForClose_touches zl buffer h.tmpPath h.writeSettings w
  rcases close_cases zl w hbuffer hopen with ⟨e', t, hrun, hclose'⟩ |
    ⟨t, hrun, ⟨hmoved, hclose'⟩ | ⟨-, hclose'⟩⟩
  · rw [stateAfter_of_error hrun] at htouches
    obtain ⟨rfl, -⟩ := Prod.mk.inj (EStateM.Result.error.inj (hclose.symm.trans hclose')).2
    exact ⟨t, htouches, rfl⟩
  · rw [stateAfter_of_ok hrun] at htouches
    obtain ⟨rfl, -⟩ := Prod.mk.inj (EStateM.Result.error.inj (hclose.symm.trans hclose')).2
    rw [World.rename_failed hmoved]
    exact ⟨t.tick, htouches.trans (.tick _ _), rfl⟩
  · cases hclose.symm.trans hclose'

theorem close_error_target {e : Exception} (hbuffer : h.writeBuffer = some buffer)
    (hopen : h.closed = false) (hclose : OpenzlFileHandle.close zl (w, h) = .error e (w', h')) :
    w'.files h.realPath = w.files h.realPath := by
  obtain ⟨t, ht, rfl⟩ := close_error_touches hbuffer hopen hclose
  exact (ht.trans (.remove _ _)).files _ (tmpPath_ne h).symm

/-- A `Close` that throws leaves the target as it was, nothing next to it and nothing to close;
one that returns leaves a frame of the whole buffer, if every failure is reported. -/
theorem close_all_or_nothing (hbuffer : h.writeBuffer = some buffer) (hopen : h.closed = false)
    (w w' : World) (h' : OpenzlFileHandle) :
    (∀ e, OpenzlFileHandle.close zl (w, h) = .error e (w', h') →
      w'.files h.realPath = w.files h.realPath ∧ w'.files h.tmpPath = none ∧
        ∀ t, OpenzlFileHandle.close zl (t, h') = .ok () (t, h')) ∧
    (w.KeepsFlushes → OpenzlFileHandle.close zl (w, h) = .ok () (w', h') →
      ∃ g frame, (g = h.writeSettings.graph ∨ g = h.writeSettings.graph.serial) ∧
        h.writeSettings.frame zl buffer g = .ok frame ∧ w'.content h.realPath = some frame) := by
  constructor
  · intro e hclose
    have hdone := close_closes zl w h
    rw [stateAfter_of_error hclose] at hdone
    refine ⟨close_error_target hbuffer hopen hclose, ?_, fun t ↦ close_again t hdone⟩
    obtain ⟨t, -, rfl⟩ := close_error_touches hbuffer hopen hclose
    exact Function.update_self _ _ _
  · intro hkeep hclose
    rcases close_cases zl w hbuffer hopen with ⟨e', t, -, hclose'⟩ |
      ⟨t, hrun, ⟨-, hclose'⟩ | ⟨hmoved, hclose'⟩⟩
    · cases hclose.symm.trans hclose'
    · cases hclose.symm.trans hclose'
    · obtain ⟨rfl, -⟩ := Prod.mk.inj (EStateM.Result.ok.inj (hclose.symm.trans hclose')).2
      obtain ⟨g, frame, t', hg, hframe, hscript, hwrite⟩ := compressForClose_frame hrun
      have hkeep' : t'.KeepsFlushes := by
        unfold World.KeepsFlushes
        rw [hscript]
        exact hkeep
      exact ⟨g, frame, hg, hframe,
        (World.content_rename hmoved).trans (writeFile_ok hkeep' hwrite)⟩

/-- A disk with an archive, on which nothing can be renamed. -/
def noRename : World :=
  ⟨fun path ↦ if path = "a.ozl" then some ⟨[1, 2, 3], 0⟩ else none, 0,
    ⟨fun _ ↦ true, fun _ ↦ ⟨true, 0⟩, fun _ ↦ ⟨true, 0⟩, fun _ ↦ ⟨true, 0⟩, fun _ ↦ false⟩, 0⟩

/-- The archive is complete in its temporary file and cannot be moved. -/
theorem close_all_or_nothing_noRename : ∃ e w' h',
    OpenzlFileHandle.close .stored (noRename,
        { path := "openzl://a.ozl", writeBuffer := some [9], realPath := "a.ozl" }) =
      .error e (w', h') ∧
      w'.files "a.ozl" = some ⟨[1, 2, 3], 0⟩ ∧ w'.files "a.ozl.openzl_tmp" = none ∧
        OpenzlFileHandle.close .stored (w', h') = .ok () (w', h') := by
  generalize hh : ({ path := "openzl://a.ozl", writeBuffer := some [9], realPath := "a.ozl" } :
    OpenzlFileHandle) = h
  have hthrows : returns (OpenzlFileHandle.close .stored) (noRename, h) = false := by
    rw [← hh]
    decide +kernel
  cases hclose : OpenzlFileHandle.close .stored (noRename, h) with
  | ok u s =>
      rw [returns, hclose] at hthrows
      cases hthrows
  | error e s =>
      obtain ⟨w', h'⟩ := s
      have hbuffer : h.writeBuffer = some [9] := by rw [← hh]
      have hopen : h.closed = false := by rw [← hh]
      obtain ⟨htarget, htmp, hagain⟩ :=
        (close_all_or_nothing hbuffer hopen noRename w' h').1 e hclose
      have hreal : h.realPath = "a.ozl" := by rw [← hh]
      rw [OpenzlFileHandle.tmpPath, hreal] at htmp
      rw [hreal] at htarget
      exact ⟨e, w', h', rfl, htarget, htmp, hagain w'⟩

end DuckdbOpenzl
