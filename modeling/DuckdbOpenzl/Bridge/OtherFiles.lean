import DuckdbOpenzl.Bridge.ArchiveWriter

/-!
# What other files hold does not matter

Streams and the archive writer do the same, whatever is at a path that is not
theirs, and leave it as it is.
-/

set_option autoImplicit false

namespace DuckdbOpenzl

open ExceptionState

namespace World

def setFile (w : World) (path : Path) (file : Option File) : World :=
  { w with files := Function.update w.files path file }

variable {w : World} {path other : Path} {file : Option File}

@[simp] theorem setFile_script : (w.setFile other file).script = w.script := rfl

@[simp] theorem setFile_calls : (w.setFile other file).calls = w.calls := rfl

@[simp] theorem setFile_tick : (w.setFile other file).tick = w.tick.setFile other file := rfl

theorem content_setFile (h : path ≠ other) :
    (w.setFile other file).content path = w.content path := by
  simp [content, setFile, h]

theorem setFile_self : w.setFile other (w.files other) = w := by
  simp [setFile]

theorem put_setFile (h : path ≠ other) (bytes : Bytes) :
    (w.setFile other file).put path bytes = (w.put path bytes).setFile other file := by
  simp [put, setFile, Function.update_comm h]

theorem put_setFile_self (bytes : Bytes) :
    (w.setFile other file).put other bytes = w.setFile other (some ⟨bytes, w.now⟩) := by
  simp [put, setFile]

theorem remove_setFile_self : (w.setFile other file).remove other = w.setFile other none := by
  simp [remove, setFile]

theorem remove_setFile (h : path ≠ other) :
    (w.setFile other file).remove path = (w.remove path).setFile other file := by
  simp [remove, setFile, Function.update_comm h]

theorem store_setFile (h : path ≠ other) (bytes : Bytes) :
    (w.setFile other file).store path bytes = (w.store path bytes).setFile other file := by
  rw [store, store, content_setFile h, put_setFile h]

end World

variable {w : World} {other : Path} {file : Option File}

namespace OFStream

theorem openTrunc_setFile {path : Path} (h : path ≠ other) :
    openTrunc path (w.setFile other file) =
      ((openTrunc path w).1, (openTrunc path w).2.setFile other file) := by
  unfold openTrunc
  rw [World.setFile_script, World.setFile_calls, World.setFile_tick, World.put_setFile h]
  split <;> rfl

variable {s : OFStream}

theorem write_setFile (h : s.path ≠ other) (bytes : Bytes) :
    s.write bytes (w.setFile other file) =
      ((s.write bytes w).1, (s.write bytes w).2.setFile other file) := by
  unfold write accepted
  rw [World.setFile_script, World.setFile_calls, World.setFile_tick]
  dsimp only
  rw [World.content_setFile h, World.store_setFile h]
  split <;> rfl

theorem close_setFile (h : s.path ≠ other) :
    s.close (w.setFile other file) = ((s.close w).1, (s.close w).2.setFile other file) := by
  unfold close
  rw [World.setFile_script, World.setFile_calls, World.setFile_tick]
  dsimp only
  rw [World.store_setFile h]
  split <;> rfl

theorem destroy_setFile (h : s.path ≠ other) :
    s.destroy (w.setFile other file) = (s.destroy w).setFile other file := by
  unfold destroy
  rw [World.setFile_script, World.setFile_calls, World.setFile_tick]
  dsimp only
  rw [World.store_setFile h]
  split <;> rfl

end OFStream

theorem writeFile_setFile {path : Path} (h : path ≠ other) (contents : Bytes) :
    writeFile path contents (w.setFile other file) =
      mapState (·.setFile other file) (writeFile path contents w) := by
  have hpath : (OFStream.openTrunc path w).1.path ≠ other := by
    rw [OFStream.openTrunc_path]
    exact h
  have hwritten : ((OFStream.openTrunc path w).1.write contents
      (OFStream.openTrunc path w).2).1.path ≠ other := by
    rw [OFStream.write_path]
    exact hpath
  unfold writeFile
  dsimp only
  rw [OFStream.openTrunc_setFile h]
  dsimp only
  rw [OFStream.write_setFile hpath]
  dsimp only
  rw [OFStream.destroy_setFile hwritten]
  split
  · rfl
  · split <;> rfl

namespace ChunkedArchiveWriter

/-- Another file in the world of the writer. -/
def withFile (other : Path) (file : Option File) (s : World × ChunkedArchiveWriter) :
    World × ChunkedArchiveWriter :=
  (s.1.setFile other file, s.2)

variable {s : World × ChunkedArchiveWriter}

theorem appendFrame_withFile (h : s.2.out.path ≠ other) (frame : Bytes) :
    appendFrame frame (withFile other file s) =
      mapState (withFile other file) (appendFrame frame s) := by
  unfold appendFrame withFile
  dsimp only
  rw [OFStream.write_setFile h]
  dsimp only
  split <;> rfl

theorem startContainer_withFile (h : s.2.path ≠ other) :
    startContainer (withFile other file s) = mapState (withFile other file) (startContainer s) := by
  obtain ⟨w, a⟩ := s
  have hpath : (OFStream.openTrunc a.path w).1.path ≠ other := by
    rw [OFStream.openTrunc_path]
    exact h
  have hmagic : ((OFStream.openTrunc a.path w).1.write kContainerMagic
      (OFStream.openTrunc a.path w).2).1.path ≠ other := by
    rw [OFStream.write_path]
    exact hpath
  unfold startContainer withFile
  dsimp only
  rw [OFStream.openTrunc_setFile h]
  dsimp only
  rw [OFStream.write_setFile hpath]
  dsimp only
  rw [OFStream.write_setFile hmagic]
  dsimp only
  split <;> rfl

theorem append_withFile (h : s.2.path ≠ other) (hout : s.2.out.path = s.2.path) (frame : Bytes) :
    append frame (withFile other file s) = mapState (withFile other file) (append frame s) := by
  obtain ⟨w, a⟩ := s
  unfold append withFile
  dsimp only
  split
  · rfl
  · split
    · let t : World × ChunkedArchiveWriter := (w, { a with numChunks := a.numChunks + 1 })
      apply bind_mapState (f := withFile other file) (s := t) (startContainer_withFile h)
      intro u t' hstart
      have hstep : Step t t' := by
        have hstep := startContainer_step (s := t)
        rwa [stateAfter_of_ok hstart] at hstep
      apply appendFrame_withFile
      rw [hstep.outPath]
      exact h
    · have hframe : a.out.path ≠ other := by
        rw [hout]
        exact h
      exact appendFrame_withFile (s := (w, { a with numChunks := a.numChunks + 1 })) hframe frame

theorem finish_withFile (h : s.2.path ≠ other) (hout : s.2.out.path = s.2.path) :
    finish (withFile other file s) = mapState (withFile other file) (finish s) := by
  obtain ⟨w, a⟩ := s
  have hframe : a.out.path ≠ other := by
    rw [hout]
    exact h
  unfold finish withFile
  dsimp only
  split
  · rfl
  · split
    · rw [writeFile_setFile h]
      cases writeFile a.path a.first w <;> rfl
    · rw [OFStream.write_setFile hframe]
      dsimp only
      rw [OFStream.close_setFile (by rw [OFStream.write_path]; exact hframe)]
      dsimp only
      split <;> rfl

theorem destroy_withFile (h : s.2.path ≠ other) (hout : s.2.out.path = s.2.path) :
    destroy (withFile other file s) = (destroy s).setFile other file := by
  obtain ⟨w, a⟩ := s
  have hframe : a.out.path ≠ other := by
    rw [hout]
    exact h
  have habort : abort (withFile other file (w, a)) = withFile other file (abort (w, a)) := by
    unfold abort withFile
    dsimp only
    rw [OFStream.close_setFile hframe]
    dsimp only
    rw [World.remove_setFile h]
    split <;> rfl
  have habortPath : (abort (w, a)).2.out.path ≠ other := by
    have hstep := abort_step (s := (w, a)) hout
    rw [hstep.outPath]
    exact h
  unfold destroy
  dsimp only
  rw [habort]
  unfold withFile
  dsimp only
  split
  · exact OFStream.destroy_setFile habortPath
  · exact OFStream.destroy_setFile hframe

end ChunkedArchiveWriter

end DuckdbOpenzl
