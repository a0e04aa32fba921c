import DuckdbOpenzl.FileSystem.FileStore

/-!
# The file system refines the store

What relates a process to the store: every name holds its archive, every
handle its file, and a live buffer of the cache is what its path names now, if
the archive still has the size and mtime the buffer is tagged with. Each call
keeps this, so every interleaving of calls is answered as the store answers it.
-/

set_option autoImplicit false

namespace DuckdbOpenzl

open FileContent Refinement ArchiveSlot

/-! ## The relation -/

inductive HandleRep (names : Set Path) : Option OpenzlFileHandle → Option StoreHandle → Prop
  | free : HandleRep names none none
  | writer {h : OpenzlFileHandle} {f : OrdinaryFile} (buffer : h.writeBuffer = some f.content)
      (open_ : h.closed = false) (member : h.realPath ∈ names) (follows : Follows h f) :
      HandleRep names (some h) (some (.writer h.realPath f))
  | reader {h : OpenzlFileHandle} {f : OrdinaryFile} (buffer : h.writeBuffer = none)
      (open_ : h.closed = false) (follows : Follows h f) :
      HandleRep names (some h) (some (.reader f))
  | finished {h : OpenzlFileHandle} (closed : h.closed = true) :
      HandleRep names (some h) (some .finished)

theorem HandleRep.eq_none {names : Set Path} {ah : Option StoreHandle}
    (h : HandleRep names none ah) : ah = none := by
  cases h
  rfl

theorem HandleRep.reader_inv {names : Set Path} {h : OpenzlFileHandle} {f : OrdinaryFile}
    (hh : HandleRep names (some h) (some (.reader f))) : h.closed = false ∧ Follows h f := by
  cases hh with
  | reader _ open_ follows => exact ⟨open_, follows⟩

/-- A live buffer with the tag the archive has now is what its path names; a tag is never that of
a missing file. -/
structure SlotRep (zl : OpenZL) (w : World) (realPath : Path) (slot : ArchiveSlot) : Prop where
  allocated : slot.Allocated
  tagged : ∀ stat d, slot.Live stat d → stat ≠ {}
  fresh : ∀ d archive, slot.Live (statArchive (resolve realPath).1 w) d →
    Holds zl (resolve realPath).1 w archive →
      Archive.content archive (resolve realPath).2 = some d.bytes

structure Represents (zl : OpenZL) (names : Set Path) (s : FsProcess) (a : FileStore) : Prop where
  keepsFlushes : s.world.KeepsFlushes
  archives : ∀ p ∈ names, Holds zl p s.world (a.archives p)
  handles : ∀ id, HandleRep names (s.handles id) (a.handles id)
  slots : ∀ realPath, SlotRep zl s.world realPath (s.cache realPath)

/-- No archive is replaced by another of the size and mtime under which it is still buffered. -/
def Undisguised (s : FsProcess) (w : World) : Prop :=
  ∀ realPath d file, w.files (resolve realPath).1 = some file →
    (s.cache realPath).Live (statFile (some file)) d →
      s.world.files (resolve realPath).1 = some file

/-- The names a call may be about, and the calls a handle takes until it is closed. -/
def Permitted (names : Set Path) (s : FsProcess) : FsCall → Prop
  | .openFile _ path _ _ => canHandleFile path = true ∧ (resolve (stripScheme path)).1 ∈ names
  | .call id c => ∀ h, s.handles id = some h →
      h.closed = false ∧ c.Ordinary ∧ c.Fits h.position
  | .close _ => True
  | .destroy _ => True
  | .glob path => canHandleFile path = true ∧ (resolve (stripScheme path)).1 ∈ names
  | .fileExists path => canHandleFile path = true ∧ (resolve (stripScheme path)).1 ∈ names
  | .tryRemoveFile path => canHandleFile path = true ∧ (resolve (stripScheme path)).1 ∈ names
  | .removeFile path => canHandleFile path = true ∧ (resolve (stripScheme path)).1 ∈ names
  | .moveFile source target => OpenzlFileSystem.localPath source ∈ names ∧
      OpenzlFileSystem.localPath target ∈ names
  | .elapse _ => True

structure PermittedStep (zl : OpenZL) (names : Set Path) (s : FsProcess) (call : FsCall)
    (reply : FsReply) (s' : FsProcess) : Prop where
  step : FsStep zl s call reply s'
  permitted : Permitted names s call
  undisguised : Undisguised s s'.world

/-! ## What changes of a process keep -/

section

variable {zl : OpenZL} {names : Set Path} {s : FsProcess} {a : FileStore} {w w' : World}
  {realPath : Path} {slot : ArchiveSlot}

namespace SlotRep

theorem empty : SlotRep zl w realPath {} where
  allocated := ⟨fun _ hd ↦ absurd hd List.not_mem_nil, fun _ hd ↦ absurd hd List.not_mem_nil⟩
  tagged := fun _ _ hlive ↦ absurd hlive.held List.not_mem_nil
  fresh := fun _ _ hlive ↦ absurd hlive.held List.not_mem_nil

theorem hold {data : SharedString} (h : SlotRep zl w realPath slot) (hdata : data ∈ slot.held) :
    SlotRep zl w realPath (slot.hold data) where
  allocated := h.allocated.hold hdata
  tagged := fun stat d hlive ↦ h.tagged stat d (hlive.of_hold hdata)
  fresh := fun d archive hlive ↦ h.fresh d archive (hlive.of_hold hdata)

theorem release (h : SlotRep zl w realPath slot) (data : SharedString) :
    SlotRep zl w realPath (slot.release data) where
  allocated := h.allocated.release
  tagged := fun stat d hlive ↦ h.tagged stat d hlive.of_release
  fresh := fun d archive hlive ↦ h.fresh d archive hlive.of_release

/-- What was decompressed just now is what the path names. -/
theorem store {bytes : Bytes} (h : SlotRep zl w realPath slot)
    (hfile : (w.files (resolve realPath).1).isSome)
    (hdecompress : decompressArchive zl (resolve realPath) w = .ok bytes w) :
    SlotRep zl w realPath ((slot.store bytes (statArchive (resolve realPath).1 w)).2.hold
      (slot.store bytes (statArchive (resolve realPath).1 w)).1) where
  allocated := h.allocated.store rfl
  tagged := by
    intro stat d hlive htag
    obtain ⟨file, hfile⟩ := Option.isSome_iff_exists.mp hfile
    have hstat := (Live.of_store h.allocated rfl hlive).2
    rw [htag, statArchive, hfile, statFile] at hstat
    have hsize : (-1 : ℤ) = file.content.length := congrArg ArchiveStat.size hstat
    omega
  fresh := by
    intro d archive hlive hholds
    rw [(Live.of_store h.allocated rfl hlive).1]
    rcases hholds.decompress (resolve realPath).2 with ⟨bytes', hcontent, -, hrun⟩ | ⟨-, e, hrun⟩
    · rw [hcontent]
      exact congrArg some (EStateM.Result.ok.inj (hrun.symm.trans hdecompress)).1
    · cases hrun.symm.trans hdecompress

end SlotRep

namespace Represents

theorem setHandle {h : Option OpenzlFileHandle} {ah : Option StoreHandle}
    (hrep : Represents zl names s a) (id : ℕ) (hh : HandleRep names h ah) :
    Represents zl names (s.setHandle id h) (a.setHandle id ah) where
  keepsFlushes := hrep.keepsFlushes
  archives := hrep.archives
  handles := by
    intro other
    by_cases heq : other = id
    · subst heq
      simpa [FsProcess.setHandle, FileStore.setHandle] using hh
    · simpa [FsProcess.setHandle, FileStore.setHandle, heq] using hrep.handles other
  slots := hrep.slots

theorem setSlot (hrep : Represents zl names s a)
    (hslot : SlotRep zl s.world realPath slot) :
    Represents zl names { s with cache := Function.update s.cache realPath slot } a where
  keepsFlushes := hrep.keepsFlushes
  archives := hrep.archives
  handles := hrep.handles
  slots := by
    intro other
    by_cases heq : other = realPath
    · subst heq
      simpa using hslot
    · simpa [heq] using hrep.slots other

/-- The disk may change under the buffers as long as no archive is disguised. -/
theorem setWorld {b : FileStore} (hrep : Represents zl names s a)
    (hscript : w'.script = s.world.script) (hhandles : b.handles = a.handles)
    (harchives : ∀ p ∈ names, Holds zl p w' (b.archives p)) (hsafe : Undisguised s w') :
    Represents zl names { s with world := w' } b where
  keepsFlushes := by
    simp only [World.KeepsFlushes, hscript]
    exact hrep.keepsFlushes
  archives := harchives
  handles := by
    rw [hhandles]
    exact hrep.handles
  slots := by
    intro rp
    have hslot := hrep.slots rp
    refine ⟨hslot.allocated, hslot.tagged, ?_⟩
    intro d archive hlive hholds
    dsimp only at hlive hholds
    cases hfile : w'.files (resolve rp).1 with
    | none =>
        refine absurd ?_ (hslot.tagged _ d hlive)
        rw [statArchive, hfile, statFile]
    | some file =>
        rw [statArchive, hfile] at hlive
        have hsame : s.world.files (resolve rp).1 = some file := hsafe rp d file hfile hlive
        apply hslot.fresh d archive
        · rw [statArchive, hsame]
          exact hlive
        · apply hholds.congr
          rw [World.content, World.content, hsame, hfile]

theorem tick (hrep : Represents zl names s a) (hfiles : w'.files = s.world.files)
    (hscript : w'.script = s.world.script) : Represents zl names { s with world := w' } a := by
  apply hrep.setWorld hscript rfl
  · intro p hp
    apply (hrep.archives p hp).congr
    rw [World.content, World.content, hfiles]
  · intro rp d file hfile hlive
    rw [← hfiles]
    exact hfile

end Represents

/-! ## Opening -/

theorem openFile_writing (zl : OpenZL) (path : String) {flags : FileOpenFlags} (o : OpenerSettings)
    (t : World × ArchiveCache) (hwrites : flags.writing = true) :
    (∃ h, openForWriting path flags o = .ok h ∧ openFile zl path flags o t = .ok h t) ∨
      ∃ e, openForWriting path flags o = .error e ∧ openFile zl path flags o t = .error e t := by
  unfold openFile
  rw [if_pos hwrites]
  cases openForWriting path flags o with
  | ok h => exact .inl ⟨h, rfl, rfl⟩
  | error e => exact .inr ⟨e, rfl, rfl⟩

theorem openForWriting_error {path : String} {flags : FileOpenFlags} {o : OpenerSettings}
    {e : Exception} (h : openForWriting path flags o = .error e) :
    (resolve (stripScheme path)).2.isSome ∨ flags.appending = true ∨ flags.reading = true := by
  unfold openForWriting at h
  dsimp only at h
  split at h
  · rename_i hflags
    simp only [Bool.or_eq_true, or_assoc] at hflags
    refine hflags.imp_left ?_
    intro hchunk
    obtain ⟨r, hr⟩ := Option.isSome_iff_exists.mp hchunk
    rw [resolve, hr]
    rfl
  · cases h

namespace Represents

variable {path : String} {flags : FileOpenFlags} {o : OpenerSettings} {id : ℕ}

theorem free (hrep : Represents zl names s a) (hfree : s.handles id = none) :
    a.handles id = none := by
  have hid := hrep.handles id
  rw [hfree] at hid
  exact hid.eq_none

theorem openFile_write (hrep : Represents zl names s a) (hwrites : flags.writing = true)
    (hname : (resolve (stripScheme path)).1 ∈ names) (hfree : s.handles id = none)
    {h : OpenzlFileHandle} (hok : openForWriting path flags o = .ok h) :
    ∃ b, StoreStep a (.openFile id path flags o) .done b ∧
      Represents zl names (s.setHandle id (some h)) b := by
  obtain ⟨hsplit, hreal, -, hclosed, hbuffer, hposition⟩ := openForWriting_ok hok
  have hresolve := resolve_of_none hsplit
  refine ⟨_, .create (hrep.free hfree) (by rw [hresolve]) hwrites, hrep.setHandle id ?_⟩
  rw [hresolve] at hname ⊢
  rw [← hreal] at hname ⊢
  refine .writer hbuffer hclosed hname ⟨?_, hposition, by simp, by simp⟩
  rw [OpenzlFileHandle.bytes, hbuffer]

theorem openFile_read (hrep : Represents zl names s a) (hreads : flags.writing = false)
    (hname : (resolve (stripScheme path)).1 ∈ names) :
    (∃ h cache bytes, openFile zl path flags o (s.world, s.cache) = .ok h (s.world, cache) ∧
      a.content path = some bytes ∧ HandleRep names (some h) (some (.reader ⟨bytes, 0⟩)) ∧
        Represents zl names { s with cache := cache } a) ∨
    ∃ e, openFile zl path flags o (s.world, s.cache) = .error e (s.world, s.cache) ∧
      a.content path = none := by
  have hopen : openFile zl path flags o (s.world, s.cache) =
      openForReading zl path (s.world, s.cache) := by
    unfold openFile
    rw [hreads]
    rfl
  have hholds := hrep.archives _ hname
  have hslot := hrep.slots (stripScheme path)
  rw [hopen]
  unfold openForReading
  dsimp only
  cases hlookup : (s.cache (stripScheme path)).lookup
      (statArchive (resolve (stripScheme path)).1 s.world) with
  | some data =>
      have hlive := live_of_lookup hlookup
      have hcontent : a.content path = some data.bytes := hslot.fresh data _ hlive hholds
      have hlength : data.bytes.length < 2 ^ 63 := by
        rcases hholds.decompress (resolve (stripScheme path)).2 with
          ⟨bytes, hbytes, hlength, -⟩ | ⟨hnone, -⟩
        · obtain rfl := Option.some.inj (hcontent.symm.trans hbytes)
          exact hlength
        · cases hcontent.symm.trans hnone
      refine .inl ⟨_, _, data.bytes, rfl, hcontent, ?_, hrep.setSlot (hslot.hold hlive.held)⟩
      exact .reader rfl rfl ⟨rfl, rfl, hlength, by simp⟩
  | none =>
      rcases hholds.decompress (resolve (stripScheme path)).2 with
        ⟨bytes, hcontent, hlength, hrun⟩ | ⟨hnone, e, hrun⟩
      · have hrun' : decompressArchive zl (resolve (stripScheme path)) s.world =
            .ok bytes s.world := hrun
        have hfile : (s.world.files (resolve (stripScheme path)).1).isSome := by
          rw [← Option.isSome_map, ← World.content, hholds.content_isSome]
          cases harchive : a.archives (resolve (stripScheme path)).1 with
          | none =>
              rw [harchive] at hcontent
              cases (resolve (stripScheme path)).2 <;> cases hcontent
          | some archive => rfl
        rw [hrun']
        refine .inl ⟨_, _, bytes, rfl, hcontent, ?_, hrep.setSlot (hslot.store hfile hrun')⟩
        exact .reader rfl rfl ⟨rfl, rfl, hlength, by simp⟩
      · refine .inr ⟨rethrown e, ?_, hnone⟩
        rw [show decompressArchive zl (resolve (stripScheme path)) s.world = .error e s.world
          from hrun]

end Represents

/-! ## Calls on a handle -/

theorem FsProcess.setHandle_self {id : ℕ} {h : OpenzlFileHandle} (hid : s.handles id = some h) :
    s.setHandle id (some h) = s := by
  unfold FsProcess.setHandle
  rw [← hid, Function.update_eq_self]

theorem OrdinaryFile.run_content {f : OrdinaryFile} {c : FileCall} (hedits : c.edits = false) :
    (f.run c).2.content = f.content := by
  cases c with
  | write bytes => cases hedits
  | writeAt bytes location => cases hedits
  | truncate newSize => cases hedits
  | readAt nrBytes location =>
      unfold OrdinaryFile.run
      dsimp only
      split_ifs <;> rfl
  | read nrBytes => rfl
  | seek location => rfl
  | reset => rfl
  | getFileSize => rfl
  | seekPosition => rfl

/-- A call that is permitted gets the store's reply, and leaves the store's handle. -/
theorem HandleRep.run {h : OpenzlFileHandle} {ah : Option StoreHandle} {c : FileCall}
    (hh : HandleRep names (some h) ah) (hclosed : h.closed = false) (hc : c.Ordinary)
    (hfits : c.Fits h.position) :
    ∃ ah', ah = some ah' ∧ (h.run c).1 = (ah'.run c).1 ∧
      HandleRep names (some (h.run c).2) (some (ah'.run c).2) := by
  cases hh with
  | @writer h f buffer open_ member follows =>
      cases hedits : c.edits with
      | true =>
          rw [follows.position] at hfits
          obtain ⟨hreply, hfollows, hhandle⟩ := follows.run_of_edits buffer hc hfits hedits
          refine ⟨_, rfl, hreply, ?_⟩
          rw [hhandle] at hfollows ⊢
          exact .writer (h := { h with writeBuffer := _, position := _ }) rfl open_ member hfollows
      | false =>
          obtain ⟨hreply, hfollows, hhandle⟩ := follows.run_of_not_edits hc hedits
          refine ⟨_, rfl, hreply, ?_⟩
          rw [hhandle] at hfollows ⊢
          refine .writer (h := { h with position := _ }) ?_ open_ member hfollows
          rw [OrdinaryFile.run_content hedits]
          exact buffer
  | @reader h f buffer open_ follows =>
      cases hedits : c.edits with
      | true =>
          refine ⟨_, rfl, ?_⟩
          rw [run_of_reader buffer hedits, StoreHandle.run, if_pos hedits]
          exact ⟨rfl, .reader buffer open_ follows⟩
      | false =>
          obtain ⟨hreply, hfollows, hhandle⟩ := follows.run_of_not_edits hc hedits
          refine ⟨_, rfl, ?_⟩
          rw [StoreHandle.run, hedits, if_neg Bool.false_ne_true]
          rw [hhandle] at hfollows ⊢
          exact ⟨hreply, .reader (h := { h with position := _ }) buffer open_ hfollows⟩
  | finished closed =>
      rw [hclosed] at closed
      cases closed

/-! ## Closing -/

/-- A `Close` that returns puts a frame of the buffer in place and touches nothing else. -/
theorem close_ok_files {h h' : OpenzlFileHandle} {buffer : Bytes}
    (hbuffer : h.writeBuffer = some buffer) (hopen : h.closed = false)
    (hok : OpenzlFileHandle.close zl (w, h) = .ok () (w', h')) :
    h'.closed = true ∧ w'.script = w.script ∧
      ∀ p, p ≠ h.realPath → p ≠ h.tmpPath → w'.files p = w.files p := by
  rcases close_cases zl w hbuffer hopen with ⟨e, t, -, hclose⟩ |
    ⟨t, hrun, ⟨-, hclose⟩ | ⟨hmoved, hclose⟩⟩
  · cases hok.symm.trans hclose
  · cases hok.symm.trans hclose
  · obtain ⟨rfl, rfl⟩ := Prod.mk.inj (EStateM.Result.ok.inj (hok.symm.trans hclose)).2
    have htouches := compressForClose_touches zl buffer h.tmpPath h.writeSettings w
    rw [ExceptionState.stateAfter_of_ok hrun] at htouches
    rcases t.rename_cases h.tmpPath h.realPath with hrename | ⟨-, hrename⟩
    · rw [hrename] at hmoved
      cases hmoved
    · rw [hrename]
      refine ⟨rfl, htouches.script, ?_⟩
      intro p hreal htmp
      simp only [World.moved]
      rw [Function.update_of_ne hreal, Function.update_of_ne htmp]
      exact htouches.files p htmp

theorem close_error_files {h h' : OpenzlFileHandle} {buffer : Bytes} {e : Exception}
    (hbuffer : h.writeBuffer = some buffer) (hopen : h.closed = false)
    (hclose : OpenzlFileHandle.close zl (w, h) = .error e (w', h')) :
    h'.closed = true ∧ w'.script = w.script ∧ ∀ p, p ≠ h.tmpPath → w'.files p = w.files p := by
  obtain ⟨t, ht, rfl⟩ := close_error_touches hbuffer hopen hclose
  have htouches := ht.trans (.remove _ _)
  refine ⟨?_, htouches.script, fun p hp ↦ htouches.files p hp⟩
  rcases close_cases zl w hbuffer hopen with ⟨e', t', -, hclose'⟩ |
    ⟨t', -, ⟨-, hclose'⟩ | ⟨-, hclose'⟩⟩
  · obtain ⟨-, rfl⟩ := Prod.mk.inj (EStateM.Result.error.inj (hclose.symm.trans hclose')).2
    rfl
  · obtain ⟨-, rfl⟩ := Prod.mk.inj (EStateM.Result.error.inj (hclose.symm.trans hclose')).2
    rfl
  · cases hclose.symm.trans hclose'

namespace Represents

variable {id : ℕ} {h h' : OpenzlFileHandle}

theorem close_ok (hzl : zl.Lawful) (hapart : ∀ p ∈ names, p ++ ".openzl_tmp" ∉ names)
    (hrep : Represents zl names s a) (hid : s.handles id = some h)
    (hok : OpenzlFileHandle.close zl (s.world, h) = .ok () (w', h')) (hsafe : Undisguised s w') :
    ∃ b, StoreStep a (.close id) .done b ∧
      Represents zl names { s.setHandle id (some h') with world := w' } b := by
  have hh := hrep.handles id
  rw [hid] at hh
  have hagain : (h.writeBuffer = none ∨ h.closed = true) →
      { s.setHandle id (some h') with world := w' } = s := by
    intro hdone
    obtain ⟨rfl, rfl⟩ := Prod.mk.inj (EStateM.Result.ok.inj
      ((close_again s.world hdone).symm.trans hok)).2
    exact FsProcess.setHandle_self hid
  generalize hah : a.handles id = ah at hh
  cases hh with
  | @writer h f buffer open_ member follows =>
      obtain ⟨hclosed, hscript, hothers⟩ := close_ok_files buffer open_ hok
      obtain ⟨cctx, frame, hframe, hcontent⟩ :=
        DuckdbOpenzl.close_ok hrep.keepsFlushes buffer open_ hok
      refine ⟨_, .publish hah, ?_⟩
      have hworld : Represents zl names { s with world := w' }
          (a.setArchive h.realPath (some (.file f.content))) := by
        refine hrep.setWorld hscript (by rfl) ?_ hsafe
        intro p hp
        by_cases hreal : p = h.realPath
        · subst hreal
          rw [FileStore.setArchive_self]
          exact ⟨follows.length_lt, frame, ⟨hcontent, hzl.magic cctx _ frame hframe⟩,
            hzl.decompress cctx _ frame hframe⟩
        · rw [FileStore.setArchive_of_ne _ _ hreal]
          apply (hrep.archives p hp).congr
          have htmp : p ≠ h.tmpPath := by
            rintro rfl
            exact hapart h.realPath member hp
          rw [World.content, World.content, hothers p hreal htmp]
      exact hworld.setHandle id (.finished hclosed)
  | reader buffer open_ follows =>
      rw [hagain (.inl buffer)]
      exact ⟨a, .closeAgain hah (fun _ _ heq ↦ (by cases heq)), hrep⟩
  | finished closed =>
      rw [hagain (.inr closed)]
      exact ⟨a, .closeAgain hah (fun _ _ heq ↦ (by cases heq)), hrep⟩

theorem close_error {e : Exception} (hapart : ∀ p ∈ names, p ++ ".openzl_tmp" ∉ names)
    (hrep : Represents zl names s a) (hid : s.handles id = some h)
    (herr : OpenzlFileHandle.close zl (s.world, h) = .error e (w', h')) (hsafe : Undisguised s w') :
    ∃ b, StoreStep a (.close id) (.thrown e) b ∧
      Represents zl names { s.setHandle id (some h') with world := w' } b := by
  have hh := hrep.handles id
  rw [hid] at hh
  generalize hah : a.handles id = ah at hh
  cases hh with
  | @writer h f buffer open_ member follows =>
      obtain ⟨hclosed, hscript, hothers⟩ := close_error_files buffer open_ herr
      refine ⟨_, .abandon e hah, ?_⟩
      have hworld : Represents zl names { s with world := w' } a := by
        refine hrep.setWorld hscript (by rfl) ?_ hsafe
        intro p hp
        apply (hrep.archives p hp).congr
        have htmp : p ≠ h.tmpPath := by
          rintro rfl
          exact hapart h.realPath member hp
        rw [World.content, World.content, hothers p htmp]
      exact hworld.setHandle id (.finished hclosed)
  | reader buffer open_ follows => cases (close_again s.world (.inl buffer)).symm.trans herr
  | finished closed => cases (close_again s.world (.inr closed)).symm.trans herr

end Represents

/-! ## Names -/

theorem eq_scheme_append {p : String} (h : canHandleFile p = true) :
    p = "openzl://" ++ stripScheme p := by
  have htake : p.toList.take schemeLen = scheme.toList := by simpa [canHandleFile] using h
  have hdrop : (stripScheme p).toList = p.toList.drop schemeLen := String.toList_ofList
  rw [← String.toList_inj, String.toList_append, hdrop]
  exact ((congrArg (· ++ p.toList.drop schemeLen) htake).symm.trans
    (List.take_append_drop schemeLen p.toList)).symm

/-- A listing reads the disk only, and lists what the store lists. -/
theorem Holds.glob {p : String} {archive : Option Archive}
    (h : Holds zl (resolve (stripScheme p)).1 w archive) (hscheme : canHandleFile p = true)
    (harchive : a.archives (resolve (stripScheme p)).1 = archive) :
    DuckdbOpenzl.glob p w = .ok (a.listing p) w := by
  have hpath : p = "openzl://" ++ stripScheme p := eq_scheme_append hscheme
  unfold FileStore.listing
  rw [harchive]
  cases hsplit : splitChunkSuffix (stripScheme p) with
  | some r =>
      rw [resolve, hsplit]
      unfold DuckdbOpenzl.glob
      rw [hsplit]
      rfl
  | none =>
      have hresolve := resolve_of_none hsplit
      rw [hresolve] at h ⊢
      cases archive with
      | none =>
          have hexists : opened (stripScheme p) (fun file ↦ .ok file.isSome) w = .ok false w :=
            opened_eq_ok_iff.mpr ⟨by rw [show w.content (stripScheme p) = none from h]; rfl, rfl⟩
          unfold DuckdbOpenzl.glob
          rw [hsplit, if_neg (by simp)]
          unfold EStateM.adaptExcept globArchive
          rw [ExceptionState.bind_apply, hexists]
          rfl
      | some ar =>
          cases ar with
          | file bytes =>
              obtain ⟨-, frame, hframe, -⟩ := h
              have hglob := hframe.glob hsplit
              rwa [← hpath] at hglob
          | chunks files =>
              obtain ⟨frames, hframes, hdecode⟩ := h
              have hglob := hframes.glob hsplit
              rw [← hpath, hdecode.length_eq] at hglob
              exact hglob

namespace Represents

variable {path source target : String}

theorem fileExists (hrep : Represents zl names s a) (hscheme : canHandleFile path = true)
    (hname : (resolve (stripScheme path)).1 ∈ names) :
    OpenzlFileSystem.fileExists path s.world =
      (a.archives (resolve (stripScheme path)).1).isSome := by
  unfold OpenzlFileSystem.fileExists DuckdbOpenzl.fileExists
  rw [hscheme, Bool.true_and]
  exact (hrep.archives _ hname).content_isSome

theorem remove (hrep : Represents zl names s a)
    (hsafe : Undisguised s (s.world.remove path)) :
    Represents zl names { s with world := s.world.remove path } (a.setArchive path none) := by
  have hscript : (s.world.remove path).script = s.world.script := rfl
  refine hrep.setWorld hscript (by rfl) ?_ hsafe
  intro p hp
  by_cases heq : p = path
  · subst heq
    rw [FileStore.setArchive_self]
    exact World.content_remove_self ..
  · rw [FileStore.setArchive_of_ne _ _ heq]
    exact (hrep.archives p hp).congr (World.content_remove_of_ne _ heq)

theorem move (hrep : Represents zl names s a) (hsource : source ∈ names)
    (hsafe : Undisguised s (s.world.moved source target)) :
    Represents zl names { s with world := s.world.moved source target }
      ((a.setArchive source none).setArchive target (a.archives source)) := by
  have hscript : (s.world.moved source target).script = s.world.script := rfl
  refine hrep.setWorld hscript (by rfl) ?_ hsafe
  intro p hp
  by_cases htarget : p = target
  · subst htarget
    rw [FileStore.setArchive_self]
    exact (hrep.archives source hsource).congr (World.content_moved_target _)
  · rw [FileStore.setArchive_of_ne _ _ htarget]
    by_cases heq : p = source
    · subst heq
      rw [FileStore.setArchive_self]
      exact World.content_moved_source _ htarget
    · rw [FileStore.setArchive_of_ne _ _ heq]
      exact (hrep.archives p hp).congr (World.content_moved_of_ne _ heq htarget)

/-- The name a removal is about when it does not refuse a chunk. -/
theorem tryRemove {permitted removed : Bool} (hrep : Represents zl names s a)
    (hscheme : canHandleFile path = true) (hname : (resolve (stripScheme path)).1 ∈ names)
    (hrun : OpenzlFileSystem.tryRemoveFile permitted path s.world = .ok removed w')
    (hsafe : Undisguised s w') :
    (resolve (stripScheme path)).2 = none ∧
      ((removed = true ∧ (a.archives (resolve (stripScheme path)).1).isSome ∧
        Represents zl names { s with world := w' }
          (a.setArchive (resolve (stripScheme path)).1 none)) ∨
      (removed = false ∧ Represents zl names { s with world := w' } a)) := by
  rcases OpenzlFileSystem.tryRemoveFile_ok hrun with
    ⟨rfl, -, hresolve, hpresent, rfl⟩ | ⟨rfl, rfl, hchunk⟩
  · rw [hresolve] at hname ⊢
    refine ⟨rfl, .inl ⟨rfl, ?_, hrep.remove hsafe⟩⟩
    rw [← (hrep.archives _ hname).content_isSome, World.content, Option.isSome_map]
    exact hpresent
  · have hsplit : splitChunkSuffix (stripScheme path) = none := by simpa using hchunk hscheme
    exact ⟨by rw [resolve_of_none hsplit], .inr ⟨rfl, hrep⟩⟩

/-- Every reply to an open is one the store may give. -/
theorem openFile_step {flags : FileOpenFlags} {o : OpenerSettings} {id : ℕ} {cache : ArchiveCache}
    (hrep : Represents zl names s a) (hname : (resolve (stripScheme path)).1 ∈ names) :
    (∀ h, s.handles id = none →
      openFile zl path flags o (s.world, s.cache) = .ok h (w', cache) →
      ∃ b, StoreStep a (.openFile id path flags o) .done b ∧ Represents zl names
        { world := w', cache := cache, handles := Function.update s.handles id (some h) } b) ∧
    ∀ e, openFile zl path flags o (s.world, s.cache) = .error e (w', cache) →
      ∃ b, StoreStep a (.openFile id path flags o) (.thrown e) b ∧
        Represents zl names { s with world := w', cache := cache } b := by
  cases hwrites : flags.writing with
  | true =>
      rcases openFile_writing zl path o (s.world, s.cache) hwrites with
        ⟨h₀, hok, hrun⟩ | ⟨e₀, herr, hrun⟩
      · rw [hrun]
        refine ⟨?_, fun e hrun' ↦ (by cases hrun')⟩
        intro h hfree hrun'
        obtain ⟨rfl, hstate⟩ := EStateM.Result.ok.inj hrun'
        obtain ⟨rfl, rfl⟩ := Prod.mk.inj hstate
        exact hrep.openFile_write hwrites hname hfree hok
      · rw [hrun]
        refine ⟨fun h _ hrun' ↦ (by cases hrun'), ?_⟩
        intro e hrun'
        obtain ⟨rfl, hstate⟩ := EStateM.Result.error.inj hrun'
        obtain ⟨rfl, rfl⟩ := Prod.mk.inj hstate
        exact ⟨a, .refuse e₀ hwrites (openForWriting_error herr), hrep⟩
  | false =>
      rcases hrep.openFile_read (o := o) hwrites hname with
        ⟨h₀, cache₀, bytes, hrun, hcontent, hh, hcache⟩ | ⟨e₀, hrun, hcontent⟩
      · rw [hrun]
        refine ⟨?_, fun e hrun' ↦ (by cases hrun')⟩
        intro h hfree hrun'
        obtain ⟨rfl, hstate⟩ := EStateM.Result.ok.inj hrun'
        obtain ⟨rfl, rfl⟩ := Prod.mk.inj hstate
        exact ⟨_, .open (hrep.free hfree) hwrites hcontent, hcache.setHandle id hh⟩
      · rw [hrun]
        refine ⟨fun h _ hrun' ↦ (by cases hrun'), ?_⟩
        intro e hrun'
        obtain ⟨rfl, hstate⟩ := EStateM.Result.error.inj hrun'
        obtain ⟨rfl, rfl⟩ := Prod.mk.inj hstate
        exact ⟨a, .missing e₀ hwrites hcontent, hrep⟩

theorem call_step {id : ℕ} {h : OpenzlFileHandle} {c : FileCall} (hrep : Represents zl names s a)
    (hid : s.handles id = some h) (hclosed : h.closed = false) (hc : c.Ordinary)
    (hfits : c.Fits h.position) :
    ∃ b, StoreStep a (.call id c) (.file (h.run c).1) b ∧
      Represents zl names (s.setHandle id (some (h.run c).2)) b := by
  have hh := hrep.handles id
  rw [hid] at hh
  obtain ⟨ah, hah, hreply, hnext⟩ := hh.run hclosed hc hfits
  rw [hreply]
  exact ⟨_, .call c hah, hrep.setHandle id hnext⟩

/-- Dropping a handle drops its share of a buffer. -/
theorem destroy_step {id : ℕ} {h : OpenzlFileHandle} (hrep : Represents zl names s a) :
    Represents zl names { s.setHandle id none with cache := s.released h }
      (a.setHandle id none) := by
  have hcache : Represents zl names { s with cache := s.released h } a := by
    unfold FsProcess.released
    cases h.data with
    | none => exact hrep
    | some data => exact hrep.setSlot ((hrep.slots _).release data)
  exact hcache.setHandle id .free

end Represents

/-! ## Every call, every run -/

/-- Whatever the file system replies to a call, the store may reply as well. -/
theorem store_simulates (hzl : zl.Lawful) (hapart : ∀ p ∈ names, p ++ ".openzl_tmp" ∉ names) :
    Simulates (PermittedStep zl names) StoreStep (Represents zl names) := by
  rintro s a call reply t hrep ⟨hstep, hperm, hsafe⟩
  cases hstep with
  | @openFile id path flags o h w cache free run =>
      exact (hrep.openFile_step hperm.2).1 h free run
  | @openFileThrown id path flags o e w cache run =>
      exact (hrep.openFile_step hperm.2).2 e run
  | @call id h c handle =>
      obtain ⟨hclosed, hc, hfits⟩ := hperm h handle
      exact hrep.call_step handle hclosed hc hfits
  | close handle run => exact hrep.close_ok hzl hapart handle run hsafe
  | closeThrown handle run => exact hrep.close_error hapart handle run hsafe
  | destroy handle => exact ⟨_, .destroy, hrep.destroy_step⟩
  | @glob path ps w run =>
      have hlisting := (hrep.archives _ hperm.2).glob hperm.1 rfl
      obtain ⟨rfl, rfl⟩ := EStateM.Result.ok.inj (run.symm.trans hlisting)
      exact ⟨a, .glob, hrep⟩
  | @globThrown path e w run =>
      cases run.symm.trans ((hrep.archives _ hperm.2).glob hperm.1 rfl)
  | fileExists filename =>
      rw [hrep.fileExists hperm.1 hperm.2]
      exact ⟨a, .fileExists, hrep⟩
  | tryRemoveFile run =>
      obtain ⟨hwhole, ⟨rfl, hpresent, hnext⟩ | ⟨rfl, hnext⟩⟩ :=
        hrep.tryRemove hperm.1 hperm.2 run hsafe
      · exact ⟨_, .tryRemove hwhole hpresent, hnext⟩
      · exact ⟨a, .notRemoved hwhole, hnext⟩
  | @tryRemoveFileThrown permitted filename e w run =>
      obtain ⟨-, hchunk, rfl⟩ := OpenzlFileSystem.tryRemoveFile_error run
      refine ⟨a, .chunkKept e ?_, hrep⟩
      obtain ⟨r, hr⟩ := Option.isSome_iff_exists.mp hchunk
      rw [resolve, hr]
      rfl
  | removeFile run =>
      obtain ⟨hwhole, ⟨-, hpresent, hnext⟩ | ⟨hfalse, -⟩⟩ :=
        hrep.tryRemove hperm.1 hperm.2 (OpenzlFileSystem.removeFile_ok run) hsafe
      · exact ⟨_, .remove hwhole hpresent, hnext⟩
      · cases hfalse
  | @removeFileThrown permitted filename e w run =>
      obtain rfl := OpenzlFileSystem.removeFile_error run
      exact ⟨a, .removeFailed e, hrep⟩
  | @moveFile source target w run =>
      obtain ⟨hpresent, rfl⟩ := OpenzlFileSystem.moveFile_ok run
      refine ⟨_, .move ?_, hrep.move hperm.1 hsafe⟩
      rw [← (hrep.archives _ hperm.1).content_isSome, World.content, Option.isSome_map]
      exact hpresent
  | @moveFileThrown source target e w run =>
      obtain rfl := OpenzlFileSystem.moveFile_error run
      exact ⟨a, .moveFailed e, hrep.tick rfl rfl⟩
  | elapse seconds => exact ⟨a, .elapse seconds, hrep.tick rfl rfl⟩

/-- A process that starts with no handles open and with these archives on its disk. -/
theorem Represents.initial {archives : Path → Option Archive} (hkeep : w.KeepsFlushes)
    (harchives : ∀ p ∈ names, Holds zl p w (archives p)) :
    Represents zl names { world := w } { archives := archives } where
  keepsFlushes := hkeep
  archives := harchives
  handles := fun _ ↦ .free
  slots := fun _ ↦ .empty

/-- Every interleaving of calls on any number of handles and names is answered as a store of
files answers it, and leaves on the disk what the store then holds. -/
theorem openzl_refines_store (hzl : zl.Lawful) (hapart : ∀ p ∈ names, p ++ ".openzl_tmp" ∉ names)
    {archives : Path → Option Archive} (hkeep : w.KeepsFlushes)
    (harchives : ∀ p ∈ names, Holds zl p w (archives p)) {t : FsProcess}
    {trace : List (FsCall × FsReply)}
    (hrun : Run (PermittedStep zl names) { world := w } trace t) :
    ∃ b, Run StoreStep { archives := archives } trace b ∧
      ∀ p ∈ names, Holds zl p t.world (b.archives p) := by
  obtain ⟨b, hspec, hrep⟩ := hrun.simulated (store_simulates hzl hapart)
    (Represents.initial hkeep harchives)
  exact ⟨b, hspec, hrep.archives⟩

end

/-- The one archive `a`, which holds the byte 7. -/
def oneArchive : World := World.empty.put "a" [0, 7]

theorem oneArchive_holds : ∀ p ∈ ({"a"} : Set Path), Holds .stored p oneArchive
    (some (.file [7])) := by
  rintro p rfl
  refine ⟨by decide, [0, 7], ⟨World.content_put_self .., by decide⟩, rfl⟩

/-- An archive that is removed while it is open can still be read through its handle. -/
theorem openzl_refines_store_removed : ∃ t b,
    Run (PermittedStep .stored {"a"}) { world := oneArchive }
      [(.openFile 0 "openzl://a" .read {}, .done), (.tryRemoveFile "openzl://a", .bool true),
        (.call 0 (.read 9), .file (.bytes [7])), (.fileExists "openzl://a", .bool false)] t ∧
    Run StoreStep { archives := fun _ ↦ some (.file [7]) }
      [(.openFile 0 "openzl://a" .read {}, .done), (.tryRemoveFile "openzl://a", .bool true),
        (.call 0 (.read 9), .file (.bytes [7])), (.fileExists "openzl://a", .bool false)] b := by
  have hscheme : canHandleFile "openzl://a" = true := by decide +kernel
  have hstrip : stripScheme "openzl://a" = "a" := by decide +kernel
  have hsplit : splitChunkSuffix "a" = none := by decide +kernel
  have hname : (resolve (stripScheme "openzl://a")).1 ∈ ({"a"} : Set Path) := by
    rw [hstrip, resolve_of_none hsplit]
    rfl
  have hstart : Represents .stored {"a"} { world := oneArchive }
      { archives := fun _ ↦ some (.file [7]) } :=
    Represents.initial (fun _ ↦ rfl) oneArchive_holds
  have hcontent : ({ archives := fun _ ↦ some (.file [7]) } : FileStore).content "openzl://a" =
      some [7] := by
    rw [FileStore.content, hstrip, resolve_of_none hsplit]
    rfl
  obtain ⟨h, cache, bytes, hopen, hbytes, hh, -⟩ | ⟨e, -, hnone⟩ :=
    @Represents.openFile_read _ _ _ _ "openzl://a" .read {} hstart rfl hname
  · obtain rfl := Option.some.inj (hcontent.symm.trans hbytes)
    obtain ⟨hclosed, hfollows⟩ := hh.reader_inv
    have hread : (h.run (.read 9)).1 = .bytes [7] :=
      (hfollows.run_of_not_edits (show FileCall.Ordinary (.read 9) by decide) rfl).1
    have hremove : OpenzlFileSystem.tryRemoveFile true "openzl://a" oneArchive =
        .ok true (oneArchive.remove "a") := by
      unfold OpenzlFileSystem.tryRemoveFile
      rw [if_pos hscheme, hstrip, hsplit, if_neg (by simp), if_pos (by decide)]
    have hgone : OpenzlFileSystem.fileExists "openzl://a" (oneArchive.remove "a") = false := by
      unfold OpenzlFileSystem.fileExists
      rw [hstrip, resolve_of_none hsplit, DuckdbOpenzl.fileExists, World.content_remove_self]
      exact Bool.and_false _
    obtain ⟨t, hrun⟩ : ∃ t, Run (PermittedStep .stored {"a"}) { world := oneArchive }
        [(.openFile 0 "openzl://a" .read {}, .done), (.tryRemoveFile "openzl://a", .bool true),
          (.call 0 (.read 9), .file (.bytes [7])), (.fileExists "openzl://a", .bool false)] t := by
      apply Run.exists_cons ⟨.openFile rfl hopen, ⟨hscheme, hname⟩, fun _ _ _ hfile _ ↦ hfile⟩
      refine Run.exists_cons ⟨.tryRemoveFile hremove, ⟨hscheme, hname⟩, ?_⟩ ?_
      · intro rp d file hfile
        have hempty : (oneArchive.remove "a").files = fun _ ↦ none := by
          rw [World.remove, oneArchive, World.put, Function.update_idem]
          exact Function.update_eq_self "a" _
        dsimp only at hfile
        rw [hempty] at hfile
        cases hfile
      · rw [← hread, ← hgone]
        refine Run.exists_cons ⟨.call (.read 9) (by simp), ?_, fun _ _ _ hfile _ ↦ hfile⟩ ?_
        · rintro h' hid
          obtain rfl : h = h' := by simpa using hid
          exact ⟨hclosed, show FileCall.Ordinary (.read 9) by decide, trivial⟩
        · exact Run.exists_cons
            ⟨.fileExists _, ⟨hscheme, hname⟩, fun _ _ _ hfile _ ↦ hfile⟩ ⟨_, Run.nil _⟩
    have hapart : ∀ p ∈ ({"a"} : Set Path), p ++ ".openzl_tmp" ∉ ({"a"} : Set Path) := by
      rintro p rfl hmem
      exact absurd (Set.mem_singleton_iff.mp hmem) (by decide)
    obtain ⟨b, hspec, -⟩ := openzl_refines_store OpenZL.stored_lawful hapart (fun _ ↦ rfl)
      oneArchive_holds hrun
    exact ⟨t, b, hrun, hspec⟩
  · cases hcontent.symm.trans hnone

end DuckdbOpenzl
