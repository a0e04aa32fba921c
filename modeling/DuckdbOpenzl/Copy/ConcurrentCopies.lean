import DuckdbOpenzl.Copy.CopyFootprint
import DuckdbOpenzl.Copy.CopyJobs
import DuckdbOpenzl.Copy.RowOrder

/-!
# COPYs that run at the same time

Any number of COPYs of one process move in any order: they share the disk, the
registry of staging buffers and its counter, and the counter of fallbacks. A
COPY touches its destination, its staging file and its own buffers only, so
each archive holds the rows of its own COPY, in their order, whatever becomes
of the others.
-/

set_option autoImplicit false

namespace DuckdbOpenzl

open ExceptionState Relation SharedState

variable {P : ParquetCopyFunction} {V : ParquetView P} {zl : OpenZL}

/-! ## Where the rows of a COPY are -/

namespace CopyJob

/-- The buffer `k` is the staging target of this COPY. -/
def Owns (job : CopyJob P) (k : ℕ) : Prop :=
  job.bind.inMemory = true ∧ job.gstate.tmpParquetPath = bufferPath k

/-- The rows of the files, those of the current chunk and the batches to come are all the rows
of the query, in its order. -/
def Carries (V : ParquetView P) (job : CopyJob P) (files : List Bytes) (current : List P.Row) :
    Prop :=
  ∃ done, List.Forall₂ (fun file rows ↦ V.readParquet file = some rows) files done ∧
    done.flatten ++ (current ++ job.rest.flatten) = job.batches.flatten

/-- The parquet writer is at work on the staged file. -/
structure Writing (zl : OpenZL) (V : ParquetView P) (p : CopyProcess) (job : CopyJob P)
    (files : List Bytes) (g : P.GlobalState) : Prop where
  staged : StagedFile IoScript.KeepsFlushes zl job.bind job.path files (V.written g) (job.state p)
  parquetGlobalState : job.gstate.parquetGlobalState = some g

/-- The archive holds all the rows of the query. -/
def Committed (zl : OpenZL) (V : ParquetView P) (p : CopyProcess) (job : CopyJob P) : Prop :=
  ∃ frames chunks, frames ≠ [] ∧ List.Forall₂ (Decodes zl V) frames chunks ∧
    p.world.content job.path = some (archiveBytes frames) ∧
      (2 ≤ frames.length → (containerBytes frames).length < fileSizeLimit) ∧
        chunks.flatten = job.batches.flatten

/-- Without a pending batch the chunk that ends is the last one. -/
def Last (job : CopyJob P) (pending : Option (List P.Row)) : Prop :=
  pending = none → job.rest = []

/-- What a COPY has done by this phase. -/
def Progress (zl : OpenZL) (V : ParquetView P) (p : CopyProcess) (job : CopyJob P) : Prop :=
  match job.phase with
  | .start pending => ∃ files,
      Appending IoScript.KeepsFlushes zl job.bind job.path files (job.state p) ∧
      job.Carries V files (pending.getD [])
  | .initLocal pending => ∃ files g, job.Writing zl V p files g ∧ V.handed g = [] ∧
      job.Carries V files (pending.getD [])
  | .filling => ∃ files g l, job.Writing zl V p files g ∧ job.lstate = some l ∧
      job.Carries V files (V.handed g ++ V.buffered l)
  | .sink input => ∃ files g l, job.Writing zl V p files g ∧ job.lstate = some l ∧
      job.Carries V files (V.handed g ++ V.buffered l ++ input)
  | .combine pending => ∃ files g l, job.Writing zl V p files g ∧ job.lstate = some l ∧
      job.Carries V files (V.handed g ++ V.buffered l ++ pending.getD []) ∧ job.Last pending
  | .finalize pending => ∃ files g, job.Writing zl V p files g ∧
      job.Carries V files (V.handed g ++ pending.getD []) ∧ job.Last pending
  | .compress pending => ∃ files bytes rows,
      StagedFile IoScript.KeepsFlushes zl job.bind job.path files bytes (job.state p) ∧
        V.readParquet bytes = some rows ∧ job.Carries V files (rows ++ pending.getD []) ∧
          job.Last pending
  | .append pending frame => ∃ files bytes rows,
      Appending IoScript.KeepsFlushes zl job.bind job.path files (job.state p) ∧
        (∃ cctx, zl.compressSerial cctx bytes = .ok frame) ∧ V.readParquet bytes = some rows ∧
          job.Carries V files (rows ++ pending.getD []) ∧ job.Last pending
  | .finish => ∃ files, Appending IoScript.KeepsFlushes zl job.bind job.path files (job.state p) ∧
      job.Carries V files [] ∧ job.rest = []
  | .returned => job.gstate.archive.out.isOpen = false ∧ job.Committed zl V p
  | .done => job.Committed zl V p
  | .thrown _ => True
  | .aborted _ => True

/-- What a COPY relies on between its moves. -/
structure Sound (zl : OpenZL) (V : ParquetView P) (p : CopyProcess) (job : CopyJob P) : Prop where
  keepsFlushes : p.world.KeepsFlushes
  fresh : ∀ k, p.counter ≤ k → p.buffers (bufferPath k) = none
  writesTo : WritesTo job.path (job.state p)
  known : ∀ k, job.Owns k → k < p.counter
  progress : job.Progress zl V p

/-- The two COPYs have files and buffers of their own. -/
structure Apart (l m : CopyJob P) : Prop where
  files : FilesApart l.path m.path
  buffers : ∀ k, l.Owns k → ¬ m.Owns k

/-- What a move does, apart from the progress. -/
structure Moved (p : CopyProcess) (job : CopyJob P) (p' : CopyProcess) (job' : CopyJob P) :
    Prop where
  bind : job'.bind = job.bind
  path : job'.path = job.path
  batches : job'.batches = job.batches
  leaves : Leaves job.bind job.path job.gstate.tmpParquetPath p p'
  owns : ∀ k, job'.Owns k → job.Owns k ∨ (k = p.counter ∧ p.counter < p'.counter)
  writesTo : WritesTo job.path (job'.state p')

variable {p p' : CopyProcess} {job job' m : CopyJob P}

/-! ## A move of another COPY -/

theorem Committed.frame (h : m.Committed zl V p)
    (hcontent : p'.world.content m.path = p.world.content m.path) : m.Committed zl V p' := by
  obtain ⟨frames, chunks, hne, hdecodes, harchive, hsize, hrows⟩ := h
  exact ⟨frames, chunks, hne, hdecodes, hcontent.trans harchive, hsize, hrows⟩

section Frame

variable {tmp : Path} {bind : OpenzlCopyBindData} {path : Path} {files : List Bytes}

theorem Writing.frame {g : P.GlobalState} (h : m.Writing zl V p files g)
    (hleaves : Leaves bind path tmp p p') (hfiles : FilesApart m.path path)
    (hbuffers : ∀ k, m.Owns k → bind.inMemory = true → tmp ≠ bufferPath k) :
    m.Writing zl V p' files g where
  staged := h.staged.frame hleaves hfiles fun k hmode htmp ↦ hbuffers k ⟨hmode, htmp⟩
  parquetGlobalState := h.parquetGlobalState

theorem Progress.frame (h : m.Progress zl V p) (hleaves : Leaves bind path tmp p p')
    (hfiles : FilesApart m.path path)
    (hbuffers : ∀ k, m.Owns k → bind.inMemory = true → tmp ≠ bufferPath k) :
    m.Progress zl V p' := by
  have hcontent := hleaves.content m.path hfiles.destination hfiles.left
  unfold Progress at h ⊢
  cases hphase : m.phase with
  | start pending =>
      simp only [hphase] at h ⊢
      obtain ⟨files, happending, hcarries⟩ := h
      exact ⟨files, happending.frame hleaves hfiles, hcarries⟩
  | initLocal pending =>
      simp only [hphase] at h ⊢
      obtain ⟨files, g, hwriting, hcarries⟩ := h
      exact ⟨files, g, hwriting.frame hleaves hfiles hbuffers, hcarries⟩
  | filling =>
      simp only [hphase] at h ⊢
      obtain ⟨files, g, l, hwriting, hcarries⟩ := h
      exact ⟨files, g, l, hwriting.frame hleaves hfiles hbuffers, hcarries⟩
  | sink input =>
      simp only [hphase] at h ⊢
      obtain ⟨files, g, l, hwriting, hcarries⟩ := h
      exact ⟨files, g, l, hwriting.frame hleaves hfiles hbuffers, hcarries⟩
  | combine pending =>
      simp only [hphase] at h ⊢
      obtain ⟨files, g, l, hwriting, hcarries⟩ := h
      exact ⟨files, g, l, hwriting.frame hleaves hfiles hbuffers, hcarries⟩
  | finalize pending =>
      simp only [hphase] at h ⊢
      obtain ⟨files, g, hwriting, hcarries⟩ := h
      exact ⟨files, g, hwriting.frame hleaves hfiles hbuffers, hcarries⟩
  | compress pending =>
      simp only [hphase] at h ⊢
      obtain ⟨files, bytes, rows, hstaged, hcarries⟩ := h
      refine ⟨files, bytes, rows, ?_, hcarries⟩
      exact hstaged.frame hleaves hfiles fun k hmode htmp ↦ hbuffers k ⟨hmode, htmp⟩
  | append pending frame =>
      simp only [hphase] at h ⊢
      obtain ⟨files, bytes, rows, happending, hcarries⟩ := h
      exact ⟨files, bytes, rows, happending.frame hleaves hfiles, hcarries⟩
  | finish =>
      simp only [hphase] at h ⊢
      obtain ⟨files, happending, hcarries⟩ := h
      exact ⟨files, happending.frame hleaves hfiles, hcarries⟩
  | returned =>
      simp only [hphase] at h ⊢
      exact ⟨h.1, h.2.frame hcontent⟩
  | done =>
      simp only [hphase] at h ⊢
      exact h.frame hcontent
  | thrown e => trivial
  | aborted e => trivial

end Frame

theorem Sound.frame (h : m.Sound zl V p) (hmoved : Moved p job p' job') (hapart : Apart job m) :
    m.Sound zl V p' where
  keepsFlushes := by
    unfold World.KeepsFlushes
    rw [hmoved.leaves.script]
    exact h.keepsFlushes
  fresh := hmoved.leaves.fresh h.fresh
  writesTo := ⟨h.writesTo.finalZlPath, h.writesTo.archivePath, h.writesTo.outPath⟩
  known := fun k hk ↦ (h.known k hk).trans_le hmoved.leaves.counter
  progress := by
    apply h.progress.frame hmoved.leaves hapart.files.symm
    intro k hk hmode htmp
    exact hapart.buffers k ⟨hmode, htmp⟩ hk

/-- A COPY is given no buffer that another one has. -/
theorem Apart.moved (hapart : Apart job m) (hm : m.Sound zl V p) (hmoved : Moved p job p' job') :
    Apart job' m where
  files := by
    rw [hmoved.path]
    exact hapart.files
  buffers := by
    intro k hk hmk
    rcases hmoved.owns k hk with hold | ⟨rfl, -⟩
    · exact hapart.buffers k hold hmk
    · exact absurd (hm.known _ hmk) (lt_irrefl _)

theorem Apart.symm (h : Apart job m) : Apart m job where
  files := h.files.symm
  buffers := fun k hm hjob ↦ h.buffers k hjob hm

/-! ## A move of the COPY itself -/

section Calls

variable {α : Type} {x : CopyM P α} {next : α → CopyPhase P.Row}

theorem Moved.of_contained {s : CopyState P} (phase : CopyPhase P.Row)
    (rest : List (List P.Row)) (h : Contained job.bind job.path (job.state p) s) :
    Moved p job s.process { job.set s phase with rest := rest } where
  bind := rfl
  path := rfl
  batches := rfl
  leaves := h.leaves
  owns := by
    rintro k ⟨hmode, htmp⟩
    rcases h.target hmode with hsame | ⟨hnext, hcounter⟩
    · exact .inl ⟨hmode, hsame.symm.trans htmp⟩
    · refine .inr ⟨?_, hcounter⟩
      by_contra hne
      exact bufferPath_ne hne (htmp.symm.trans hnext)
  writesTo := h.toWritesTo

/-- A call that keeps to what is the COPY's own, and makes the progress of its phase. -/
theorem moves_perform
    (hcontained : Contained job.bind job.path (job.state p) (stateAfter x (job.state p)))
    (hok : ∀ a s, x (job.state p) = .ok a s → Progress zl V s.process (job.set s (next a))) :
    Moved p job (job.perform p x next).1 (job.perform p x next).2 ∧
      Progress zl V (job.perform p x next).1 (job.perform p x next).2 := by
  unfold perform
  cases hrun : x (job.state p) with
  | ok a s =>
      rw [stateAfter_of_ok hrun] at hcontained
      exact ⟨.of_contained _ job.rest hcontained, hok a s hrun⟩
  | error e s =>
      rw [stateAfter_of_error hrun] at hcontained
      exact ⟨.of_contained _ job.rest hcontained, trivial⟩

end Calls

/-- The state of the process has not changed. -/
theorem Moved.stay (h : job.Sound zl V p) (phase : CopyPhase P.Row) (rest : List (List P.Row)) :
    Moved p job p { job with phase := phase, rest := rest } :=
  .of_contained phase rest (.refl h.writesTo)

theorem Moved.destroy (h : job.Sound zl V p) (phase : CopyPhase P.Row) :
    Moved p job (job.state p).destroy { job with phase := phase } where
  bind := rfl
  path := rfl
  batches := rfl
  leaves := h.writesTo.leaves_destroy
  owns := fun _ hk ↦ .inl hk
  writesTo := ⟨h.writesTo.finalZlPath, h.writesTo.archivePath, h.writesTo.outPath⟩

theorem StagedFile.stagesAt {bind : OpenzlCopyBindData} {path : Path} {files : List Bytes}
    {bytes : Bytes} {s : CopyState P}
    (h : StagedFile IoScript.KeepsFlushes zl bind path files bytes s) :
    StagesAt bind path s := ⟨h.memory, h.disk⟩

theorem Carries.later {files : List Bytes} {current input : List P.Row}
    {rest : List (List P.Row)} {phase : CopyPhase P.Row} (hrest : job.rest = input :: rest)
    (h : job.Carries V files current) :
    Carries V { job with phase := phase, rest := rest } files (current ++ input) := by
  obtain ⟨done, hread, hrows⟩ := h
  refine ⟨done, hread, ?_⟩
  rw [hrest, List.flatten_cons] at hrows
  simpa [List.append_assoc] using hrows

theorem Carries.append {files : List Bytes} {bytes : Bytes} {rows later : List P.Row}
    (hread : V.readParquet bytes = some rows) (h : job.Carries V files (rows ++ later)) :
    job.Carries V (files ++ [bytes]) later := by
  obtain ⟨done, hdone, hrows⟩ := h
  refine ⟨done ++ [rows], List.rel_append hdone (.cons hread .nil), ?_⟩
  simpa [List.append_assoc] using hrows

/-- `Finish` leaves the archive of the rows, and no open stream. -/
theorem finish_commits (hzl : zl.Lawful) {files : List Bytes} {s : CopyState P}
    (happending : Appending IoScript.KeepsFlushes zl job.bind job.path files (job.state p))
    (hcarries : job.Carries V files []) (hrest : job.rest = [])
    (hok : callArchive ChunkedArchiveWriter.finish (job.state p) = .ok () s) :
    s.gstate.archive.out.isOpen = false ∧
      Committed zl V s.process (job.set s .returned) := by
  obtain ⟨frames, hframes, hfinished, -⟩ := finish_framesOf happending hok
  obtain ⟨done, hread, hrows⟩ := hcarries
  have hcontent := hfinished.whole.mpr
    (ChunkedArchiveWriter.finishKeeps_of_keepsFlushes happending.script)
  rw [show (job.state p).writer.2.path = job.path from happending.archivePath] at hcontent
  refine ⟨hfinished.closed, frames, done, hfinished.nonempty,
    decodes_of_files hzl hframes hread, hcontent, hfinished.size, ?_⟩
  change done.flatten = job.batches.flatten
  simpa [hrest] using hrows

theorem nextBatch_cons {input : List P.Row} {rest : List (List P.Row)}
    (hrest : job.rest = input :: rest) :
    job.nextBatch p = { job with rest := rest, phase := .combine (some input) } ∨
      job.nextBatch p = { job with rest := rest, phase := .sink input } := by
  simp only [nextBatch, hrest]
  split_ifs
  · exact .inl rfl
  · exact .inr rfl

theorem nextBatch_nil (hrest : job.rest = []) :
    job.nextBatch p = { job with phase := .combine none } ∨
      ∃ e, job.nextBatch p = { job with phase := .thrown e } := by
  cases hquery : job.queryError with
  | none => exact .inl (by simp only [nextBatch, hrest, hquery])
  | some what => exact .inr ⟨.host .query what, by simp only [nextBatch, hrest, hquery]⟩

section Phases

variable {files : List Bytes} {g : P.GlobalState} {l : P.LocalState} {s : CopyState P}
  {pending : Option (List P.Row)}

/-- The writer of a new chunk has been handed nothing yet. -/
theorem progress_openzlStartChunk (hV : V.Lawful)
    (happending : Appending IoScript.KeepsFlushes zl job.bind job.path files (job.state p))
    (hcarries : job.Carries V files (pending.getD []))
    (hok : openzlStartChunk job.bind (job.state p) = .ok () s) :
    Progress zl V s.process (job.set s (.initLocal pending)) := by
  obtain ⟨k, o, g, hinit, hres, hstaged, hg⟩ := openzlStartChunk_ok happending hok
  obtain ⟨hhanded, hwritten⟩ := hV.initializeGlobal _ _ _ hinit hres
  rw [← hwritten] at hstaged
  exact ⟨files, g, ⟨hstaged, hg⟩, hhanded, hcarries⟩

theorem progress_openzlCopyInitLocal (hV : V.Lawful) (hwriting : job.Writing zl V p files g)
    (hhanded : V.handed g = []) (hcarries : job.Carries V files (pending.getD []))
    (hok : openzlCopyInitLocal (job.state p) = .ok () s) :
    Progress zl V s.process (job.set s (afterInit pending)) := by
  obtain ⟨k, l, hinit, hstaged, hg, hl⟩ :=
    openzlCopyInitLocal_ok hwriting.staged hwriting.parquetGlobalState hok
  have hbuffered := hV.initializeLocal _ _ hinit
  have hnone : V.handed g ++ V.buffered l = [] := by rw [hhanded, hbuffered, List.append_nil]
  cases pending with
  | none =>
      refine ⟨files, g, l, ⟨hstaged, hg⟩, hl, ?_⟩
      rw [hnone]
      exact hcarries
  | some input =>
      refine ⟨files, g, l, ⟨hstaged, hg⟩, hl, ?_⟩
      rw [hnone]
      exact hcarries

/-- The next batch is taken from those to come, and there is none when the last chunk ends. -/
theorem nextBatch_moves (h : job.Sound zl V p) (hwriting : job.Writing zl V p files g)
    (hl : job.lstate = some l) (hcarries : job.Carries V files (V.handed g ++ V.buffered l)) :
    Moved p job p (job.nextBatch p) ∧ Progress zl V p (job.nextBatch p) := by
  cases hrest : job.rest with
  | cons input rest =>
      have hlater : ∀ phase, Carries V { job with phase := phase, rest := rest } files
          (V.handed g ++ V.buffered l ++ input) := fun _ ↦ hcarries.later hrest
      rcases nextBatch_cons (p := p) hrest with hnext | hnext
      · rw [hnext]
        refine ⟨.stay h _ _, files, g, l, ⟨hwriting.staged, hwriting.parquetGlobalState⟩, hl,
          hlater _, fun hnone ↦ ?_⟩
        cases hnone
      · rw [hnext]
        exact ⟨.stay h _ _, files, g, l, ⟨hwriting.staged, hwriting.parquetGlobalState⟩, hl,
          hlater _⟩
  | nil =>
      rcases nextBatch_nil (p := p) hrest with hnext | ⟨e, hnext⟩
      · rw [hnext]
        refine ⟨.stay h _ job.rest, files, g, l,
          ⟨hwriting.staged, hwriting.parquetGlobalState⟩, hl, ?_, fun _ ↦ hrest⟩
        rw [Option.getD_none, List.append_nil]
        exact hcarries
      · rw [hnext]
        exact ⟨.stay h _ job.rest, trivial⟩

/-- The rows of the batch are in the writer's hands or in its buffer. -/
theorem progress_parquetSink (hV : V.Lawful) (hwriting : job.Writing zl V p files g)
    (hl : job.lstate = some l) {input : List P.Row}
    (hcarries : job.Carries V files (V.handed g ++ V.buffered l ++ input))
    (hok : parquetSink job.bind input (job.state p) = .ok () s) :
    Progress zl V s.process (job.set s .filling) := by
  obtain ⟨k, g', l', hres, hstaged, hg, hl'⟩ :=
    parquetSink_ok hwriting.staged hwriting.parquetGlobalState hl hok
  obtain ⟨hrows, hwritten⟩ := hV.sink _ _ _ _ _ _ hres
  rw [← hwritten] at hstaged
  refine ⟨files, g', l', ⟨hstaged, hg⟩, hl', ?_⟩
  rw [hrows]
  exact hcarries

theorem progress_parquetCombine (hV : V.Lawful) (hwriting : job.Writing zl V p files g)
    (hl : job.lstate = some l)
    (hcarries : job.Carries V files (V.handed g ++ V.buffered l ++ pending.getD []))
    (hlast : job.Last pending) (hok : parquetCombine job.bind (job.state p) = .ok () s) :
    Progress zl V s.process (job.set s (.finalize pending)) := by
  obtain ⟨k, g', hres, hstaged, hg⟩ :=
    parquetCombine_ok hwriting.staged hwriting.parquetGlobalState hl hok
  obtain ⟨hrows, hwritten⟩ := hV.combine _ _ _ _ hres
  rw [← hwritten] at hstaged
  refine ⟨files, g', ⟨hstaged, hg⟩, ?_, hlast⟩
  rw [hrows]
  exact hcarries

end Phases

/-- One move: the COPY keeps to what is its own, and makes the progress of its phase. -/
theorem step_moves (hzl : zl.Lawful) (hV : V.Lawful) (h : job.Sound zl V p) :
    Moved p job (job.step zl p).1 (job.step zl p).2 ∧
      Progress zl V (job.step zl p).1 (job.step zl p).2 := by
  have hprogress := h.progress
  unfold Progress at hprogress
  unfold step
  cases hphase : job.phase with
  | start pending =>
      simp only [hphase] at hprogress ⊢
      obtain ⟨files, happending, hcarries⟩ := hprogress
      apply moves_perform (.openzlStartChunk h.writesTo h.fresh)
      intro u s hok
      exact progress_openzlStartChunk hV happending hcarries hok
  | initLocal pending =>
      simp only [hphase] at hprogress ⊢
      obtain ⟨files, g, hwriting, hhanded, hcarries⟩ := hprogress
      apply moves_perform (.openzlCopyInitLocal h.writesTo)
      intro u s hok
      exact progress_openzlCopyInitLocal hV hwriting hhanded hcarries hok
  | filling =>
      simp only [hphase] at hprogress ⊢
      obtain ⟨files, g, l, hwriting, hl, hcarries⟩ := hprogress
      exact nextBatch_moves h hwriting hl hcarries
  | sink input =>
      simp only [hphase] at hprogress ⊢
      obtain ⟨files, g, l, hwriting, hl, hcarries⟩ := hprogress
      apply moves_perform (.parquetSink h.writesTo (StagedFile.stagesAt hwriting.staged) input)
      intro u s hok
      exact progress_parquetSink hV hwriting hl hcarries hok
  | combine pending =>
      simp only [hphase] at hprogress ⊢
      obtain ⟨files, g, l, hwriting, hl, hcarries, hlast⟩ := hprogress
      apply moves_perform (.parquetCombine h.writesTo (StagedFile.stagesAt hwriting.staged))
      intro u s hok
      exact progress_parquetCombine hV hwriting hl hcarries hlast hok
  | finalize pending =>
      simp only [hphase] at hprogress ⊢
      obtain ⟨files, g, hwriting, hcarries, hlast⟩ := hprogress
      apply moves_perform (.parquetFinalize h.writesTo (StagedFile.stagesAt hwriting.staged))
      intro u s hok
      obtain ⟨k, hres, hstaged⟩ :=
        parquetFinalize_ok hwriting.staged hwriting.parquetGlobalState hok
      exact ⟨files, _, _, hstaged, hV.finalize _ _ hres, hcarries, hlast⟩
  | compress pending =>
      simp only [hphase] at hprogress ⊢
      obtain ⟨files, bytes, rows, hstaged, hread, hcarries, hlast⟩ := hprogress
      apply moves_perform (.compressStaged h.writesTo (StagedFile.stagesAt hstaged))
      intro frame s hok
      obtain ⟨happending, hframe⟩ := compressStaged_ok hstaged hok
      exact ⟨files, bytes, rows, happending, hframe, hread, hcarries, hlast⟩
  | append pending frame =>
      simp only [hphase] at hprogress ⊢
      obtain ⟨files, bytes, rows, happending, hframe, hread, hcarries, hlast⟩ := hprogress
      apply moves_perform (.appendChunk h.writesTo frame)
      intro u s hok
      have happended := appendChunk_ok happending hframe hok
      cases pending with
      | none => exact ⟨_, happended, hcarries.append hread, hlast rfl⟩
      | some input => exact ⟨_, happended, hcarries.append hread⟩
  | finish =>
      simp only [hphase] at hprogress ⊢
      obtain ⟨files, happending, hcarries, hrest⟩ := hprogress
      apply moves_perform (.finish h.writesTo)
      intro u s hok
      exact finish_commits hzl happending hcarries hrest hok
  | returned =>
      simp only [hphase] at hprogress ⊢
      refine ⟨.destroy h _, ?_⟩
      have hworld : (job.state p).destroy.world = p.world :=
        ChunkedArchiveWriter.destroy_of_closed hprogress.1
      apply hprogress.2.frame
      rw [hworld]
  | thrown e =>
      simp only [hphase] at hprogress ⊢
      exact ⟨.destroy h _, trivial⟩
  | done =>
      simp only [hphase] at hprogress ⊢
      exact ⟨.stay h _ job.rest, h.progress⟩
  | aborted e =>
      simp only [hphase] at hprogress ⊢
      exact ⟨.stay h _ job.rest, h.progress⟩

theorem Sound.step (hzl : zl.Lawful) (hV : V.Lawful) (h : job.Sound zl V p) :
    (job.step zl p).2.Sound zl V (job.step zl p).1 := by
  obtain ⟨hmoved, hprogress⟩ := step_moves hzl hV h
  refine ⟨?_, hmoved.leaves.fresh h.fresh, ?_, ?_, hprogress⟩
  · unfold World.KeepsFlushes
    rw [hmoved.leaves.script]
    exact h.keepsFlushes
  · rw [hmoved.path]
    exact hmoved.writesTo
  · intro k hk
    rcases hmoved.owns k hk with hold | ⟨rfl, hcounter⟩
    · exact (h.known k hold).trans_le hmoved.leaves.counter
    · exact hcounter

theorem bufferPath_ne_empty (k : ℕ) : bufferPath k ≠ "" := by
  intro h
  have hlength := congrArg String.length h
  simp [bufferPath] at hlength

/-- A COPY that has not begun relies on a process that keeps its flushes and its free buffers. -/
theorem sound_initial {bind : OpenzlCopyBindData} {path : Path} {batches : List (List P.Row)}
    {queryError : Option String} (hkeep : p.world.KeepsFlushes)
    (hfresh : ∀ k, p.counter ≤ k → p.buffers (bufferPath k) = none) :
    (initial P bind path batches queryError).Sound zl V p where
  keepsFlushes := hkeep
  fresh := hfresh
  writesTo := ⟨rfl, rfl, rfl⟩
  known := fun k hk ↦ absurd hk.2 (bufferPath_ne_empty k).symm
  progress := ⟨[], ⟨hkeep, rfl, rfl, rfl, fun _ ↦ hfresh, [], .nil,
    ChunkedArchiveWriter.represents_ofPath path p.world⟩, [], .nil, rfl⟩

end CopyJob

/-! ## Any number of COPYs -/

section Concurrent

variable {ι : Type} {bind : ι → OpenzlCopyBindData} {path : ι → Path}
  {batches : ι → List (List P.Row)} {queryError : ι → Option String}

/-- The COPY of `i`, with what it relies on. -/
structure RunsFor (zl : OpenZL) (V : ParquetView P) (path : ι → Path)
    (batches : ι → List (List P.Row)) (i : ι) (p : CopyProcess) (job : CopyJob P) : Prop where
  sound : job.Sound zl V p
  path : job.path = path i
  batches : job.batches = batches i

theorem concurrent_rules (hzl : zl.Lawful) (hV : V.Lawful) :
    Rules (JobMove zl) (RunsFor zl V path batches) CopyJob.Apart where
  symm := fun _ _ h ↦ h.symm
  self := by
    intro i p job p' job' h hmove
    obtain ⟨rfl, rfl⟩ := Prod.mk.inj hmove
    obtain ⟨hmoved, -⟩ := CopyJob.step_moves hzl hV h.sound
    exact ⟨h.sound.step hzl hV, hmoved.path.trans h.path, hmoved.batches.trans h.batches⟩
  others := by
    intro i j p job p' job' m h hm hapart hmove
    obtain ⟨rfl, rfl⟩ := Prod.mk.inj hmove
    obtain ⟨hmoved, -⟩ := CopyJob.step_moves hzl hV h.sound
    exact ⟨⟨hm.sound.frame hmoved hapart, hm.path, hm.batches⟩, hapart.moved hm.sound hmoved⟩

theorem settled_initial {p : CopyProcess} (hkeep : p.world.KeepsFlushes)
    (hfresh : ∀ k, p.counter ≤ k → p.buffers (bufferPath k) = none)
    (hapart : ∀ i j, i ≠ j → FilesApart (path i) (path j)) :
    Settled (RunsFor zl V path batches) CopyJob.Apart
      ⟨p, fun i ↦ CopyJob.initial P (bind i) (path i) (batches i) (queryError i)⟩ := by
  constructor
  · intro i
    exact ⟨CopyJob.sound_initial hkeep hfresh, rfl, rfl⟩
  · intro i j hij
    refine ⟨hapart i j hij, fun k hk ↦ ?_⟩
    exact absurd hk.2 (CopyJob.bufferPath_ne_empty k).symm

variable [DecidableEq ι] {s t : System ι CopyProcess (CopyJob P)} {i : ι}

theorem step_of_done {p : CopyProcess} {job : CopyJob P} (hdone : job.phase = .done) :
    job.step zl p = (p, job) := by
  unfold CopyJob.step
  rw [hdone]

/-- Nobody changes the archive of a COPY that is done. -/
theorem content_of_done (hzl : zl.Lawful) (hV : V.Lawful)
    (hs : Settled (RunsFor zl V path batches) CopyJob.Apart s)
    (hdone : (s.parties i).phase = .done) (hrun : ReflTransGen (Step (JobMove zl)) s t) :
    (t.parties i).phase = .done ∧
      t.shared.world.content (path i) = s.shared.world.content (path i) := by
  induction hrun with
  | refl => exact ⟨hdone, rfl⟩
  | @tail t u hrun hstep ih =>
      obtain ⟨hphase, hcontent⟩ := ih
      have hsettled := hs.run (concurrent_rules hzl hV) hrun
      cases hstep with
      | @move j shared party moved =>
          have hmove : (shared, party) = (t.parties j).step zl t.shared := moved
          rcases eq_or_ne j i with rfl | hij
          · rw [step_of_done hphase] at hmove
            obtain ⟨rfl, rfl⟩ := Prod.mk.inj hmove
            simpa using ⟨hphase, hcontent⟩
          · obtain ⟨rfl, rfl⟩ := Prod.mk.inj hmove
            obtain ⟨hmoved, -⟩ := CopyJob.step_moves hzl hV (hsettled.each j).sound
            have hfiles := (hsettled.pairs j i hij).files.symm
            rw [(hsettled.each i).path] at hfiles
            refine ⟨?_, ?_⟩
            · simpa [Function.update_of_ne hij.symm] using hphase
            · exact (hmoved.leaves.content (path i) hfiles.destination hfiles.left).trans hcontent

/-- From the moment a COPY is done its archive holds its rows. -/
theorem archiveRows_of_done (hzl : zl.Lawful) (hV : V.Lawful)
    (hs : Settled (RunsFor zl V path batches) CopyJob.Apart s)
    (hdone : (s.parties i).phase = .done) :
    ∃ chunks, chunks.flatten = (batches i).flatten ∧
      ∀ t, ReflTransGen (Step (JobMove zl)) s t →
        ArchiveRows zl V (path i) chunks t.shared.world := by
  obtain ⟨hsound, hpath, hbatches⟩ := hs.each i
  have hcommitted := hsound.progress
  unfold CopyJob.Progress at hcommitted
  simp only [hdone] at hcommitted
  obtain ⟨frames, chunks, hne, hdecodes, hcontent, hsize, hrows⟩ := hcommitted
  rw [hpath] at hcontent
  rw [hbatches] at hrows
  refine ⟨chunks, hrows, fun t hrun ↦ ?_⟩
  obtain ⟨-, hkept⟩ := content_of_done hzl hV hs hdone hrun
  exact archiveRows_of_content hne hdecodes (hkept.trans hcontent) hsize

/-- COPYs of one process to destinations apart from each other, in any interleaving of their
steps: a COPY that is done has left an archive of its own rows in their order, whether the others
go on, are done or have failed; and no file but the destinations and their staging files has
changed. -/
theorem concurrent_copies_archive_their_rows (hzl : zl.Lawful) (hV : V.Lawful) {p : CopyProcess}
    (hkeep : p.world.KeepsFlushes)
    (hfresh : ∀ k, p.counter ≤ k → p.buffers (bufferPath k) = none)
    (hapart : ∀ i j, i ≠ j → FilesApart (path i) (path j))
    {s : System ι CopyProcess (CopyJob P)}
    (hrun : ReflTransGen (Step (JobMove zl))
      ⟨p, fun i ↦ CopyJob.initial P (bind i) (path i) (batches i) (queryError i)⟩ s) :
    (∀ i, (s.parties i).phase = .done → ∃ chunks, ArchiveRows zl V (path i) chunks s.shared.world ∧
      chunks.flatten = (batches i).flatten) ∧
      ∀ other, (∀ i, other ≠ path i ∧ other ≠ stagingFile (path i)) →
        s.shared.world.files other = p.world.files other := by
  have hrules : Rules (JobMove zl) (RunsFor zl V path batches) CopyJob.Apart :=
    concurrent_rules hzl hV
  have hinitial : Settled (RunsFor zl V path batches) CopyJob.Apart
      ⟨p, fun i ↦ CopyJob.initial P (bind i) (path i) (batches i) (queryError i)⟩ :=
    settled_initial hkeep hfresh hapart
  constructor
  · intro i hdone
    obtain ⟨chunks, hrows, harchive⟩ :=
      archiveRows_of_done hzl hV (hinitial.run hrules hrun) hdone
    exact ⟨chunks, harchive s .refl, hrows⟩
  · intro other hother
    apply hinitial.shared hrules (fun p' ↦ p'.world.files other = p.world.files other) _ rfl hrun
    intro i p₁ job p₂ job' h hmove hkept
    obtain ⟨rfl, rfl⟩ := Prod.mk.inj hmove
    obtain ⟨hmoved, -⟩ := CopyJob.step_moves hzl hV h.sound
    obtain ⟨hpath, hstaging⟩ := hother i
    rw [← h.path] at hpath hstaging
    exact (hmoved.leaves.files other hpath hstaging).trans hkept

end Concurrent

/-! ## An instance -/

namespace CopyJob

/-- The system after these COPYs have moved, each as often as it is named. -/
def scheduled {ι : Type} [DecidableEq ι] (zl : OpenZL) :
    List ι → System ι CopyProcess (CopyJob P) → System ι CopyProcess (CopyJob P)
  | [], s => s
  | i :: order, s =>
      let moved := (s.parties i).step zl s.shared
      scheduled zl order ⟨moved.1, Function.update s.parties i moved.2⟩

theorem scheduled_runs {ι : Type} [DecidableEq ι] (order : List ι)
    (s : System ι CopyProcess (CopyJob P)) :
    ReflTransGen (Step (JobMove zl)) s (scheduled zl order s) := by
  induction order generalizing s with
  | nil => exact .refl
  | cons i order ih => exact .head (.move rfl) (ih _)

def isDone (job : CopyJob P) : Bool :=
  match job.phase with
  | .done => true
  | _ => false

theorem phase_of_isDone {job : CopyJob P} (h : job.isDone = true) : job.phase = .done := by
  unfold isDone at h
  split at h
  · assumption
  · cases h

end CopyJob

/-- Two COPYs in memory that take turns, with a rotation each. -/
def turns : System Bool CopyProcess (CopyJob .plain) :=
  CopyJob.scheduled .stored (List.replicate 20 [true, false]).flatten
    ⟨CopyProcess.empty, fun i ↦ CopyJob.initial .plain { chunkSizeBytes := 2 }
      (if i then "a.zl" else "b.zl") ParquetCopyFunction.plainBatches none⟩

theorem concurrent_copies_archive_their_rows_turns :
    (∃ chunks, ArchiveRows .stored ParquetView.plain "a.zl" chunks turns.shared.world ∧
      chunks.flatten = ParquetCopyFunction.plainBatches.flatten) ∧
    ∃ chunks, ArchiveRows .stored ParquetView.plain "b.zl" chunks turns.shared.world ∧
      chunks.flatten = ParquetCopyFunction.plainBatches.flatten := by
  have hapart : ∀ i j : Bool, i ≠ j →
      FilesApart (if i then "a.zl" else "b.zl") (if j then "a.zl" else "b.zl") := by
    intro i j hij
    cases i <;> cases j
    · exact absurd rfl hij
    · exact ⟨by decide, by decide, by decide⟩
    · exact ⟨by decide, by decide, by decide⟩
    · exact absurd rfl hij
  have hall := (concurrent_copies_archive_their_rows OpenZL.stored_lawful
    ParquetView.plain_lawful (p := CopyProcess.empty) (fun _ ↦ rfl) (fun _ _ ↦ rfl) hapart
    (CopyJob.scheduled_runs _ _ : ReflTransGen (Step (JobMove .stored)) _ turns)).1
  exact ⟨hall true (CopyJob.phase_of_isDone (by decide +kernel)),
    hall false (CopyJob.phase_of_isDone (by decide +kernel))⟩

end DuckdbOpenzl
