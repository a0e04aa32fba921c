import DuckdbOpenzl.DucklakePack.Collisions

/-!
# Run after run

The packer keeps no record of its own: what there is to do, a run reads off the
catalog. A run may end or be killed at any moment. Between two runs, which may
have other limits and start in other directories, data files come and go.
-/

set_option autoImplicit false

namespace DuckdbOpenzl

namespace DucklakePack

open Relation

variable {ρ : Type}

/-! ## Runs and writers -/

def Worker.isRepointed : Worker → Bool
  | .repointed => true
  | _ => false

/-- What the writers of the lake do between two runs. -/
structure Write where
  dataPath : String
  schemas : List SchemaRow
  tables : List TableRow
  removed : ℕ → Bool
  added : List DataFileRow

structure Write.Makes (write : Write) (before after : Catalog) : Prop where
  dataPath : after.dataPath = write.dataPath
  schemas : after.schemas = write.schemas
  tables : after.tables = write.tables
  dataFiles : after.dataFiles =
    (before.dataFiles.filter fun row ↦ !write.removed row.dataFileId) ++ write.added

/-- A lake. Beside the catalog stands what its writers alone have made of it, and which files the
runs have packed. -/
structure Lake (ρ : Type) where
  catalog : Catalog
  disk : Disk ρ
  written : Catalog
  packed : ℕ → Bool

def Lake.start (catalog : Catalog) (disk : Disk ρ) : Lake ρ where
  catalog := catalog
  disk := disk
  written := catalog
  packed := fun _ ↦ false

/-- A run up to some moment, or what happens between two runs. The id of a file is not given out
again. -/
inductive LakeStep (hash : ρ → ℕ → ℕ) : Lake ρ → Lake ρ → Prop where
  | run {l : Lake ρ} {s : PackState ρ} (cwd : String) (limit : ℤ)
      (steps : ReflTransGen (PackStep cwd hash (l.catalog.submitted cwd limit false))
        (.start l.catalog l.disk) s) :
      LakeStep hash l
        { catalog := s.catalog
          disk := s.disk
          written := l.written
          packed := fun id ↦ l.packed id || (s.workers id).isRepointed }
  | write {l : Lake ρ} {catalog written : Catalog} (write : Write) (disk : Disk ρ)
      (makes : write.Makes l.catalog catalog) (makesWritten : write.Makes l.written written)
      (fresh : ∀ row ∈ write.added, l.packed row.dataFileId = false) :
      LakeStep hash l { l with catalog := catalog, disk := disk, written := written }

/-! ## What the packer has made of the rows -/

/-- Packed rows name an archive, the others are as they were written. -/
structure Overlays (packed : ℕ → Bool) (g : DataFileRow → DataFileRow) : Prop where
  id : ∀ row, (g row).dataFileId = row.dataFileId
  same : ∀ row, packed row.dataFileId = false → g row = row
  archive : ∀ row, packed row.dataFileId = true →
    canHandleFile (g row).path = true ∧ (g row).pathIsRelative = false

structure Laid (written catalog : Catalog) (packed : ℕ → Bool) : Prop where
  dataPath : catalog.dataPath = written.dataPath
  schemas : catalog.schemas = written.schemas
  tables : catalog.tables = written.tables
  dataFiles : ∃ g, Overlays packed g ∧ catalog.dataFiles = written.dataFiles.map g

variable {cwd : String} {hash : ρ → ℕ → ℕ} {files : List ListedFile} {s s' : PackState ρ}
  {written catalog catalog' : Catalog} {packed packed' : ℕ → Bool} {id : ℕ} {res : PackResult}

theorem Laid.start (catalog : Catalog) : Laid catalog catalog fun _ ↦ false where
  dataPath := rfl
  schemas := rfl
  tables := rfl
  dataFiles := by
    refine ⟨fun row ↦ row, ⟨fun _ ↦ rfl, fun _ _ ↦ rfl, fun _ h ↦ by cases h⟩, ?_⟩
    exact (List.map_id _).symm

theorem Laid.repoint (h : Laid written catalog packed)
    (hpacked : ∀ k, packed' k = (packed k || k == id)) :
    Laid written (catalog.repoint id res) packed' where
  dataPath := h.dataPath
  schemas := h.schemas
  tables := h.tables
  dataFiles := by
    obtain ⟨g, hg, hfiles⟩ := h.dataFiles
    refine ⟨Catalog.repointed id res ∘ g, ⟨?_, ?_, ?_⟩, ?_⟩
    · intro row
      exact (Catalog.dataFileId_repointed id res (g row)).trans (hg.id row)
    · intro row hrow
      rw [hpacked, Bool.or_eq_false_iff, beq_eq_false_iff_ne] at hrow
      rw [Function.comp_apply, hg.same row hrow.1, Catalog.repointed_of_ne hrow.2]
    · intro row hrow
      rw [Function.comp_apply]
      by_cases hid : (g row).dataFileId = id
      · rw [Catalog.repointed, if_pos hid]
        exact ⟨canHandleFile_packedPath res.zl, rfl⟩
      · rw [Catalog.repointed_of_ne hid]
        apply hg.archive row
        rw [hg.id] at hid
        simpa [hpacked, hid] using hrow
    · have hmap := congrArg (List.map (Catalog.repointed id res)) hfiles
      rwa [List.map_map] at hmap

theorem Laid.write {write : Write} {written' : Catalog} (h : Laid written catalog packed)
    (hmakes : write.Makes catalog catalog') (hwritten : write.Makes written written')
    (hfresh : ∀ row ∈ write.added, packed row.dataFileId = false) :
    Laid written' catalog' packed where
  dataPath := hmakes.dataPath.trans hwritten.dataPath.symm
  schemas := hmakes.schemas.trans hwritten.schemas.symm
  tables := hmakes.tables.trans hwritten.tables.symm
  dataFiles := by
    obtain ⟨g, hg, hfiles⟩ := h.dataFiles
    refine ⟨g, hg, ?_⟩
    have hadded : write.added.map g = write.added :=
      (List.map_congr_left fun row hrow ↦ hg.same row (hfresh row hrow)).trans (List.map_id _)
    have hkept : (fun row ↦ !write.removed row.dataFileId) ∘ g =
        fun row ↦ !write.removed row.dataFileId := by
      funext row
      rw [Function.comp_apply, hg.id]
    rw [hmakes.dataFiles, hwritten.dataFiles, hfiles, List.map_append, hadded, List.filter_map,
      hkept]

/-- What stands beside the catalog holds no writer back. -/
theorem Laid.exists_makes {write : Write} (h : Laid written catalog packed)
    (hmakes : write.Makes catalog catalog') : ∃ written', write.Makes written written' := by
  obtain ⟨g, hg, hfiles⟩ := h.dataFiles
  have hids : (((written.dataFiles.filter fun row ↦ !write.removed row.dataFileId) ++
      write.added).map (·.dataFileId)) = catalog'.dataFiles.map (·.dataFileId) := by
    rw [hmakes.dataFiles, hfiles, List.filter_map, List.map_append, List.map_append, List.map_map]
    simp only [Function.comp_def, hg.id]
  exact ⟨⟨write.dataPath, write.schemas, write.tables, _, hids ▸ catalog'.unique⟩, rfl,
    rfl, rfl, rfl⟩

/-! ## One run -/

theorem Worker.isRepointed_eq_false {w : Worker} (h : w ≠ .repointed) : w.isRepointed = false := by
  cases w with
  | repointed => exact absurd rfl h
  | _ => rfl

theorem isRepointed_update {workers : ℕ → Worker} {w : Worker}
    (h : w.isRepointed = (workers id).isRepointed) (k : ℕ) :
    (Function.update workers id w k).isRepointed = (workers k).isRepointed := by
  by_cases hk : k = id
  · rw [hk, Function.update_self, h]
  · rw [Function.update_of_ne hk]

/-- A step repoints one row, whose file was submitted, or none. -/
theorem PackStep.repoints (h : PackStep cwd hash files s s') :
    (s'.catalog = s.catalog ∧
      ∀ k, (s'.workers k).isRepointed = (s.workers k).isRepointed) ∨
    ∃ f ∈ files, ∃ res, s'.catalog = s.catalog.repoint f.id res ∧
      ∀ k, (s'.workers k).isRepointed = ((s.workers k).isRepointed || k == f.id) := by
  cases h with
  | packOne file step =>
      obtain ⟨hbefore, hafter⟩ := step.not_repointed
      refine .inl ⟨rfl, isRepointed_update ?_⟩
      rw [Worker.isRepointed_eq_false hbefore, Worker.isRepointed_eq_false hafter]
  | report file main worker =>
      refine .inl ⟨rfl, isRepointed_update ?_⟩
      rw [worker]
      rfl
  | repointFailed file main worker =>
      refine .inl ⟨rfl, isRepointed_update ?_⟩
      rw [worker]
      rfl
  | @repoint f res file main worker =>
      refine .inr ⟨f, file, res, rfl, fun k ↦ ?_⟩
      dsimp only
      by_cases hk : k = f.id
      · rw [hk, Function.update_self, beq_self_eq_true, Bool.or_true]
        rfl
      · rw [Function.update_of_ne hk, beq_false_of_ne hk, Bool.or_false]
  | remove => exact .inl ⟨rfl, fun _ ↦ rfl⟩
  | removeFailed => exact .inl ⟨rfl, fun _ ↦ rfl⟩

/-- What holds all through a run of the packer. -/
structure Underway (written : Catalog) (packed : ℕ → Bool) (files : List ListedFile)
    (s : PackState ρ) : Prop where
  laid : Laid written s.catalog fun k ↦ packed k || (s.workers k).isRepointed
  submitted : ∀ k, (s.workers k).isRepointed = true → ∃ f ∈ files, f.id = k

theorem Underway.step (h : Underway written packed files s)
    (hstep : PackStep cwd hash files s s') : Underway written packed files s' := by
  rcases hstep.repoints with ⟨hcatalog, hworkers⟩ | ⟨f, hf, res, hcatalog, hworkers⟩
  · constructor
    · rw [hcatalog]
      simp only [hworkers]
      exact h.laid
    · intro k hk
      exact h.submitted k (hworkers k ▸ hk)
  · constructor
    · rw [hcatalog]
      apply h.laid.repoint
      intro k
      rw [hworkers, Bool.or_assoc]
    · intro k hk
      rw [hworkers, Bool.or_eq_true, beq_iff_eq] at hk
      rcases hk with hk | rfl
      · exact h.submitted k hk
      · exact ⟨f, hf, rfl⟩

theorem Underway.run {disk : Disk ρ} (h : Laid written catalog packed)
    (hrun : ReflTransGen (PackStep cwd hash files) (.start catalog disk) s) :
    Underway written packed files s := by
  apply Runs.invariant (fun _ _ hs hstep ↦ Underway.step hs hstep) _ hrun
  constructor
  · have hnone : (fun k ↦ packed k || ((PackState.start catalog disk).workers k).isRepointed) =
        packed := funext fun k ↦ Bool.or_false _
    rw [hnone]
    exact h
  · intro k hk
    cases hk

/-! ## All runs -/

theorem Lake.laid {l l' : Lake ρ} (h : Laid l.written l.catalog l.packed)
    (hstep : LakeStep hash l l') : Laid l'.written l'.catalog l'.packed := by
  cases hstep with
  | run cwd limit steps => exact (Underway.run h steps).laid
  | write write disk makes makesWritten fresh => exact h.write makes makesWritten fresh

theorem canHandleFile_fixedPath {path : String} (h : canHandleFile path = true) :
    canHandleFile (fixedPath cwd path) = true := by
  have htake : path.toList.take schemeLen = scheme.toList := beq_iff_eq.mp h
  obtain ⟨rest, hrest⟩ : ∃ rest, path.toList = scheme.toList ++ rest :=
    ⟨path.toList.drop schemeLen, by rw [← htake, List.take_append_drop]⟩
  have hscheme : hasScheme path = true := by
    apply decide_eq_true
    refine ⟨"openzl".toList, rest, ?_⟩
    rw [hrest]
    simp [scheme]
  rw [fixedPath, if_pos hscheme, h]

theorem Laid.listed_eq (h : Laid written catalog packed) (row : DataFileRow) :
    catalog.listed cwd row = written.listed cwd row := by
  unfold Catalog.listed Catalog.joined Catalog.fullPath
  rw [h.dataPath, h.schemas, h.tables]

/-- What one row brings to the files that a run works on. -/
theorem Laid.filter_listed {g : DataFileRow → DataFileRow} (h : Laid written catalog packed)
    (hg : Overlays packed g) (row : DataFileRow) :
    ((catalog.listed cwd (g row)).filter fun f ↦ f.fmt == "parquet" && !canHandleFile f.path) =
      ((written.listed cwd row).filter fun f ↦
        f.fmt == "parquet" && !canHandleFile f.path).filter fun f ↦ !packed f.id := by
  have hwritten : ∀ f, written.listed cwd row = some f → packed f.id = packed row.dataFileId :=
    fun f hf ↦ by rw [(Catalog.listed_eq_some hf).1]
  cases hpacked : packed row.dataFileId with
  | false =>
      rw [hg.same row hpacked, h.listed_eq, Option.filter_filter]
      cases hf : written.listed cwd row with
      | none => rfl
      | some f =>
          have hid : packed f.id = false := (hwritten f hf).trans hpacked
          rw [Option.filter_some, Option.filter_some, hid, Bool.not_false, Bool.and_true]
  | true =>
      obtain ⟨hpath, hrel⟩ := hg.archive row hpacked
      have hleft : (catalog.listed cwd (g row)).filter
          (fun f ↦ f.fmt == "parquet" && !canHandleFile f.path) = none := by
        rw [Option.filter_eq_none_iff]
        intro f hf
        have hnamed := (Catalog.listed_eq_some hf).2
        rw [Catalog.named, hrel] at hnamed
        have hfixed : fixedPath cwd (g row).path = f.path := Option.some.inj hnamed
        rw [← hfixed, canHandleFile_fixedPath hpath]
        simp
      rw [hleft, Option.filter_filter]
      symm
      rw [Option.filter_eq_none_iff]
      intro f hf
      simp [hwritten f hf, hpacked]

theorem Laid.submitted_eq (h : Laid written catalog packed) (cwd : String) (limit : ℤ) :
    catalog.submitted cwd limit false = Catalog.limited limit
      ((written.submitted cwd 0 false).filter fun f ↦ !packed f.id) := by
  obtain ⟨g, hg, hfiles⟩ := h.dataFiles
  have hsort : catalog.dataFiles.insertionSort (·.dataFileId ≤ ·.dataFileId) =
      (written.dataFiles.insertionSort (·.dataFileId ≤ ·.dataFileId)).map g := by
    rw [hfiles]
    symm
    apply List.map_insertionSort
    intro a _ b _
    rw [hg.id, hg.id]
  have hlist : (catalog.listFiles cwd).filter (fun f ↦
      f.fmt == "parquet" && !canHandleFile f.path) =
      ((written.listFiles cwd).filter fun f ↦
        f.fmt == "parquet" && !canHandleFile f.path).filter fun f ↦ !packed f.id := by
    unfold Catalog.listFiles
    rw [hsort, List.filterMap_map, List.filter_filterMap, List.filter_filterMap,
      List.filter_filterMap]
    congr 1
    funext row
    exact h.filter_listed hg row
  unfold Catalog.submitted
  rw [if_neg (by decide), if_neg (by decide), hlist]
  rfl

theorem Catalog.mem_of_mem_limited {limit : ℤ} {f : ListedFile}
    (h : f ∈ limited limit files) : f ∈ files := by
  unfold limited at h
  split at h
  · exact h
  · split at h <;> exact List.mem_of_mem_take h

/-- A run works on what has been written and not been packed, in the order of the ids, and packs
no file a second time. -/
theorem submitted_of_reruns {disk : Disk ρ} {l : Lake ρ}
    (hrun : ReflTransGen (LakeStep hash) (.start catalog disk) l) (cwd : String) (limit : ℤ) :
    l.catalog.submitted cwd limit false = Catalog.limited limit
      ((l.written.submitted cwd 0 false).filter fun f ↦ !l.packed f.id) ∧
    ∀ s, ReflTransGen (PackStep cwd hash (l.catalog.submitted cwd limit false))
      (.start l.catalog l.disk) s → ∀ id, s.workers id = .repointed → l.packed id = false := by
  have hlaid : Laid l.written l.catalog l.packed := by
    induction hrun with
    | refl => exact Laid.start catalog
    | tail _ hlast ih => exact Lake.laid ih hlast
  have hsubmitted := hlaid.submitted_eq cwd limit
  refine ⟨hsubmitted, fun s hs id hid ↦ ?_⟩
  obtain ⟨f, hf, rfl⟩ := (Underway.run hlaid hs).submitted id (by rw [hid]; rfl)
  rw [hsubmitted] at hf
  have hmem := Catalog.mem_of_mem_limited hf
  simpa using (List.mem_filter.mp hmem).2

/-! ## Two files, one after the other -/

/-- The first file of `separateLake`. -/
def firstFile : ListedFile := ⟨1, "/d/a.parquet", "parquet", 100, 2⟩

/-- A run that has just repointed the first file. -/
theorem exists_run_firstFile (limit : ℤ)
    (hf : firstFile ∈ separateLake.submitted "/" limit false) :
    ∃ (s : PackState Bool) (res : PackResult),
      ReflTransGen (PackStep "/" bitHash (separateLake.submitted "/" limit false))
        (.start separateLake smallDisk) s ∧
      s.catalog = separateLake.repoint 1 res ∧
      s.workers = Function.update (fun _ ↦ .submitted) 1 .repointed := by
  have hp : Packable "/" (separateLake.submitted "/" limit false) smallDisk firstFile smallFile :=
    { file := hf
      onDisk := by decide +kernel
      source := by
        have hsource : firstFile.source "/" = "/d/a.parquet" := by decide +kernel
        rw [hsource]
        rfl
      ids := ⟨[("x", 1)], by decide +kernel, by decide +kernel⟩ }
  have hne : ¬ firstFile.Writes "/" smallDisk (firstFile.source "/") := by
    have hplaces : firstFile.source "/" ≠ firstFile.archive "/" ∧
        firstFile.source "/" ≠ tmpSibling (firstFile.archive "/") := by
      decide +kernel
    rintro (heq | ⟨heq, -⟩)
    · exact hplaces.1 heq
    · exact hplaces.2 heq
  obtain ⟨ids, a, res, disk', -, -, -, -, -, hpacked⟩ := hp.packed bitHash hne
  have hrun := hpacked.packStep (s := .start separateLake smallDisk) hp.file rfl rfl
  have hfinished : Function.update (fun _ ↦ Worker.submitted) firstFile.id
      (.finished (.packed res)) firstFile.id = .finished (.packed res) := Function.update_self ..
  have hrepointed := hrun.tail (.repoint hp.file rfl hfinished)
  exact ⟨_, res, hrepointed, rfl, Function.update_idem ..⟩

/-- The next run, from another directory, goes on with the second file. -/
theorem submitted_of_reruns_separateLake :
    ∃ l : Lake Bool, ReflTransGen (LakeStep bitHash) (.start separateLake smallDisk) l ∧
      l.packed 1 = true ∧
      l.catalog.submitted "/tmp" 1 false = [⟨2, "/d/b.parquet", "parquet", 100, 2⟩] := by
  obtain ⟨s, res, hsteps, -, hworkers⟩ := exists_run_firstFile 1 (by decide +kernel)
  have hstep : LakeStep bitHash (.start separateLake smallDisk) _ := .run "/" 1 hsteps
  have hwritten : separateLake.submitted "/tmp" 0 false =
      [⟨1, "/d/a.parquet", "parquet", 100, 2⟩, ⟨2, "/d/b.parquet", "parquet", 100, 2⟩] := by
    decide +kernel
  refine ⟨_, .single hstep, ?_, ?_⟩
  · simp [hworkers, Worker.isRepointed]
  · rw [(submitted_of_reruns (.single hstep) "/tmp" 1).1]
    dsimp only [Lake.start]
    rw [hwritten, hworkers]
    rfl

end DucklakePack

end DuckdbOpenzl
