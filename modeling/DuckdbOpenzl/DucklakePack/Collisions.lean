import DuckdbOpenzl.DucklakePack.Intact

/-!
# Colliding names

Where two names collide there is a run that loses a row's content: the source
that is removed is another row's file, or `COPY` writes over a row's file or
over an archive that a row already names, and what it writes cannot be read.
-/

set_option autoImplicit false

namespace DuckdbOpenzl

namespace DucklakePack

open Relation

variable {ρ : Type}

/-! ## Runs of one worker -/

/-- Steps of `pack_one` on one file, with nothing else running. -/
def PackOneRun (cwd : String) (hash : ρ → ℕ → ℕ) (f : ListedFile) :
    Disk ρ × Worker → Disk ρ × Worker → Prop :=
  ReflTransGen fun x y ↦ PackOneStep cwd hash f x.1 x.2 y.1 y.2

variable {cwd : String} {hash : ρ → ℕ → ℕ} {files : List ListedFile} {disk : Disk ρ}
  {f g : ListedFile} {p q : ParquetFile ρ} {s₀ s : PackState ρ} {row : DataFileRow}
  {content : Content ρ} {res : PackResult} {id : ℕ} {x y : Disk ρ × Worker}

theorem PackOneRun.packStep (hf : f ∈ files) (h : PackOneRun cwd hash f x y)
    (hdisk : s.disk = x.1) (hworker : s.workers f.id = x.2) :
    ReflTransGen (PackStep cwd hash files) s
      { s with disk := y.1, workers := Function.update s.workers f.id y.2 } := by
  induction h with
  | refl =>
      rw [← hdisk, ← hworker, Function.update_eq_self]
  | @tail y z _ hlast ih =>
      let t : PackState ρ :=
        { s with disk := y.1, workers := Function.update s.workers f.id y.2 }
      have hw : t.workers f.id = y.2 := Function.update_self ..
      have hstep : PackStep cwd hash files t
          { t with disk := z.1, workers := Function.update t.workers f.id z.2 } :=
        .packOne hf (hw ▸ hlast)
      have hidem : Function.update t.workers f.id z.2 = Function.update s.workers f.id z.2 :=
        Function.update_idem ..
      rw [hidem] at hstep
      exact ih.tail hstep

theorem PackOneRun.next {disk' : Disk ρ} {w w' : Worker} (h : PackOneRun cwd hash f x (disk, w))
    (hstep : PackOneStep cwd hash f disk w disk' w') : PackOneRun cwd hash f x (disk', w') :=
  ReflTransGen.tail h hstep

theorem toList_tmpSibling_length (place : String) :
    (tmpSibling place).toList.length = place.toList.length + 4 := by
  have hparts := congrArg List.length
    (List.rdropWhile_append_rtakeWhile (p := (· != '/')) (l := place.toList))
  rw [List.length_append] at hparts
  have htmp : "tmp_".toList.length = 4 := by decide
  rw [tmpSibling, String.toList_ofList, List.length_append, List.length_append, htmp]
  omega

/-- `COPY` starts on a file that can be packed, and nothing is left where it writes. -/
theorem Packable.copying (hash : ρ → ℕ → ℕ) {beside : Bool} (hp : Packable cwd files disk f p)
    (hbeside : (disk (f.archive cwd)).isSome = beside) :
    ∃ ids, fieldIds p = some ids ∧ PackOneRun cwd hash f (disk, .submitted)
      (Function.update disk (f.output cwd beside) none,
        .copying (copiedColumns ids p) beside) := by
  obtain ⟨ids, hids, haccepted⟩ := hp.ids
  have hstart : PackOneRun cwd hash f (disk, .submitted) (disk, .submitted) := .refl
  have hselected := hstart.next (.select hp.source hids)
  exact ⟨ids, hids, hselected.next (.copy hp.onDisk hp.source haccepted hbeside none nofun)⟩

/-- `COPY` is done. -/
theorem Packable.copied (hash : ρ → ℕ → ℕ) (hp : Packable cwd files disk f p) :
    ∃ ids, fieldIds p = some ids ∧ ∀ stored : Stored ρ,
      stored.WrittenWith (copiedColumns ids p) →
      ∃ disk', PackOneRun cwd hash f (disk, .submitted) (disk', .copied) ∧
        disk' (f.archive cwd) = some stored ∧
        ∀ place, ¬ f.Writes cwd disk place → disk' place = disk place := by
  obtain ⟨ids, hids, hcopying⟩ := hp.copying hash rfl
  refine ⟨ids, hids, fun stored hwritten ↦ ?_⟩
  have hcopied := hcopying.next (.copied stored hwritten)
  rw [Function.update_idem] at hcopied
  refine ⟨_, hcopied, Function.update_self .., fun place hplace ↦ ?_⟩
  have hne : place ≠ f.archive cwd := fun heq ↦ hplace (.inl heq)
  have hout : place ≠ f.output cwd (disk (f.archive cwd)).isSome :=
    fun heq ↦ hplace (heq ▸ writes_output rfl)
  rw [Function.update_of_ne hne, Function.update_of_ne hout]

/-- Nothing can be read of it. -/
def Unreadable (left : Option (Stored ρ)) : Prop := left = none ∨ left = some .damaged

/-- Wherever `COPY` writes there may be nothing left to read. -/
theorem Packable.overwrites (hash : ρ → ℕ → ℕ) (hp : Packable cwd files disk f p)
    {place : String} (hplace : f.Writes cwd disk place) :
    ∃ disk' w, PackOneRun cwd hash f (disk, .submitted) (disk', w) ∧
      Unreadable (disk' place) := by
  rcases hplace with rfl | ⟨rfl, hexists⟩
  · obtain ⟨ids, -, hcopied⟩ := hp.copied hash
    obtain ⟨disk', hrun, hdamaged, -⟩ := hcopied .damaged trivial
    exact ⟨disk', _, hrun, .inr hdamaged⟩
  · obtain ⟨ids, -, hcopying⟩ := hp.copying hash (Option.isSome_iff_ne_none.mpr hexists)
    exact ⟨_, _, hcopying, .inl (Function.update_self ..)⟩

/-- The archive of a copy that loses nothing. -/
def exactArchive (columns : List ColumnIds) (rows : List ρ) : Archive ρ where
  whole := ⟨columns, rows⟩
  chunk := fun _ ↦ none
  image := List.replicate 8 0

/-- Nothing fails, and the archive returns the rows of the source. -/
theorem Packable.packed (hash : ρ → ℕ → ℕ) (hp : Packable cwd files disk f p)
    (hne : ¬ f.Writes cwd disk (f.source cwd)) :
    ∃ ids a res disk', fieldIds p = some ids ∧ a.whole.columns = copiedColumns ids p ∧
      res.zl = zlName f.path ∧ disk' (f.archive cwd) = some (.archive a) ∧
      (∀ place, ¬ f.Writes cwd disk place → disk' place = disk place) ∧
      PackOneRun cwd hash f (disk, .submitted) (disk', .finished (.packed res)) := by
  obtain ⟨ids, hids, hall⟩ := hp.copied hash
  obtain ⟨a, ha⟩ : ∃ a, a = exactArchive (copiedColumns ids p) p.rows := ⟨_, rfl⟩
  have hcolumns : a.whole.columns = copiedColumns ids p := by rw [ha, exactArchive]
  have hrows : a.whole.rows = p.rows := by rw [ha, exactArchive]
  have hlong : 8 ≤ a.image.length := by rw [ha, exactArchive, List.length_replicate]
  obtain ⟨disk', hcopied, harchive, hothers⟩ := hall (.archive a) hcolumns
  have hsource := (hothers _ hne).trans hp.source
  have hhashed := hcopied.next (.hashSource hsource)
  rw [← hrows] at hhashed
  have hdecompressed := (hhashed.next (.verify harchive)).next (.decompress harchive hlong)
  have hsize := hdecompressed.next (.size (by rw [harchive]; simp) 0)
  exact ⟨ids, a, _, disk', hids, hcolumns, rfl, harchive, hothers, hsize⟩

/-! ## What such runs lose -/

theorem PackState.Intact.same (h : PackState.Intact cwd s₀ s) (hcatalog : s.catalog = s₀.catalog)
    (hrow : row ∈ s₀.catalog.dataFiles) (hyields : s₀.yields cwd row = some content) :
    s.yields cwd row = some content := by
  rw [PackState.Intact, hcatalog] at h
  exact (List.forall₂_same.mp h row hrow).2 content hyields

theorem PackState.Intact.repointed (h : PackState.Intact cwd s₀ s)
    (hcatalog : s.catalog = s₀.catalog.repoint id res) (hrow : row ∈ s₀.catalog.dataFiles)
    (hyields : s₀.yields cwd row = some content) :
    s.yields cwd (Catalog.repointed id res row) = some content := by
  rw [PackState.Intact, hcatalog] at h
  exact (List.forall₂_same.mp (List.forall₂_map_right_iff.mp h) row hrow).2 content hyields

theorem PackState.ReadsAt.exists_yields {place : String} (h : s.ReadsAt cwd row place) :
    ∃ content, s.yields cwd row = some content := by
  obtain ⟨path, hnamed, -, hread⟩ := h
  rw [PackState.yields, hnamed, Option.bind_some]
  exact Option.ne_none_iff_exists'.mp hread

theorem readParquet_of_unreadable {path : String} (h : Unreadable (disk (location cwd path))) :
    readParquet cwd disk path = none := by
  rw [readParquet]
  rcases h with h | h
  · rw [h, Option.bind_none]
  · rw [h, Option.bind_some, readStored]

/-- A row whose file is gone or damaged yields nothing. -/
theorem PackState.ReadsAt.yields_none {place : String} (h : s₀.ReadsAt cwd row place)
    (hnamed : s.catalog.named cwd row = s₀.catalog.named cwd row)
    (hdisk : Unreadable (s.disk place)) : s.yields cwd row = none := by
  obtain ⟨path, hpath, rfl, -⟩ := h
  rw [PackState.yields, hnamed, hpath, Option.bind_some, readParquet_of_unreadable hdisk]

theorem Catalog.repointed_of_ne (h : row.dataFileId ≠ id) : repointed id res row = row :=
  if_neg h

/-- The row of the packed file names the archive. -/
theorem yields_repointed {zl : String} (hrow : row.dataFileId = id) (hzl : res.zl = zl) :
    s.yields cwd (Catalog.repointed id res row) = readParquet cwd s.disk (packedPath zl) := by
  have hpath : (Catalog.repointed id res row).path = packedPath zl ∧
      (Catalog.repointed id res row).pathIsRelative = false := by
    rw [Catalog.repointed, if_pos hrow, hzl]
    exact ⟨rfl, rfl⟩
  rw [PackState.yields, Catalog.named_packed hpath.1 hpath.2, Option.bind_some]

/-! ## When no run loses anything -/

section Necessary

variable {catalog : Catalog}

theorem archive_of_intact
    (hall : ∀ s, ReflTransGen (PackStep cwd hash files) (.start catalog disk) s →
      PackState.Intact cwd (.start catalog disk) s)
    (hp : Packable cwd files disk f p) {place : String} (hplace : f.Writes cwd disk place)
    (hrow : row ∈ catalog.dataFiles) :
    ¬ (PackState.start catalog disk).ReadsAt cwd row place := by
  intro hreads
  obtain ⟨disk', w, hcopying, hlost⟩ := hp.overwrites hash hplace
  have hrun := hcopying.packStep (s := .start catalog disk) hp.file rfl rfl
  obtain ⟨content, hyields⟩ := hreads.exists_yields
  have hkept := (hall _ hrun).same rfl hrow hyields
  have hgone := hkept.symm.trans (hreads.yields_none rfl hlost)
  cases hgone

/-- A run of one file up to the removal of its source. -/
structure Repointed (cwd : String) (hash : ρ → ℕ → ℕ) (files : List ListedFile)
    (catalog : Catalog) (disk : Disk ρ) (f : ListedFile) (p : ParquetFile ρ) (s : PackState ρ) :
    Prop where
  run : ReflTransGen (PackStep cwd hash files) (.start catalog disk) s
  catalog : ∃ res, res.zl = zlName f.path ∧ s.catalog = catalog.repoint f.id res
  archive : ∃ ids a, fieldIds p = some ids ∧ a.whole.columns = copiedColumns ids p ∧
    s.disk (f.archive cwd) = some (.archive a)
  others : ∀ place, ¬ f.Writes cwd disk place → s.disk place = disk place
  submitted : ∀ k, k ≠ f.id → s.workers k = .submitted
  main : s.main = .removing f

theorem Packable.exists_repointed (hash : ρ → ℕ → ℕ) (hp : Packable cwd files disk f p)
    (hne : ¬ f.Writes cwd disk (f.source cwd)) (catalog : Catalog) :
    ∃ s, Repointed cwd hash files catalog disk f p s := by
  obtain ⟨ids, a, res, disk', hids, hcolumns, hzl, harchive, hothers, hpacked⟩ := hp.packed hash hne
  have hrun := hpacked.packStep (s := .start catalog disk) hp.file rfl rfl
  have hrepointed := hrun.tail (.repoint hp.file rfl (Function.update_self ..))
  simp only [Function.update_idem] at hrepointed
  exact ⟨_,
    { run := hrepointed
      catalog := ⟨res, hzl, rfl⟩
      archive := ⟨ids, a, hids, hcolumns, harchive⟩
      others := hothers
      submitted := fun k hk ↦ Function.update_of_ne hk ..
      main := rfl }⟩

/-- No file that can be packed is written over. -/
theorem not_writes_source (hlists : ∀ f ∈ files, catalog.Lists cwd f)
    (hall : ∀ s, ReflTransGen (PackStep cwd hash files) (.start catalog disk) s →
      PackState.Intact cwd (.start catalog disk) s)
    (hp : Packable cwd files disk f p) (hq : Packable cwd files disk g q) :
    ¬ g.Writes cwd disk (f.source cwd) := by
  obtain ⟨⟨row, hrow, hlisted⟩, -⟩ := hlists f hp.file
  have hreads : (PackState.start catalog disk).ReadsAt cwd row (f.source cwd) :=
    Packable.readsAt (s := .start catalog disk) hp (hlists f hp.file) hrow
      (Catalog.listed_eq_some hlisted).1
  exact fun hwrites ↦ archive_of_intact hall hq hwrites hrow hreads

theorem source_of_intact (hlists : ∀ f ∈ files, catalog.Lists cwd f)
    (hall : ∀ s, ReflTransGen (PackStep cwd hash files) (.start catalog disk) s →
      PackState.Intact cwd (.start catalog disk) s)
    (hp : Packable cwd files disk f p) (hrow : row ∈ catalog.dataFiles)
    (hid : row.dataFileId ≠ f.id) :
    ¬ (PackState.start catalog disk).ReadsAt cwd row (f.source cwd) := by
  intro hreads
  have hne := not_writes_source hlists hall hp hp
  obtain ⟨s, hs⟩ := hp.exists_repointed hash hne catalog
  obtain ⟨res, -, hcatalog⟩ := hs.catalog
  have hsource : s.disk (f.source cwd) ≠ none := by
    rw [hs.others _ hne, hp.source]
    simp
  have hremoved := hs.run.tail (.remove hs.main hp.onDisk hsource)
  obtain ⟨content, hyields⟩ := hreads.exists_yields
  have hkept := (hall _ hremoved).repointed hcatalog hrow hyields
  rw [Catalog.repointed_of_ne hid] at hkept
  have hnamed : s.catalog.named cwd row = catalog.named cwd row := by
    rw [hcatalog, Catalog.named_repoint]
  have hgone := hkept.symm.trans (hreads.yields_none hnamed (.inl (Function.update_self ..)))
  cases hgone

theorem target_of_intact (hlists : ∀ f ∈ files, catalog.Lists cwd f)
    (hall : ∀ s, ReflTransGen (PackStep cwd hash files) (.start catalog disk) s →
      PackState.Intact cwd (.start catalog disk) s)
    (hp : Packable cwd files disk f p) (hq : Packable cwd files disk g q) (hid : f.id ≠ g.id) :
    ¬ f.Writes cwd disk (g.archive cwd) := by
  intro hwrites
  obtain ⟨⟨row, hrow, hlisted⟩, -⟩ := hlists g hq.file
  have hrowId := (Catalog.listed_eq_some hlisted).1
  obtain ⟨s, hs⟩ := hq.exists_repointed hash (not_writes_source hlists hall hq hq) catalog
  obtain ⟨res, hzl, hcatalog⟩ := hs.catalog
  obtain ⟨ids, a, -, -, harchive⟩ := hs.archive
  -- the other file is copied over the archive that the row now names
  have hsource : s.disk (f.source cwd) = some (.parquet p) :=
    (hs.others _ (not_writes_source hlists hall hp hq)).trans hp.source
  have hp' : Packable cwd files s.disk f p := ⟨hp.file, hp.onDisk, hsource, hp.ids⟩
  have hstill : f.Writes cwd s.disk (g.archive cwd) := by
    rcases hwrites with heq | ⟨heq, hexists⟩
    · exact .inl heq
    · refine .inr ⟨heq, ?_⟩
      have hlength : (g.archive cwd).toList.length = (f.archive cwd).toList.length + 4 := by
        rw [heq, toList_tmpSibling_length]
      have hnot : ¬ g.Writes cwd disk (f.archive cwd) := by
        rintro (hsame | ⟨htmp, -⟩)
        · rw [hsame] at hlength
          omega
        · rw [htmp, toList_tmpSibling_length] at hlength
          omega
      rwa [hs.others _ hnot]
  obtain ⟨disk', w, hcopying, hlost⟩ := hp'.overwrites hash hstill
  have hcopied := hs.run.trans (hcopying.packStep hp.file rfl (hs.submitted f.id hid))
  have hreads := Packable.readsAt (s := .start catalog disk) hq (hlists g hq.file) hrow hrowId
  obtain ⟨content, hyields⟩ := hreads.exists_yields
  have hkept := (hall _ hcopied).repointed hcatalog hrow hyields
  rw [yields_repointed hrowId hzl] at hkept
  rw [ListedFile.archive, ← location_packedPath] at hlost
  cases hkept.symm.trans (readParquet_of_unreadable hlost)

theorem fieldIds_of_intact (hlists : ∀ f ∈ files, catalog.Lists cwd f)
    (hall : ∀ s, ReflTransGen (PackStep cwd hash files) (.start catalog disk) s →
      PackState.Intact cwd (.start catalog disk) s)
    (hp : Packable cwd files disk f p) : p.RootNameFree := by
  obtain ⟨⟨row, hrow, hlisted⟩, hpath⟩ := hlists f hp.file
  obtain ⟨hrowId, hnamed⟩ := Catalog.listed_eq_some hlisted
  obtain ⟨s, hs⟩ := hp.exists_repointed hash (not_writes_source hlists hall hp hp) catalog
  obtain ⟨res, hzl, hcatalog⟩ := hs.catalog
  obtain ⟨ids, a, hids, hcolumns, harchive⟩ := hs.archive
  have hsource := hp.source
  rw [ListedFile.source, location_of_not_scheme hpath] at hsource
  have hyields : (PackState.start catalog disk).yields cwd row = some p.content := by
    rw [PackState.yields, PackState.start, hnamed, Option.bind_some,
      readParquet_parquet hpath hsource]
  have hkept := (hall s hs.run).repointed hcatalog hrow hyields
  rw [yields_repointed hrowId hzl, readParquet_packedPath harchive] at hkept
  have hcontent := congrArg Content.columns (Option.some.inj hkept)
  exact (copiedColumns_eq_iff hids).mp (hcolumns.symm.trans hcontent)

end Necessary

/-! ## Two lakes -/

/-- A hash under which equal fingerprints mean equal rows. -/
def bitHash (row : Bool) (i : ℕ) : ℕ := row.toNat * 2 ^ i

theorem sum_bitHash (rows : List Bool) (k : ℕ) :
    ((rows.zipIdx k).map fun row ↦ bitHash row.1 row.2).sum =
      2 ^ k * Nat.ofDigits 2 (rows.map Bool.toNat) := by
  induction rows generalizing k with
  | nil => simp
  | cons row rows ih =>
      rw [List.zipIdx_cons, List.map_cons, List.sum_cons, ih, List.map_cons, Nat.ofDigits_cons,
        bitHash, pow_succ]
      ring

theorem fingerprint_bitHash_injective : Function.Injective (fingerprint bitHash) := by
  intro rows rows' h
  obtain ⟨hlength, hsum⟩ := Prod.mk.inj h
  rw [sum_bitHash, sum_bitHash, pow_zero, one_mul, one_mul] at hsum
  have hlt : ∀ rows : List Bool, ∀ digit ∈ rows.map Bool.toNat, digit < 2 := by
    intro rows digit hdigit
    obtain ⟨row, -, rfl⟩ := List.mem_map.mp hdigit
    exact Bool.toNat_lt row
  have hdigits := Nat.ofDigits_inj_of_len_eq Nat.one_lt_two (by simpa using hlength) (hlt rows)
    (hlt rows') hsum
  have htoNat : Function.Injective Bool.toNat := by decide
  exact List.map_injective_iff.mpr htoNat hdigits

/-- A file with one column. -/
def smallFile : ParquetFile Bool where
  root := ⟨rootName, none, some 1⟩
  columns := [⟨⟨"x", some 1, none⟩, [], fun _ ↦ rfl⟩]
  rows := [true, false]
  rooted := by decide
  distinct := by decide

/-- Two data files, and an archive that an earlier run has left unfinished. -/
def smallDisk : Disk Bool := fun place ↦
  if place = "/d/a.parquet" ∨ place = "/d/b.parquet" then some (.parquet smallFile)
  else if place = "/d/b.zl" then some .damaged
  else none

def smallRow (id : ℕ) (path : String) : DataFileRow where
  dataFileId := id
  tableId := 1
  path := path
  pathIsRelative := false
  fileFormat := "parquet"
  fileSizeBytes := 100
  footerSize := 20
  recordCount := 2

/-- Two rows of a table. -/
def smallLake (path path' : String) : Catalog where
  dataPath := "/d/"
  schemas := [⟨0, "main/", true⟩]
  tables := [⟨1, 0, "t/", true⟩]
  dataFiles := [smallRow 1 path, smallRow 2 path']
  unique := by simp [smallRow]

def separateLake : Catalog := smallLake "/d/a.parquet" "/d/b.parquet"

def sharedLake : Catalog := smallLake "/d/a.parquet" "/d/a.parquet"

example : separateLake.submitted "/" 0 false =
    [⟨1, "/d/a.parquet", "parquet", 100, 2⟩, ⟨2, "/d/b.parquet", "parquet", 100, 2⟩] := by
  decide +kernel

theorem Packable.eq_smallFile {p : ParquetFile Bool} (hp : Packable cwd files smallDisk f p) :
    p = smallFile := by
  have hsource := hp.source
  unfold smallDisk at hsource
  split_ifs at hsource
  · exact (Stored.parquet.inj (Option.some.inj hsource)).symm
  · cases hsource

theorem rootNameFree_smallFile : smallFile.RootNameFree := by
  intro c hc hname
  obtain rfl := List.mem_singleton.mp hc
  exact absurd hname (by decide)

theorem apart_separateLake :
    Apart "/" (separateLake.submitted "/" 0 false) (.start separateLake smallDisk) := by
  have hsources : ∀ row ∈ separateLake.dataFiles, ∀ f ∈ separateLake.submitted "/" 0 false,
      (row.dataFileId ≠ f.id →
        (separateLake.named "/" row).map (location "/") ≠ some (f.source "/")) ∧
      (separateLake.named "/" row).map (location "/") ≠ some (f.archive "/") ∧
      (separateLake.named "/" row).map (location "/") ≠ some (tmpSibling (f.archive "/")) := by
    decide +kernel
  have htargets : ∀ f ∈ separateLake.submitted "/" 0 false,
      ∀ g ∈ separateLake.submitted "/" 0 false, f.id ≠ g.id →
      g.archive "/" ≠ f.archive "/" ∧ g.archive "/" ≠ tmpSibling (f.archive "/") := by
    decide +kernel
  refine ⟨?_, ?_, ?_, ?_⟩
  · rintro f p hp row hrow hid ⟨path, hpath, hplace, -⟩
    exact (hsources row hrow f hp.file).1 hid (Option.map_eq_some_iff.mpr ⟨path, hpath, hplace⟩)
  · rintro f p hp place hwrites row hrow ⟨path, hpath, hplace, -⟩
    obtain ⟨-, harchive, htmp⟩ := hsources row hrow f hp.file
    have hread := Option.map_eq_some_iff.mpr ⟨path, hpath, hplace⟩
    rcases hwrites with rfl | ⟨rfl, -⟩
    · exact harchive hread
    · exact htmp hread
  · rintro f p g q hp hq hid (heq | ⟨heq, -⟩)
    · exact (htargets f hp.file g hq.file hid).1 heq
    · exact (htargets f hp.file g hq.file hid).2 heq
  · rintro f p hp
    rw [hp.eq_smallFile]
    exact rootNameFree_smallFile

/-- The file of both rows of `sharedLake`. -/
def sharedFile : ListedFile := ⟨1, "/d/a.parquet", "parquet", 100, 2⟩

theorem packable_sharedFile :
    Packable "/" (sharedLake.submitted "/" 0 false) smallDisk sharedFile smallFile where
  file := by decide +kernel
  onDisk := by decide +kernel
  source := by
    have hsource : sharedFile.source "/" = "/d/a.parquet" := by decide +kernel
    rw [hsource]
    rfl
  ids := ⟨[("x", 1)], by decide +kernel, by decide +kernel⟩

/-! ## The runs that lose nothing -/

/-- Given that equal fingerprints mean equal rows, no run of the script loses or changes what a
row yields if and only if no two names collide. -/
theorem intact_iff_apart {cwd : String} {hash : ρ → ℕ → ℕ}
    (hhash : Function.Injective (fingerprint hash)) (catalog : Catalog) (disk : Disk ρ)
    (limit : ℤ) (dryRun : Bool) :
    (∀ s, ReflTransGen (PackStep cwd hash (catalog.submitted cwd limit dryRun))
        (.start catalog disk) s → PackState.Intact cwd (.start catalog disk) s) ↔
      Apart cwd (catalog.submitted cwd limit dryRun) (.start catalog disk) := by
  have hlists : ∀ f ∈ catalog.submitted cwd limit dryRun, catalog.Lists cwd f :=
    fun f ↦ Catalog.lists_submitted
  constructor
  · intro hall
    exact
      { source := fun f p hp row ↦ source_of_intact hlists hall hp
        archive := fun f p hp place hplace row ↦ archive_of_intact hall hp hplace
        target := fun f p g q ↦ target_of_intact hlists hall
        fieldIds := fun f p ↦ fieldIds_of_intact hlists hall }
  · intro hapart s hrun
    have hkept := Runs.invariant (fun _ _ hkept hstep ↦ hkept.step hhash hapart hlists hstep)
      (Kept.start cwd hash (catalog.submitted cwd limit dryRun) catalog disk) hrun
    exact hkept.intact hapart hlists

/-- Two files of their own are packed without loss, also over what an earlier run has left. -/
theorem intact_separateLake : Function.Injective (fingerprint bitHash) ∧
    ∀ s, ReflTransGen (PackStep "/" bitHash (separateLake.submitted "/" 0 false))
      (.start separateLake smallDisk) s →
      PackState.Intact "/" (.start separateLake smallDisk) s :=
  ⟨fingerprint_bitHash_injective,
    (intact_iff_apart fingerprint_bitHash_injective separateLake smallDisk 0 false).mpr
      apart_separateLake⟩

/-- Two rows name one file. It is packed for the first row and removed. -/
theorem not_intact_sharedLake : Function.Injective (fingerprint bitHash) ∧
    ¬ ∀ s, ReflTransGen (PackStep "/" bitHash (sharedLake.submitted "/" 0 false))
      (.start sharedLake smallDisk) s →
      PackState.Intact "/" (.start sharedLake smallDisk) s := by
  refine ⟨fingerprint_bitHash_injective, fun hall ↦ ?_⟩
  have hsecond : sharedLake.named "/" (smallRow 2 "/d/a.parquet") = some "/d/a.parquet" := by
    decide +kernel
  have hplace : location "/" "/d/a.parquet" = sharedFile.source "/" := by decide +kernel
  have hdisk : smallDisk (fixedPath "/" "/d/a.parquet") = some (.parquet smallFile) := by
    have hfixed : fixedPath "/" "/d/a.parquet" = "/d/a.parquet" := by decide +kernel
    rw [hfixed]
    rfl
  have hreads : (PackState.start sharedLake smallDisk).ReadsAt "/" (smallRow 2 "/d/a.parquet")
      (sharedFile.source "/") := by
    refine ⟨"/d/a.parquet", hsecond, hplace, ?_⟩
    rw [PackState.start, readParquet_parquet (by decide) hdisk]
    simp
  exact source_of_intact (fun f ↦ Catalog.lists_submitted) hall packable_sharedFile
    (List.mem_cons_of_mem _ List.mem_cons_self) (by decide) hreads

end DucklakePack

end DuckdbOpenzl
