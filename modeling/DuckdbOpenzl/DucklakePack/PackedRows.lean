import DuckdbOpenzl.DucklakePack.Reruns

/-!
# What a packed row says of its archive

A row that was repointed gives the size of the decompressed file and of its
footer, which were measured before. They are those of the archive that the row
names, from whatever directory it is read.
-/

set_option autoImplicit false

namespace DuckdbOpenzl

namespace DucklakePack

open Relation

variable {ρ : Type}

/-! ## Names that no directory changes -/

section Names

variable {cwd path src : String}

/-- What is cut off the end of a name has no slash in it. -/
theorem withoutSuffix_cases (src : String) : ∃ front back more,
    src.toList = front ++ back ∧ '/' ∉ back ∧ (withoutSuffix src).toList = front ++ more := by
  unfold withoutSuffix
  dsimp only
  split_ifs with hsuffix hnewline
  · obtain ⟨front, hfront⟩ := hsuffix
    refine ⟨front, ".parquet".toList, [], hfront.symm, by decide, ?_⟩
    have hlength : src.toList.length - 8 = front.length := by
      rw [← hfront, List.length_append]
      exact Nat.add_sub_cancel ..
    rw [String.toList_ofList, hlength, ← hfront, List.take_left, List.append_nil]
  · obtain ⟨front, hfront⟩ := hnewline
    refine ⟨front, ".parquet\n".toList, ['\n'], hfront.symm, by decide, ?_⟩
    have hlength : src.toList.length - 9 = front.length := by
      rw [← hfront, List.length_append]
      exact Nat.add_sub_cancel ..
    rw [String.toList_append, String.toList_ofList, hlength, ← hfront, List.take_left]
    rfl
  · exact ⟨src.toList, [], [], (List.append_nil _).symm, by decide, (List.append_nil _).symm⟩

theorem absolute_zlName (h : ['/'] <+: src.toList) : ['/'] <+: (zlName src).toList := by
  obtain ⟨front, back, more, hsrc, hslash, hcut⟩ := withoutSuffix_cases src
  rw [zlName, String.toList_append, hcut]
  rw [hsrc] at h
  cases front with
  | nil => exact absurd (h.subset (List.mem_singleton_self _)) hslash
  | cons c front =>
      obtain ⟨rest, hrest⟩ := h
      obtain rfl : '/' = c := (List.cons.inj hrest).1
      exact ⟨front ++ more ++ ".zl".toList, rfl⟩

theorem hasScheme_zlName (h : hasScheme src = true) : hasScheme (zlName src) = true := by
  obtain ⟨front, back, more, hsrc, hslash, hcut⟩ := withoutSuffix_cases src
  obtain ⟨before, after, heq⟩ := of_decide_eq_true h
  rw [hsrc] at heq
  have hfront : "://".toList <:+: front := by
    rcases List.append_eq_append_iff.mp heq with ⟨rest, hrest, -⟩ | ⟨rest, hrest, hback⟩
    · exact ⟨before, rest, hrest.symm⟩
    · rcases List.eq_nil_or_concat rest with rfl | ⟨init, last, rfl⟩
      · exact ⟨before, [], by rw [hrest, List.append_nil, List.append_nil]⟩
      · -- the last character of the scheme would be among those that are cut off
        have hlast := congrArg List.getLast? hrest
        simp at hlast
        exact absurd (by simp [hback, ← hlast]) hslash
  apply decide_eq_true
  rw [zlName, String.toList_append, hcut, List.append_assoc]
  exact hfront.trans (List.infix_append' [] front _)

theorem absolute_normpath (h : ['/'] <+: path.toList) : ['/'] <+: (normpath path).toList := by
  unfold normpath
  dsimp only
  rw [if_neg (not_not_intro h)]
  split_ifs with hslashes hnil hnil
  · exact absurd hnil (by simp)
  · rw [String.toList_ofList]
    exact ⟨'/' :: _, rfl⟩
  · exact absurd hnil (by simp)
  · rw [String.toList_ofList]
    exact ⟨_, rfl⟩

theorem absolute_abspath (hcwd : ['/'] <+: cwd.toList) : ['/'] <+: (abspath cwd path).toList := by
  unfold abspath
  split_ifs with hpath
  · exact absolute_normpath hpath
  · apply absolute_normpath
    rw [String.toList_append]
    exact hcwd.trans (List.prefix_append _ _)
  · apply absolute_normpath
    rw [String.toList_append, String.toList_append, List.append_assoc]
    exact hcwd.trans (List.prefix_append _ _)

/-- A name that was fixed once is the same from every directory. -/
theorem fixedPath_zlName (hcwd : ['/'] <+: cwd.toList) (full cwd' : String) :
    fixedPath cwd' (zlName (fixedPath cwd full)) = fixedPath cwd (zlName (fixedPath cwd full)) := by
  have hcases : hasScheme (fixedPath cwd full) = true ∨
      ['/'] <+: (fixedPath cwd full).toList := by
    rw [fixedPath]
    split_ifs with hscheme
    · exact .inl hscheme
    · exact .inr (absolute_abspath hcwd)
  rcases hcases with hscheme | habsolute
  · have hzl := hasScheme_zlName hscheme
    generalize zlName (fixedPath cwd full) = zl at hzl
    rw [fixedPath, fixedPath, if_pos hzl, if_pos hzl]
  · have hzl := absolute_zlName habsolute
    generalize zlName (fixedPath cwd full) = zl at hzl
    rw [fixedPath, fixedPath, abspath, abspath, if_pos hzl, if_pos hzl]

end Names

/-! ## Measured archives -/

/-- The sizes are those of the archive of the file. -/
def Describes (cwd : String) (disk : Disk ρ) (f : ListedFile) (logical footer : ℕ) : Prop :=
  ∃ a, disk (f.archive cwd) = some (.archive a) ∧ logical = a.image.length ∧
    footer = footerSize a.image

/-- What a worker has measured is still so. -/
def Worker.Measured (cwd : String) (disk : Disk ρ) (f : ListedFile) : Worker → Prop
  | .decompressed logical footer => Describes cwd disk f logical footer
  | .finished (.packed res) => Describes cwd disk f res.logical res.footer
  | _ => True

structure Measured (cwd : String) (files : List ListedFile) (s : PackState ρ) : Prop where
  workers : ∀ f ∈ files, (s.workers f.id).Measured cwd s.disk f
  rows : ∀ f ∈ files, s.workers f.id = .repointed → ∀ row ∈ s.catalog.dataFiles,
    row.dataFileId = f.id → row.path = packedPath (zlName f.path) ∧
      row.pathIsRelative = false ∧ Describes cwd s.disk f row.fileSizeBytes row.footerSize

variable {cwd : String} {hash : ρ → ℕ → ℕ} {files : List ListedFile} {disk₀ disk disk' : Disk ρ}
  {f g : ListedFile} {w w' : Worker} {s₀ s s' : PackState ρ} {logical footer : ℕ}
  {catalog : Catalog} {row : DataFileRow}

theorem Describes.congr (h : Describes cwd disk f logical footer)
    (hdisk : disk' (f.archive cwd) = disk (f.archive cwd)) :
    Describes cwd disk' f logical footer := by
  obtain ⟨a, ha, hsizes⟩ := h
  exact ⟨a, hdisk.trans ha, hsizes⟩

/-- Only the archive's own file matters, once the file is known to be one that can be packed. -/
theorem Worker.Measured.congr (h : w.Measured cwd disk f)
    (hw : w.Established cwd hash files disk₀ disk f)
    (hdisk : ∀ p, Packable cwd files disk₀ f p →
      disk' (f.archive cwd) = disk (f.archive cwd)) : w.Measured cwd disk' f := by
  cases w with
  | decompressed logical footer =>
      obtain ⟨p, a, hp, -⟩ := hw
      exact Describes.congr h (hdisk p hp)
  | finished outcome =>
      cases outcome with
      | packed res =>
          obtain ⟨⟨p, a, hp, -⟩, -⟩ := hw
          exact Describes.congr h (hdisk p hp)
      | raised | skipped | mismatch => trivial
  | _ => trivial

theorem PackOneStep.measured (h : PackOneStep cwd hash f disk w disk' w')
    (hw : w.Measured cwd disk f) : w'.Measured cwd disk' f := by
  cases h with
  | decompress archive long => exact ⟨_, archive, rfl, rfl⟩
  | size archive physical => exact hw
  | _ => trivial

theorem Measured.start (catalog : Catalog) (disk : Disk ρ) :
    Measured cwd files (.start catalog disk) where
  workers _ _ := trivial
  rows _ _ hworker := by cases hworker

/-- What a step leaves of the archive of a file that can be packed. -/
theorem Kept.archive_packOne (hapart : Apart cwd files s₀) (h : Kept cwd hash files s₀ s)
    (hf : f ∈ files) (hstep : PackOneStep cwd hash f s.disk (s.workers f.id) disk w)
    (hid : g.id ≠ f.id) {p : ParquetFile ρ} (hp : Packable cwd files s₀.disk g p) :
    disk (g.archive cwd) = s.disk (g.archive cwd) := by
  rcases hstep.disk_cases hf (h.workers f hf) h.parquets with rfl | ⟨⟨q, hq⟩, hplaces⟩
  · rfl
  · rcases hplaces (g.archive cwd) with hsame | ⟨hwrites, -⟩
    · exact hsame
    · exact absurd hwrites (hapart.target f q g p hq hp hid.symm)

theorem Kept.archive_remove (hapart : Apart cwd files s₀)
    (hlists : ∀ f ∈ files, s₀.catalog.Lists cwd f) (h : Kept cwd hash files s₀ s)
    (hmain : s.main = .removing f) {p : ParquetFile ρ} (hp : Packable cwd files s₀.disk g p) :
    Function.update s.disk (f.source cwd) none (g.archive cwd) = s.disk (g.archive cwd) := by
  obtain ⟨hf, hrep⟩ := h.removing f hmain
  obtain ⟨q, hq⟩ := (h.workers f hf).packable hrep
  obtain ⟨⟨row, hrow, hlisted⟩, -⟩ := hlists f hf
  have hreads := hq.readsAt (hlists f hf) hrow (Catalog.listed_eq_some hlisted).1
  apply Function.update_of_ne
  intro heq
  exact hapart.archive g p hp _ (.inl rfl) row hrow (heq ▸ hreads)

theorem Measured.packOne (hapart : Apart cwd files s₀)
    (hlists : ∀ f ∈ files, s₀.catalog.Lists cwd f) (hkept : Kept cwd hash files s₀ s)
    (h : Measured cwd files s) (hf : f ∈ files)
    (hstep : PackOneStep cwd hash f s.disk (s.workers f.id) disk w) :
    Measured cwd files { s with disk := disk, workers := Function.update s.workers f.id w } where
  workers := by
    intro g hg
    by_cases hid : g.id = f.id
    · obtain rfl := (hlists g hg).eq_of_id (hlists f hf) hid
      dsimp only
      rw [Function.update_self]
      exact hstep.measured (h.workers g hf)
    · dsimp only
      rw [Function.update_of_ne hid]
      exact (h.workers g hg).congr (hkept.workers g hg) fun p hp ↦
        hkept.archive_packOne hapart hf hstep hid hp
  rows := by
    intro g hg hrep row hrow hid
    dsimp only at hrep
    have hne : g.id ≠ f.id := by
      intro heq
      rw [heq, Function.update_self] at hrep
      exact hstep.not_repointed.2 hrep
    rw [Function.update_of_ne hne] at hrep
    obtain ⟨hpath, hrel, hsizes⟩ := h.rows g hg hrep row hrow hid
    obtain ⟨p, hp⟩ := (hkept.workers g hg).packable hrep
    exact ⟨hpath, hrel, hsizes.congr (hkept.archive_packOne hapart hf hstep hne hp)⟩

/-- A result that the main loop only takes note of. -/
theorem Measured.reported (h : Measured cwd files s) (id : ℕ) (main : Main) :
    Measured cwd files
      { s with workers := Function.update s.workers id .reported, main := main } where
  workers := by
    intro g hg
    dsimp only
    by_cases hid : g.id = id
    · rw [hid, Function.update_self]
      trivial
    · rw [Function.update_of_ne hid]
      exact h.workers g hg
  rows := by
    intro g hg hrep
    dsimp only at hrep
    have hne : g.id ≠ id := by
      intro heq
      rw [heq, Function.update_self] at hrep
      cases hrep
    rw [Function.update_of_ne hne] at hrep
    exact h.rows g hg hrep

theorem Measured.repoint {res : PackResult} (hlists : ∀ f ∈ files, s₀.catalog.Lists cwd f)
    (hkept : Kept cwd hash files s₀ s) (h : Measured cwd files s) (hf : f ∈ files)
    (hworker : s.workers f.id = .finished (.packed res)) :
    Measured cwd files
      { s with
        catalog := s.catalog.repoint f.id res
        workers := Function.update s.workers f.id .repointed
        main := .removing f } where
  workers := by
    intro g hg
    dsimp only
    by_cases hid : g.id = f.id
    · rw [hid, Function.update_self]
      trivial
    · rw [Function.update_of_ne hid]
      exact h.workers g hg
  rows := by
    intro g hg hrep row hrow hid
    obtain ⟨row, hmem, rfl⟩ := List.mem_map.mp hrow
    rw [Catalog.dataFileId_repointed] at hid
    dsimp only at hrep
    by_cases hgf : g.id = f.id
    · obtain rfl := (hlists g hg).eq_of_id (hlists f hf) hgf
      have hmeasured : (Worker.finished (.packed res)).Measured cwd s.disk g :=
        hworker ▸ h.workers g hg
      have hzl : (Worker.finished (.packed res)).Established cwd hash files s₀.disk s.disk g :=
        hworker ▸ hkept.workers g hg
      rw [Catalog.repointed, if_pos hid, hzl.2]
      exact ⟨rfl, rfl, hmeasured⟩
    · rw [Function.update_of_ne hgf] at hrep
      rw [Catalog.repointed_of_ne (hid ▸ hgf)]
      exact h.rows g hg hrep row hmem hid

theorem Measured.remove (hapart : Apart cwd files s₀)
    (hlists : ∀ f ∈ files, s₀.catalog.Lists cwd f) (hkept : Kept cwd hash files s₀ s)
    (h : Measured cwd files s) (hmain : s.main = .removing f) :
    Measured cwd files
      { s with disk := Function.update s.disk (f.source cwd) none, main := .waiting } where
  workers := by
    intro g hg
    exact (h.workers g hg).congr (hkept.workers g hg) fun p hp ↦
      hkept.archive_remove hapart hlists hmain hp
  rows := by
    intro g hg hrep row hrow hid
    obtain ⟨hpath, hrel, hsizes⟩ := h.rows g hg hrep row hrow hid
    obtain ⟨p, hp⟩ := (hkept.workers g hg).packable hrep
    exact ⟨hpath, hrel, hsizes.congr (hkept.archive_remove hapart hlists hmain hp)⟩

theorem Measured.step (hapart : Apart cwd files s₀)
    (hlists : ∀ f ∈ files, s₀.catalog.Lists cwd f) (hkept : Kept cwd hash files s₀ s)
    (h : Measured cwd files s) (hstep : PackStep cwd hash files s s') :
    Measured cwd files s' := by
  cases hstep with
  | packOne file step => exact h.packOne hapart hlists hkept file step
  | report file main worker => exact h.reported _ _
  | repoint file main worker => exact h.repoint hlists hkept file worker
  | repointFailed file main worker => exact h.reported _ _
  | remove main => exact h.remove hapart hlists hkept main
  | removeFailed => exact ⟨h.workers, h.rows⟩

/-! ## Packed rows -/

/-- A row that a run has repointed names one archive, from whatever directory it is read, and its
sizes are those of what that archive decompresses to. -/
theorem packed_row_describes_archive (hhash : Function.Injective (fingerprint hash))
    (hcwd : ['/'] <+: cwd.toList) {limit : ℤ} {dryRun : Bool}
    (hapart : Apart cwd (catalog.submitted cwd limit dryRun) (.start catalog disk))
    (hrun : ReflTransGen (PackStep cwd hash (catalog.submitted cwd limit dryRun))
      (.start catalog disk) s)
    (hrow : row ∈ s.catalog.dataFiles) (hpacked : s.workers row.dataFileId = .repointed) :
    ∃ a, (∀ cwd', s.catalog.named cwd' row = some row.path ∧
        s.disk (location cwd' row.path) = some (.archive a)) ∧
      row.fileSizeBytes = a.image.length ∧ row.footerSize = footerSize a.image := by
  have hlists : ∀ f ∈ catalog.submitted cwd limit dryRun, catalog.Lists cwd f :=
    fun f ↦ Catalog.lists_submitted
  have hboth : ∀ t, ReflTransGen (PackStep cwd hash (catalog.submitted cwd limit dryRun))
      (.start catalog disk) t →
      Kept cwd hash (catalog.submitted cwd limit dryRun) (.start catalog disk) t ∧
        Measured cwd (catalog.submitted cwd limit dryRun) t := by
    intro t ht
    induction ht with
    | refl => exact ⟨.start .., .start ..⟩
    | tail _ hlast ih =>
        obtain ⟨hkept, hmeasured⟩ := ih
        exact ⟨hkept.step hhash hapart hlists hlast, hmeasured.step hapart hlists hkept hlast⟩
  obtain ⟨-, hmeasured⟩ := hboth s hrun
  obtain ⟨f, hf, hid⟩ := (Underway.run (Laid.start catalog) hrun).submitted row.dataFileId
    (by rw [hpacked]; rfl)
  rw [← hid] at hpacked
  obtain ⟨hpath, hrel, a, ha, hsizes⟩ := hmeasured.rows f hf hpacked row hrow hid.symm
  refine ⟨a, fun cwd' ↦ ?_, hsizes⟩
  have hfixed : ∃ full, f.path = fixedPath cwd full := by
    obtain ⟨⟨row', -, hlisted⟩, -⟩ := hlists f hf
    obtain ⟨joined, -, rfl⟩ := Option.map_eq_some_iff.mp hlisted
    exact ⟨_, rfl⟩
  obtain ⟨full, hfull⟩ := hfixed
  constructor
  · rw [Catalog.named_packed hpath hrel, hpath]
  · rw [hpath, location_packedPath, hfull, fixedPath_zlName hcwd, ← hfull]
    exact ha

theorem packed_row_describes_archive_separateLake :
    ∃ (s : PackState Bool) (row : DataFileRow) (a : Archive Bool),
      ReflTransGen (PackStep "/" bitHash (separateLake.submitted "/" 0 false))
        (.start separateLake smallDisk) s ∧
      row ∈ s.catalog.dataFiles ∧ s.workers row.dataFileId = .repointed ∧
      (∀ cwd', s.disk (location cwd' row.path) = some (.archive a)) ∧
      row.fileSizeBytes = a.image.length ∧ row.footerSize = footerSize a.image := by
  obtain ⟨s, res, hrun, hcatalog, hworkers⟩ :=
    exists_run_firstFile 0 (by decide +kernel)
  have hrow : Catalog.repointed 1 res (smallRow 1 "/d/a.parquet") ∈ s.catalog.dataFiles := by
    rw [hcatalog]
    exact List.mem_map_of_mem List.mem_cons_self
  have hpacked : s.workers (Catalog.repointed 1 res (smallRow 1 "/d/a.parquet")).dataFileId =
      .repointed := by
    rw [hworkers, Catalog.dataFileId_repointed]
    exact Function.update_self ..
  obtain ⟨a, ha, hsizes⟩ := packed_row_describes_archive fingerprint_bitHash_injective
    (by decide) apart_separateLake hrun hrow hpacked
  exact ⟨s, _, a, hrun, hrow, hpacked, fun cwd' ↦ (ha cwd').2, hsizes⟩

end DucklakePack

end DuckdbOpenzl
