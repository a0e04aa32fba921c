import DuckdbOpenzl.DucklakePack.Pack
import DuckdbOpenzl.Library.Runs

/-!
# Files apart

A packed row loses nothing as long as no other row reads the file that is
removed, no row's file is written over, and no archive is written over another.
Each of these can fail: nothing keeps two rows from naming one file, and `.zl`
names are derived from file names that may already be taken.
-/

set_option autoImplicit false

namespace DuckdbOpenzl

namespace DucklakePack

open Relation

variable {ρ : Type}

/-! ## The condition -/

/-- A run can pack the file: it is submitted, an archive can be written beside it, and `COPY` takes
its field_ids. -/
structure Packable (cwd : String) (files : List ListedFile) (disk : Disk ρ) (f : ListedFile)
    (p : ParquetFile ρ) : Prop where
  file : f ∈ files
  onDisk : isLocal f.path = true
  source : disk (f.source cwd) = some (.parquet p)
  ids : ∃ ids, fieldIds p = some ids ∧ FieldIdsAccepted ids p

/-- The row's file is readable and lies at `place`. -/
def PackState.ReadsAt (cwd : String) (s : PackState ρ) (row : DataFileRow) (place : String) :
    Prop :=
  ∃ path, s.catalog.named cwd row = some path ∧ location cwd path = place ∧
    readParquet cwd s.disk path ≠ none

/-- What `COPY` writes under, for an archive that may be there already. -/
def ListedFile.Writes (cwd : String) (disk : Disk ρ) (f : ListedFile) (place : String) : Prop :=
  place = f.archive cwd ∨ place = tmpSibling (f.archive cwd) ∧ disk (f.archive cwd) ≠ none

structure Apart (cwd : String) (files : List ListedFile) (s : PackState ρ) : Prop where
  source : ∀ f p, Packable cwd files s.disk f p → ∀ row ∈ s.catalog.dataFiles,
    row.dataFileId ≠ f.id → ¬ s.ReadsAt cwd row (f.source cwd)
  archive : ∀ f p, Packable cwd files s.disk f p → ∀ place, f.Writes cwd s.disk place →
    ∀ row ∈ s.catalog.dataFiles, ¬ s.ReadsAt cwd row place
  target : ∀ f p g q, Packable cwd files s.disk f p → Packable cwd files s.disk g q →
    f.id ≠ g.id → ¬ f.Writes cwd s.disk (g.archive cwd)
  fieldIds : ∀ f p, Packable cwd files s.disk f p → p.RootNameFree

/-! ## What a worker has established -/

/-- The archive is there and returns what the source held. -/
def Archived (cwd : String) (files : List ListedFile) (disk₀ disk : Disk ρ) (f : ListedFile) :
    Prop :=
  ∃ p a, Packable cwd files disk₀ f p ∧ disk (f.archive cwd) = some (.archive a) ∧
    a.whole = p.content

section Facts

variable (cwd : String) (hash : ρ → ℕ → ℕ) (files : List ListedFile) (disk₀ disk : Disk ρ)
  (f : ListedFile)

/-- The facts that a phase of `pack_one` stands for. -/
def Worker.Established : Worker → Prop
  | .submitted => ∀ p, Packable cwd files disk₀ f p →
      disk (f.archive cwd) = disk₀ (f.archive cwd)
  | .selected ids => (∃ p, disk₀ (f.source cwd) = some (.parquet p) ∧ fieldIds p = some ids) ∧
      ∀ p, Packable cwd files disk₀ f p → disk (f.archive cwd) = disk₀ (f.archive cwd)
  | .copying columns beside => ∃ p, Packable cwd files disk₀ f p ∧
      columns = p.content.columns ∧ f.Writes cwd disk₀ (f.output cwd beside)
  | .copied => ∃ p stored, Packable cwd files disk₀ f p ∧ disk (f.archive cwd) = some stored ∧
      stored.WrittenWith p.content.columns
  | .hashed b => ∃ p stored, Packable cwd files disk₀ f p ∧ disk (f.archive cwd) = some stored ∧
      stored.WrittenWith p.content.columns ∧ b = fingerprint hash p.rows
  | .mismatched _ _ => ∃ p, Packable cwd files disk₀ f p
  | .verified | .decompressed _ _ | .repointed => Archived cwd files disk₀ disk f
  | .finished (.packed res) => Archived cwd files disk₀ disk f ∧ res.zl = zlName f.path
  | .finished .raised | .finished .skipped | .finished (.mismatch _ _) | .reported => True

end Facts

variable {cwd : String} {hash : ρ → ℕ → ℕ} {files : List ListedFile} {disk₀ disk disk' : Disk ρ}
  {f g : ListedFile} {w w' : Worker} {p q : ParquetFile ρ}

theorem parquet_inj {stored : Option (Stored ρ)} (hp : stored = some (.parquet p))
    (hq : stored = some (.parquet q)) : p = q :=
  Stored.parquet.inj (Option.some.inj (hp.symm.trans hq))

/-- Only the archive's own file matters. -/
theorem Worker.Established.congr (hw : w.Established cwd hash files disk₀ disk f)
    (hdisk : ∀ p, Packable cwd files disk₀ f p →
      disk' (f.archive cwd) = disk (f.archive cwd)) :
    w.Established cwd hash files disk₀ disk' f := by
  cases w with
  | finished outcome =>
      cases outcome with
      | packed res =>
          obtain ⟨⟨p, a, hp, ha, hwhole⟩, hzl⟩ := hw
          exact ⟨⟨p, a, hp, (hdisk p hp).trans ha, hwhole⟩, hzl⟩
      | raised | skipped | mismatch => trivial
  | submitted => exact fun p hp ↦ (hdisk p hp).trans (hw p hp)
  | selected ids => exact ⟨hw.1, fun p hp ↦ (hdisk p hp).trans (hw.2 p hp)⟩
  | copied =>
      obtain ⟨p, stored, hp, hstored, hcolumns⟩ := hw
      exact ⟨p, stored, hp, (hdisk p hp).trans hstored, hcolumns⟩
  | hashed b =>
      obtain ⟨p, stored, hp, hstored, hcolumns⟩ := hw
      exact ⟨p, stored, hp, (hdisk p hp).trans hstored, hcolumns⟩
  | verified | decompressed | repointed =>
      obtain ⟨p, a, hp, ha, hwhole⟩ := hw
      exact ⟨p, a, hp, (hdisk p hp).trans ha, hwhole⟩
  | copying | mismatched | reported => exact hw

theorem writes_output {beside : Bool} (h : (disk (f.archive cwd)).isSome = beside) :
    f.Writes cwd disk (f.output cwd beside) := by
  cases beside with
  | false => exact .inl rfl
  | true => exact .inr ⟨rfl, Option.isSome_iff_ne_none.mp h⟩

theorem update_cases {out : String} {left : Option (Stored ρ)} (hout : f.Writes cwd disk₀ out)
    (hleft : Unfinished left) (place : String) :
    Function.update disk out left place = disk place ∨
      f.Writes cwd disk₀ place ∧ Unfinished (Function.update disk out left place) := by
  by_cases hplace : place = out
  · subst hplace
    rw [Function.update_self]
    exact .inr ⟨hout, hleft⟩
  · exact .inl (Function.update_of_ne hplace ..)

theorem Stored.WrittenWith.unfinished {stored : Stored ρ} {columns : List ColumnIds}
    (h : stored.WrittenWith columns) : Unfinished (some stored) := by
  rintro p hp
  obtain rfl := Option.some.inj hp
  exact h

/-- A worker touches only what `COPY` writes for a file that can be packed, and never leaves a
parquet file there. -/
theorem PackOneStep.disk_cases (h : PackOneStep cwd hash f disk w disk' w')
    (hf : f ∈ files) (hw : w.Established cwd hash files disk₀ disk f)
    (hparquet : ∀ place p, disk place = some (.parquet p) → disk₀ place = some (.parquet p)) :
    disk' = disk ∨ (∃ p, Packable cwd files disk₀ f p) ∧ ∀ place, disk' place = disk place ∨
      f.Writes cwd disk₀ place ∧ Unfinished (disk' place) := by
  have hnone : Unfinished (none : Option (Stored ρ)) := nofun
  cases h with
  | copy onDisk source accepted existing left unfinished =>
      obtain ⟨⟨q, hq, hids⟩, hsame⟩ := hw
      obtain rfl := parquet_inj hq (hparquet _ _ source)
      have hp : Packable cwd files disk₀ f q := ⟨hf, onDisk, hq, _, hids, accepted⟩
      rw [hsame q hp] at existing
      exact .inr ⟨⟨q, hp⟩, update_cases (writes_output existing) unfinished⟩
  | @copied columns beside stored written =>
      obtain ⟨p, hp, rfl, hout⟩ := hw
      refine .inr ⟨⟨p, hp⟩, fun place ↦ ?_⟩
      have harchive : f.Writes cwd disk₀ (f.archive cwd) := .inl rfl
      have hlast := @update_cases _ _ _ (Function.update disk (f.output cwd beside) none) _ _ _
        harchive written.unfinished place
      rcases hlast with hsame | hnew
      · rw [hsame]
        exact update_cases hout hnone place
      · exact .inr hnew
  | copyFailed left unfinished =>
      obtain ⟨p, hp, -, hout⟩ := hw
      exact .inr ⟨⟨p, hp⟩, update_cases hout unfinished⟩
  | removeArchive =>
      obtain ⟨p, hp⟩ := hw
      exact .inr ⟨⟨p, hp⟩, update_cases (.inl rfl) hnone⟩
  | skip | select | hashSource | verify | mismatch | decompress | size | raise => exact .inl rfl

theorem PackOneStep.established (hhash : Function.Injective (fingerprint hash))
    (hfree : ∀ p, Packable cwd files disk₀ f p → p.RootNameFree)
    (h : PackOneStep cwd hash f disk w disk' w')
    (hf : f ∈ files) (hw : w.Established cwd hash files disk₀ disk f)
    (hparquet : ∀ place p, disk place = some (.parquet p) → disk₀ place = some (.parquet p)) :
    w'.Established cwd hash files disk₀ disk' f := by
  cases h with
  | skip | copyFailed | removeArchive | raise => trivial
  | select source fieldIds => exact ⟨⟨_, hparquet _ _ source, fieldIds⟩, hw⟩
  | copy onDisk source accepted existing left unfinished =>
      obtain ⟨⟨q, hq, hids⟩, hsame⟩ := hw
      obtain rfl := parquet_inj hq (hparquet _ _ source)
      have hpack : Packable cwd files disk₀ f q := ⟨hf, onDisk, hq, _, hids, accepted⟩
      rw [hsame q hpack] at existing
      exact ⟨q, hpack, (copiedColumns_eq_iff hids).mpr (hfree q hpack), writes_output existing⟩
  | copied stored written =>
      obtain ⟨p, hp, rfl, -⟩ := hw
      exact ⟨p, stored, hp, Function.update_self .., written⟩
  | hashSource source =>
      obtain ⟨p, stored, hp, hstored, hcolumns⟩ := hw
      obtain rfl := parquet_inj hp.source (hparquet _ _ source)
      exact ⟨p, stored, hp, hstored, hcolumns, rfl⟩
  | @verify a archive =>
      obtain ⟨p, stored, hp, hstored, hwritten, hhashed⟩ := hw
      obtain rfl : .archive a = stored := Option.some.inj (archive.symm.trans hstored)
      have hcolumns : a.whole.columns = p.content.columns := hwritten
      -- equal fingerprints, so the rows are those of the source
      have hrows : a.whole.rows = p.rows := hhash hhashed
      refine ⟨p, a, hp, archive, ?_⟩
      rw [show a.whole = ⟨a.whole.columns, a.whole.rows⟩ from rfl, hcolumns, hrows]
      rfl
  | mismatch =>
      obtain ⟨p, a, hp, -⟩ := hw
      exact ⟨p, hp⟩
  | decompress => exact hw
  | size => exact ⟨hw, rfl⟩

theorem PackOneStep.not_repointed (h : PackOneStep cwd hash f disk w disk' w') :
    w ≠ .repointed ∧ w' ≠ .repointed := by
  cases h with
  | raise mayRaise =>
      refine ⟨?_, by simp⟩
      rintro rfl
      exact mayRaise
  | skip | select | copy | copied | copyFailed | hashSource | verify | mismatch | removeArchive
  | decompress | size => simp

/-! ## What every run keeps -/

/-- A row is as it was, or it names the archive of its file. -/
def RowKept (files : List ListedFile) (workers : ℕ → Worker) (row row' : DataFileRow) : Prop :=
  row'.dataFileId = row.dataFileId ∧
    (row' = row ∧ workers row.dataFileId ≠ .repointed ∨
      ∃ f ∈ files, f.id = row.dataFileId ∧ workers f.id = .repointed ∧
        row'.path = packedPath (zlName f.path) ∧ row'.pathIsRelative = false)

structure Kept (cwd : String) (hash : ρ → ℕ → ℕ) (files : List ListedFile) (s₀ s : PackState ρ) :
    Prop where
  parquets : ∀ place p, s.disk place = some (.parquet p) → s₀.disk place = some (.parquet p)
  untouched : ∀ place, (∀ f p, Packable cwd files s₀.disk f p → ¬ f.Writes cwd s₀.disk place) →
    (∀ f ∈ files, s.workers f.id = .repointed → f.source cwd ≠ place) →
    s.disk place = s₀.disk place
  workers : ∀ f ∈ files, (s.workers f.id).Established cwd hash files s₀.disk s.disk f
  named : s.catalog.named cwd = s₀.catalog.named cwd
  rows : List.Forall₂ (RowKept files s.workers) s₀.catalog.dataFiles s.catalog.dataFiles
  removing : ∀ f, s.main = .removing f → f ∈ files ∧ s.workers f.id = .repointed

variable {s₀ s s' : PackState ρ} {workers workers' : ℕ → Worker} {row row' : DataFileRow} {id : ℕ}
  {place other : String}

theorem update_repointed_iff (hw : w ≠ .repointed) (hid : workers id ≠ .repointed) (k : ℕ) :
    Function.update workers id w k = .repointed ↔ workers k = .repointed := by
  by_cases hk : k = id
  · subst hk
    rw [Function.update_self]
    exact ⟨fun h ↦ absurd h hw, fun h ↦ absurd h hid⟩
  · rw [Function.update_of_ne hk]

theorem RowKept.congr (h : RowKept files workers row row')
    (hworkers : ∀ k, workers' k = .repointed ↔ workers k = .repointed) :
    RowKept files workers' row row' := by
  obtain ⟨hid, ⟨hrow, hnot⟩ | ⟨f, hf, hfid, hrep, hpath⟩⟩ := h
  · exact ⟨hid, .inl ⟨hrow, fun hrep ↦ hnot ((hworkers _).mp hrep)⟩⟩
  · exact ⟨hid, .inr ⟨f, hf, hfid, (hworkers _).mpr hrep, hpath⟩⟩

theorem Kept.start (cwd : String) (hash : ρ → ℕ → ℕ) (files : List ListedFile) (catalog : Catalog)
    (disk : Disk ρ) : Kept cwd hash files (.start catalog disk) (.start catalog disk) where
  parquets _ _ h := h
  untouched _ _ _ := rfl
  workers _ _ := fun _ _ ↦ rfl
  named := rfl
  rows := List.forall₂_same.mpr fun _ _ ↦ ⟨rfl, .inl ⟨rfl, by simp [PackState.start]⟩⟩
  removing _ h := by simp [PackState.start] at h

/-- The row of a file that can be packed reads it. -/
theorem Packable.readsAt (hp : Packable cwd files s.disk f p) (hf : s.catalog.Lists cwd f)
    (hrow : row ∈ s.catalog.dataFiles) (hid : row.dataFileId = f.id) :
    s.ReadsAt cwd row (f.source cwd) := by
  have hsource := hp.source
  rw [ListedFile.source, location_of_not_scheme hf.2] at hsource
  refine ⟨f.path, hf.named hrow hid, rfl, ?_⟩
  rw [readParquet_parquet hf.2 hsource]
  simp

theorem Worker.Established.packable (h : w.Established cwd hash files disk₀ disk f)
    (hw : w = .repointed) : ∃ p, Packable cwd files disk₀ f p := by
  subst hw
  obtain ⟨p, a, hp, -⟩ := h
  exact ⟨p, hp⟩

theorem parquets_update (left : Option (Stored ρ)) (hleft : Unfinished left)
    (h : ∀ place p, disk place = some (.parquet p) → disk₀ place = some (.parquet p)) :
    ∀ place p, Function.update disk other left place = some (.parquet p) →
      disk₀ place = some (.parquet p) := by
  intro place p hplace
  by_cases hne : place = other
  · rw [hne, Function.update_self] at hplace
    exact absurd hplace (hleft p)
  · rw [Function.update_of_ne hne] at hplace
    exact h place p hplace

theorem Kept.packOne (hhash : Function.Injective (fingerprint hash))
    (hapart : Apart cwd files s₀) (hlists : ∀ f ∈ files, s₀.catalog.Lists cwd f)
    (h : Kept cwd hash files s₀ s) (hf : f ∈ files)
    (hstep : PackOneStep cwd hash f s.disk (s.workers f.id) disk w) :
    Kept cwd hash files s₀
      { s with disk := disk, workers := Function.update s.workers f.id w } := by
  have hrep := update_repointed_iff hstep.not_repointed.2 hstep.not_repointed.1
  have hcases := hstep.disk_cases hf (h.workers f hf) h.parquets
  have hparquets : ∀ place p, disk place = some (.parquet p) →
      s₀.disk place = some (.parquet p) := by
    rcases hcases with rfl | ⟨-, hplaces⟩
    · exact h.parquets
    · intro place p hplace
      rcases hplaces place with hsame | ⟨-, hunfinished⟩
      · exact h.parquets place p (hsame ▸ hplace)
      · exact absurd hplace (hunfinished p)
  have huntouched : ∀ place,
      (∀ f p, Packable cwd files s₀.disk f p → ¬ f.Writes cwd s₀.disk place) →
      (∀ g ∈ files, Function.update s.workers f.id w g.id = .repointed → g.source cwd ≠ place) →
      disk place = s₀.disk place := by
    intro place harchive hsource
    have hsame := h.untouched place harchive fun g hg hg' ↦ hsource g hg ((hrep g.id).mpr hg')
    rcases hcases with rfl | ⟨⟨q, hq⟩, hplaces⟩
    · exact hsame
    · rcases hplaces place with hkept | ⟨hwrites, -⟩
      · exact hkept.trans hsame
      · exact absurd hwrites (harchive f q hq)
  have hworkers : ∀ g ∈ files,
      (Function.update s.workers f.id w g.id).Established cwd hash files s₀.disk disk g := by
    intro g hg
    by_cases hid : g.id = f.id
    · obtain rfl := (hlists g hg).eq_of_id (hlists f hf) hid
      rw [Function.update_self]
      exact hstep.established hhash (hapart.fieldIds g) hf (h.workers g hf) h.parquets
    · rw [Function.update_of_ne hid]
      refine (h.workers g hg).congr fun q hq ↦ ?_
      rcases hcases with rfl | ⟨⟨p, hp⟩, hplaces⟩
      · rfl
      · rcases hplaces (g.archive cwd) with hkept | ⟨hwrites, -⟩
        · exact hkept
        · exact absurd hwrites (hapart.target f p g q hp hq (Ne.symm hid))
  refine ⟨hparquets, huntouched, hworkers, h.named, h.rows.imp fun _ _ hrow ↦ hrow.congr hrep, ?_⟩
  intro g hg
  obtain ⟨hmem, hworker⟩ := h.removing g hg
  exact ⟨hmem, (hrep g.id).mpr hworker⟩

/-- A result that the main loop only takes note of. -/
theorem Kept.reported {outcome : Outcome} (h : Kept cwd hash files s₀ s)
    (hworker : s.workers id = .finished outcome) {main : Main}
    (hmain : ∀ f, main = .removing f → s.main = .removing f) :
    Kept cwd hash files s₀
      { s with workers := Function.update s.workers id .reported, main := main } := by
  have hrep : ∀ k, Function.update s.workers id .reported k = .repointed ↔
      s.workers k = .repointed := update_repointed_iff (by simp) (by simp [hworker])
  have hworkers : ∀ g ∈ files, (Function.update s.workers id .reported g.id).Established
      cwd hash files s₀.disk s.disk g := by
    intro g hg
    by_cases hid : g.id = id
    · rw [hid, Function.update_self]
      trivial
    · rw [Function.update_of_ne hid]
      exact h.workers g hg
  have huntouched : ∀ place,
      (∀ f p, Packable cwd files s₀.disk f p → ¬ f.Writes cwd s₀.disk place) →
      (∀ g ∈ files, Function.update s.workers id .reported g.id = .repointed →
        g.source cwd ≠ place) → s.disk place = s₀.disk place :=
    fun place harchive hsource ↦
      h.untouched place harchive fun g hg hg' ↦ hsource g hg ((hrep g.id).mpr hg')
  refine ⟨h.parquets, huntouched, hworkers, h.named, h.rows.imp fun _ _ hrow ↦ hrow.congr hrep, ?_⟩
  intro g hg
  obtain ⟨hmem, hworker⟩ := h.removing g (hmain g hg)
  exact ⟨hmem, (hrep g.id).mpr hworker⟩

theorem Kept.repoint {res : PackResult} (hlists : ∀ f ∈ files, s₀.catalog.Lists cwd f)
    (h : Kept cwd hash files s₀ s) (hf : f ∈ files)
    (hworker : s.workers f.id = .finished (.packed res)) :
    Kept cwd hash files s₀
      { s with
        catalog := s.catalog.repoint f.id res
        workers := Function.update s.workers f.id .repointed
        main := .removing f } := by
  have hwas : (Worker.finished (.packed res)).Established cwd hash files s₀.disk s.disk f :=
    hworker ▸ h.workers f hf
  obtain ⟨harchived, hzl⟩ := hwas
  have hkeep : ∀ k, s.workers k = .repointed →
      Function.update s.workers f.id .repointed k = .repointed := by
    intro k hk
    by_cases hid : k = f.id
    · rw [hid, Function.update_self]
    · rwa [Function.update_of_ne hid]
  have hworkers : ∀ g ∈ files, (Function.update s.workers f.id .repointed g.id).Established
      cwd hash files s₀.disk s.disk g := by
    intro g hg
    by_cases hid : g.id = f.id
    · obtain rfl := (hlists g hg).eq_of_id (hlists f hf) hid
      rw [Function.update_self]
      exact harchived
    · rw [Function.update_of_ne hid]
      exact h.workers g hg
  have hrows : List.Forall₂ (RowKept files (Function.update s.workers f.id .repointed))
      s₀.catalog.dataFiles (s.catalog.dataFiles.map (Catalog.repointed f.id res)) := by
    refine List.forall₂_map_right_iff.mpr (h.rows.imp fun row row' hrow ↦ ?_)
    obtain ⟨hid, hrow⟩ := hrow
    refine ⟨(Catalog.dataFileId_repointed f.id res row').trans hid, ?_⟩
    by_cases hrowId : row'.dataFileId = f.id
    · -- the row that the update is about
      refine .inr ⟨f, hf, hrowId.symm.trans hid, Function.update_self .., ?_⟩
      rw [Catalog.repointed, if_pos hrowId, hzl]
      exact ⟨rfl, rfl⟩
    · rw [Catalog.repointed, if_neg hrowId]
      rcases hrow with ⟨hsame, hnot⟩ | ⟨g, hg, hgid, hrep, hpath⟩
      · refine .inl ⟨hsame, ?_⟩
        rwa [Function.update_of_ne (hid ▸ hrowId)]
      · exact .inr ⟨g, hg, hgid, hkeep g.id hrep, hpath⟩
  have huntouched : ∀ place,
      (∀ f p, Packable cwd files s₀.disk f p → ¬ f.Writes cwd s₀.disk place) →
      (∀ g ∈ files, Function.update s.workers f.id .repointed g.id = .repointed →
        g.source cwd ≠ place) → s.disk place = s₀.disk place :=
    fun place harchive hsource ↦
      h.untouched place harchive fun g hg hg' ↦ hsource g hg (hkeep g.id hg')
  refine ⟨h.parquets, huntouched, hworkers, h.named, hrows, ?_⟩
  intro g hg
  obtain rfl := Main.removing.inj hg
  exact ⟨hf, Function.update_self ..⟩

theorem Kept.remove (hapart : Apart cwd files s₀) (hlists : ∀ f ∈ files, s₀.catalog.Lists cwd f)
    (h : Kept cwd hash files s₀ s) (hmain : s.main = .removing f) :
    Kept cwd hash files s₀
      { s with disk := Function.update s.disk (f.source cwd) none, main := .waiting } := by
  obtain ⟨hf, hrep⟩ := h.removing f hmain
  obtain ⟨p, hp⟩ := (h.workers f hf).packable hrep
  obtain ⟨⟨row, hrow, hlisted⟩, -⟩ := hlists f hf
  have hreads := hp.readsAt (hlists f hf) hrow (Catalog.listed_eq_some hlisted).1
  have huntouched : ∀ place,
      (∀ f p, Packable cwd files s₀.disk f p → ¬ f.Writes cwd s₀.disk place) →
      (∀ g ∈ files, s.workers g.id = .repointed → g.source cwd ≠ place) →
      Function.update s.disk (f.source cwd) none place = s₀.disk place := by
    intro place harchive hsource
    rw [Function.update_of_ne (hsource f hf hrep).symm]
    exact h.untouched place harchive hsource
  have hworkers : ∀ g ∈ files, (s.workers g.id).Established cwd hash files s₀.disk
      (Function.update s.disk (f.source cwd) none) g := by
    intro g hg
    refine (h.workers g hg).congr fun q hq ↦ Function.update_of_ne ?_ ..
    -- the archive of another file is not the source of this one
    intro heq
    exact hapart.archive g q hq _ (.inl rfl) row hrow (heq ▸ hreads)
  exact ⟨parquets_update none (by simp [Unfinished]) h.parquets, huntouched, hworkers, h.named,
    h.rows, by simp⟩

theorem Kept.step (hhash : Function.Injective (fingerprint hash)) (hapart : Apart cwd files s₀)
    (hlists : ∀ f ∈ files, s₀.catalog.Lists cwd f) (h : Kept cwd hash files s₀ s)
    (hstep : PackStep cwd hash files s s') : Kept cwd hash files s₀ s' := by
  cases hstep with
  | packOne file step => exact h.packOne hhash hapart hlists file step
  | report file main worker => exact h.reported worker fun _ h ↦ h
  | repoint file main worker => exact h.repoint hlists file worker
  | repointFailed file main worker => exact h.reported worker fun _ h ↦ by cases h
  | remove main => exact h.remove hapart hlists main
  | removeFailed =>
      exact ⟨h.parquets, h.untouched, h.workers, h.named, h.rows, fun _ h ↦ by cases h⟩

/-- A row that is as it was reads a file that no step touches. -/
theorem Kept.yields_same (hapart : Apart cwd files s₀) (h : Kept cwd hash files s₀ s)
    (hrow : row ∈ s₀.catalog.dataFiles) (hnot : s.workers row.dataFileId ≠ .repointed)
    {content : Content ρ} (hyields : s₀.yields cwd row = some content) :
    s.yields cwd row = some content := by
  obtain ⟨path, hnamed, hread⟩ := Option.bind_eq_some_iff.mp hyields
  have hreads : s₀.ReadsAt cwd row (location cwd path) := ⟨path, hnamed, rfl, by simp [hread]⟩
  have hdisk : s.disk (location cwd path) = s₀.disk (location cwd path) := by
    refine h.untouched _ (fun f p hp hwrites ↦ ?_) fun f hf hrep heq ↦ ?_
    · exact hapart.archive f p hp _ hwrites row hrow hreads
    · obtain ⟨p, hp⟩ := (h.workers f hf).packable hrep
      have hne : row.dataFileId ≠ f.id := fun hid ↦ hnot (hid ▸ hrep)
      exact hapart.source f p hp row hrow hne (heq ▸ hreads)
  rw [PackState.yields, h.named, hnamed, Option.bind_some, readParquet_congr hdisk]
  exact hread

/-- A repointed row reads an archive of what it read before. -/
theorem Kept.yields_repointed (hlists : ∀ f ∈ files, s₀.catalog.Lists cwd f)
    (h : Kept cwd hash files s₀ s) (hrow : row ∈ s₀.catalog.dataFiles) (hf : f ∈ files)
    (hid : f.id = row.dataFileId) (hrep : s.workers f.id = .repointed)
    (hpath : row'.path = packedPath (zlName f.path)) (hrel : row'.pathIsRelative = false) :
    s.yields cwd row' = s₀.yields cwd row := by
  have harchived : Worker.repointed.Established cwd hash files s₀.disk s.disk f :=
    hrep ▸ h.workers f hf
  obtain ⟨p, a, hp, ha, hwhole⟩ := harchived
  have hsource := hp.source
  rw [ListedFile.source, location_of_not_scheme (hlists f hf).2] at hsource
  calc s.yields cwd row' = readParquet cwd s.disk (packedPath (zlName f.path)) := by
        rw [PackState.yields, Catalog.named_packed hpath hrel, Option.bind_some]
    _ = some p.content := by rw [readParquet_packedPath ha, hwhole]
    _ = readParquet cwd s₀.disk f.path := (readParquet_parquet (hlists f hf).2 hsource).symm
    _ = s₀.yields cwd row := by
        rw [PackState.yields, (hlists f hf).named hrow hid.symm, Option.bind_some]

theorem Kept.intact (hapart : Apart cwd files s₀)
    (hlists : ∀ f ∈ files, s₀.catalog.Lists cwd f) (h : Kept cwd hash files s₀ s) :
    PackState.Intact cwd s₀ s := by
  have hrows := (List.forall₂_and_left _ _).mpr ⟨fun row hrow ↦ hrow, h.rows⟩
  refine hrows.imp fun row row' hrow ↦ ?_
  obtain ⟨hmem, hid, ⟨rfl, hnot⟩ | ⟨f, hf, hfid, hrep, hpath, hrel⟩⟩ := hrow
  · exact ⟨rfl, fun content ↦ h.yields_same hapart hmem hnot⟩
  · refine ⟨hid, fun content hyields ↦ ?_⟩
    rw [h.yields_repointed hlists hmem hf hfid hrep hpath hrel, hyields]

end DucklakePack

end DuckdbOpenzl
