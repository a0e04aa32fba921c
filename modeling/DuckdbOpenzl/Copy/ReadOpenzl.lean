import DuckdbOpenzl.Copy.RowOrder
import DuckdbOpenzl.FileSystem.Handle
import DuckdbOpenzl.Library.MapM
import DuckdbOpenzl.Library.StateLoops

/-!
# `read_openzl` on an archive that nobody changes

The macro is `read_parquet` on the path behind `openzl://`: `Glob` expands the
archive into its chunks, and each of them is opened and read as a parquet file.
-/

set_option autoImplicit false

namespace DuckdbOpenzl

open ExceptionState FileContent

variable {zl : OpenZL} {o : OpenerSettings} {w : World} {cache : ArchiveCache} {bytes : Bytes}

/-! ## The macro -/

/-- Open a file, ask for its size and read it. -/
def readWhole (zl : OpenZL) (o : OpenerSettings) (path : String) : FsM Bytes := do
  let h ← openFile zl path .read o
  MonadExcept.ofExcept (h.readAt h.bytes.length 0)

/-- `read_openzl(path)`: the rows, unless a file is not parquet. -/
def readOpenzl {P : ParquetCopyFunction} (zl : OpenZL) (V : ParquetView P) (o : OpenerSettings)
    (path : Path) : FsM (Option (List P.Row)) := do
  let paths ← zoom Prod.fst (fun w s ↦ (w, s.2)) (glob ("openzl://" ++ path))
  let files ← paths.mapM (readWhole zl o)
  return (files.mapM V.readParquet).map List.flatten

/-! ## One file -/

theorem readAt_whole (h : OpenzlFileHandle) : h.readAt h.bytes.length 0 = .ok h.bytes := by
  have hsize : ¬ add64 0 h.bytes.length > h.bytes.length := by
    have hmod := Nat.mod_le (0 + h.bytes.length) (2 ^ 64)
    unfold add64
    omega
  rw [OpenzlFileHandle.readAt, if_neg hsize, slice_length]

/-- With no live buffer for the path the file is what it decompresses to now. -/
theorem readWhole_ok {path : String} (hlock : (cache (stripScheme path)).lock = none)
    (hread : decompressArchive zl (resolve (stripScheme path)) w = .ok bytes w) :
    ∃ cache', readWhole zl o path (w, cache) = .ok bytes (w, cache') ∧
      ∀ p, p ≠ stripScheme path → cache' p = cache p := by
  have hopen : openFile zl path .read o (w, cache) = openForReading zl path (w, cache) := rfl
  have hlookup := ArchiveSlot.lookup_of_lock_none hlock
    (statArchive (resolve (stripScheme path)).1 w)
  unfold readWhole
  rw [bind_apply, hopen, openForReading]
  dsimp only
  rw [hlookup, hread]
  dsimp only
  rw [readAt_whole]
  exact ⟨_, rfl, fun p hp ↦ Function.update_of_ne hp _ _⟩

theorem mapM_readWhole {paths : List String} {files : List Bytes}
    (hnodup : (paths.map stripScheme).Nodup)
    (hlock : ∀ path ∈ paths, (cache (stripScheme path)).lock = none)
    (hread : List.Forall₂ (fun path bytes ↦
      decompressArchive zl (resolve (stripScheme path)) w = .ok bytes w) paths files) :
    ∃ cache', paths.mapM (readWhole zl o) (w, cache) = .ok files (w, cache') := by
  induction hread generalizing cache with
  | nil => exact ⟨cache, rfl⟩
  | @cons path bytes paths files hpath _ ih =>
      rw [List.map_cons, List.nodup_cons] at hnodup
      obtain ⟨cache₁, hfirst, hothers⟩ := readWhole_ok (o := o)
        (hlock path List.mem_cons_self) hpath
      have hlock₁ : ∀ p ∈ paths, (cache₁ (stripScheme p)).lock = none := by
        intro p hp
        rw [hothers]
        · exact hlock p (List.mem_cons_of_mem path hp)
        · intro hsame
          exact hnodup.1 (List.mem_map.mpr ⟨p, hp, hsame⟩)
      obtain ⟨cache₂, hrest⟩ := ih hnodup.2 hlock₁
      refine ⟨cache₂, ?_⟩
      rw [List.mapM_cons]
      exact bind_eq_ok_iff.mpr ⟨bytes, _, hfirst, bind_eq_ok_iff.mpr ⟨files, _, hrest, rfl⟩⟩

/-! ## The whole archive -/

variable {P : ParquetCopyFunction} {V : ParquetView P} {path : Path} {chunks : List (List P.Row)}

/-- What `Glob` makes of an index. -/
def expandedPaths (path : Path) : Option (List ChunkRange) → List String
  | some ranges => (List.range ranges.length).map (chunkPath ("openzl://" ++ path))
  | none => ["openzl://" ++ path]

theorem exists_index_of_chunkCount {n : ℕ} (h : chunkCount path w = .ok n w) :
    (w.content path).isSome = true ∧ ∃ index, readContainerIndex path w = .ok index w ∧
      (expandedPaths path index).length = n := by
  obtain ⟨u, v, hfile, hrest⟩ := bind_eq_ok_iff.mp h
  obtain ⟨hfile, rfl⟩ := opened_eq_ok_iff.mp hfile
  obtain ⟨index, v, hindex, hcount⟩ := bind_eq_ok_iff.mp hrest
  obtain ⟨rfl, rfl⟩ := EStateM.Result.ok.inj hcount
  constructor
  · unfold requireFile at hfile
    split_ifs at hfile with hsome
    exact hsome
  · refine ⟨index, hindex, ?_⟩
    cases index <;> simp [expandedPaths]

theorem glob_eq (hp : splitChunkSuffix path = none) (hfile : (w.content path).isSome = true)
    {index : Option (List ChunkRange)} (hindex : readContainerIndex path w = .ok index w) :
    glob ("openzl://" ++ path) w = .ok (expandedPaths path index) w := by
  have hexists : opened path (fun file ↦ .ok file.isSome) w = .ok true w :=
    opened_eq_ok_iff.mpr ⟨by rw [hfile], rfl⟩
  unfold glob
  rw [stripScheme_scheme, hp, if_neg (by simp)]
  unfold EStateM.adaptExcept globArchive
  rw [bind_apply, hexists]
  dsimp only
  rw [if_pos rfl, bind_apply, hindex]
  cases index <;> rfl

/-- A plain archive is what `decompressToBuffer` takes. -/
theorem index_eq_none {index : Option (List ChunkRange)}
    (hindex : readContainerIndex path w = .ok index w)
    (h : decompressToBuffer zl path w = .ok bytes w) : index = none := by
  obtain ⟨u, v, hfile, hrest⟩ := bind_eq_ok_iff.mp h
  obtain ⟨-, rfl⟩ := opened_eq_ok_iff.mp hfile
  obtain ⟨u', v, hplain, -⟩ := bind_eq_ok_iff.mp hrest
  obtain ⟨hplain, rfl⟩ := opened_eq_ok_iff.mp hplain
  have hcontent := (opened_eq_ok_iff.mp hindex).1
  unfold requirePlain at hplain
  rw [hcontent] at hplain
  cases index with
  | none => rfl
  | some ranges => cases hplain

theorem nodup_expandedPaths {index : Option (List ChunkRange)}
    (hcount : (expandedPaths path index).length < 10 ^ 15) :
    ((expandedPaths path index).map stripScheme).Nodup := by
  cases index with
  | none => exact List.nodup_singleton _
  | some ranges =>
      simp only [expandedPaths, List.length_map, List.length_range] at hcount
      rw [expandedPaths, List.map_map]
      apply List.Nodup.map_on _ List.nodup_range
      intro i hi j hj hsame
      rw [List.mem_range] at hi hj
      simp only [Function.comp_apply, chunkPath_scheme, stripScheme_scheme] at hsame
      have hsplit := splitChunkSuffix_chunkPath path (hi.trans hcount)
      rw [hsame, splitChunkSuffix_chunkPath path (hj.trans hcount)] at hsplit
      exact (Prod.mk.inj (Option.some.inj hsplit)).2.symm

/-- Every expanded path gives its own chunk. -/
theorem ArchiveRows.expanded (h : ArchiveRows zl V path chunks w)
    (hp : splitChunkSuffix path = none) (hcount : chunks.length < 10 ^ 15) :
    ∃ index files, readContainerIndex path w = .ok index w ∧
      (expandedPaths path index).length = chunks.length ∧
      List.Forall₂ (fun path bytes ↦ decompressArchive zl (resolve (stripScheme path)) w =
        .ok bytes w) (expandedPaths path index) files ∧
      files.mapM V.readParquet = some chunks := by
  obtain ⟨-, index, hindex, hlength⟩ := exists_index_of_chunkCount h.chunkCount
  have hfile : ∀ i (hi : i < (expandedPaths path index).length) (hchunk : i < chunks.length),
      ∃ bytes, decompressArchive zl (resolve (stripScheme (expandedPaths path index)[i])) w =
        .ok bytes w ∧ V.readParquet bytes = some chunks[i] := by
    intro i hi hchunk
    obtain ⟨bytes, hread, hrows⟩ := h.rows i hchunk
    refine ⟨bytes, ?_, hrows⟩
    cases index with
    | none =>
        simp only [expandedPaths, List.length_singleton] at hlength hi
        rw [if_pos hlength.symm] at hread
        simp only [expandedPaths, List.getElem_singleton, stripScheme_scheme, resolve_of_none hp]
        exact hread
    | some ranges =>
        have hmany : chunks.length ≠ 1 := by
          intro hone
          obtain ⟨bytes', hplain, -⟩ := h.rows 0 (by omega)
          rw [if_pos hone] at hplain
          cases index_eq_none hindex hplain
        rw [if_neg hmany] at hread
        simp only [expandedPaths, List.getElem_map, List.getElem_range, chunkPath_scheme,
          stripScheme_scheme, resolve_chunkPath path (hchunk.trans hcount)]
        exact hread
  have hall : List.Forall₂ (fun path rows ↦ ∃ bytes,
      decompressArchive zl (resolve (stripScheme path)) w = .ok bytes w ∧
        V.readParquet bytes = some rows) (expandedPaths path index) chunks :=
    List.forall₂_iff_get.mpr ⟨hlength, fun i hi hchunk ↦ hfile i hi hchunk⟩
  obtain ⟨files, hfiles, hrows⟩ := MapM.exists_between hall
  exact ⟨index, files, hindex, hlength, hfiles, MapM.option_iff.mpr hrows⟩

/-- On an archive that nobody changes, while no handle on it is open, `read_openzl` gives the rows
of the chunks. -/
theorem ArchiveRows.readOpenzl (h : ArchiveRows zl V path chunks w)
    (hp : splitChunkSuffix path = none) (hcount : chunks.length < 10 ^ 15)
    (hlock : ∀ p, (cache p).lock = none) :
    ∃ cache', readOpenzl zl V o path (w, cache) = .ok (some chunks.flatten) (w, cache') := by
  obtain ⟨hfile, -⟩ := exists_index_of_chunkCount h.chunkCount
  obtain ⟨index, files, hindex, hlength, hfiles, hrows⟩ := h.expanded hp hcount
  have hglob := glob_eq hp hfile hindex
  have hnodup := nodup_expandedPaths (hlength ▸ hcount)
  obtain ⟨cache', hread⟩ := mapM_readWhole (o := o) hnodup (fun p _ ↦ hlock _) hfiles
  refine ⟨cache', ?_⟩
  unfold DuckdbOpenzl.readOpenzl
  refine bind_eq_ok_iff.mpr ⟨_, (w, cache), ?_, bind_eq_ok_iff.mpr ⟨files, _, hread, ?_⟩⟩
  · rw [zoom, hglob]
  · rw [hrows]
    rfl

end DuckdbOpenzl
