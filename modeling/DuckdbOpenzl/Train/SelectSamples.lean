import DuckdbOpenzl.Bridge.Compress
import DuckdbOpenzl.Library.GreedySelection

/-!
# The samples a compressor is trained on

`SelectSamplePaths` goes through the files in order with three limits in
`size_t` arithmetic. The selection it is meant to make is the greedy one over
the integers.
-/

set_option autoImplicit false

namespace DuckdbOpenzl

open GreedySelection

/-- The options of a training run that the modelled part reads. -/
structure TrainOptions where
  numSamples : ℕ := 0
  maxFileSizeMb : ℕ := 0
  maxTotalSizeMb : ℕ := 0
  compressionLevel : ℤ := 9
  formatVersion : ℤ := 0
  parquetChunkBytes : ℕ := kAutoParquetChunkBytes

namespace TrainOptions

def maxFileBytes (opts : TrainOptions) : ℕ :=
  mul64 (mul64 (if opts.maxFileSizeMb > 0 then opts.maxFileSizeMb else 150) 1024) 1024

def maxTotalBytes (opts : TrainOptions) : ℕ :=
  mul64 (mul64 (if opts.maxTotalSizeMb > 0 then opts.maxTotalSizeMb else 300) 1024) 1024

end TrainOptions

/-- The loop of `SelectSamplePaths`. -/
def selectLoop (size : Path → ℕ) (opts : TrainOptions) :
    List Path → List Path → ℕ → List Path
  | [], selected, _ => selected
  | path :: paths, selected, total =>
      if opts.numSamples > 0 ∧ selected.length ≥ opts.numSamples then selected
      else
        let sz := size path
        if sz > opts.maxFileBytes then selectLoop size opts paths selected total
        else if add64 total sz > opts.maxTotalBytes ∧ selected ≠ [] then selected
        else selectLoop size opts paths (selected ++ [path]) (add64 total sz)

def noSamples (opts : TrainOptions) : Error :=
  ⟨"openzl_bridge: no sample files survived the size limits (max_file_size_mb=" ++
    toString (opts.maxFileBytes / (1024 * 1024)) ++ ", max_total_size_mb=" ++
    toString (opts.maxTotalBytes / (1024 * 1024)) ++ ")"⟩

def selectSamplePaths (samplePaths : List Path) (opts : TrainOptions) (w : World) :
    Except Error (List Path) :=
  let selected := selectLoop (fun path ↦ fileSize (w.content path)) opts samplePaths [] 0
  if selected.isEmpty then .error (noSamples opts) else .ok selected

/-! ## The selection that is meant -/

/-- The sizes of the files taken so far, added up. -/
def totalSize (size : Path → ℕ) (paths : List Path) : ℕ := (paths.map size).sum

/-- Pass over files larger than `fileLimit`; end at the one that makes the count or, unless it is
the first, the total too large. The total is compared after `wrap`. -/
def sampleRule (size : Path → ℕ) (numSamples fileLimit totalLimit : ℕ) (wrap : ℕ → ℕ) :
    Rule Path where
  skip path := fileLimit < size path
  stop taken path := (0 < numSamples ∧ numSamples < taken.length + 1) ∨
    (taken ≠ [] ∧ totalLimit < wrap (totalSize size taken + size path))

/-- The limits as they are asked for, in bytes. -/
def TrainOptions.fileLimit (opts : TrainOptions) : ℕ :=
  (if opts.maxFileSizeMb = 0 then 150 else opts.maxFileSizeMb) * 2 ^ 20

def TrainOptions.totalLimit (opts : TrainOptions) : ℕ :=
  (if opts.maxTotalSizeMb = 0 then 300 else opts.maxTotalSizeMb) * 2 ^ 20

def exactRule (size : Path → ℕ) (opts : TrainOptions) : Rule Path :=
  sampleRule size opts.numSamples opts.fileLimit opts.totalLimit id

def wrappedRule (size : Path → ℕ) (opts : TrainOptions) : Rule Path :=
  sampleRule size opts.numSamples (opts.fileLimit % 2 ^ 64) (opts.totalLimit % 2 ^ 64) (· % 2 ^ 64)

/-! ## The loop is a greedy selection -/

section

variable {size : Path → ℕ} {opts : TrainOptions} {paths selected : List Path} {total : ℕ}

theorem maxFileBytes_eq (opts : TrainOptions) : opts.maxFileBytes = opts.fileLimit % 2 ^ 64 := by
  unfold TrainOptions.maxFileBytes TrainOptions.fileLimit mul64
  rcases Nat.eq_zero_or_pos opts.maxFileSizeMb with hzero | hpos
  · simp [hzero]
  · rw [if_pos hpos, if_neg (by omega)]
    omega

theorem maxTotalBytes_eq (opts : TrainOptions) : opts.maxTotalBytes = opts.totalLimit % 2 ^ 64 := by
  unfold TrainOptions.maxTotalBytes TrainOptions.totalLimit mul64
  rcases Nat.eq_zero_or_pos opts.maxTotalSizeMb with hzero | hpos
  · simp [hzero]
  · rw [if_pos hpos, if_neg (by omega)]
    omega

/-- Once the count is reached nothing more is taken. -/
theorem select_of_full (hpos : 0 < opts.numSamples) (hfull : opts.numSamples ≤ selected.length)
    (paths : List Path) : (wrappedRule size opts).select selected paths = [] := by
  rw [Rule.select_eq_nil_iff]
  induction paths with
  | nil => trivial
  | cons path paths ih =>
      rw [Rule.Ends]
      split
      · exact ih
      · simp [wrappedRule, sampleRule, hpos, hfull]

theorem selectLoop_eq (paths : List Path) (selected : List Path) (total : ℕ)
    (htotal : total = totalSize size selected % 2 ^ 64) :
    selectLoop size opts paths selected total =
      selected ++ (wrappedRule size opts).select selected paths := by
  induction paths generalizing selected total with
  | nil => simp [selectLoop, Rule.select]
  | cons path paths ih =>
      rw [selectLoop]
      by_cases hfull : opts.numSamples > 0 ∧ selected.length ≥ opts.numSamples
      · rw [if_pos hfull, select_of_full hfull.1 hfull.2, List.append_nil]
      · have hsum : add64 total (size path) = (totalSize size selected + size path) % 2 ^ 64 := by
          unfold add64
          omega
        have hnext : add64 total (size path) = totalSize size (selected ++ [path]) % 2 ^ 64 := by
          rw [hsum]
          simp [totalSize]
        have hstop : (wrappedRule size opts).stop selected path = true ↔
            add64 total (size path) > opts.maxTotalBytes ∧ selected ≠ [] := by
          rw [hsum, maxTotalBytes_eq]
          simp only [wrappedRule, sampleRule, decide_eq_true_eq]
          constructor
          · rintro (hcount | ⟨hsome, hover⟩)
            · exact absurd ⟨hcount.1, by omega⟩ hfull
            · exact ⟨hover, hsome⟩
          · rintro ⟨hover, hsome⟩
            exact .inr ⟨hsome, hover⟩
        have hskip : (wrappedRule size opts).skip path = true ↔ size path > opts.maxFileBytes := by
          rw [maxFileBytes_eq]
          simp [wrappedRule, sampleRule]
        rw [if_neg hfull, Rule.select]
        dsimp only
        by_cases hlarge : size path > opts.maxFileBytes
        · rw [if_pos hlarge, if_pos (hskip.mpr hlarge), ih selected total htotal]
        · rw [if_neg hlarge, if_neg (fun h ↦ hlarge (hskip.mp h))]
          by_cases hover : add64 total (size path) > opts.maxTotalBytes ∧ selected ≠ []
          · rw [if_pos hover, if_pos (hstop.mpr hover), List.append_nil]
          · rw [if_neg hover, if_neg (fun h ↦ hover (hstop.mp h)), ih _ _ hnext]
            simp

end

/-! ## Where the wrapped limits change nothing -/

variable {samplePaths : List Path} {opts : TrainOptions} {w : World}

def sampleSize (w : World) (path : Path) : ℕ := fileSize (w.content path)

/-- The greedy selection is returned, or it is empty and an error is thrown. -/
def SelectsGreedily (samplePaths : List Path) (opts : TrainOptions) (w : World) : Prop :=
  let greedy := (exactRule (sampleSize w) opts).select [] samplePaths
  match selectSamplePaths samplePaths opts w with
  | .ok selected => selected = greedy ∧ greedy ≠ []
  | .error _ => greedy = []

/-- A file that is too large for the exact limit is too large for the wrapped one. -/
theorem wrappedRule_skip {size : Path → ℕ} (path : Path)
    (h : (exactRule size opts).skip path = true) : (wrappedRule size opts).skip path = true := by
  simp only [exactRule, wrappedRule, sampleRule, decide_eq_true_eq] at h ⊢
  exact (Nat.mod_le _ _).trans_lt h

theorem selectsGreedily_iff_select_eq : SelectsGreedily samplePaths opts w ↔
    (wrappedRule (sampleSize w) opts).select [] samplePaths =
      (exactRule (sampleSize w) opts).select [] samplePaths := by
  have hloop : selectLoop (fun path ↦ fileSize (w.content path)) opts samplePaths [] 0 =
      (wrappedRule (sampleSize w) opts).select [] samplePaths :=
    selectLoop_eq samplePaths [] 0 rfl
  unfold SelectsGreedily selectSamplePaths
  rw [hloop]
  cases hselected : (wrappedRule (sampleSize w) opts).select [] samplePaths with
  | nil => exact eq_comm
  | cons path paths =>
      constructor
      · exact fun h ↦ h.1
      · intro heq
        rw [← heq]
        exact ⟨rfl, List.cons_ne_nil _ _⟩

/-- `SelectSamplePaths` selects greedily exactly when its limits, wrapped to 64 bits, decide like
the exact ones as far as the exact selection goes, and end where it ends. -/
theorem selectsGreedily_iff (samplePaths : List Path) (opts : TrainOptions) (w : World) :
    SelectsGreedily samplePaths opts w ↔
      (exactRule (sampleSize w) opts).Follows (wrappedRule (sampleSize w) opts) [] samplePaths :=
  selectsGreedily_iff_select_eq.trans (Rule.select_eq_iff wrappedRule_skip)

/-- Limits below `2 ^ 43` MB wrap nothing, whatever the files. -/
theorem selectsGreedily_of_small (samplePaths : List Path) (w : World)
    (hfile : opts.maxFileSizeMb < 2 ^ 43) (htotal : opts.maxTotalSizeMb < 2 ^ 43) :
    SelectsGreedily samplePaths opts w := by
  rw [selectsGreedily_iff_select_eq, Rule.select_eq_iff wrappedRule_skip]
  have hfileLimit : opts.fileLimit < 2 ^ 63 := by
    unfold TrainOptions.fileLimit
    split <;> omega
  have htotalLimit : opts.totalLimit < 2 ^ 63 := by
    unfold TrainOptions.totalLimit
    split <;> omega
  apply Rule.follows_of_agree fun taken ↦ totalSize (sampleSize w) taken < 2 ^ 63
  · intro path hskip
    simp only [exactRule, wrappedRule, sampleRule, decide_eq_false_iff_not] at hskip ⊢
    rwa [Nat.mod_eq_of_lt (by omega)]
  · intro taken path hinv hskip
    simp only [exactRule, wrappedRule, sampleRule, decide_eq_false_iff_not, id] at hskip ⊢
    simp only [Nat.mod_eq_of_lt (show opts.totalLimit < 2 ^ 64 by omega), Nat.mod_eq_of_lt
      (show totalSize (sampleSize w) taken + sampleSize w path < 2 ^ 64 by omega)]
  · intro taken path hinv hskip hstop
    simp only [exactRule, sampleRule, decide_eq_false_iff_not, id] at hskip hstop
    have hsum : totalSize (sampleSize w) (taken ++ [path]) =
        totalSize (sampleSize w) taken + sampleSize w path := by
      simp [totalSize]
    rw [hsum]
    by_cases hfirst : taken = []
    · subst hfirst
      have hzero : totalSize (sampleSize w) [] = 0 := rfl
      omega
    · have hfits : ¬ opts.totalLimit < totalSize (sampleSize w) taken + sampleSize w path :=
        fun hover ↦ hstop (.inr ⟨hfirst, hover⟩)
      omega
  · exact Nat.two_pow_pos 63

/-- With a limit of `2 ^ 44` MB for each file no file is small enough. -/
theorem not_selectsGreedily_wrapped : ∃ (opts : TrainOptions) (w : World),
    opts.maxFileSizeMb = 2 ^ 44 ∧ sampleSize w "a.parquet" = 1 ∧
      selectSamplePaths ["a.parquet"] opts w = .error (noSamples opts) ∧
        ¬ SelectsGreedily ["a.parquet"] opts w := by
  refine ⟨{ maxFileSizeMb := 2 ^ 44 }, World.empty.put "a.parquet" [0], rfl, ?_, ?_, ?_⟩
  · decide +kernel
  · rfl
  · rw [selectsGreedily_iff_select_eq]
    decide +kernel

end DuckdbOpenzl
