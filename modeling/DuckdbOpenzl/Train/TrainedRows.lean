import DuckdbOpenzl.Train.Train

/-!
# Trained compressors, as rows and as files

Every candidate comes back as one row, in order. With an output path it is also
a file, whose bytes are those of the row, and nothing else on the disk changes;
a run that fails has written some first candidates and at most a part of the
next.
-/

set_option autoImplicit false

namespace DuckdbOpenzl

open ExceptionState

/-! ## The scan -/

section Scan

variable {δ : Type} {outputs : List (TrainedOutput δ)}

def trainRows (outputs : List (TrainedOutput δ)) : List (TrainRow δ) :=
  outputs.zipIdx.map fun out ↦ trainRow out.2 out.1

@[simp] theorem length_trainRows (outputs : List (TrainedOutput δ)) :
    (trainRows outputs).length = outputs.length := by
  simp [trainRows]

theorem getElem?_trainRows (outputs : List (TrainedOutput δ)) (i : ℕ) :
    (trainRows outputs)[i]? = outputs[i]?.map (trainRow i) := by
  simp only [trainRows, List.getElem?_map, List.getElem?_zipIdx, Option.map_map, Nat.zero_add]
  rfl

theorem trainLoop_eq (outputs : List (TrainedOutput δ)) (room offset : ℕ) :
    trainLoop outputs room offset = (((trainRows outputs).drop offset).take room,
      offset + min room (outputs.length - offset)) := by
  induction room generalizing offset with
  | zero => simp [trainLoop]
  | succ room ih =>
      have hrow := getElem?_trainRows outputs offset
      rw [trainLoop]
      by_cases hlt : offset < outputs.length
      · have hrows : offset < (trainRows outputs).length := by simpa using hlt
        rw [List.getElem?_eq_getElem hlt] at hrow ⊢
        rw [List.getElem?_eq_getElem hrows] at hrow
        have hhead : (trainRows outputs)[offset] = trainRow offset outputs[offset] :=
          Option.some.inj hrow
        have hdrop := List.drop_eq_getElem_cons hrows
        dsimp only
        rw [ih, hdrop, List.take_succ_cons, hhead]
        congr 1
        omega
      · have hdone : outputs.length - offset = 0 := by omega
        rw [List.getElem?_eq_none (by omega), List.drop_eq_nil_of_le (by simp; omega),
          List.take_nil, hdone, Nat.min_zero]
        rfl

theorem openzlTrainFunction_eq_nil_iff (outputs : List (TrainedOutput δ)) (offset : ℕ) :
    (openzlTrainFunction outputs offset).1 = [] ↔ outputs.length ≤ offset := by
  rw [openzlTrainFunction, trainLoop_eq, List.take_eq_nil_iff, List.drop_eq_nil_iff,
    length_trainRows]
  exact or_iff_right (by decide)

/-- So many calls emit so many vectors of rows, in order. -/
theorem flatten_trainVectors (outputs : List (TrainedOutput δ)) (calls offset : ℕ) :
    (trainVectors outputs calls offset).flatten =
      ((trainRows outputs).drop offset).take (calls * standardVectorSize) := by
  induction calls generalizing offset with
  | zero => simp [trainVectors]
  | succ calls ih =>
      rw [trainVectors, List.flatten_cons, ih, openzlTrainFunction, trainLoop_eq]
      dsimp only
      rw [Nat.succ_mul, Nat.add_comm (calls * standardVectorSize), List.take_add,
        List.drop_drop]
      congr 1
      by_cases hroom : standardVectorSize ≤ outputs.length - offset
      · rw [min_eq_left hroom]
      · have hend : ∀ n, outputs.length ≤ n → (trainRows outputs).drop n = [] := by
          intro n hn
          rw [List.drop_eq_nil_iff, length_trainRows]
          exact hn
        rw [hend _ (by omega), hend _ (by omega)]

/-- A scan that has come to an empty vector has emitted every row. -/
theorem flatten_of_nil_mem {calls offset : ℕ} (h : [] ∈ trainVectors outputs calls offset) :
    (trainVectors outputs calls offset).flatten = (trainRows outputs).drop offset := by
  induction calls generalizing offset with
  | zero => cases h
  | succ calls ih =>
      rw [flatten_trainVectors]
      apply List.take_of_length_le
      rw [List.length_drop, length_trainRows]
      rw [trainVectors, List.mem_cons] at h
      rcases h with hnil | hrest
      · have hle := (openzlTrainFunction_eq_nil_iff outputs offset).mp hnil.symm
        omega
      · have hall := congrArg List.length (ih hrest)
        rw [flatten_trainVectors, List.length_take, List.length_drop, length_trainRows] at hall
        rw [openzlTrainFunction, trainLoop_eq] at hall
        dsimp only at hall
        rw [Nat.succ_mul]
        omega

/-- The scan ends with an empty vector, and has emitted these rows by then. -/
def ScanEmits (outputs : List (TrainedOutput δ)) (rows : List (TrainRow δ)) : Prop :=
  ∃ calls, [] ∈ trainVectors outputs calls 0 ∧ (trainVectors outputs calls 0).flatten = rows

/-- A vector that is not empty brings the scan forward. -/
theorem nil_mem_trainVectors {n offset : ℕ} (h : outputs.length ≤ offset + n) :
    [] ∈ trainVectors outputs (n + 1) offset := by
  induction n generalizing offset with
  | zero =>
      have hlast := (openzlTrainFunction_eq_nil_iff outputs offset).mpr h
      exact List.mem_cons.mpr (.inl hlast.symm)
  | succ n ih =>
      rw [trainVectors, List.mem_cons]
      by_cases hdone : outputs.length ≤ offset
      · exact .inl ((openzlTrainFunction_eq_nil_iff outputs offset).mpr hdone).symm
      · right
        apply ih
        have hroom : 0 < standardVectorSize := by decide
        rw [openzlTrainFunction, trainLoop_eq]
        dsimp only
        omega

theorem scanEmits_iff {rows : List (TrainRow δ)} :
    ScanEmits outputs rows ↔ rows = trainRows outputs := by
  constructor
  · rintro ⟨calls, hend, rfl⟩
    exact flatten_of_nil_mem hend
  · rintro rfl
    have hend := nil_mem_trainVectors (Nat.le_add_left outputs.length 0)
    exact ⟨_, hend, flatten_of_nil_mem hend⟩

end Scan

/-! ## The files -/

theorem numberedPath_injective (outputPath : Path) : (numberedPath outputPath).Injective := by
  intro i j h
  have htext := congrArg String.toList h
  simp only [numberedPath, String.toList_append, List.append_assoc] at htext
  have hdigits := List.append_cancel_left (List.append_cancel_left htext)
  have hvalue := congrArg (fun cs ↦ Nat.ofDigitChars 10 cs 0) hdigits
  simpa [toString, Nat.toList_repr, Nat.ofDigitChars_ten_toDigits] using hvalue

theorem numberedPath_ne_empty (outputPath : Path) (i : ℕ) : numberedPath outputPath i ≠ "" := by
  intro h
  have htext := congrArg String.toList h
  simp [numberedPath] at htext

def SearchOptions.candidatePath (search : SearchOptions) (outputPath : Path) (i : ℕ) : Path :=
  if search.paretoFrontier then numberedPath outputPath i else outputPath

theorem ReadsOnly.mapM {α β : Type} {f : α → BridgeM β} (h : ∀ x, ReadsOnly (f x)) (xs : List α) :
    ReadsOnly (xs.mapM f) := by
  induction xs with
  | nil => exact .pure _
  | cons x xs ih =>
      rw [List.mapM_cons]
      exact .bind (h x) fun _ ↦ .bind ih fun _ ↦ .pure _

theorem ReadsOnly.forM {α : Type} {f : α → BridgeM PUnit} (h : ∀ x, ReadsOnly (f x))
    (xs : List α) : ReadsOnly (xs.forM f) := by
  induction xs with
  | nil => exact .pure _
  | cons x xs ih => exact .bind (h x) fun _ ↦ ih

theorem trainRequest_readsOnly (zl : OpenZL) (samplePaths : List Path) (opts : TrainOptions) :
    ReadsOnly (trainRequest zl samplePaths opts) := by
  unfold trainRequest
  split_ifs
  · exact .throw _
  · refine .bind (.forM (fun _ ↦ .opened _ _) _) fun _ ↦ .bind ?_ fun _ ↦
      .bind (.mapM (fun _ ↦ .opened _ _) _) fun _ ↦ .bind (.ofExcept _) fun _ ↦ .pure _
    intro w
    cases hselected : selectSamplePaths samplePaths opts w <;>
      simp only [stateAfter, returned, hselected]

section Files

variable {δ : Type} {tr : Training δ} {search : SearchOptions} {benchSet : List Bytes}
  {outputPath path : Path} {cand : TrainedCandidate} {w w' : World}

theorem benchInputs_readsOnly (search : SearchOptions) (samples : List Bytes) :
    ReadsOnly (benchInputs search samples) := by
  refine .bind ?_ fun _ ↦ .pure _
  unfold readBenchmarks
  split_ifs
  · exact .mapM (fun _ ↦ .bind (.opened _ _) fun _ ↦ .opened _ _) _
  · exact .pure _

/-- What one turn of the loop leaves: the candidate in the output and, with a path, in its file. -/
structure Emitted (outputPath path : Path) (cand : TrainedCandidate) (out : TrainedOutput δ)
    (file : Option File) : Prop where
  bytes : out.compressorBytes = cand.serializedCompressor
  path : out.path = if outputPath = "" then "" else path
  file : outputPath ≠ "" → file.map File.content = some cand.serializedCompressor

theorem trainOutput_ok {out : TrainedOutput δ} (hkeep : w.KeepsFlushes)
    (h : trainOutput tr search benchSet outputPath path cand w = .ok out w') :
    w'.KeepsFlushes ∧ Emitted outputPath path cand out (w'.files path) ∧
      ∀ k, k ≠ path → w'.files k = w.files k := by
  obtain ⟨measured, v, hmeasured, hrest⟩ := bind_eq_ok_iff.mp h
  obtain ⟨-, rfl⟩ := ofExcept_eq_ok_iff.mp hmeasured
  split_ifs at hrest with hempty
  · obtain ⟨rfl, rfl⟩ := EStateM.Result.ok.inj hrest
    have hnone : outputPath = "" := by simpa using hempty
    exact ⟨hkeep, ⟨rfl, (if_pos hnone).symm, fun hne ↦ absurd hnone hne⟩, fun _ _ ↦ rfl⟩
  · obtain ⟨u, t, hwrite, hlast⟩ := bind_eq_ok_iff.mp hrest
    obtain ⟨rfl, rfl⟩ := EStateM.Result.ok.inj hlast
    have hsome : outputPath ≠ "" := by simpa using hempty
    have htouches := writeFile_touches (.inl hwrite)
    have hcontent := writeFile_ok hkeep hwrite
    refine ⟨fun k ↦ ?_, ⟨rfl, (if_neg hsome).symm, fun _ ↦ hcontent⟩, htouches.files⟩
    rw [htouches.script]
    exact hkeep k

/-- A turn that throws has touched its own file only, and none without an output path. -/
theorem trainOutput_error {e : Error}
    (h : trainOutput tr search benchSet outputPath path cand w = .error e w') :
    (outputPath = "" → w' = w) ∧ ∀ k, k ≠ path → w'.files k = w.files k := by
  rcases bind_eq_error_iff.mp h with hmeasured | ⟨measured, v, hmeasured, hrest⟩
  · obtain rfl := (ReadsOnly.ofExcept _).eq_of_error hmeasured
    exact ⟨fun _ ↦ rfl, fun _ _ ↦ rfl⟩
  · obtain ⟨-, rfl⟩ := ofExcept_eq_ok_iff.mp hmeasured
    split_ifs at hrest with hempty
    · cases hrest
    · rcases bind_eq_error_iff.mp hrest with hwrite | ⟨u, t, -, hlast⟩
      · refine ⟨fun hnone ↦ absurd hnone (by simpa using hempty), ?_⟩
        exact (writeFile_touches (.inr ⟨e, hwrite⟩)).files
      · cases hlast

/-- One turn of the loop over the candidates, with their numbers. -/
def emitCandidate (tr : Training δ) (search : SearchOptions) (benchSet : List Bytes)
    (outputPath : Path) (cand : TrainedCandidate × ℕ) : BridgeM (TrainedOutput δ) :=
  trainOutput tr search benchSet outputPath (search.candidatePath outputPath cand.2) cand.1

variable {zl : OpenZL} {samplePaths : List Path} {opts : TrainOptions}
  {candidates : List TrainedCandidate} {outputs : List (TrainedOutput δ)} {e : Error}

theorem searchCandidates_readsOnly (tr : Training δ) (search : SearchOptions) (zl : OpenZL)
    (samplePaths : List Path) (opts : TrainOptions) :
    ReadsOnly (searchCandidates tr search zl samplePaths opts) := by
  refine .bind (trainRequest_readsOnly zl samplePaths opts) fun _ ↦ .bind (.ofExcept _) fun _ ↦ ?_
  split_ifs
  · exact .throw _
  · exact .bind (benchInputs_readsOnly search _) fun _ ↦ .pure _

/-- The candidates are what OpenZL's search makes of the samples that were read. -/
theorem searchCandidates_ok {r : List TrainedCandidate × List Bytes}
    (h : searchCandidates tr search zl samplePaths opts w = .ok r w') :
    r.1 ≠ [] ∧ ∃ samples, trainRequest zl samplePaths opts w = .ok (opts.configured zl, samples) w ∧
      tr.train samples (opts.configured zl) (trainParams opts search) = .ok r.1 := by
  obtain ⟨⟨compressor, samples⟩, t, hrequest, h₁⟩ := bind_eq_ok_iff.mp h
  obtain rfl := (trainRequest_readsOnly zl samplePaths opts).eq_of_ok hrequest
  obtain ⟨-, rfl⟩ := trainRequest_ok hrequest
  obtain ⟨candidates, u, htrain, h₂⟩ := bind_eq_ok_iff.mp h₁
  obtain ⟨htrained, rfl⟩ := ofExcept_eq_ok_iff.mp htrain
  split_ifs at h₂ with hempty
  · cases h₂
  · obtain ⟨benchSet, v, -, h₃⟩ := bind_eq_ok_iff.mp h₂
    obtain ⟨rfl, -⟩ := EStateM.Result.ok.inj h₃
    exact ⟨by simpa using hempty, samples, hrequest, mapError_eq_ok_iff.mp htrained⟩

/-- The two branches of `Train` are one loop. -/
theorem outputCandidates_eq (tr : Training δ) (outputPath : Path)
    (candidates : List TrainedCandidate) (benchSet : List Bytes)
    (hsingle : search.paretoFrontier = false → candidates.length = 1) :
    outputCandidates tr search outputPath candidates benchSet =
      candidates.zipIdx.mapM (emitCandidate tr search benchSet outputPath) := by
  unfold outputCandidates emitCandidate SearchOptions.candidatePath
  cases hpareto : search.paretoFrontier with
  | true => rfl
  | false =>
      have hone := hsingle hpareto
      have hloop := List.mapM_map (m := BridgeM) (f := Prod.fst) (l := candidates.zipIdx)
        (g := trainOutput tr search benchSet outputPath outputPath)
      rw [List.zipIdx_map_fst] at hloop
      simp only [Bool.false_eq_true, if_false, hone, ne_eq, not_true_eq_false]
      exact hloop

theorem outputCandidates_error (tr : Training δ) (outputPath : Path) (w : World)
    (hwrong : ¬ (search.paretoFrontier = false → candidates.length = 1)) (benchSet : List Bytes) :
    ∃ e, outputCandidates tr search outputPath candidates benchSet w = .error e w := by
  rw [Classical.not_imp] at hwrong
  unfold outputCandidates
  rw [if_neg (by simp [hwrong.1]), if_pos hwrong.2]
  exact ⟨_, rfl⟩

theorem nodup_candidatePaths (outputPath : Path)
    (hsingle : search.paretoFrontier = false → candidates.length = 1) :
    (candidates.zipIdx.map fun cand ↦ search.candidatePath outputPath cand.2).Nodup := by
  have hrange : candidates.zipIdx.map (fun cand ↦ search.candidatePath outputPath cand.2) =
      (List.range candidates.length).map (search.candidatePath outputPath) := by
    rw [List.range_eq_range', ← List.zipIdx_map_snd 0 candidates, List.map_map]
    rfl
  rw [hrange]
  cases hpareto : search.paretoFrontier with
  | true =>
      apply List.nodup_range.map
      unfold SearchOptions.candidatePath
      simp only [hpareto, if_true]
      exact numberedPath_injective outputPath
  | false =>
      rw [hsingle hpareto]
      exact List.nodup_singleton _

theorem emitted_of_steps {benchSet : List Bytes} {cands : List (TrainedCandidate × ℕ)}
    (hkeep : w.KeepsFlushes)
    (hpaths : (cands.map fun cand ↦ search.candidatePath outputPath cand.2).Nodup)
    (h : Steps (emitCandidate tr search benchSet outputPath) w cands outputs w') :
    List.Forall₂ (fun cand out ↦ Emitted outputPath (search.candidatePath outputPath cand.2) cand.1
        out (w'.files (search.candidatePath outputPath cand.2))) cands outputs ∧
      ∀ k, k ∉ cands.map (fun cand ↦ search.candidatePath outputPath cand.2) →
        w'.files k = w.files k := by
  have hstep : ∀ cand ∈ cands, ∀ (v : World) out v', v.KeepsFlushes →
      emitCandidate tr search benchSet outputPath cand v = .ok out v' →
      v'.KeepsFlushes ∧ Emitted outputPath (search.candidatePath outputPath cand.2) cand.1 out
          (v'.files (search.candidatePath outputPath cand.2)) ∧
        ∀ k, k ≠ search.candidatePath outputPath cand.2 → v'.files k = v.files k :=
    fun cand _ v out v' hv hrun ↦ trainOutput_ok hv hrun
  exact (h.fills hstep hpaths hkeep).2

theorem steps_unnamed {benchSet : List Bytes} {cands : List (TrainedCandidate × ℕ)}
    (h : Steps (emitCandidate tr search benchSet "") w cands outputs w') : w' = w := by
  induction h with
  | nil w => rfl
  | cons hx _ ih =>
      obtain ⟨measured, v, hmeasured, hrest⟩ := bind_eq_ok_iff.mp hx
      obtain ⟨-, rfl⟩ := ofExcept_eq_ok_iff.mp hmeasured
      obtain ⟨-, rfl⟩ := EStateM.Result.ok.inj hrest
      exact ih

/-- OpenZL's search has made these candidates of the samples that were read. -/
structure Searched (zl : OpenZL) (tr : Training δ) (search : SearchOptions)
    (samplePaths : List Path) (opts : TrainOptions) (w : World)
    (candidates : List TrainedCandidate) : Prop where
  trained : ∃ samples, trainRequest zl samplePaths opts w = .ok (opts.configured zl, samples) w ∧
    tr.train samples (opts.configured zl) (trainParams opts search) = .ok candidates
  ne_nil : candidates ≠ []
  single : search.paretoFrontier = false → candidates.length = 1

/-- One row a candidate, and with an output path one file a row. -/
structure TrainedRows (search : SearchOptions) (outputPath : Path)
    (candidates : List TrainedCandidate) (rows : List (TrainRow δ)) (w w' : World) : Prop where
  length : rows.length = candidates.length
  row : ∀ (i : ℕ) cand row, candidates[i]? = some cand → rows[i]? = some row →
    row.candidateIndex = i ∧ row.compressorBytes = cand.serializedCompressor ∧
      row.outputPath =
        if outputPath = "" then none else some (search.candidatePath outputPath i)
  file : ∀ row ∈ rows, ∀ path, row.outputPath = some path →
    w'.content path = some row.compressorBytes
  others : ∀ path, (∀ row ∈ rows, row.outputPath ≠ some path) → w'.files path = w.files path

/-- Some first candidates are written, the next one perhaps in part, and nothing else. -/
structure PartlyWritten (search : SearchOptions) (outputPath : Path)
    (candidates : List TrainedCandidate) (w w' : World) : Prop where
  named : outputPath ≠ ""
  first : ∃ k < candidates.length,
    (∀ i < k, ∀ cand, candidates[i]? = some cand →
      w'.content (search.candidatePath outputPath i) = some cand.serializedCompressor) ∧
    ∀ path, (∀ i ≤ k, path ≠ search.candidatePath outputPath i) → w'.files path = w.files path

theorem train_searched {r : EStateM.Result Error World (List (TrainedOutput δ))}
    (h : train tr search zl samplePaths outputPath opts w = r) :
    (∃ e, r = .error e w) ∨ ∃ candidates benchSet,
      Searched zl tr search samplePaths opts w candidates ∧
        candidates.zipIdx.mapM (emitCandidate tr search benchSet outputPath) w = r := by
  unfold train at h
  rw [bind_apply] at h
  cases hsearch : searchCandidates tr search zl samplePaths opts w with
  | error e t =>
      obtain rfl := (searchCandidates_readsOnly tr search zl samplePaths opts).eq_of_error hsearch
      rw [hsearch] at h
      exact .inl ⟨e, h.symm⟩
  | ok found t =>
      obtain rfl := (searchCandidates_readsOnly tr search zl samplePaths opts).eq_of_ok hsearch
      obtain ⟨candidates, benchSet⟩ := found
      rw [hsearch] at h
      obtain ⟨hne, htrained⟩ := searchCandidates_ok hsearch
      by_cases hsingle : search.paretoFrontier = false → candidates.length = 1
      · have hloop := outputCandidates_eq tr outputPath candidates benchSet hsingle
        refine .inr ⟨candidates, benchSet, ⟨htrained, hne, hsingle⟩, ?_⟩
        rw [← hloop]
        exact h
      · obtain ⟨e, herror⟩ := outputCandidates_error tr outputPath t hsingle benchSet
        exact .inl ⟨e, h.symm.trans herror⟩

theorem candidatePath_ne_empty (h : outputPath ≠ "") (i : ℕ) :
    search.candidatePath outputPath i ≠ "" := by
  unfold SearchOptions.candidatePath
  split_ifs
  · exact numberedPath_ne_empty outputPath i
  · exact h

theorem Emitted.outputPath_trainRow {out : TrainedOutput δ} {file : Option File} {i : ℕ}
    (h : Emitted outputPath (search.candidatePath outputPath i) cand out file) :
    (trainRow i out).outputPath =
      if outputPath = "" then none else some (search.candidatePath outputPath i) := by
  have hpath := h.path
  by_cases hnone : outputPath = ""
  · rw [if_pos hnone] at hpath ⊢
    simp [trainRow, hpath]
  · rw [if_neg hnone] at hpath ⊢
    simp [trainRow, hpath, candidatePath_ne_empty hnone i]

theorem trainedRows_of_steps {benchSet : List Bytes} (hkeep : w.KeepsFlushes)
    (hsingle : search.paretoFrontier = false → candidates.length = 1)
    (h : Steps (emitCandidate tr search benchSet outputPath) w candidates.zipIdx outputs w') :
    TrainedRows search outputPath candidates (trainRows outputs) w w' := by
  obtain ⟨hemitted, hothers⟩ := emitted_of_steps hkeep (nodup_candidatePaths outputPath hsingle) h
  obtain ⟨hlength, hget⟩ := List.forall₂_iff_get.mp hemitted
  rw [List.length_zipIdx] at hlength
  have hout : ∀ i (hi : i < outputs.length) (hcand : i < candidates.length),
      Emitted outputPath (search.candidatePath outputPath i) candidates[i] outputs[i]
        (w'.files (search.candidatePath outputPath i)) := by
    intro i hi hcand
    have hcand := hget i (by simpa [hlength] using hi) hi
    simpa only [List.get_eq_getElem, List.getElem_zipIdx, Nat.zero_add] using hcand
  have hrow : ∀ i row, (trainRows outputs)[i]? = some row →
      ∃ hi : i < outputs.length, row = trainRow i outputs[i] := by
    intro i row hi
    rw [getElem?_trainRows] at hi
    obtain ⟨out, hout, rfl⟩ := Option.map_eq_some_iff.mp hi
    obtain ⟨hlt, rfl⟩ := List.getElem?_eq_some_iff.mp hout
    exact ⟨hlt, rfl⟩
  refine ⟨(length_trainRows outputs).trans hlength.symm, ?_, ?_, ?_⟩
  · intro i cand row hcand hi
    obtain ⟨hlt, rfl⟩ := hrow i row hi
    obtain ⟨hlt', rfl⟩ := List.getElem?_eq_some_iff.mp hcand
    exact ⟨rfl, (hout i hlt hlt').bytes, (hout i hlt hlt').outputPath_trainRow⟩
  · intro row hmem path hpath
    obtain ⟨i, hi⟩ := List.mem_iff_getElem?.mp hmem
    obtain ⟨hlt, rfl⟩ := hrow i row hi
    have hemit := hout i hlt (hlength.symm ▸ hlt)
    rw [hemit.outputPath_trainRow] at hpath
    split_ifs at hpath with hnone
    obtain rfl := Option.some.inj hpath
    exact (hemit.file hnone).trans (congrArg some hemit.bytes.symm)
  · intro path hpath
    by_cases hnone : outputPath = ""
    · subst hnone
      rw [steps_unnamed h]
    · apply hothers
      intro hmem
      obtain ⟨⟨cand, i⟩, hcand, rfl⟩ := List.mem_map.mp hmem
      obtain ⟨hlt, -⟩ := List.getElem?_eq_some_iff.mp (List.mem_zipIdx_iff_getElem?.mp hcand)
      have hi : i < outputs.length := hlength ▸ hlt
      have hmem : trainRow i outputs[i] ∈ trainRows outputs := by
        apply List.mem_iff_getElem?.mpr
        exact ⟨i, by rw [getElem?_trainRows, List.getElem?_eq_getElem hi, Option.map_some]⟩
      apply hpath _ hmem
      rw [(hout i hi hlt).outputPath_trainRow, if_neg hnone]

/-- A loop that throws at a candidate. -/
theorem partlyWritten_of_error {benchSet : List Bytes} (hkeep : w.KeepsFlushes)
    (hsingle : search.paretoFrontier = false → candidates.length = 1)
    (h : candidates.zipIdx.mapM (emitCandidate tr search benchSet outputPath) w = .error e w') :
    w' = w ∨ PartlyWritten search outputPath candidates w w' := by
  obtain ⟨done, last, rest, written, t, hcands, hdone, hlast⟩ := mapM_eq_error_iff.mp h
  obtain ⟨hunnamed, hothers⟩ := trainOutput_error hlast
  by_cases hnone : outputPath = ""
  · subst hnone
    exact .inl ((hunnamed rfl).trans (steps_unnamed hdone))
  have hget : ∀ i : ℕ, (done ++ last :: rest)[i]? = candidates[i]?.map fun cand ↦ (cand, i) := by
    intro i
    rw [← hcands, List.getElem?_zipIdx]
    simp
  have hlt : done.length < candidates.length := by
    have hlength := congrArg List.length hcands
    simp only [List.length_zipIdx, List.length_append, List.length_cons] at hlength
    omega
  have hnumber : last.2 = done.length := by
    have hi := hget done.length
    rw [List.getElem?_append_right le_rfl, Nat.sub_self, List.getElem?_eq_getElem hlt] at hi
    exact congrArg Prod.snd (Option.some.inj hi)
  have hpaths := nodup_candidatePaths outputPath hsingle
  rw [hcands, List.map_append, List.map_cons, List.nodup_append] at hpaths
  obtain ⟨hfirst, -, happart⟩ := hpaths
  obtain ⟨hemitted, hrest⟩ := emitted_of_steps hkeep hfirst hdone
  obtain ⟨hlength, hfiles⟩ := List.forall₂_iff_get.mp hemitted
  refine .inr ⟨hnone, done.length, hlt, ?_, ?_⟩
  · intro i hi cand hcand
    have hmem := hget i
    rw [List.getElem?_append_left hi, hcand, List.getElem?_eq_getElem hi] at hmem
    have hdonei := Option.some.inj hmem
    have hfile := (hfiles i hi (hlength ▸ hi)).file hnone
    simp only [List.get_eq_getElem, hdonei] at hfile
    have hne : search.candidatePath outputPath i ≠ search.candidatePath outputPath last.2 := by
      apply happart _ (List.mem_map.mpr ⟨done[i], List.getElem_mem hi, by rw [hdonei]⟩) _
        List.mem_cons_self
    exact (congrArg (Option.map File.content) (hothers _ hne)).trans hfile
  · intro path hpath
    rw [hothers path (hnumber ▸ hpath _ le_rfl)]
    apply hrest
    intro hmem
    obtain ⟨pair, hpair, rfl⟩ := List.mem_map.mp hmem
    obtain ⟨i, hi, rfl⟩ := List.mem_iff_getElem.mp hpair
    have hmem := hget i
    rw [List.getElem?_append_left hi, List.getElem?_eq_getElem hi] at hmem
    obtain ⟨cand, -, hpair⟩ := Option.map_eq_some_iff.mp hmem.symm
    apply hpath i (Nat.le_of_lt hi)
    rw [← hpair]

end Files

/-! ## The compressor of a row -/

/-- Compressing with the file is compressing with the bytes, whatever the two calls are given. -/
def Interchangeable (zl : OpenZL) (trainedPath : Path) (compressorBytes : Bytes) (w : World) :
    Prop :=
  ∀ o inputPath outputPath level,
    (openzlCompress zl o inputPath outputPath (some trainedPath) level).map (· w) =
      (openzlCompressBlob zl o inputPath outputPath compressorBytes level).map (· w)

theorem interchangeable {zl : OpenZL} {trainedPath : Path} {compressorBytes : Bytes} {w : World}
    (hpath : trainedPath ≠ "") (hbytes : compressorBytes ≠ [])
    (hfile : w.content trainedPath = some compressorBytes) :
    Interchangeable zl trainedPath compressorBytes w := by
  intro o inputPath outputPath level
  unfold openzlCompress openzlCompressBlob
  cases openzlCompressLevel o level with
  | error e => rfl
  | ok compressionLevel =>
      apply congrArg Except.ok
      have hload : loadCompressorFile trainedPath w = .ok compressorBytes w := by
        have hnamed : trainedPath.isEmpty = false := by simpa using hpath
        unfold loadCompressorFile
        rw [hnamed]
        refine bind_eq_ok_iff.mpr ⟨(), w, opened_eq_ok_iff.mpr ⟨?_, rfl⟩,
          opened_eq_ok_iff.mpr ⟨?_, rfl⟩⟩ <;> rw [hfile] <;> rfl
      have hsome : compressorBytes.isEmpty = false := by simpa using hbytes
      have hgo : ∀ rest : Bytes → BridgeM Unit,
          (loadCompressorFile trainedPath >>= rest) w = rest compressorBytes w := by
        intro rest
        rw [bind_apply, hload]
      simp only [Option.getD_some, compressParquet, compressParquetWithCompressorBytes, hsome,
        Bool.false_eq_true, if_false]
      rw [bind_apply, bind_apply]
      cases hinput : opened inputPath (requireParquet inputPath) w with
      | error e t => rfl
      | ok u t =>
          obtain rfl := (opened_eq_ok_iff.mp hinput).2
          exact hgo _

/-! ## A whole run -/

theorem TrainedRows.path_ne_empty {δ : Type} {search : SearchOptions} {outputPath path : Path}
    {candidates : List TrainedCandidate} {rows : List (TrainRow δ)} {row : TrainRow δ}
    {w w' : World} (h : TrainedRows search outputPath candidates rows w w')
    (hrow : row ∈ rows) (hpath : row.outputPath = some path) : path ≠ "" := by
  obtain ⟨i, hi⟩ := List.mem_iff_getElem?.mp hrow
  have hlt : i < candidates.length := h.length ▸ (List.getElem?_eq_some_iff.mp hi).1
  have hnamed := (h.row i _ row (List.getElem?_eq_getElem hlt) hi).2.2
  rw [hpath] at hnamed
  split_ifs at hnamed with hnone
  rw [Option.some.inj hnamed]
  exact candidatePath_ne_empty hnone i

/-- However the binding of `openzl_train` ends: the rows that the scan emits and the files are the
candidates, and either can be compressed with; or some first candidates are written. -/
theorem trained_rows_on_disk {δ : Type} {zl : OpenZL} {tr : Training δ} {o : OpenerSettings}
    {samplePaths : List Path} {outputPath : Option Path} {p : TrainParameters}
    {q : SearchParameters} {run : BridgeM (List (TrainedOutput δ))} {w : World}
    (hbind : openzlTrain zl tr o (some samplePaths) outputPath p q = .ok run)
    (hkeep : w.KeepsFlushes) : ∃ search, searchOptions q = .ok search ∧
      (∀ outputs w', run w = .ok outputs w' → ∃ candidates rows,
        Searched zl tr search samplePaths (openzlTrainBind o p) w candidates ∧
        (∀ emitted, ScanEmits outputs emitted ↔ emitted = rows) ∧
        TrainedRows search (outputPath.getD "") candidates rows w w' ∧
        ∀ row ∈ rows, ∀ path, row.outputPath = some path → row.compressorBytes ≠ [] →
          ∀ v, v.content path = w'.content path →
            Interchangeable zl path row.compressorBytes v) ∧
      ∀ e w', run w = .error e w' → w' = w ∨ ∃ candidates,
        Searched zl tr search samplePaths (openzlTrainBind o p) w candidates ∧
          PartlyWritten search (outputPath.getD "") candidates w w' := by
  obtain ⟨paths, hpaths, hbound⟩ := except_bind_eq_ok_iff.mp hbind
  obtain rfl := Except.ok.inj hpaths
  obtain ⟨search, hsearch, hrun⟩ := except_bind_eq_ok_iff.mp hbound
  obtain rfl := Except.ok.inj hrun
  refine ⟨search, hsearch, ?_, ?_⟩
  · intro outputs w' h
    rcases train_searched h with ⟨e, herror⟩ | ⟨candidates, benchSet, hsearched, hloop⟩
    · cases herror
    · have hrows := trainedRows_of_steps hkeep hsearched.single (mapM_eq_ok_iff.mp hloop)
      refine ⟨candidates, trainRows outputs, hsearched, fun _ ↦ scanEmits_iff, hrows, ?_⟩
      intro row hrow path hpath hbytes v hv
      apply interchangeable (hrows.path_ne_empty hrow hpath) hbytes
      exact hv.trans (hrows.file row hrow path hpath)
  · intro e w' h
    rcases train_searched h with ⟨e', herror⟩ | ⟨candidates, benchSet, hsearched, hloop⟩
    · exact .inl (EStateM.Result.error.inj herror).2
    · rcases partlyWritten_of_error hkeep hsearched.single hloop with hsame | hpartly
      · exact .inl hsame
      · exact .inr ⟨candidates, hsearched, hpartly⟩

/-- Two candidates, whatever the samples are. -/
def Training.twoCandidates : Training ℕ where
  train _ _ _ := .ok [⟨[1], []⟩, ⟨[2], []⟩]
  packFatBundle _ := .ok []
  benchmark _ _ _ := .ok none

/-- Both are returned and written, and either file can be compressed with. -/
theorem trained_rows_on_disk_frontier :
    ∃ (run : BridgeM (List (TrainedOutput ℕ))) (outputs : List (TrainedOutput ℕ)) (w' : World)
        (rows : List (TrainRow ℕ)),
      openzlTrain OpenZL.stored Training.twoCandidates {} (some ["s.parquet"]) (some "c") {}
        { paretoFrontier := some true, benchmark := some false } = .ok run ∧
      run (World.empty.put "s.parquet" []) = .ok outputs w' ∧ ScanEmits outputs rows ∧
      rows.map TrainRow.compressorBytes = [[1], [2]] ∧
      ∀ row ∈ rows, ∃ path, row.outputPath = some path ∧
        w'.content path = some row.compressorBytes ∧
        Interchangeable .stored path row.compressorBytes w' := by
  let search : SearchOptions := { paretoFrontier := true, benchmark := some false }
  let run := train Training.twoCandidates search OpenZL.stored ["s.parquet"] "c"
    (openzlTrainBind {} {})
  let w := World.empty.put "s.parquet" []
  have hbind : openzlTrain OpenZL.stored Training.twoCandidates {} (some ["s.parquet"]) (some "c")
      {} { paretoFrontier := some true, benchmark := some false } = .ok run := rfl
  obtain ⟨search', hsearch, hok, -⟩ := trained_rows_on_disk hbind (w := w) fun _ ↦ rfl
  have hreturns : returns run w = true := by decide +kernel
  obtain ⟨outputs, w', hrun⟩ := exists_of_returns hreturns
  obtain ⟨candidates, rows, ⟨⟨samples, -, htrain⟩, -, -⟩, hemits, hrows, hinter⟩ :=
    hok outputs w' hrun
  obtain rfl := Except.ok.inj htrain
  have hbytes : rows.map TrainRow.compressorBytes = [[1], [2]] := by
    obtain ⟨first, second, rfl⟩ := List.length_eq_two.mp hrows.length
    rw [List.map_cons, List.map_singleton, (hrows.row 0 _ first rfl rfl).2.1,
      (hrows.row 1 _ second rfl rfl).2.1]
  refine ⟨run, outputs, w', rows, hbind, hrun, (hemits rows).mpr rfl, hbytes, ?_⟩
  intro row hrow
  obtain ⟨i, hi⟩ := List.mem_iff_getElem?.mp hrow
  have hlt := hrows.length ▸ (List.getElem?_eq_some_iff.mp hi).1
  have hnamed := (hrows.row i _ row (List.getElem?_eq_getElem hlt) hi).2.2
  have hnonempty : row.compressorBytes ≠ [] := by
    have hmem : row.compressorBytes ∈ ([[1], [2]] : List Bytes) :=
      hbytes ▸ List.mem_map_of_mem hrow
    rintro hnil
    rw [hnil] at hmem
    exact absurd hmem (by decide)
  exact ⟨_, hnamed, hrows.file row hrow _ hnamed, hinter row hrow _ hnamed hnonempty w' rfl⟩

end DuckdbOpenzl
