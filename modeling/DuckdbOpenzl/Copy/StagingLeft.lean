import DuckdbOpenzl.Copy.CopyJobs

/-!
# When a COPY leaves nothing staged

Most steps of a COPY ask the database for something, and the one that reads the
staging file asks for memory. Nothing stays staged exactly if each step that is
taken while something is staged gets what it asks for: `OpenzlEndChunk` alone
releases the staging, and only where an error of its own or none is thrown.
-/

set_option autoImplicit false

namespace DuckdbOpenzl

open ExceptionState Relation

variable {P : ParquetCopyFunction} {zl : OpenZL} {path : Path} {p₀ p : CopyProcess}
  {job : CopyJob P}

namespace CopyJob

/-- What this step asks of the database or of the allocator is granted. A call that starts a chunk
may also fail before it has opened the target. -/
def Granted (p : CopyProcess) (job : CopyJob P) : Prop :=
  match job.phase with
  | .start _ => ∀ o, P.initializeGlobal p.hostCalls = .ok o → o.result.isOk
  | .initLocal _ => (P.initializeLocal p.hostCalls).isOk
  | .filling => job.rest = [] → job.queryError = none
  | .sink input => ∀ g l, job.gstate.parquetGlobalState = some g → job.lstate = some l →
      (P.sink p.hostCalls input g l).result.isOk
  | .combine _ => ∀ g l, job.gstate.parquetGlobalState = some g → job.lstate = some l →
      (P.combine p.hostCalls g l).result.isOk
  | .finalize _ => ∀ g, job.gstate.parquetGlobalState = some g →
      (P.finalize p.hostCalls g).result.isOk
  | .compress _ => job.bind.inMemory = false → ∀ bytes,
      readStagingFile job.bind job.gstate.tmpParquetPath p = .ok bytes →
        p.servesFile job.bind bytes.length
  | _ => True

/-- What is staged at this point while nothing was refused. -/
def Clean (path : Path) (p₀ p : CopyProcess) (job : CopyJob P) : Prop :=
  match job.phase with
  | .initLocal _ => Holding job.bind path p₀ (job.state p) ∧ job.gstate.parquetGlobalState.isSome
  | .filling | .sink _ | .combine _ | .finalize _ => Sinking job.bind path p₀ (job.state p)
  | .compress _ => Holding job.bind path p₀ (job.state p)
  | .done | .aborted _ => NoStagingLeft path p₀ p
  | _ => Idle path p₀ (job.state p)

/-- An exception was thrown while something was staged. -/
def Leaky (path : Path) (p₀ p : CopyProcess) (job : CopyJob P) : Prop :=
  match job.phase with
  | .thrown _ => Holding job.bind path p₀ (job.state p)
  | .aborted _ => ¬ NoStagingLeft path p₀ p
  | _ => False

theorem Leaky.granted (h : Leaky path p₀ p job) : job.Granted p := by
  unfold Leaky at h
  unfold Granted
  cases hphase : job.phase <;> simp_all

/-! ## One step -/

/-- Where a step gets to: it goes on if it is granted what it asks for. -/
def Sorted (path : Path) (p₀ p : CopyProcess) (job : CopyJob P) (q : CopyProcess × CopyJob P) :
    Prop :=
  (job.Granted p → Clean path p₀ q.1 q.2) ∧ (¬ job.Granted p → Leaky path p₀ q.1 q.2)

theorem Sorted.of_clean {q : CopyProcess × CopyJob P} (hgranted : job.Granted p)
    (h : Clean path p₀ q.1 q.2) : Sorted path p₀ p job q :=
  ⟨fun _ ↦ h, fun hrefused ↦ absurd hgranted hrefused⟩

theorem Sorted.of_leaky {q : CopyProcess × CopyJob P} (hrefused : ¬ job.Granted p)
    (h : Leaky path p₀ q.1 q.2) : Sorted path p₀ p job q :=
  ⟨fun hgranted ↦ absurd hgranted hrefused, fun _ ↦ h⟩

/-- A step that calls `x`: a call that is granted what it asks for returns, or throws with nothing
staged; one that is refused throws and leaves what was staged. -/
theorem sorted_perform {α : Type} {x : CopyM P α} {next : α → CopyPhase P.Row}
    (hx : Triple (· = job.state p) x
      (fun a s ↦ job.Granted p ∧ Clean path p₀ s.process (job.set s (next a)))
      (fun _ s ↦ job.Granted p ∧ Idle path p₀ s ∨
        ¬ job.Granted p ∧ Holding job.bind path p₀ s)) :
    Sorted path p₀ p job (job.perform p x next) := by
  unfold perform
  cases hrun : x (job.state p) with
  | ok a s =>
      obtain ⟨hgranted, hclean⟩ := hx.ok rfl hrun
      exact .of_clean hgranted hclean
  | error e s =>
      rcases hx.error rfl hrun with ⟨hgranted, hidle⟩ | ⟨hrefused, hholding⟩
      · exact .of_clean hgranted hidle
      · exact .of_leaky hrefused hholding

theorem sorted_start (hfree : StagingFree path p₀) {pending : Option (List P.Row)}
    (hphase : job.phase = .start pending) (h : Idle path p₀ (job.state p)) :
    Sorted path p₀ p job
      (job.perform p (openzlStartChunk job.bind) fun _ ↦ .initLocal pending) := by
  apply sorted_perform
  rintro _ rfl
  have hgranted : job.Granted p ↔
      ∀ o, P.initializeGlobal p.hostCalls = .ok o → o.result.isOk := by
    rw [Granted, hphase]
  have hcalls : ((job.state p).nextTarget job.bind).process.hostCalls = p.hostCalls := by
    unfold CopyState.nextTarget
    split <;> rfl
  have htriple := @openzlStartChunk_triple _ job.bind _ _ hfree (job.state p) h
  rw [hgranted, ← hcalls]
  unfold openzlStartChunk at htriple ⊢
  dsimp only at htriple ⊢
  cases hinit : P.initializeGlobal ((job.state p).nextTarget job.bind).process.hostCalls with
  | error what =>
      rw [hinit] at htriple
      refine .inl ⟨fun o ho ↦ ?_, htriple⟩
      cases ho
  | ok o =>
      rw [hinit] at htriple
      dsimp only at htriple ⊢
      cases hres : o.result with
      | ok g =>
          rw [hres] at htriple
          refine ⟨?_, htriple⟩
          rintro _ ho
          obtain rfl := Except.ok.inj ho
          rw [hres]
          rfl
      | error what =>
          rw [hres] at htriple
          refine .inr ⟨fun hall ↦ ?_, htriple⟩
          have hok := hall o rfl
          rw [hres] at hok
          cases hok

/-- The call returns if the database's reply is a success, and throws at this step if not. -/
def Replies {α : Type} (step : HostStep) (isOk : Bool) (x : CopyM P α) (s : CopyState P) : Prop :=
  match x s with
  | .ok _ _ => isOk = true
  | .error e _ => isOk = false ∧ ∃ what, e = .host step what

/-- A call on the parquet writer while a chunk is staged. -/
theorem sorted_replies {α : Type} {x : CopyM P α} {next : α → CopyPhase P.Row} {step : HostStep}
    {isOk : Bool} {pre : CopyState P → Prop} {post : α → CopyState P → Prop}
    (hstep : step ≠ .openTarget) (hgranted : job.Granted p ↔ isOk = true)
    (hreplies : Replies step isOk x (job.state p)) (h : pre (job.state p))
    (hx : Triple pre x post (Ends job.bind path p₀))
    (hnext : ∀ a s, post a s → Clean path p₀ s.process (job.set s (next a))) :
    Sorted path p₀ p job (job.perform p x next) := by
  apply sorted_perform
  rintro _ rfl
  have htriple := hx (job.state p) h
  unfold Replies at hreplies
  rw [hgranted]
  cases hrun : x (job.state p) with
  | ok a s =>
      rw [hrun] at htriple hreplies
      exact ⟨hreplies, hnext a s htriple⟩
  | error e s =>
      rw [hrun] at htriple hreplies
      obtain ⟨hrefused, what, rfl⟩ := hreplies
      refine .inr ⟨by rw [hrefused]; exact Bool.false_ne_true, ?_⟩
      cases step with
      | openTarget => exact absurd rfl hstep
      | _ => exact htriple

theorem sorted_initLocal {pending : Option (List P.Row)} (hphase : job.phase = .initLocal pending)
    (h : Holding job.bind path p₀ (job.state p) ∧ job.gstate.parquetGlobalState.isSome) :
    Sorted path p₀ p job (job.perform p openzlCopyInitLocal fun _ ↦ afterInit pending) := by
  have hgranted : job.Granted p ↔ (P.initializeLocal p.hostCalls).isOk := by
    rw [Granted, hphase]
  have hreplies : Replies .initializeLocal (P.initializeLocal p.hostCalls).isOk
      openzlCopyInitLocal (job.state p) := by
    unfold Replies openzlCopyInitLocal
    rw [show (job.state p).process.hostCalls = p.hostCalls from rfl]
    cases P.initializeLocal p.hostCalls with
    | ok l => rfl
    | error what => exact ⟨rfl, what, rfl⟩
  apply sorted_replies (by decide) hgranted hreplies h openzlCopyInitLocal_triple
  intro _ s hsinking
  cases pending <;> exact hsinking

section Sinking

variable {g : P.GlobalState} {l : P.LocalState} {s : CopyState P} {bind : OpenzlCopyBindData}

theorem parquetSink_replies (input : List P.Row) (hg : s.gstate.parquetGlobalState = some g)
    (hl : s.lstate = some l) :
    Replies .sink (P.sink s.process.hostCalls input g l).result.isOk
      (parquetSink bind input) s := by
  unfold Replies
  simp only [parquetSink, hl, callHost_eq hg]
  cases (P.sink s.process.hostCalls input g l).result with
  | ok r => rfl
  | error what => exact ⟨rfl, what, rfl⟩

theorem parquetCombine_replies (hg : s.gstate.parquetGlobalState = some g)
    (hl : s.lstate = some l) :
    Replies .combine (P.combine s.process.hostCalls g l).result.isOk (parquetCombine bind) s := by
  unfold Replies
  simp only [parquetCombine, hl, callHost_eq hg]
  cases (P.combine s.process.hostCalls g l).result with
  | ok r => rfl
  | error what => exact ⟨rfl, what, rfl⟩

theorem parquetFinalize_replies (hg : s.gstate.parquetGlobalState = some g) :
    Replies .finalize (P.finalize s.process.hostCalls g).result.isOk (parquetFinalize bind) s := by
  unfold Replies
  simp only [parquetFinalize, callHost_eq hg]
  cases (P.finalize s.process.hostCalls g).result with
  | ok r => rfl
  | error what => exact ⟨rfl, what, rfl⟩

end Sinking

theorem sorted_sink {input : List P.Row} (hphase : job.phase = .sink input)
    (h : Sinking job.bind path p₀ (job.state p)) :
    Sorted path p₀ p job (job.perform p (parquetSink job.bind input) fun _ ↦ .filling) := by
  obtain ⟨l, hl⟩ := Option.isSome_iff_exists.mp h.lstate
  obtain ⟨g, hg⟩ := Option.isSome_iff_exists.mp h.parquetGlobalState
  have hgranted : job.Granted p ↔ (P.sink p.hostCalls input g l).result.isOk := by
    rw [Granted, hphase]
    constructor
    · exact fun hall ↦ hall g l hg hl
    · rintro hok g' l' hg' hl'
      obtain rfl := Option.some.inj (hg.symm.trans hg')
      obtain rfl := Option.some.inj (hl.symm.trans hl')
      exact hok
  exact sorted_replies (by decide) hgranted (parquetSink_replies input hg hl) h
    (parquetSink_triple input) fun _ _ hsinking ↦ hsinking

theorem sorted_combine {pending : Option (List P.Row)} (hphase : job.phase = .combine pending)
    (h : Sinking job.bind path p₀ (job.state p)) :
    Sorted path p₀ p job (job.perform p (parquetCombine job.bind) fun _ ↦ .finalize pending) := by
  obtain ⟨l, hl⟩ := Option.isSome_iff_exists.mp h.lstate
  obtain ⟨g, hg⟩ := Option.isSome_iff_exists.mp h.parquetGlobalState
  have hgranted : job.Granted p ↔ (P.combine p.hostCalls g l).result.isOk := by
    rw [Granted, hphase]
    constructor
    · exact fun hall ↦ hall g l hg hl
    · rintro hok g' l' hg' hl'
      obtain rfl := Option.some.inj (hg.symm.trans hg')
      obtain rfl := Option.some.inj (hl.symm.trans hl')
      exact hok
  exact sorted_replies (by decide) hgranted (parquetCombine_replies hg hl) h
    parquetCombine_triple fun _ _ hsinking ↦ hsinking

theorem sorted_finalize {pending : Option (List P.Row)} (hphase : job.phase = .finalize pending)
    (h : Sinking job.bind path p₀ (job.state p)) :
    Sorted path p₀ p job (job.perform p (parquetFinalize job.bind) fun _ ↦ .compress pending) := by
  obtain ⟨g, hg⟩ := Option.isSome_iff_exists.mp h.parquetGlobalState
  have hgranted : job.Granted p ↔ (P.finalize p.hostCalls g).result.isOk := by
    rw [Granted, hphase]
    constructor
    · exact fun hall ↦ hall g hg
    · rintro hok g' hg'
      obtain rfl := Option.some.inj (hg.symm.trans hg')
      exact hok
  exact sorted_replies (by decide) hgranted (parquetFinalize_replies hg) h
    parquetFinalize_triple fun _ _ hholding ↦ hholding

theorem compressStaged_of_refused {bind : OpenzlCopyBindData} {s : CopyState P} {bytes : Bytes}
    (hmode : bind.inMemory = false)
    (hread : readStagingFile bind s.gstate.tmpParquetPath s.process = .ok bytes)
    (hrefused : ¬ s.process.servesFile bind bytes.length) :
    compressStaged zl bind s = .error .badAlloc s := by
  simp only [compressStaged, hmode, Bool.false_eq_true, if_false, hread, if_neg hrefused]

theorem sorted_compress (hfree : StagingFree path p₀) {pending : Option (List P.Row)}
    (hphase : job.phase = .compress pending) (h : Holding job.bind path p₀ (job.state p)) :
    Sorted path p₀ p job (job.perform p (compressStaged zl job.bind) (.append pending)) := by
  have hgranted : job.Granted p ↔ (job.bind.inMemory = false → ∀ bytes,
      readStagingFile job.bind job.gstate.tmpParquetPath p = .ok bytes →
        p.servesFile job.bind bytes.length) := by
    rw [Granted, hphase]
  apply sorted_perform
  rintro _ rfl
  have hx : Triple (Holding (P := P) job.bind path p₀) (compressStaged zl job.bind)
      (fun _ ↦ Idle path p₀) (Ends job.bind path p₀) := compressStaged_triple hfree
  have htriple := hx (job.state p) h
  by_cases hasked : job.Granted p
  · have hcases := compressStaged_cases zl job.bind (job.state p)
    generalize compressStaged zl job.bind (job.state p) = r at hcases htriple ⊢
    cases hcases with
    | noBuffer memory gone what => exact absurd htriple id
    | unread disk e => exact .inl ⟨hasked, htriple⟩
    | dropped memory =>
        refine .inl ⟨hasked, ?_⟩
        simpa only [Ends, memory, if_true] using htriple
    | kept disk read refused => exact absurd (hgranted.mp hasked disk _ read) refused
    | failed e n => exact .inl ⟨hasked, htriple⟩
    | compressed staged made => exact ⟨hasked, htriple⟩
  · have hasked' := hasked
    rw [hgranted] at hasked'
    push Not at hasked'
    obtain ⟨hmode, bytes, hread, hrefused⟩ := hasked'
    rw [compressStaged_of_refused hmode hread hrefused]
    exact .inr ⟨hasked, h⟩

/-- A call on the archive writer. -/
theorem sorted_archive {x : CopyM P Unit} {next : CopyPhase P.Row} (hgranted : job.Granted p)
    (hx : Triple (Idle path p₀) x (fun _ ↦ Idle path p₀) (fun _ ↦ Idle path p₀))
    (h : Idle path p₀ (job.state p))
    (hnext : ∀ s, Idle path p₀ s → Clean path p₀ s.process (job.set s next)) :
    Sorted path p₀ p job (job.perform p x fun _ ↦ next) := by
  apply sorted_perform
  rintro _ rfl
  have htriple := hx (job.state p) h
  cases hrun : x (job.state p) with
  | ok u s =>
      rw [hrun] at htriple
      exact ⟨hgranted, hnext s htriple⟩
  | error e s =>
      rw [hrun] at htriple
      exact .inl ⟨hgranted, htriple⟩

theorem sorted_filling (hphase : job.phase = .filling)
    (h : Sinking job.bind path p₀ (job.state p)) :
    Sorted path p₀ p job (p, job.nextBatch p) := by
  have hgranted : job.Granted p ↔ (job.rest = [] → job.queryError = none) := by
    rw [Granted, hphase]
  unfold nextBatch
  cases hrest : job.rest with
  | cons input rest =>
      refine .of_clean (hgranted.mpr fun hnil ↦ ?_) ?_
      · rw [hrest] at hnil
        cases hnil
      · dsimp only
        split_ifs <;> exact h
  | nil =>
      cases hquery : job.queryError with
      | none => exact .of_clean (hgranted.mpr fun _ ↦ hquery) h
      | some what =>
          refine .of_leaky (fun hall ↦ ?_) h.toHolding
          have hnone := hgranted.mp hall hrest
          rw [hquery] at hnone
          cases hnone

/-- What a step does to a COPY that has nothing left behind so far. -/
theorem sorted_step (zl : OpenZL) (hfree : StagingFree path p₀) (h : Clean path p₀ p job) :
    Sorted path p₀ p job (job.step zl p) := by
  unfold Clean at h
  unfold step
  cases hphase : job.phase with
  | start pending =>
      rw [hphase] at h
      exact sorted_start hfree hphase h
  | initLocal pending =>
      rw [hphase] at h
      exact sorted_initLocal hphase h
  | filling =>
      rw [hphase] at h
      exact sorted_filling hphase h
  | sink input =>
      rw [hphase] at h
      exact sorted_sink hphase h
  | combine pending =>
      rw [hphase] at h
      exact sorted_combine hphase h
  | finalize pending =>
      rw [hphase] at h
      exact sorted_finalize hphase h
  | compress pending =>
      rw [hphase] at h
      exact sorted_compress hfree hphase h
  | append pending frame =>
      rw [hphase] at h
      refine sorted_archive (by simp only [Granted, hphase])
        (appendChunk_triple frame fun _ _ hs ↦ hs) h fun s hs ↦ ?_
      cases pending <;> exact hs
  | finish =>
      rw [hphase] at h
      exact sorted_archive (by simp only [Granted, hphase]) (callArchive_triple
        (fun _ hout ↦ ChunkedArchiveWriter.finish_step hout) fun _ _ hs ↦ hs) h fun _ hs ↦ hs
  | returned =>
      rw [hphase] at h
      exact .of_clean (by simp only [Granted, hphase]) (Idle.noStagingLeft hfree h)
  | thrown e =>
      rw [hphase] at h
      exact .of_clean (by simp only [Granted, hphase]) (Idle.noStagingLeft hfree h)
  | done =>
      rw [hphase] at h
      exact .of_clean (by simp only [Granted, hphase]) (by rw [Clean, hphase]; exact h)
  | aborted e =>
      rw [hphase] at h
      exact .of_clean (by simp only [Granted, hphase]) (by rw [Clean, hphase]; exact h)

theorem Leaky.step (h : Leaky path p₀ p job) :
    Leaky path p₀ (job.step zl p).1 (job.step zl p).2 := by
  unfold Leaky at h
  unfold CopyJob.step
  cases hphase : job.phase with
  | thrown e =>
      rw [hphase] at h
      exact h.not_noStagingLeft
  | aborted e =>
      rw [hphase] at h
      rw [Leaky, hphase]
      exact h
  | _ =>
      rw [hphase] at h
      exact absurd h id

theorem leaky_run {q q' : CopyProcess × CopyJob P} (h : Leaky path p₀ q.1 q.2)
    (hrun : ReflTransGen (JobMove zl) q q') : Leaky path p₀ q'.1 q'.2 := by
  induction hrun with
  | refl => exact h
  | tail _ hmove ih =>
      obtain rfl := hmove
      exact ih.step

section

variable {bind : OpenzlCopyBindData} {batches : List (List P.Row)} {queryError : Option String}
  {q : CopyProcess × CopyJob P}

theorem clean_initial (hfree : StagingFree path p₀) :
    Clean path p₀ p₀ (initial P bind path batches queryError) :=
  ⟨⟨rfl, rfl, rfl, le_rfl⟩, rfl, hfree.file⟩

theorem clean_or_leaky (hfree : StagingFree path p₀)
    (hrun : ReflTransGen (JobMove zl) (p₀, initial P bind path batches queryError) q) :
    Clean path p₀ q.1 q.2 ∨ Leaky path p₀ q.1 q.2 := by
  induction hrun with
  | refl => exact .inl (clean_initial hfree)
  | tail _ hmove ih =>
      obtain rfl := hmove
      rcases ih with hclean | hleaky
      · obtain ⟨hgoes, hleaves⟩ := sorted_step zl hfree hclean
        exact (Classical.em _).imp hgoes hleaves
      · exact .inr hleaky.step

theorem clean_of_granted (hfree : StagingFree path p₀)
    (hall : ∀ q, ReflTransGen (JobMove zl) (p₀, initial P bind path batches queryError) q →
      q.2.Granted q.1)
    (hrun : ReflTransGen (JobMove zl) (p₀, initial P bind path batches queryError) q) :
    Clean path p₀ q.1 q.2 := by
  induction hrun with
  | refl => exact clean_initial hfree
  | tail hrun hmove ih =>
      obtain rfl := hmove
      exact (sorted_step zl hfree ih).1 (hall _ hrun)

end

/-! ## Where a COPY ends -/

def ended : CopyPhase P.Row → Bool
  | .done | .aborted _ => true
  | _ => false

theorem Clean.noStagingLeft (h : Clean path p₀ p job) (hended : ended job.phase = true) :
    NoStagingLeft path p₀ p := by
  unfold Clean at h
  cases hphase : job.phase <;> simp_all [ended]

theorem Leaky.not_noStagingLeft (h : Leaky path p₀ p job) (hended : ended job.phase = true) :
    ¬ NoStagingLeft path p₀ p := by
  unfold Leaky at h
  cases hphase : job.phase <;> simp_all [ended]

theorem step_of_ended (zl : OpenZL) (p : CopyProcess) (hended : ended job.phase = true) :
    job.step zl p = (p, job) := by
  unfold step
  cases hphase : job.phase <;> simp_all [ended]

/-- A run ends in one state, and all the states before lie on the way there. -/
theorem exists_end (zl : OpenZL) (p : CopyProcess) (bind : OpenzlCopyBindData) (path : Path)
    (batches : List (List P.Row)) (queryError : Option String) :
    ∃ last, ended last.phase = true ∧
      ReflTransGen (JobMove zl) (p, initial P bind path batches queryError)
        (endedProcess zl bind batches queryError p path, last) ∧
      ∀ q, ReflTransGen (JobMove zl) (p, initial P bind path batches queryError) q →
        ReflTransGen (JobMove zl) q (endedProcess zl bind batches queryError p path, last) := by
  obtain ⟨last, hends, hphase⟩ := runs_alone zl p bind path batches queryError
  have hended : ended last.phase = true := by
    rw [hphase]
    cases runCopy zl bind batches queryError (CopyState.initial P p path) <;> rfl
  refine ⟨last, hended, hends, fun q hrun ↦ Runs.leads_to_end ?_ ?_ hends hrun⟩
  · rintro a b c rfl rfl
    rfl
  · rintro q rfl
    exact step_of_ended zl _ hended

end CopyJob

open CopyJob

/-- A COPY leaves nothing staged exactly if each of its steps is granted what it asks for: the
query has no error, the parquet writer's calls succeed once a target is open, and with staging
files memory does not run out. -/
theorem noStagingLeft_iff (zl : OpenZL) (bind : OpenzlCopyBindData) (batches : List (List P.Row))
    (queryError : Option String) (hfree : StagingFree path p₀) :
    NoStagingLeft path p₀ (endedProcess zl bind batches queryError p₀ path) ↔
      ∀ q, ReflTransGen (JobMove zl) (p₀, CopyJob.initial P bind path batches queryError) q →
        q.2.Granted q.1 := by
  obtain ⟨last, hended, hends, hleads⟩ := exists_end zl p₀ bind path batches queryError
  constructor
  · intro hno q hrun
    by_contra hrefused
    have hclean : Clean path p₀ q.1 q.2 :=
      (clean_or_leaky hfree hrun).resolve_right fun hleaky ↦ hrefused hleaky.granted
    have hleaky := (sorted_step zl hfree hclean).2 hrefused
    have hlast := leaky_run hleaky (hleads _ (hrun.tail rfl))
    exact hlast.not_noStagingLeft hended hno
  · intro hall
    exact (clean_of_granted hfree hall hends).noStagingLeft hended

/-- A COPY of two batches through a staging file, with a rotation. -/
theorem noStagingLeft_of_rotation :
    NoStagingLeft "t.zl" CopyProcess.empty
        (endedProcess .stored { inMemory := false, chunkSizeBytes := 2 }
          ParquetCopyFunction.plainBatches none CopyProcess.empty "t.zl") ∧
      ∀ q, ReflTransGen (JobMove .stored) (CopyProcess.empty, CopyJob.initial .plain
          { inMemory := false, chunkSizeBytes := 2 } "t.zl"
          ParquetCopyFunction.plainBatches none) q → q.2.Granted q.1 := by
  have hno : NoStagingLeft "t.zl" CopyProcess.empty
      (endedProcess .stored { inMemory := false, chunkSizeBytes := 2 }
        ParquetCopyFunction.plainBatches none CopyProcess.empty "t.zl") := by
    have hcounter : (endedProcess .stored { inMemory := false, chunkSizeBytes := 2 }
        ParquetCopyFunction.plainBatches none CopyProcess.empty "t.zl").counter = 0 := by
      decide +kernel
    refine ⟨by decide +kernel, fun k _ hk ↦ ?_⟩
    rw [hcounter] at hk
    exact absurd hk (Nat.not_lt_zero k)
  exact ⟨hno, (noStagingLeft_iff .stored { inMemory := false, chunkSizeBytes := 2 }
    ParquetCopyFunction.plainBatches none (stagingFree_empty "t.zl")).mp hno⟩

/-- The query fails after its last batch, or memory for the staged file runs out: it stays. -/
theorem staging_left_behind :
    ¬ NoStagingLeft "t.zl" CopyProcess.empty
        (endedProcess .stored { inMemory := false } ParquetCopyFunction.plainBatches
          (some "query failed") CopyProcess.empty "t.zl") ∧
      ¬ NoStagingLeft "t.zl" { CopyProcess.empty with allocates := fun _ _ ↦ false }
        (endedProcess .stored { inMemory := false } ParquetCopyFunction.plainBatches none
          { CopyProcess.empty with allocates := fun _ _ ↦ false } "t.zl") := by
  constructor
  · intro hno
    have hleft : ((endedProcess .stored { inMemory := false } ParquetCopyFunction.plainBatches
        (some "query failed") CopyProcess.empty "t.zl").world.files (stagingFile "t.zl")).isSome =
          true := by decide +kernel
    rw [hno.file] at hleft
    cases hleft
  · intro hno
    have hleft : ((endedProcess .stored { inMemory := false } ParquetCopyFunction.plainBatches none
        { CopyProcess.empty with allocates := fun _ _ ↦ false } "t.zl").world.files
          (stagingFile "t.zl")).isSome = true := by decide +kernel
    rw [hno.file] at hleft
    cases hleft

end DuckdbOpenzl
