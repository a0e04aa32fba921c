import DuckdbOpenzl.Copy.ChunkFiles
import DuckdbOpenzl.Library.SharedState

/-!
# A COPY in steps

The callbacks of one COPY cut into the calls they make on the parquet writer,
the staging and the archive, so that other COPYs of the process can move in
between. Run alone, the steps are `runCopy` and the destruction of its global
state.
-/

set_option autoImplicit false

namespace DuckdbOpenzl

open ExceptionState Relation

/-- What a COPY does next. A `pending` batch has made the current chunk end and goes into the
chunk behind it; without one the chunk is the last. -/
inductive CopyPhase (Row : Type) where
  | start (pending : Option (List Row))
  | initLocal (pending : Option (List Row))
  | filling
  | sink (input : List Row)
  | combine (pending : Option (List Row))
  | finalize (pending : Option (List Row))
  | compress (pending : Option (List Row))
  | append (pending : Option (List Row)) (frame : Bytes)
  | finish
  | returned
  | thrown (e : CopyException)
  | done
  | aborted (e : CopyException)

/-- One COPY: its options, the batches the query still delivers, and its global and local state. -/
structure CopyJob (P : ParquetCopyFunction) where
  bind : OpenzlCopyBindData
  path : Path
  batches : List (List P.Row)
  queryError : Option String := none
  rest : List (List P.Row)
  phase : CopyPhase P.Row
  gstate : OpenzlCopyGlobalState P
  lstate : Option P.LocalState := none

variable {P : ParquetCopyFunction}

namespace CopyJob

/-- A COPY that has not begun. -/
def initial (P : ParquetCopyFunction) (bind : OpenzlCopyBindData) (path : Path)
    (batches : List (List P.Row)) (queryError : Option String) : CopyJob P where
  bind := bind
  path := path
  batches := batches
  queryError := queryError
  rest := batches
  phase := .start none
  gstate := { finalZlPath := path, archive := .ofPath path }

def state (p : CopyProcess) (job : CopyJob P) : CopyState P := ⟨p, job.gstate, job.lstate⟩

/-- The job with the states a call has left behind. -/
def set (job : CopyJob P) (s : CopyState P) (phase : CopyPhase P.Row) : CopyJob P :=
  { job with phase := phase, gstate := s.gstate, lstate := s.lstate }

def perform {α : Type} (p : CopyProcess) (job : CopyJob P) (x : CopyM P α)
    (next : α → CopyPhase P.Row) : CopyProcess × CopyJob P :=
  match x (job.state p) with
  | .ok a s => (s.process, job.set s (next a))
  | .error e s => (s.process, job.set s (.thrown e))

def afterInit : Option (List P.Row) → CopyPhase P.Row
  | some input => .sink input
  | none => .filling

def afterAppend : Option (List P.Row) → CopyPhase P.Row
  | some input => .start (some input)
  | none => .finish

/-- `OpenzlCopySink` looks at the staged bytes before it sinks the batch. -/
def nextBatch (p : CopyProcess) (job : CopyJob P) : CopyJob P :=
  match job.rest, job.queryError with
  | input :: rest, _ =>
      if job.bind.chunkSizeBytes > 0 ∧
          openzlStagedBytes job.bind (job.state p) ≥ job.bind.chunkSizeBytes then
        { job with rest := rest, phase := .combine (some input) }
      else { job with rest := rest, phase := .sink input }
  | [], some what => { job with phase := .thrown (.host .query what) }
  | [], none => { job with phase := .combine none }

def step (zl : OpenZL) (p : CopyProcess) (job : CopyJob P) : CopyProcess × CopyJob P :=
  match job.phase with
  | .start pending => job.perform p (openzlStartChunk job.bind) fun _ ↦ .initLocal pending
  | .initLocal pending => job.perform p openzlCopyInitLocal fun _ ↦ afterInit pending
  | .filling => (p, job.nextBatch p)
  | .sink input => job.perform p (parquetSink job.bind input) fun _ ↦ .filling
  | .combine pending => job.perform p (parquetCombine job.bind) fun _ ↦ .finalize pending
  | .finalize pending => job.perform p (parquetFinalize job.bind) fun _ ↦ .compress pending
  | .compress pending => job.perform p (compressStaged zl job.bind) (.append pending)
  | .append pending frame => job.perform p (appendChunk frame) fun _ ↦ afterAppend pending
  | .finish => job.perform p (callArchive ChunkedArchiveWriter.finish) fun _ ↦ .returned
  | .returned => ((job.state p).destroy, { job with phase := .done })
  | .thrown e => ((job.state p).destroy, { job with phase := .aborted e })
  | .done => (p, job)
  | .aborted _ => (p, job)

end CopyJob

/-- A COPY moves. -/
def JobMove (zl : OpenZL) (a b : CopyProcess × CopyJob P) : Prop := b = a.2.step zl a.1

/-! ## A COPY that is left alone -/

namespace CopyJob

variable {α β : Type} {zl : OpenZL} {job : CopyJob P}

/-- The job with the states of `s`, at this point of its program. -/
def at_ (job : CopyJob P) (s : CopyState P) (phase : CopyPhase P.Row) (rest : List (List P.Row)) :
    CopyProcess × CopyJob P :=
  (s.process, { job with phase := phase, rest := rest, gstate := s.gstate, lstate := s.lstate })

/-- From this point on the steps do what `x` does, and get to the next point or throw. -/
def Plays (zl : OpenZL) (job : CopyJob P) (phase : CopyPhase P.Row) (rest : List (List P.Row))
    (x : CopyM P α) (next : α → CopyPhase P.Row) (rest' : List (List P.Row)) : Prop :=
  ∀ s, (∀ a s', x s = .ok a s' →
      ReflTransGen (JobMove zl) (job.at_ s phase rest) (job.at_ s' (next a) rest')) ∧
    ∀ e s', x s = .error e s' → ∃ left,
      ReflTransGen (JobMove zl) (job.at_ s phase rest) (job.at_ s' (.thrown e) left)

variable {phase : CopyPhase P.Row} {rest rest' rest'' : List (List P.Row)}

theorem Plays.bind {x : CopyM P α} {f : α → CopyM P β} {mid : α → CopyPhase P.Row}
    {next : β → CopyPhase P.Row} (hx : Plays zl job phase rest x mid rest')
    (hf : ∀ a, Plays zl job (mid a) rest' (f a) next rest'') :
    Plays zl job phase rest (x >>= f) next rest'' := by
  intro s
  constructor
  · intro b s' hok
    obtain ⟨a, t, hxs, hft⟩ := bind_eq_ok_iff.mp hok
    exact ((hx s).1 a t hxs).trans ((hf a t).1 b s' hft)
  · intro e s' herr
    rcases bind_eq_error_iff.mp herr with hxs | ⟨a, t, hxs, hft⟩
    · exact (hx s).2 e s' hxs
    · obtain ⟨left, hleads⟩ := (hf a t).2 e s' hft
      exact ⟨left, ((hx s).1 a t hxs).trans hleads⟩

/-- One step that makes one call. -/
theorem Plays.perform {x : CopyM P α} {next : α → CopyPhase P.Row}
    (hstep : ∀ s, (job.at_ s phase rest).2.step zl (job.at_ s phase rest).1 =
      (job.at_ s phase rest).2.perform (job.at_ s phase rest).1 x next) :
    Plays zl job phase rest x next rest := by
  intro s
  have hstate : (job.at_ s phase rest).2.state (job.at_ s phase rest).1 = s := rfl
  constructor
  · intro a s' hok
    apply ReflTransGen.single
    rw [JobMove, hstep, CopyJob.perform, hstate, hok]
    rfl
  · intro e s' herr
    refine ⟨rest, ReflTransGen.single ?_⟩
    rw [JobMove, hstep, CopyJob.perform, hstate, herr]
    rfl

section

variable (pending : Option (List P.Row))

theorem plays_startChunk : Plays zl job (.start pending) rest (openzlStartChunk job.bind)
    (fun _ ↦ .initLocal pending) rest := .perform fun _ ↦ rfl

theorem plays_initLocal : Plays zl job (.initLocal pending) rest openzlCopyInitLocal
    (fun _ ↦ afterInit pending) rest := .perform fun _ ↦ rfl

theorem plays_combine : Plays zl job (.combine pending) rest (parquetCombine job.bind)
    (fun _ ↦ .finalize pending) rest := .perform fun _ ↦ rfl

theorem plays_endChunk : Plays zl job (.finalize pending) rest (openzlEndChunk zl job.bind)
    (fun _ ↦ afterAppend pending) rest := by
  have hfinalize : Plays zl job (.finalize pending) rest (parquetFinalize job.bind)
      (fun _ ↦ .compress pending) rest := .perform fun _ ↦ rfl
  have hcompress : Plays zl job (.compress pending) rest (compressStaged zl job.bind)
      (.append pending) rest := .perform fun _ ↦ rfl
  exact hfinalize.bind fun _ ↦ hcompress.bind fun _ ↦ .perform fun _ ↦ rfl

end

theorem plays_rotateChunk (input : List P.Row) :
    Plays zl job (.combine (some input)) rest (rotateChunk zl job.bind) (fun _ ↦ .sink input)
      rest := by
  apply (plays_combine (some input)).bind
  intro _
  apply (plays_endChunk (some input)).bind
  intro _
  apply (plays_startChunk (some input)).bind
  intro _
  exact plays_initLocal (some input)

/-- A step that changes nothing but the point of the program. -/
theorem Plays.head {x : CopyM P α} {next : α → CopyPhase P.Row} {s : CopyState P}
    {phase' : CopyPhase P.Row}
    (hstep : (job.at_ s phase rest).2.step zl (job.at_ s phase rest).1 = job.at_ s phase' rest')
    (hplays : Plays zl job phase' rest' x next rest'') :
    (∀ a s', x s = .ok a s' →
      ReflTransGen (JobMove zl) (job.at_ s phase rest) (job.at_ s' (next a) rest'')) ∧
    ∀ e s', x s = .error e s' → ∃ left,
      ReflTransGen (JobMove zl) (job.at_ s phase rest) (job.at_ s' (.thrown e) left) := by
  constructor
  · intro a s' hok
    exact .head hstep.symm ((hplays s).1 a s' hok)
  · intro e s' herr
    obtain ⟨left, hleads⟩ := (hplays s).2 e s' herr
    exact ⟨left, .head hstep.symm hleads⟩

theorem plays_sink (input : List P.Row) :
    Plays zl job .filling (input :: rest) (openzlCopySink zl job.bind input) (fun _ ↦ .filling)
      rest := by
  intro s
  unfold openzlCopySink
  by_cases hrotate : job.bind.chunkSizeBytes > 0 ∧
      openzlStagedBytes job.bind s ≥ job.bind.chunkSizeBytes
  · rw [if_pos hrotate]
    have hstep : (job.at_ s .filling (input :: rest)).2.step zl s.process =
        job.at_ s (.combine (some input)) rest := by
      simp only [CopyJob.step, CopyJob.at_, CopyJob.nextBatch]
      exact congrArg _ (if_pos hrotate)
    apply Plays.head hstep
    exact (plays_rotateChunk input).bind fun _ ↦ .perform fun _ ↦ rfl
  · rw [if_neg hrotate]
    have hstep : (job.at_ s .filling (input :: rest)).2.step zl s.process =
        job.at_ s (.sink input) rest := by
      simp only [CopyJob.step, CopyJob.at_, CopyJob.nextBatch]
      exact congrArg _ (if_neg hrotate)
    exact Plays.head hstep (.perform fun _ ↦ rfl)

theorem plays_sinks (batches : List (List P.Row)) :
    Plays zl job .filling batches (batches.forM (openzlCopySink zl job.bind)) (fun _ ↦ .filling)
      [] := by
  induction batches with
  | nil =>
      intro s
      constructor
      · intro a s' hok
        obtain ⟨-, rfl⟩ := EStateM.Result.ok.inj hok
        exact .refl
      · intro e s' herr
        cases herr
  | cons input batches ih => exact (plays_sink input).bind fun _ ↦ ih

theorem plays_endQuery : Plays zl job .filling [] (endQuery job.queryError) (fun _ ↦ .combine none)
    [] := by
  intro s
  unfold endQuery
  cases hquery : job.queryError with
  | none =>
      constructor
      · intro a s' hok
        obtain ⟨-, rfl⟩ := EStateM.Result.ok.inj hok
        apply ReflTransGen.single
        simp only [JobMove, CopyJob.step, CopyJob.at_, CopyJob.nextBatch, hquery]
      · intro e s' herr
        cases herr
  | some what =>
      constructor
      · intro a s' hok
        cases hok
      · intro e s' herr
        obtain ⟨rfl, rfl⟩ := EStateM.Result.error.inj herr
        refine ⟨[], ReflTransGen.single ?_⟩
        simp only [JobMove, CopyJob.step, CopyJob.at_, CopyJob.nextBatch, hquery]

/-- How a run ends, and the process behind the destruction of its state. -/
theorem runs_alone (zl : OpenZL) (p : CopyProcess) (bind : OpenzlCopyBindData) (path : Path)
    (batches : List (List P.Row)) (queryError : Option String) :
    ∃ job, ReflTransGen (JobMove zl) (p, initial P bind path batches queryError)
        ((stateAfter (runCopy zl bind batches queryError) (CopyState.initial P p path)).destroy,
          job) ∧
      job.phase = match runCopy zl bind batches queryError (CopyState.initial P p path) with
        | .ok () _ => .done
        | .error e _ => .aborted e := by
  have hplays : Plays zl (initial P bind path batches queryError) (.start none) batches
      (runCopy zl bind batches queryError) (fun _ ↦ .returned) [] := by
    apply (plays_startChunk none).bind
    intro _
    apply (plays_initLocal none).bind
    intro _
    apply (plays_sinks batches).bind
    intro _
    apply plays_endQuery.bind
    intro _
    apply (plays_combine none).bind
    intro _
    apply (plays_endChunk none).bind
    intro _
    exact .perform fun _ ↦ rfl
  obtain ⟨hok, herr⟩ := hplays (CopyState.initial P p path)
  unfold stateAfter
  cases hrun : runCopy zl bind batches queryError (CopyState.initial P p path) with
  | ok u s => exact ⟨_, (hok u s hrun).tail rfl, rfl⟩
  | error e s =>
      obtain ⟨left, hleads⟩ := herr e s hrun
      exact ⟨_, hleads.tail rfl, rfl⟩

end CopyJob

end DuckdbOpenzl
