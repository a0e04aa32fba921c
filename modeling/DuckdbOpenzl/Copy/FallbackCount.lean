import DuckdbOpenzl.Copy.ChunkRecords
import DuckdbOpenzl.Library.GhostState

/-!
# Counting the fallbacks of a session

A ledger travels as a ghost beside the COPYs of a session and gets a record of
every chunk that is compressed. What the ledger and `openzl_fallback_chunks()`
say agrees as long as every chunk is fair.
-/

set_option autoImplicit false

namespace DuckdbOpenzl

open ExceptionState GhostState

variable {zl : OpenZL} {P : ParquetCopyFunction} {copy : TrainedCopy zl} {bind : OpenzlCopyBindData}

/-! ## Compressing what is staged -/

/-- The bytes that `OpenzlEndChunk` compresses, if it gets that far. -/
def CopyState.staged (s : CopyState P) (bind : OpenzlCopyBindData) : Option Bytes :=
  if bind.inMemory then
    (s.process.buffers s.gstate.tmpParquetPath).filter fun _ ↦ s.process.servesCompressor bind
  else
    (readStagingFile bind s.gstate.tmpParquetPath s.process).toOption.filter fun bytes ↦
      s.process.servesFile bind bytes.length

def fallbackChunks (s : CopyState P) : ℕ := s.process.fallbackChunks

theorem compressStaged_of_none (zl : OpenZL) {s : CopyState P} (h : s.staged bind = none) :
    ∃ e t, compressStaged zl bind s = .error e t ∧ fallbackChunks t = fallbackChunks s := by
  unfold CopyState.staged at h
  unfold compressStaged
  dsimp only
  by_cases hmode : bind.inMemory = true
  · rw [if_pos hmode] at h ⊢
    cases hbuffer : s.process.buffers s.gstate.tmpParquetPath with
    | none => exact ⟨_, s, rfl, rfl⟩
    | some canonicalBytes =>
        rw [hbuffer, Option.filter_eq_none_iff] at h
        dsimp only
        rw [if_neg (h canonicalBytes rfl)]
        exact ⟨_, _, rfl, rfl⟩
  · rw [if_neg hmode] at h ⊢
    cases hread : readStagingFile bind s.gstate.tmpParquetPath s.process with
    | error e => exact ⟨_, _, rfl, rfl⟩
    | ok canonicalBytes =>
        rw [hread, Option.filter_eq_none_iff] at h
        dsimp only
        rw [if_neg (h canonicalBytes rfl)]
        exact ⟨_, s, rfl, rfl⟩

/-- The frame is the one in the trace of the chunk, and the counter grows as that says. -/
theorem compressStaged_of_some (zl : OpenZL) {s : CopyState P} {canonicalBytes : Bytes}
    (h : s.staged bind = some canonicalBytes) :
    let o := compressChunkTraced zl bind canonicalBytes
      (s.process.world.content bind.trainedCompressorPath)
    ∃ t, fallbackChunks t = fallbackChunks s + o.2 ∧ compressStaged zl bind s = match o.1 with
      | .ok made => .ok made.2 t
      | .error e => .error (.io e.what) t := by
  unfold CopyState.staged at h
  unfold compressStaged
  dsimp only
  by_cases hmode : bind.inMemory = true
  · rw [if_pos hmode] at h ⊢
    obtain ⟨hbuffer, hserved⟩ := Option.filter_eq_some_iff.mp h
    rw [hbuffer]
    dsimp only
    rw [if_pos hserved, compressChunkWithFallback_eq_traced]
    dsimp only
    cases (compressChunkTraced zl bind canonicalBytes
      (s.process.world.content bind.trainedCompressorPath)).1 with
    | ok made =>
        refine ⟨_, ?_, rfl⟩
        rfl
    | error e =>
        refine ⟨_, ?_, rfl⟩
        rfl
  · rw [if_neg hmode] at h ⊢
    obtain ⟨hread, hserved⟩ := Option.filter_eq_some_iff.mp h
    cases hfile : readStagingFile bind s.gstate.tmpParquetPath s.process with
    | error e =>
        rw [hfile] at hread
        cases hread
    | ok bytes =>
        rw [hfile] at hread
        obtain rfl := Option.some.inj hread
        dsimp only
        rw [if_pos hserved, compressChunkWithFallback_eq_traced]
        dsimp only
        cases (compressChunkTraced zl bind bytes
          (s.process.world.content bind.trainedCompressorPath)).1 with
        | ok made =>
            refine ⟨_, ?_, rfl⟩
            rfl
        | error e =>
            refine ⟨_, ?_, rfl⟩
            rfl

/-! ## The other steps of a COPY leave the counter alone -/

theorem fallbackChunks_wrote (s : CopyState P) (bind : OpenzlCopyBindData) (bytes : Bytes) :
    fallbackChunks (s.wrote bind bytes) = fallbackChunks s := by
  unfold CopyState.wrote CopyProcess.appendTarget
  split <;> rfl

theorem fallbackChunks_nextTarget (s : CopyState P) (bind : OpenzlCopyBindData) :
    fallbackChunks (s.nextTarget bind) = fallbackChunks s := by
  unfold CopyState.nextTarget
  split <;> rfl

theorem fallbackChunks_openedTarget (s : CopyState P) (bind : OpenzlCopyBindData) (bytes : Bytes) :
    fallbackChunks (s.openedTarget bind bytes) = fallbackChunks s := by
  unfold CopyState.openedTarget CopyProcess.appendTarget CopyProcess.openTarget
  split <;> rfl

/-- However a call on the parquet writer ends. -/
theorem callHost_fallbackChunks {α : Type} (bind : OpenzlCopyBindData) (step : HostStep)
    (f : ℕ → P.GlobalState → HostOutcome α) (s : CopyState P) :
    (∃ a t, callHost bind step f s = .ok a t ∧ fallbackChunks t = fallbackChunks s) ∨
      ∃ e t, callHost bind step f s = .error e t ∧ fallbackChunks t = fallbackChunks s := by
  cases hg : s.gstate.parquetGlobalState with
  | none =>
      refine .inr ⟨nullDereference, s, ?_, rfl⟩
      unfold callHost
      rw [hg]
  | some g =>
      rw [callHost_eq hg]
      cases (f s.process.hostCalls g).result with
      | ok a => exact .inl ⟨a, _, rfl, fallbackChunks_wrote s bind _⟩
      | error what => exact .inr ⟨_, _, rfl, fallbackChunks_wrote s bind _⟩

theorem parquetSink_silent (bind : OpenzlCopyBindData) (input : List P.Row) :
    Silent fallbackChunks (parquetSink bind input) := by
  intro s
  unfold stateAfter parquetSink
  cases s.lstate with
  | none => rfl
  | some l =>
      dsimp only
      rcases callHost_fallbackChunks bind .sink (fun k g ↦ P.sink k input g l) s with
        ⟨a, t, hrun, hcount⟩ | ⟨e, t, hrun, hcount⟩
      all_goals
        rw [hrun]
        exact hcount

theorem parquetCombine_silent (bind : OpenzlCopyBindData) :
    Silent fallbackChunks (parquetCombine (P := P) bind) := by
  intro s
  unfold stateAfter parquetCombine
  cases s.lstate with
  | none => rfl
  | some l =>
      dsimp only
      rcases callHost_fallbackChunks bind .combine (fun k g ↦ P.combine k g l) s with
        ⟨a, t, hrun, hcount⟩ | ⟨e, t, hrun, hcount⟩
      all_goals
        rw [hrun]
        exact hcount

theorem parquetFinalize_silent (bind : OpenzlCopyBindData) :
    Silent fallbackChunks (parquetFinalize (P := P) bind) := by
  intro s
  unfold stateAfter parquetFinalize
  rcases callHost_fallbackChunks bind .finalize P.finalize s with
    ⟨a, t, hrun, hcount⟩ | ⟨e, t, hrun, hcount⟩
  all_goals
    rw [hrun]
    exact hcount

theorem openzlStartChunk_silent (bind : OpenzlCopyBindData) :
    Silent fallbackChunks (openzlStartChunk (P := P) bind) := by
  intro s
  unfold stateAfter openzlStartChunk
  dsimp only
  cases P.initializeGlobal (s.nextTarget bind).process.hostCalls with
  | error what => exact fallbackChunks_nextTarget s bind
  | ok o =>
      dsimp only
      have hopened := (fallbackChunks_openedTarget (s.nextTarget bind) bind o.written).trans
        (fallbackChunks_nextTarget s bind)
      cases o.result <;> exact hopened

theorem openzlCopyInitLocal_silent : Silent fallbackChunks (openzlCopyInitLocal (P := P)) := by
  intro s
  unfold stateAfter openzlCopyInitLocal
  cases P.initializeLocal s.process.hostCalls <;> rfl

theorem callArchive_silent (x : WriterM Unit) :
    Silent fallbackChunks (callArchive (P := P) x) := by
  intro s
  unfold stateAfter callArchive
  cases x (s.process.world, s.gstate.archive) <;> rfl

theorem appendChunk_silent (frame : Bytes) :
    Silent fallbackChunks (appendChunk (P := P) frame) := by
  intro s
  have hcall := callArchive_silent (P := P) (ChunkedArchiveWriter.append frame) s
  unfold stateAfter at hcall ⊢
  unfold appendChunk
  cases hrun : callArchive (P := P) (ChunkedArchiveWriter.append frame) s with
  | ok u t =>
      rw [hrun] at hcall
      exact hcall
  | error e t =>
      rw [hrun] at hcall
      exact hcall

/-! ## The callbacks with a ledger -/

abbrev LedgerM (zl : OpenZL) (P : ParquetCopyFunction) :=
  EStateM CopyException (CopyState P × List (ChunkRecord zl))

/-- A record of the chunk that is about to be compressed. -/
def recordChunk (copy : TrainedCopy zl) (s : CopyState P) (ledger : List (ChunkRecord zl)) :
    List (ChunkRecord zl) :=
  match s.staged copy.bind with
  | some canonicalBytes =>
      ledger ++ [.of copy (s.process.world.content copy.bind.trainedCompressorPath) canonicalBytes]
  | none => ledger

def compressStagedRecorded (copy : TrainedCopy zl) : LedgerM zl P Bytes := do
  tell (recordChunk copy)
  lift (compressStaged zl copy.bind)

def openzlEndChunkRecorded (copy : TrainedCopy zl) : LedgerM zl P Unit := do
  lift (parquetFinalize copy.bind)
  let frame ← compressStagedRecorded copy
  lift (appendChunk frame)

def rotateChunkRecorded (copy : TrainedCopy zl) : LedgerM zl P Unit := do
  lift (parquetCombine copy.bind)
  openzlEndChunkRecorded copy
  lift (openzlStartChunk copy.bind)
  lift openzlCopyInitLocal

def openzlCopySinkRecorded (copy : TrainedCopy zl) (input : List P.Row) : LedgerM zl P Unit :=
  fun s ↦
    if copy.bind.chunkSizeBytes > 0 ∧
      openzlStagedBytes copy.bind s.1 ≥ copy.bind.chunkSizeBytes then
      (rotateChunkRecorded copy >>= fun _ ↦ lift (parquetSink copy.bind input)) s
    else
      lift (parquetSink copy.bind input) s

def openzlCopyFinalizeRecorded (copy : TrainedCopy zl) : LedgerM zl P Unit := do
  openzlEndChunkRecorded copy
  lift (callArchive ChunkedArchiveWriter.finish)

theorem compressStagedRecorded_erases (copy : TrainedCopy zl) :
    Erases (compressStagedRecorded (P := P) copy) (compressStaged zl copy.bind) :=
  (erases_lift _).tell _

theorem openzlEndChunkRecorded_erases (copy : TrainedCopy zl) :
    Erases (openzlEndChunkRecorded (P := P) copy) (openzlEndChunk zl copy.bind) :=
  (erases_lift _).bind fun _ ↦ (compressStagedRecorded_erases copy).bind fun _ ↦ erases_lift _

theorem rotateChunkRecorded_erases (copy : TrainedCopy zl) :
    Erases (rotateChunkRecorded (P := P) copy) (rotateChunk zl copy.bind) :=
  (erases_lift _).bind fun _ ↦ (openzlEndChunkRecorded_erases copy).bind fun _ ↦
    (erases_lift _).bind fun _ ↦ erases_lift _

theorem openzlCopySinkRecorded_erases (copy : TrainedCopy zl) (input : List P.Row) :
    Erases (openzlCopySinkRecorded copy input) (openzlCopySink zl copy.bind input) := by
  intro s ledger
  unfold openzlCopySinkRecorded openzlCopySink
  dsimp only
  split_ifs
  · exact (rotateChunkRecorded_erases copy).bind (fun _ ↦ erases_lift _) s ledger
  · exact erases_lift _ s ledger

theorem openzlCopyFinalizeRecorded_erases (copy : TrainedCopy zl) :
    Erases (openzlCopyFinalizeRecorded (P := P) copy) (openzlCopyFinalize zl copy.bind) :=
  (openzlEndChunkRecorded_erases copy).bind fun _ ↦ erases_lift _

/-! ## What a callback adds to the ledger and to the counter -/

/-- One more record; what is counted for it agrees with it if its chunk is fair. -/
def Compressed (a b : ℕ × List (ChunkRecord zl)) : Prop :=
  ∃ (r : ChunkRecord zl) (count : ℕ), b = (a.1 + count, a.2 ++ [r]) ∧ (r.Counted count ↔ r.Fair)

theorem compressStagedRecorded_once (copy : TrainedCopy zl) :
    AtMostOnce (beside fallbackChunks) Compressed (compressStagedRecorded (P := P) copy) := by
  rintro ⟨s, ledger⟩
  have hafter : stateAfter (compressStagedRecorded copy) (s, ledger) =
      (stateAfter (compressStaged zl copy.bind) s, recordChunk copy s ledger) :=
    stateAfter_lift (compressStaged zl copy.bind) s (recordChunk copy s ledger)
  rw [hafter]
  cases hstaged : s.staged copy.bind with
  | none =>
      obtain ⟨e, t, hrun, hcount⟩ := compressStaged_of_none zl hstaged
      left
      unfold recordChunk beside
      rw [hstaged, stateAfter_of_error hrun, hcount]
  | some canonicalBytes =>
      obtain ⟨t, hcount, hrun⟩ := compressStaged_of_some zl hstaged
      right
      refine ⟨_, _, ?_, ChunkRecord.counted_iff_fair copy
        (s.process.world.content copy.bind.trainedCompressorPath) canonicalBytes⟩
      have ht : stateAfter (compressStaged zl copy.bind) s = t := by
        rw [stateAfter, hrun]
        cases (compressChunkTraced zl copy.bind canonicalBytes
          (s.process.world.content copy.bind.trainedCompressorPath)).1 <;> rfl
      unfold recordChunk beside
      rw [hstaged, ht, hcount]

theorem openzlEndChunkRecorded_once (copy : TrainedCopy zl) :
    AtMostOnce (beside fallbackChunks) Compressed (openzlEndChunkRecorded (P := P) copy) :=
  (parquetFinalize_silent copy.bind).lift.bind_atMostOnce fun _ ↦
    (compressStagedRecorded_once copy).bind_silent fun frame ↦ (appendChunk_silent frame).lift

/-- The frame that is appended to the archive is the one of the new record. -/
theorem openzlEndChunkRecorded_ok {s t : CopyState P} {ledger ledger' : List (ChunkRecord zl)}
    (h : openzlEndChunkRecorded copy (s, ledger) = .ok () (t, ledger')) :
    ∃ r cctx frame u, ledger' = ledger ++ [r] ∧ r.made = some (cctx, frame) ∧
      appendChunk frame u = .ok () t := by
  obtain ⟨u, ⟨s₁, ledger₁⟩, hfinalize, hrest⟩ := bind_eq_ok_iff.mp h
  obtain ⟨frame, ⟨s₂, ledger₂⟩, hrecorded, hlast⟩ := bind_eq_ok_iff.mp hrest
  obtain ⟨-, rfl⟩ := lift_eq_ok_iff.mp hfinalize
  obtain ⟨hcompress, rfl⟩ := lift_eq_ok_iff.mp
    (show lift (compressStaged zl copy.bind) (s₁, recordChunk copy s₁ ledger₁) = _ from hrecorded)
  obtain ⟨happend, rfl⟩ := lift_eq_ok_iff.mp hlast
  cases hstaged : s₁.staged copy.bind with
  | none =>
      obtain ⟨e, t₁, hrun, -⟩ := compressStaged_of_none zl hstaged
      rw [hrun] at hcompress
      cases hcompress
  | some canonicalBytes =>
      obtain ⟨t₁, -, hrun⟩ := compressStaged_of_some zl hstaged
      rw [hrun] at hcompress
      cases hmade : compressChunkTraced zl copy.bind canonicalBytes
        (s₁.process.world.content copy.bind.trainedCompressorPath) with
      | mk result count =>
          rw [hmade] at hcompress
          rcases result with e | ⟨cctx, made⟩
          · cases hcompress
          · obtain ⟨rfl, rfl⟩ := EStateM.Result.ok.inj hcompress
            refine ⟨_, cctx, made, t₁, ?_, ChunkRecord.made_of hmade, happend⟩
            unfold recordChunk
            rw [hstaged]

theorem rotateChunkRecorded_once (copy : TrainedCopy zl) :
    AtMostOnce (beside fallbackChunks) Compressed (rotateChunkRecorded (P := P) copy) :=
  (parquetCombine_silent copy.bind).lift.bind_atMostOnce fun _ ↦
    (openzlEndChunkRecorded_once copy).bind_silent fun _ ↦
      (openzlStartChunk_silent copy.bind).lift.bind fun _ ↦ openzlCopyInitLocal_silent.lift

theorem openzlCopySinkRecorded_once (copy : TrainedCopy zl) (input : List P.Row) :
    AtMostOnce (beside fallbackChunks) Compressed (openzlCopySinkRecorded copy input) :=
  .ite _ ((rotateChunkRecorded_once copy).bind_silent fun _ ↦
    (parquetSink_silent copy.bind input).lift)
    (parquetSink_silent copy.bind input).lift.atMostOnce

theorem openzlCopyFinalizeRecorded_once (copy : TrainedCopy zl) :
    AtMostOnce (beside fallbackChunks) Compressed (openzlCopyFinalizeRecorded (P := P) copy) :=
  (openzlEndChunkRecorded_once copy).bind_silent fun _ ↦ (callArchive_silent _).lift

/-! ## A session -/

inductive CopyCallback (P : ParquetCopyFunction) where
  | initLocal
  | sink (input : List P.Row)
  | combine
  | finalize

namespace CopyCallback

def run (zl : OpenZL) (bind : OpenzlCopyBindData) : CopyCallback P → CopyM P Unit
  | .initLocal => openzlCopyInitLocal
  | .sink input => openzlCopySink zl bind input
  | .combine => openzlCopyCombine bind
  | .finalize => openzlCopyFinalize zl bind

def runRecorded (copy : TrainedCopy zl) : CopyCallback P → LedgerM zl P Unit
  | .initLocal => lift openzlCopyInitLocal
  | .sink input => openzlCopySinkRecorded copy input
  | .combine => lift (openzlCopyCombine copy.bind)
  | .finalize => openzlCopyFinalizeRecorded copy

theorem runRecorded_erases (copy : TrainedCopy zl) (c : CopyCallback P) :
    Erases (c.runRecorded copy) (c.run zl copy.bind) := by
  cases c with
  | initLocal => exact erases_lift _
  | sink input => exact openzlCopySinkRecorded_erases copy input
  | combine => exact erases_lift _
  | finalize => exact openzlCopyFinalizeRecorded_erases copy

theorem runRecorded_once (copy : TrainedCopy zl) (c : CopyCallback P) :
    AtMostOnce (beside fallbackChunks) Compressed (c.runRecorded copy) := by
  cases c with
  | initLocal => exact openzlCopyInitLocal_silent.lift.atMostOnce
  | sink input => exact openzlCopySinkRecorded_once copy input
  | combine => exact (parquetCombine_silent copy.bind).lift.atMostOnce
  | finalize => exact openzlCopyFinalizeRecorded_once copy

/-- `copy_to_finalize` is the last callback of a COPY. -/
def isLast : CopyCallback P → Bool
  | .finalize => true
  | _ => false

end CopyCallback

/-- Between two COPYs, or in one. -/
inductive Phase (zl : OpenZL) (P : ParquetCopyFunction) where
  | idle (p : CopyProcess)
  | copying (copy : TrainedCopy zl) (s : CopyState P)

/-- What happens in a session: a COPY is begun, the database calls back, it gives the COPY up, or
files are changed by others. -/
inductive SessionStep (zl : OpenZL) (P : ParquetCopyFunction) where
  | begin (copy : TrainedCopy zl) (filePath : Path)
  | call (c : CopyCallback P)
  | abandon
  | files (w : World)

namespace Phase

def fallbackChunks : Phase zl P → ℕ
  | .idle p => p.fallbackChunks
  | .copying _ s => s.process.fallbackChunks

/-- A callback that throws ends the COPY, as the last one does. -/
def settle {α : Type} (copy : TrainedCopy zl) (last : Bool) :
    EStateM.Result CopyException (CopyState P) α → Phase zl P
  | .ok _ s => if last then .idle s.destroy else .copying copy s
  | .error _ s => .idle s.destroy

def step : Phase zl P → SessionStep zl P → Phase zl P
  | .idle p, .begin copy filePath =>
      settle copy false (openzlStartChunk copy.bind (CopyState.initial P p filePath))
  | .copying copy s, .call c => settle copy c.isLast (c.run zl copy.bind s)
  | .copying _ s, .abandon => .idle s.destroy
  | .idle p, .files w => .idle { p with world := w }
  | .copying copy s, .files w => .copying copy { s with process := { s.process with world := w } }
  | phase, _ => phase

def run (steps : List (SessionStep zl P)) (phase : Phase zl P) : Phase zl P :=
  steps.foldl step phase

/-- The records of one step. -/
def stepLedger (phase : Phase zl P) (a : SessionStep zl P) (ledger : List (ChunkRecord zl)) :
    List (ChunkRecord zl) :=
  match phase, a with
  | .copying copy s, .call c => (stateAfter (c.runRecorded copy) (s, ledger)).2
  | _, _ => ledger

/-- The ledger with the records of the chunks that these steps compress. -/
def record : List (SessionStep zl P) → Phase zl P → List (ChunkRecord zl) → List (ChunkRecord zl)
  | [], _, ledger => ledger
  | a :: steps, phase, ledger => record steps (phase.step a) (phase.stepLedger a ledger)

@[simp] theorem fallbackChunks_settle {α : Type} (copy : TrainedCopy zl) (last : Bool)
    (x : CopyM P α) (s : CopyState P) :
    (settle copy last (x s)).fallbackChunks = DuckdbOpenzl.fallbackChunks (stateAfter x s) := by
  unfold stateAfter settle
  cases x s with
  | ok a t => cases last <;> rfl
  | error e t => rfl

/-- A step counts and records nothing, or one chunk. -/
theorem step_once (phase : Phase zl P) (a : SessionStep zl P) (ledger : List (ChunkRecord zl)) :
    ((phase.step a).fallbackChunks, phase.stepLedger a ledger) = (phase.fallbackChunks, ledger) ∨
      Compressed (phase.fallbackChunks, ledger)
        ((phase.step a).fallbackChunks, phase.stepLedger a ledger) := by
  cases phase with
  | idle p =>
      left
      cases a with
      | begin copy filePath =>
          have hstart := openzlStartChunk_silent copy.bind (CopyState.initial P p filePath)
          exact congrArg (·, ledger) ((fallbackChunks_settle copy false _ _).trans hstart)
      | call c => rfl
      | abandon => rfl
      | files w => rfl
  | copying copy s =>
      cases a with
      | begin copy' filePath => exact .inl rfl
      | abandon => exact .inl rfl
      | files w => exact .inl rfl
      | call c =>
          have hstate := (c.runRecorded_erases copy).stateAfter s ledger
          have hcount : ((Phase.copying copy s).step (.call c)).fallbackChunks =
              DuckdbOpenzl.fallbackChunks (stateAfter (c.runRecorded copy) (s, ledger)).1 := by
            rw [hstate]
            exact fallbackChunks_settle copy c.isLast _ s
          rw [hcount]
          exact c.runRecorded_once copy (s, ledger)

theorem run_concat (steps : List (SessionStep zl P)) (a : SessionStep zl P) (phase : Phase zl P) :
    run (steps ++ [a]) phase = (run steps phase).step a :=
  List.foldl_concat ..

theorem record_concat (steps : List (SessionStep zl P)) (a : SessionStep zl P) (phase : Phase zl P)
    (ledger : List (ChunkRecord zl)) :
    record (steps ++ [a]) phase ledger =
      (run steps phase).stepLedger a (record steps phase ledger) := by
  induction steps generalizing phase ledger with
  | nil => rfl
  | cons b steps ih => exact ih (phase.step b) (phase.stepLedger b ledger)

end Phase

/-! ## Accounting -/

/-- The counter and the ledger of a session that started with this count. -/
def Phase.seen (steps : List (SessionStep zl P)) (p : CopyProcess) : ℕ × List (ChunkRecord zl) :=
  ((Phase.run steps (.idle p)).fallbackChunks, Phase.record steps (.idle p) [])

/-- Every frame was made by a compressor that its COPY allows, and the counter has grown by the
number of frames that the generic graph made. -/
def Accounted (start : ℕ) (now : ℕ × List (ChunkRecord zl)) : Prop :=
  (∀ r ∈ now.2, r.Allowed) ∧ now.1 = start + now.2.countP ChunkRecord.isGeneric

/-- At every point of the session. -/
def AccountedThroughout (p : CopyProcess) (steps : List (SessionStep zl P)) : Prop :=
  ∀ past, past <+: steps → Accounted p.fallbackChunks (Phase.seen past p)

theorem Accounted.compressed_iff {start : ℕ} {a b : ℕ × List (ChunkRecord zl)}
    (h : Accounted start a) (hfair : ∀ r ∈ a.2, r.Fair) (hnext : Compressed a b) :
    Accounted start b ↔ ∀ r ∈ b.2, r.Fair := by
  obtain ⟨r, count, rfl, hcounted⟩ := hnext
  have hboth : (∀ r' ∈ a.2 ++ [r], r'.Fair) ↔ r.Fair := by
    simp only [List.mem_append, List.mem_singleton]
    exact ⟨fun h ↦ h r (.inr rfl), fun h r' hr' ↦ hr'.elim (hfair r') fun hr' ↦ hr' ▸ h⟩
  rw [hboth, ← hcounted]
  unfold Accounted ChunkRecord.Counted
  have hallowed : (∀ r' ∈ a.2 ++ [r], r'.Allowed) ↔ r.Allowed := by
    simp only [List.mem_append, List.mem_singleton]
    exact ⟨fun h ↦ h r (.inr rfl), fun hr r' hr' ↦ hr'.elim (h.1 r') fun hr' ↦ hr' ▸ hr⟩
  have hcount : (a.2 ++ [r]).countP ChunkRecord.isGeneric =
      a.2.countP ChunkRecord.isGeneric + r.isGeneric.toNat := by
    rw [List.countP_append, List.countP_singleton]
    cases r.isGeneric <;> rfl
  have hstart := h.2
  rw [hallowed, hcount]
  refine and_congr_right fun _ ↦ ?_
  dsimp only
  omega

theorem accountedThroughout_concat (p : CopyProcess) (steps : List (SessionStep zl P))
    (a : SessionStep zl P) : AccountedThroughout p (steps ++ [a]) ↔
      AccountedThroughout p steps ∧ Accounted p.fallbackChunks (Phase.seen (steps ++ [a]) p) := by
  unfold AccountedThroughout
  constructor
  · intro h
    exact ⟨fun past hpast ↦ h past (hpast.trans (List.prefix_append _ _)), h _ (List.prefix_refl _)⟩
  · rintro ⟨hbefore, hlast⟩ past hpast
    rcases List.prefix_concat_iff.mp hpast with rfl | hpast
    · exact hlast
    · exact hbefore past hpast

/-- A session is accounted for at every point exactly if every chunk it compresses is fair. -/
theorem fallbacks_accounted_iff (p : CopyProcess) (steps : List (SessionStep zl P)) :
    AccountedThroughout p steps ↔ ∀ r ∈ Phase.record steps (.idle p) [], r.Fair := by
  induction steps using List.reverseRecOn with
  | nil =>
      have hstart : Accounted p.fallbackChunks (Phase.seen ([] : List (SessionStep zl P)) p) := by
        refine ⟨fun r hr ↦ ?_, ?_⟩
        · cases hr
        · rfl
      refine iff_of_true (fun past hpast ↦ ?_) fun r hr ↦ ?_
      · rw [List.prefix_nil.mp hpast]
        exact hstart
      · cases hr
  | append_singleton steps a ih =>
      have hstep : Phase.seen (steps ++ [a]) p = Phase.seen steps p ∨
          Compressed (Phase.seen steps p) (Phase.seen (steps ++ [a]) p) := by
        unfold Phase.seen
        rw [Phase.run_concat, Phase.record_concat]
        exact Phase.step_once _ a _
      have hlast : AccountedThroughout p steps →
          (Accounted p.fallbackChunks (Phase.seen (steps ++ [a]) p) ↔
            ∀ r ∈ (Phase.seen (steps ++ [a]) p).2, r.Fair) := by
        intro hthroughout
        have hnow := hthroughout steps (List.prefix_refl _)
        have hfair := ih.mp hthroughout
        rcases hstep with hsame | hcompressed
        · rw [hsame]
          exact iff_of_true hnow hfair
        · exact hnow.compressed_iff hfair hcompressed
      have hgrows : (∀ r ∈ (Phase.seen (steps ++ [a]) p).2, r.Fair) →
          AccountedThroughout p steps := by
        intro hfair
        refine ih.mpr fun r hr ↦ hfair r ?_
        rcases hstep with hsame | ⟨r', count, hnext, -⟩
        · rw [hsame]
          exact hr
        · rw [hnext]
          exact List.mem_append_left _ hr
      rw [accountedThroughout_concat]
      exact ⟨fun h ↦ (hlast h.1).mp h.2, fun h ↦ ⟨hgrows h, (hlast (hgrows h)).mpr h⟩⟩

/-- A COPY of one batch. -/
def oneBatch (copy : TrainedCopy zl) : List (SessionStep zl .plain) :=
  [.begin copy "a.ozl", .call .initLocal, .call (.sink ([1, 2] : List UInt8)), .call .combine,
    .call .finalize]

/-- OpenZL fails on every input. -/
def OpenZL.refusing : OpenZL :=
  { OpenZL.stored with compressSerial := fun _ _ ↦ .error "corruption" }

def withCompressor (serialized : Bytes) : CopyProcess := { world := World.empty.put "c" serialized }

/-- With an empty compressor file a strict COPY has its chunk compressed by the generic graph, and
nothing is counted; a chunk that fails with both compressors is counted, and there is no frame. -/
theorem not_accounted_emptyCompressor :
    (∃ copy : TrainedCopy .stored, copy.bind.fallbackToGeneric = false ∧
      ¬ AccountedThroughout (withCompressor []) (oneBatch copy)) ∧
      ∃ copy : TrainedCopy .refusing, copy.bind.fallbackToGeneric = true ∧
        ¬ AccountedThroughout (withCompressor [1]) (oneBatch copy) := by
  refine ⟨⟨⟨{}, { trainedCompressor := some "c" }, _, rfl, by decide⟩, rfl, fun h ↦ ?_⟩,
    ⟨⟨{}, { trainedCompressor := some "c", fallbackToGeneric := some true }, _, rfl, by decide⟩,
      rfl, fun h ↦ ?_⟩⟩
  · have hcount := (h _ (List.prefix_refl _)).2
    revert hcount
    decide +kernel
  · have hcount := (h _ (List.prefix_refl _)).2
    revert hcount
    decide +kernel

end DuckdbOpenzl
