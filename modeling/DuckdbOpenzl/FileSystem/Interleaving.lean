import DuckdbOpenzl.FileSystem.OpenFile
import DuckdbOpenzl.Library.Runs

/-!
# Interleaved opens of one archive

Any number of `OpenFile` calls on an archive and its chunks, with handles being
closed and the archive being created, replaced and removed in between. A call
stats the archive before it waits for the cache mutex; behind a cache miss it
opens the archive by name three times, and between any two of these the archive
may be another one. `history k` is the archive after `k` changes.
-/

set_option autoImplicit false

namespace DuckdbOpenzl

open Relation Runs

/-! ## The three opens of a decompression -/

/-- What the last open reads: the whole file, or the frame of a chunk. -/
inductive LastRead where
  | file
  | frame (index : ℕ) (r : ChunkRange)
  deriving DecidableEq

/-- The second open, which looks for the index. -/
def locate (path : Path) (chunk : Option ℕ) (file : Option Bytes) : Except Error LastRead :=
  match chunk with
  | none => do
      requirePlain path file
      return .file
  | some index => do
      let r ← chunkRange path index file
      return .frame index r

def LastRead.read (zl : OpenZL) (path : Path) (last : LastRead) (file : Option Bytes) :
    Except Error Bytes :=
  match last with
  | .file => do
      let input ← readFile path file
      decodeFile zl path input
  | .frame index r => do
      let frame ← readFrame path index r file
      decodeChunk zl path index frame

/-- A call has its stat and waits for the mutex, or it is before one of the three opens, or its
bytes are not in the cache yet. -/
inductive OpenPhase where
  | waiting
  | checking
  | locating
  | reading (last : LastRead)
  | decompressed (bytes : Bytes)

/-- The next open of the archive by name, which finds this content. -/
def OpenPhase.next (zl : OpenZL) (path : Path) (chunk : Option ℕ) (file : Option Bytes) :
    OpenPhase → Option (Except Error OpenPhase)
  | .checking => some ((requireFile path file).map fun _ ↦ .locating)
  | .locating => some ((locate path chunk file).map .reading)
  | .reading last => some ((last.read zl path file).map .decompressed)
  | .waiting => none
  | .decompressed _ => none

theorem opened_bind {α β : Type} (path : Path) (f : Option Bytes → Except Error α)
    (next : α → BridgeM β) (w : World) : (opened path f >>= next) w =
      match f (w.content path) with
      | .ok a => next a w
      | .error e => .error e w := by
  rw [ExceptionState.bind_apply]
  unfold opened returned
  cases f (w.content path) <;> rfl

/-- The three opens in a row are the bridge's decompression. -/
theorem decompressArchive_eq (zl : OpenZL) (path : Path) (chunk : Option ℕ) :
    decompressArchive zl (path, chunk) = (do
      opened path (requireFile path)
      let last ← opened path (locate path chunk)
      opened path (last.read zl path)) := by
  funext w
  cases chunk with
  | none =>
      simp only [decompressArchive, decompressToBuffer, opened_bind, locate]
      cases requireFile path (w.content path) with
      | error e => rfl
      | ok u => cases requirePlain path (w.content path) <;> rfl
  | some index =>
      simp only [decompressArchive, decompressChunkToBuffer, opened_bind, locate]
      cases requireFile path (w.content path) with
      | error e => rfl
      | ok u => cases chunkRange path index (w.content path) <;> rfl

/-! ## The system -/

structure OpenCall where
  realPath : Path
  begun : ℕ
  stat : ArchiveStat
  phase : OpenPhase

/-- A call that has returned or thrown. -/
structure OpenRecord where
  realPath : Path
  begun : ℕ
  ended : ℕ
  result : Except Exception SharedString

/-- `now` counts the changes of the archive, `lockedBy` is the call in the cache mutex. -/
structure ArchiveSystem where
  now : ℕ := 0
  cache : ArchiveCache := fun _ ↦ {}
  lockedBy : Option ℕ := none
  calls : ℕ → Option OpenCall := fun _ ↦ none
  records : List OpenRecord := []

namespace ArchiveSystem

def setCall (s : ArchiveSystem) (i : ℕ) (call : OpenCall) : ArchiveSystem :=
  { s with calls := Function.update s.calls i (some call) }

def setSlot (s : ArchiveSystem) (path : Path) (slot : ArchiveSlot) : ArchiveSystem :=
  { s with cache := Function.update s.cache path slot }

/-- The call leaves the mutex with this result. -/
def finish (s : ArchiveSystem) (i : ℕ) (call : OpenCall) (result : Except Exception SharedString) :
    ArchiveSystem :=
  let record : OpenRecord := ⟨call.realPath, call.begun, s.now, result⟩
  let calls := Function.update s.calls i none
  { s with lockedBy := none, calls := calls, records := record :: s.records }

variable (s : ArchiveSystem) (i : ℕ) (call call' : OpenCall)

@[simp] theorem setCall_calls_self : (s.setCall i call).calls i = some call :=
  Function.update_self ..

@[simp] theorem setCall_setCall : (s.setCall i call).setCall i call' = s.setCall i call' := by
  simp [setCall]

@[simp] theorem finish_setCall (result : Except Exception SharedString) :
    (s.setCall i call).finish i call' result = s.finish i call' result := by
  simp [setCall, finish]

end ArchiveSystem

section Steps

variable (zl : OpenZL) (archive : Path) (history : ℕ → Option File) (paths : Set Path)

def contentAt (k : ℕ) : Option Bytes := (history k).map File.content

def OpenCall.next (call : OpenCall) (file : Option Bytes) : Option (Except Error OpenPhase) :=
  call.phase.next zl archive (resolve call.realPath).2 file

/-- A change of the archive, what a call on one of the paths does next, or a handle closing. -/
inductive OpenStep : ArchiveSystem → ArchiveSystem → Prop where
  | change {s : ArchiveSystem} : OpenStep s { s with now := s.now + 1 }
  | start {s : ArchiveSystem} {i : ℕ} {realPath : Path} (mem : realPath ∈ paths)
      (resolved : (resolve realPath).1 = archive) (idle : s.calls i = none) :
      OpenStep s (s.setCall i ⟨realPath, s.now, statFile (history s.now), .waiting⟩)
  | hit {s : ArchiveSystem} {i : ℕ} {call : OpenCall} {data : SharedString}
      (running : s.calls i = some call) (waiting : call.phase = .waiting)
      (free : s.lockedBy = none)
      (cached : (s.cache call.realPath).lookup call.stat = some data) :
      OpenStep s ((s.setSlot call.realPath ((s.cache call.realPath).hold data)).finish i call
        (.ok data))
  | miss {s : ArchiveSystem} {i : ℕ} {call : OpenCall}
      (running : s.calls i = some call) (waiting : call.phase = .waiting)
      (free : s.lockedBy = none)
      (cached : (s.cache call.realPath).lookup call.stat = none) :
      OpenStep s { s.setCall i { call with phase := .checking } with lockedBy := some i }
  | proceed {s : ArchiveSystem} {i : ℕ} {call : OpenCall} {phase : OpenPhase}
      (running : s.calls i = some call)
      (next : call.next zl archive (contentAt history s.now) = some (.ok phase)) :
      OpenStep s (s.setCall i { call with phase := phase })
  | fail {s : ArchiveSystem} {i : ℕ} {call : OpenCall} {e : Error}
      (running : s.calls i = some call)
      (next : call.next zl archive (contentAt history s.now) = some (.error e)) :
      OpenStep s (s.finish i call (.error (rethrown e)))
  | store {s : ArchiveSystem} {i : ℕ} {call : OpenCall} {bytes : Bytes}
      (running : s.calls i = some call) (done : call.phase = .decompressed bytes)
      {data : SharedString} {slot : ArchiveSlot}
      (stored : (s.cache call.realPath).store bytes call.stat = (data, slot)) :
      OpenStep s ((s.setSlot call.realPath (slot.hold data)).finish i call (.ok data))
  | close {s : ArchiveSystem} {path : Path} {data : SharedString}
      (held : data ∈ (s.cache path).held) :
      OpenStep s (s.setSlot path ((s.cache path).release data))

end Steps

/-! ## A call that nothing interrupts -/

section Alone

variable {zl : OpenZL} {archive : Path} {history : ℕ → Option File} {paths : Set Path}

/-- The archive of the world is the present version. -/
def World.At (w : World) (archive : Path) (history : ℕ → Option File) (s : ArchiveSystem) : Prop :=
  w.files archive = history s.now

theorem World.At.content {w : World} {s : ArchiveSystem} (h : w.At archive history s) :
    w.content archive = contentAt history s.now := by
  rw [World.content, contentAt, h]

theorem OpenStep.proceed_setCall {s : ArchiveSystem} {i : ℕ} {call : OpenCall} {phase : OpenPhase}
    (next : call.next zl archive (contentAt history s.now) = some (.ok phase)) :
    OpenStep zl archive history paths (s.setCall i call)
      (s.setCall i { call with phase := phase }) := by
  have hstep : OpenStep zl archive history paths (s.setCall i call) _ :=
    .proceed (s.setCall_calls_self i call) next
  rwa [s.setCall_setCall] at hstep

theorem OpenStep.fail_setCall {s : ArchiveSystem} {i : ℕ} {call : OpenCall} {e : Error}
    (next : call.next zl archive (contentAt history s.now) = some (.error e)) :
    OpenStep zl archive history paths (s.setCall i call)
      (s.finish i call (.error (rethrown e))) := by
  have hstep : OpenStep zl archive history paths (s.setCall i call) _ :=
    .fail (s.setCall_calls_self i call) next
  rwa [s.finish_setCall] at hstep

/-- The three opens of a call in the mutex, with no step of another call in between. -/
theorem run_decompressArchive {w : World} {s : ArchiveSystem} {i : ℕ} {call : OpenCall}
    (hw : w.At archive history s) (hphase : call.phase = .checking) :
    ReflTransGen (OpenStep zl archive history paths) (s.setCall i call)
      (match decompressArchive zl (archive, (resolve call.realPath).2) w with
      | .ok bytes _ => s.setCall i { call with phase := .decompressed bytes }
      | .error e _ => s.finish i call (.error (rethrown e))) := by
  let file := contentAt history s.now
  let chunk := (resolve call.realPath).2
  have hchecking : call.next zl archive file =
      some ((requireFile archive file).map fun _ ↦ .locating) := by
    rw [OpenCall.next, hphase]
    rfl
  have hlocating : OpenCall.next zl archive { call with phase := .locating } file =
      some ((locate archive chunk file).map .reading) := rfl
  have hreading : ∀ last, OpenCall.next zl archive { call with phase := .reading last } file =
      some ((last.read zl archive file).map .decompressed) := fun _ ↦ rfl
  rw [decompressArchive_eq, opened_bind, hw.content]
  cases hexists : requireFile archive file with
  | error e => exact .single (.fail_setCall (by rw [hchecking, hexists]; rfl))
  | ok u =>
      have hrun : ReflTransGen (OpenStep zl archive history paths) (s.setCall i call)
          (s.setCall i { call with phase := .locating }) :=
        .single (.proceed_setCall (by rw [hchecking, hexists]; rfl))
      dsimp only
      rw [opened_bind, hw.content]
      cases hlocate : locate archive chunk file with
      | error e => exact hrun.tail (.fail_setCall (by rw [hlocating, hlocate]; rfl))
      | ok last =>
          have hrun := hrun.tail (.proceed_setCall (by rw [hlocating, hlocate]; rfl))
          dsimp only
          rw [opened, hw.content]
          cases hread : last.read zl archive file with
          | error e => exact hrun.tail (.fail_setCall (by rw [hreading, hread]; rfl))
          | ok bytes => exact hrun.tail (.proceed_setCall (by rw [hreading, hread]; rfl))

/-- What one call leaves behind when nothing else happens during it. -/
def ArchiveSystem.opened (s : ArchiveSystem) (realPath : Path) (cache : ArchiveCache)
    (result : Except Exception SharedString) : ArchiveSystem :=
  { s with cache := cache, records := ⟨realPath, s.now, s.now, result⟩ :: s.records }

theorem ArchiveSystem.finish_eq_opened {s s' : ArchiveSystem} {i : ℕ} {call : OpenCall}
    {result : Except Exception SharedString} (hidle : s.calls i = none) (hfree : s.lockedBy = none)
    (hbegun : call.begun = s.now) (hnow : s'.now = s.now) (hrecords : s'.records = s.records)
    (hcalls : ∀ j, j ≠ i → s'.calls j = s.calls j) :
    s'.finish i call result = s.opened call.realPath s'.cache result := by
  have hothers : Function.update s'.calls i none = s.calls := by
    funext j
    rcases eq_or_ne j i with rfl | hj
    · rw [Function.update_self, hidle]
    · rw [Function.update_of_ne hj, hcalls j hj]
  unfold finish ArchiveSystem.opened
  rw [hothers, hnow, hrecords, hbegun, hfree]

/-- With no step in between, a call is the `OpenFile` of the sequential model. -/
theorem run_openForReading {w : World} {s : ArchiveSystem} {i : ℕ} {path : String} {realPath : Path}
    (hw : w.At archive history s) (hpath : stripScheme path = realPath) (hmem : realPath ∈ paths)
    (hresolved : (resolve realPath).1 = archive) (hfree : s.lockedBy = none)
    (hidle : s.calls i = none) :
    match openForReading zl path (w, s.cache) with
    | .ok h (_, cache) => ∃ data, h.data = some data ∧
        ReflTransGen (OpenStep zl archive history paths) s (s.opened realPath cache (.ok data))
    | .error e (_, cache) =>
        ReflTransGen (OpenStep zl archive history paths) s
          (s.opened realPath cache (.error e)) := by
  let call : OpenCall := ⟨realPath, s.now, statFile (history s.now), .waiting⟩
  have hstart : OpenStep zl archive history paths s (s.setCall i call) :=
    .start hmem hresolved hidle
  have hcall := s.setCall_calls_self i call
  have hstat : statArchive (resolve realPath).1 w = call.stat := by
    rw [hresolved, statArchive, hw]
  have hleft : ∀ (slot : ArchiveSlot) (locked : Option ℕ) (call' : OpenCall) result,
      call'.realPath = realPath → call'.begun = s.now →
      ((({ s with lockedBy := locked } : ArchiveSystem).setCall i call').setSlot realPath
        slot).finish i call' result =
      s.opened realPath (Function.update s.cache realPath slot) result := by
    rintro slot locked call' result rfl hbegun
    exact ArchiveSystem.finish_eq_opened hidle hfree hbegun rfl rfl
      fun j hj ↦ Function.update_of_ne hj ..
  unfold openForReading
  dsimp only
  rw [hpath, hstat]
  cases hcached : (s.cache realPath).lookup call.stat with
  | some data =>
      refine ⟨data, rfl, (ReflTransGen.single hstart).tail ?_⟩
      have hhit : OpenStep zl archive history paths (s.setCall i call) _ :=
        .hit hcall rfl hfree hcached
      rwa [← hleft _ s.lockedBy call (.ok data) rfl rfl]
  | none =>
      let s' : ArchiveSystem := { s with lockedBy := some i }
      let call' : OpenCall := { call with phase := .checking }
      have hmiss : OpenStep zl archive history paths (s.setCall i call) (s'.setCall i call') := by
        have hstep : OpenStep zl archive history paths (s.setCall i call) _ :=
          .miss hcall rfl hfree hcached
        rwa [s.setCall_setCall] at hstep
      have hpair : resolve realPath = (archive, (resolve realPath).2) := hresolved ▸ rfl
      have hw' : w.At archive history s' := hw
      have hrun := ((ReflTransGen.single hstart).tail hmiss).trans (run_decompressArchive hw' rfl)
      dsimp only
      rw [hpair]
      dsimp only [call'] at hrun
      cases hdecompress : decompressArchive zl (archive, (resolve realPath).2) w with
      | error e w' =>
          have hfail : s'.finish i call' (.error (rethrown e)) =
              s.opened realPath s.cache (.error (rethrown e)) :=
            ArchiveSystem.finish_eq_opened hidle hfree rfl rfl rfl fun _ _ ↦ rfl
          rw [hdecompress] at hrun
          dsimp only at hrun
          rw [hfail] at hrun
          exact hrun
      | ok bytes w' =>
          rw [hdecompress] at hrun
          dsimp only at hrun ⊢
          refine ⟨⟨_, bytes⟩, rfl, hrun.tail ?_⟩
          rw [← hleft _ (some i) { call with phase := .decompressed bytes } _ rfl rfl]
          exact .store (s'.setCall_calls_self i _) rfl rfl

section Outcomes

variable {w w' : World} {s : ArchiveSystem} {i : ℕ} {realPath : Path}

theorem run_cached {data : SharedString} (hmem : realPath ∈ paths)
    (hresolved : (resolve realPath).1 = archive) (hfree : s.lockedBy = none)
    (hidle : s.calls i = none)
    (hcached : (s.cache realPath).lookup (statFile (history s.now)) = some data) :
    ReflTransGen (OpenStep zl archive history paths) s
      (s.opened realPath (Function.update s.cache realPath ((s.cache realPath).hold data))
        (.ok data)) := by
  let w : World := { World.empty with files := fun _ ↦ history s.now }
  have hrun := @run_openForReading zl archive history paths w s i _ realPath rfl
    (stripScheme_scheme realPath) hmem hresolved hfree hidle
  have hstat : statArchive (resolve realPath).1 w = statFile (history s.now) := rfl
  unfold openForReading at hrun
  dsimp only at hrun
  rw [stripScheme_scheme, hstat, hcached] at hrun
  obtain ⟨_, hdata, hrun⟩ := hrun
  obtain rfl := Option.some.inj hdata
  exact hrun

theorem run_decompressed {bytes : Bytes} (hw : w.At archive history s) (hmem : realPath ∈ paths)
    (hresolved : (resolve realPath).1 = archive) (hfree : s.lockedBy = none)
    (hidle : s.calls i = none)
    (hmiss : (s.cache realPath).lookup (statFile (history s.now)) = none)
    (hdecompress : decompressArchive zl (resolve realPath) w = .ok bytes w') :
    ReflTransGen (OpenStep zl archive history paths) s
      (s.opened realPath (Function.update s.cache realPath
        (((s.cache realPath).store bytes (statFile (history s.now))).2.hold
          ⟨(s.cache realPath).allocated, bytes⟩)) (.ok ⟨(s.cache realPath).allocated, bytes⟩)) := by
  have hrun := @run_openForReading zl archive history paths w s i _ realPath hw
    (stripScheme_scheme realPath) hmem hresolved hfree hidle
  have hstat : statArchive (resolve realPath).1 w = statFile (history s.now) := by
    rw [hresolved, statArchive, hw]
  unfold openForReading at hrun
  dsimp only at hrun
  rw [stripScheme_scheme, hstat, hmiss] at hrun
  dsimp only at hrun
  rw [hdecompress] at hrun
  obtain ⟨_, hdata, hrun⟩ := hrun
  obtain rfl := Option.some.inj hdata
  exact hrun

end Outcomes

end Alone

end DuckdbOpenzl
