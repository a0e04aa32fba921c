import DuckdbOpenzl.FileSystem.StaleBuffer

/-!
# Handles on one path share one buffer

While the size and mtime of the archives do not change, an open that finds a
live handle on its path takes its buffer. The mutex is held from the miss to
the new entry, so nothing comes to life on the path in between.
-/

set_option autoImplicit false

namespace DuckdbOpenzl

open Relation Runs

section

variable (zl : OpenZL) (history : Path → ℕ → Option File) (paths : Set Path)

/-- A step of the calls on any number of archives: the call that moves is one on the archive
whose step it is. -/
inductive OpensStep : ArchiveSystem → ArchiveSystem → Prop where
  | of_archive {archive : Path} {s s' : ArchiveSystem}
      (step : OpenStep zl archive (history archive) paths s s')
      (own : ∀ i call, s.calls i = some call → s'.calls i ≠ some call →
        (resolve call.realPath).1 = archive) : OpensStep s s'

/-- The archives may change, but not in size or mtime. -/
def ConstantStats : Prop :=
  ∀ archive j k, statFile (history archive j) = statFile (history archive k)

/-- The stat of the archive behind a path, as it was at the start. -/
def statOf (path : Path) : ArchiveStat := statFile (history (resolve path).1 0)

/-- A live handle implies that the entry points to its buffer with the current tag; a call
behind a miss has the mutex, and no handle on its path is live. -/
structure Shares (s : ArchiveSystem) : Prop where
  allocated : s.Allocated
  tagged : ∀ path, ∀ d ∈ (s.cache path).held,
    (s.cache path).entry = ⟨some d.id, statOf history path⟩
  stat : ∀ i call, s.calls i = some call → call.stat = statOf history call.realPath
  locked : ∀ i call, s.calls i = some call → call.phase ≠ .waiting → s.lockedBy = some i
  alone : ∀ i call, s.calls i = some call → call.phase ≠ .waiting →
    (s.cache call.realPath).held = []

end

variable {zl : OpenZL} {archive : Path} {history : Path → ℕ → Option File} {paths : Set Path}
  {s s' : ArchiveSystem}

theorem OpenPhase.ne_waiting_of_next {path : Path} {chunk : Option ℕ} {file : Option Bytes}
    {phase : OpenPhase} {r : Except Error OpenPhase} (h : phase.next zl path chunk file = some r) :
    phase ≠ .waiting := by
  rintro rfl
  cases h

namespace Shares

/-- With the mutex free, every call still waits. -/
theorem waiting (hs : Shares history s) (hfree : s.lockedBy = none) {i : ℕ} {call : OpenCall}
    (hcall : s.calls i = some call) : call.phase = .waiting := by
  by_contra hphase
  have hlocked := hs.locked i call hcall hphase
  rw [hfree] at hlocked
  cases hlocked

theorem held_nil_of_miss (hs : Shares history s) {path : Path}
    (hmiss : (s.cache path).lookup (statOf history path) = none) : (s.cache path).held = [] := by
  by_contra hne
  obtain ⟨d, hd⟩ := List.exists_mem_of_ne_nil _ hne
  have hlive : (s.cache path).Live (statOf history path) d := ⟨hd, hs.tagged path d hd⟩
  rw [hlive.lookup (hs.allocated path)] at hmiss
  cases hmiss

theorem tagged_step (hs : Shares history s)
    (hstep : OpenStep zl archive (history archive) paths s s')
    (path : Path) : ∀ d ∈ (s'.cache path).held,
      (s'.cache path).entry = ⟨some d.id, statOf history path⟩ := by
  have hslot := hstep.slotStep path
  generalize s'.cache path = slot at hslot
  cases hslot with
  | same => exact hs.tagged path
  | hold held =>
      intro d hd
      rcases List.mem_cons.mp hd with rfl | hd
      · exact hs.tagged path d held
      · exact hs.tagged path d hd
  | release d' => exact fun d hd ↦ hs.tagged path d (List.mem_of_mem_erase hd)
  | store running atPath done stored =>
      obtain ⟨rfl, rfl⟩ := Prod.mk.inj stored
      have hnil := hs.alone _ _ running (by rw [done]; nofun)
      rw [atPath] at hnil
      intro d hd
      rcases List.mem_cons.mp hd with rfl | hd
      · rw [← atPath, ← hs.stat _ _ running]
        rfl
      · have hold : d ∈ (s.cache path).held := hd
        rw [hnil] at hold
        cases hold

theorem stat_step (hstats : ConstantStats history) (hs : Shares history s)
    (hstep : OpenStep zl archive (history archive) paths s s') {i : ℕ} {call : OpenCall}
    (hcall : s'.calls i = some call) : call.stat = statOf history call.realPath := by
  have hbefore := hstep.callStep hcall
  generalize hcalls : s.calls i = before at hbefore
  cases hbefore with
  | same call => exact hs.stat i _ hcalls
  | start mem resolved =>
      rw [statOf, resolved]
      exact hstats archive s.now 0
  | miss call => exact hs.stat i call hcalls
  | proceed call next => exact hs.stat i call hcalls

/-- What a step keeps of the calls behind a miss. -/
theorem behind_step (hs : Shares history s)
    (hstep : OpenStep zl archive (history archive) paths s s') {i : ℕ} {call : OpenCall}
    (hcall : s'.calls i = some call) (hphase : call.phase ≠ .waiting) :
    s'.lockedBy = some i ∧ (s'.cache call.realPath).held = [] := by
  have hkept : ∀ {j : ℕ}, s.lockedBy = some j → ∀ {calls : ℕ → Option OpenCall},
      Function.update calls j none i = some call → calls = s.calls → False := by
    rintro j hj calls hupdate rfl
    have hlocked := hs.locked i call (ArchiveSystem.calls_of_finish hupdate) hphase
    obtain rfl := Option.some.inj (hj.symm.trans hlocked)
    cases (Function.update_self ..).symm.trans hupdate
  cases hstep with
  | change => exact ⟨hs.locked i call hcall hphase, hs.alone i call hcall hphase⟩
  | start mem resolved idle =>
      rcases ArchiveSystem.setCall_calls hcall with ⟨rfl, rfl⟩ | hcall
      · exact absurd rfl hphase
      · exact ⟨hs.locked i call hcall hphase, hs.alone i call hcall hphase⟩
  | hit running waiting free cached =>
      exact absurd (hs.waiting free (ArchiveSystem.calls_of_finish hcall)) hphase
  | miss running waiting free cached =>
      rcases ArchiveSystem.setCall_calls hcall with ⟨rfl, rfl⟩ | hcall
      · rw [hs.stat _ _ running] at cached
        exact ⟨rfl, hs.held_nil_of_miss cached⟩
      · exact absurd (hs.waiting free hcall) hphase
  | proceed running next =>
      rcases ArchiveSystem.setCall_calls hcall with ⟨rfl, rfl⟩ | hcall
      · have hbehind := OpenPhase.ne_waiting_of_next next
        have hnil := hs.alone _ _ running hbehind
        exact ⟨hs.locked _ _ running hbehind, hnil⟩
      · exact ⟨hs.locked i call hcall hphase, hs.alone i call hcall hphase⟩
  | fail running next =>
      have hlocked := hs.locked _ _ running (OpenPhase.ne_waiting_of_next next)
      exact (hkept hlocked hcall rfl).elim
  | store running done stored =>
      have hlocked := hs.locked _ _ running (by rw [done]; nofun)
      exact (hkept hlocked hcall rfl).elim
  | close held =>
      have hnil := hs.alone i call hcall hphase
      refine ⟨hs.locked i call hcall hphase, ?_⟩
      rename_i path d
      rcases eq_or_ne call.realPath path with rfl | hne
      · rw [hnil] at held
        cases held
      · exact (congrArg ArchiveSlot.held (Function.update_of_ne hne ..)).trans hnil

theorem step (hstats : ConstantStats history) (hs : Shares history s)
    (hstep : OpensStep zl history paths s s') : Shares history s' := by
  obtain ⟨hstep, -⟩ := hstep
  exact ⟨hstep.allocated hs.allocated, hs.tagged_step hstep,
    fun i call hcall ↦ hs.stat_step hstats hstep hcall,
    fun i call hcall hphase ↦ (hs.behind_step hstep hcall hphase).1,
    fun i call hcall hphase ↦ (hs.behind_step hstep hcall hphase).2⟩

theorem initial (k : ℕ) : Shares history { now := k } :=
  ⟨ArchiveSystem.allocated_initial k, nofun, nofun, nofun, nofun⟩

end Shares

/-- The calls on one archive are calls on any number of archives. -/
theorem opensStep_of_archive {history : ℕ → Option File} {k : ℕ}
    (hrun : ReflTransGen (OpenStep zl archive history paths) { now := k } s) :
    ReflTransGen (OpensStep zl (fun _ ↦ history) paths) { now := k } s ∧
      ∀ i call, s.calls i = some call → (resolve call.realPath).1 = archive := by
  induction hrun with
  | refl => exact ⟨.refl, nofun⟩
  | tail _ hstep ih =>
      obtain ⟨hrun, hown⟩ := ih
      refine ⟨hrun.tail ⟨hstep, fun i call hcall _ ↦ hown i call hcall⟩, ?_⟩
      intro i call hcall
      have hbefore := hstep.callStep hcall
      generalize hcalls : ArchiveSystem.calls _ i = before at hbefore
      cases hbefore with
      | same call => exact hown i _ hcalls
      | start mem resolved => exact resolved
      | miss call => exact hown i call hcalls
      | proceed call next => exact hown i call hcalls

/-- In every reachable state two live handles on one path hold the same buffer object, and no
handle is live on a path that a call is decompressing. -/
theorem handles_share_buffer (hstats : ConstantStats history) {k : ℕ}
    (hrun : ReflTransGen (OpensStep zl history paths) { now := k } s) :
    (∀ path, ∀ d ∈ (s.cache path).held, ∀ d' ∈ (s.cache path).held, d = d') ∧
      ∀ i call, s.calls i = some call → call.phase ≠ .waiting →
        (s.cache call.realPath).held = [] := by
  have hs : Shares history s :=
    invariant (fun _ _ hs hstep ↦ hs.step hstats hstep) (Shares.initial k) hrun
  refine ⟨?_, hs.alone⟩
  intro path d hd d' hd'
  have hentry := (hs.tagged path d hd).symm.trans (hs.tagged path d' hd')
  exact (hs.allocated path).unique d hd d' hd'
    (Option.some.inj (ArchiveCacheEntry.mk.inj hentry).1)

/-- A second open of the one-byte archive takes the buffer of the first. -/
theorem handles_share_buffer_twice :
    ConstantStats (fun _ ↦ numbered fun _ ↦ 0) ∧ ∃ s : ArchiveSystem,
      ReflTransGen (OpensStep .stored (fun _ ↦ numbered fun _ ↦ 0) Set.univ) { now := 0 } s ∧
      (s.cache "a").held = [⟨0, [0]⟩, ⟨0, [0]⟩] ∧
      (∀ path, ∀ d ∈ (s.cache path).held, ∀ d' ∈ (s.cache path).held, d = d') ∧
      ∀ i call, s.calls i = some call → call.phase ≠ .waiting →
        (s.cache call.realPath).held = [] := by
  have hstats : ConstantStats fun _ ↦ numbered fun _ ↦ 0 := fun _ _ _ ↦ rfl
  have hcached : ((openedOnce fun _ ↦ 0).cache "a").lookup (statFile (numbered (fun _ ↦ 0) 0)) =
      some ⟨0, [0]⟩ := by
    rw [lookup_openedOnce]
    rfl
  have hresolved : (resolve "a").1 = "a" := by rw [resolve_of_none splitChunkSuffix_a]
  have hidle : (openedOnce fun _ ↦ 0).calls 0 = none := rfl
  have hsecond : ReflTransGen (OpenStep .stored "a" (numbered fun _ ↦ 0) Set.univ)
      (openedOnce fun _ ↦ 0) _ := run_cached (Set.mem_univ "a") hresolved rfl hidle hcached
  have hrun := opensStep_of_archive ((run_openedOnce fun _ ↦ 0).trans hsecond)
  refine ⟨hstats, _, hrun.1, ?_, handles_share_buffer hstats hrun.1⟩
  simp [ArchiveSystem.opened, openedOnce, ArchiveSlot.hold]

end DuckdbOpenzl
