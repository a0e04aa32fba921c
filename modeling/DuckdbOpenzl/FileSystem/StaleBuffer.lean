import DuckdbOpenzl.FileSystem.ArchivePaths
import DuckdbOpenzl.FileSystem.OpenSteps

/-!
# When a shared buffer is stale

An entry of the cache is used while the archive has the size and mtime it was
made at, which is all a call knows of the archive when it enters the mutex.
So an archive may not change to a size and mtime under which other bytes are
still cached, or about to be.
-/

set_option autoImplicit false

namespace DuckdbOpenzl

open Relation Runs

section Changes

variable (zl : OpenZL) (archive : Path) (history : ℕ → Option File) (paths : Set Path)

/-- Whatever is buffered under the size and mtime of the next version (both -1 when the archive
is removed) is that version's decompression. -/
def SafeChange (s : ArchiveSystem) : Prop :=
  ∀ bytes, s.Buffered archive (statFile (history (s.now + 1))) bytes →
    DecompressesTo zl bytes (history (s.now + 1))

structure SafeStep (s s' : ArchiveSystem) : Prop where
  step : OpenStep zl archive history paths s s'
  safe : s'.now ≠ s.now → SafeChange zl archive history s

/-- An open of the whole archive with the present stat is served the present version, and one that
is running a version since it began. -/
structure ArchiveSystem.Fresh (s : ArchiveSystem) : Prop where
  current : ∀ bytes, s.Buffered archive (statFile (history s.now)) bytes →
    DecompressesTo zl bytes (history s.now)
  running : ∀ i call, s.calls i = some call → call.realPath = archive →
    ∀ bytes, s.Buffered archive call.stat bytes →
      During history call.begun s.now (DecompressesTo zl bytes)
  record : ∀ r ∈ s.records, r.realPath = archive → ∀ data, r.result = .ok data →
    During history r.begun r.ended (DecompressesTo zl data.bytes)

end Changes

variable {zl : OpenZL} {archive : Path} {history : ℕ → Option File} {paths : Set Path}
  {s s' : ArchiveSystem}

/-- What a step adds to the buffers of the whole archive is read from the present version. -/
theorem OpenStep.buffered_archive (hstep : OpenStep zl archive history paths s s')
    (hp : splitChunkSuffix archive = none) (hs : s.Sourced zl archive history paths 0)
    (hallocated : s.Allocated) {stat : ArchiveStat} {bytes : Bytes}
    (h : s'.Buffered archive stat bytes) :
    s.Buffered archive stat bytes ∨ s'.now = s.now ∧ DecompressesTo zl bytes (history s.now) := by
  rcases hstep.buffered hallocated h with
    h | ⟨hnow, i, call, last, hcall, rfl, -, hphase, hread⟩
  · exact .inl h
  · obtain ⟨j, -, -, hlocate⟩ := (hs.call i call hcall).located last hphase
    rw [resolve_of_none hp] at hlocate
    obtain rfl := eq_file_of_locate hlocate
    exact .inr ⟨hnow, decompressesTo_of_read hread⟩

/-! ## Safe changes -/

theorem ArchiveSystem.Fresh.step (hfresh : s.Fresh zl archive history)
    (hp : splitChunkSuffix archive = none) (hs : s.Sourced zl archive history paths 0)
    (hallocated : s.Allocated) (hstep : SafeStep zl archive history paths s s') :
    s'.Fresh zl archive history := by
  have hbuffered : ∀ stat bytes, s'.Buffered archive stat bytes →
      s.Buffered archive stat bytes ∨ s'.now = s.now ∧ DecompressesTo zl bytes (history s.now) :=
    fun _ _ ↦ hstep.step.buffered_archive hp hs hallocated
  constructor
  · intro bytes h
    rcases hstep.step.now_cases with hnow | hchange
    · rw [hnow] at h ⊢
      rcases hbuffered _ _ h with h | ⟨-, hread⟩
      · exact hfresh.current bytes h
      · exact hread
    · have hsafe := hstep.safe (by rw [hchange]; exact Nat.succ_ne_self _)
      rw [hchange] at h ⊢
      exact hsafe bytes h
  · intro i call hcall hpath bytes h
    rcases hbuffered _ _ h with h | ⟨hnow, hread⟩
    · rcases (hstep.step.callStep hcall).origin with
        ⟨call₀, hcall₀, hpath₀, hbegun, hstat⟩ | ⟨hbegun, hstat⟩
      · rw [← hstat] at h
        rw [← hbegun]
        exact (hfresh.running i call₀ hcall₀ (hpath₀.trans hpath) bytes h).mono le_rfl
          hstep.step.now_le
      · rw [hstat] at h
        exact ⟨s.now, hbegun.le, hstep.step.now_le, hfresh.current bytes h⟩
    · have hbegun := ((hs.step (Nat.zero_le _) hstep.step).call i call hcall).begun_le
      exact ⟨s.now, hnow ▸ hbegun, hnow.ge, hread⟩
  · intro r hr hpath data hdata
    rcases hstep.step.record hr with hr | ⟨i, call, hcall, hpath', hbegun, hended, hresult⟩
    · exact hfresh.record r hr hpath data hdata
    · rw [hbegun, hended]
      have hpath' : call.realPath = archive := hpath'.symm.trans hpath
      have h := hresult data hdata
      rw [hpath'] at h
      exact hfresh.running i call hcall hpath' _ h

/-- What a run of safe changes keeps. -/
structure ArchiveSystem.Served (zl : OpenZL) (archive : Path) (history : ℕ → Option File)
    (paths : Set Path) (s : ArchiveSystem) : Prop where
  sourced : s.Sourced zl archive history paths 0
  allocated : s.Allocated
  fresh : s.Fresh zl archive history

theorem ArchiveSystem.served_initial : ArchiveSystem.Served zl archive history paths {} where
  sourced := sourced_initial 0
  allocated := allocated_initial 0
  fresh := by
    have hnone : ∀ stat bytes, ¬ArchiveSystem.Buffered {} archive stat bytes := by
      rintro stat bytes (⟨d, hlive, -⟩ | ⟨i, call, hcall, -⟩)
      · cases hlive.held
      · cases hcall
    exact ⟨fun bytes h ↦ absurd h (hnone _ bytes), nofun, nofun⟩

theorem ArchiveSystem.Served.step (hp : splitChunkSuffix archive = none)
    (hs : s.Served zl archive history paths) (hstep : SafeStep zl archive history paths s s') :
    s'.Served zl archive history paths where
  sourced := hs.sourced.step (Nat.zero_le _) hstep.step
  allocated := hstep.step.allocated hs.allocated
  fresh := hs.fresh.step hp hs.sourced hs.allocated hstep

/-- In every run whose changes are all safe, an open of the whole archive returns the decompression
of a version that was there during the call. -/
theorem returns_version_of_safe_changes (hp : splitChunkSuffix archive = none)
    (hrun : ReflTransGen (SafeStep zl archive history paths) {} s) :
    ∀ r ∈ s.records, r.realPath = archive → ∀ data, r.result = .ok data →
      During history r.begun r.ended (DecompressesTo zl data.bytes) := by
  have hserved : s.Served zl archive history paths :=
    Runs.invariant (fun _ _ hs hstep ↦ hs.step hp hstep) ArchiveSystem.served_initial hrun
  exact hserved.fresh.record

theorem safe_of_now_eq (hrun : ReflTransGen (OpenStep zl archive history paths) s s')
    (hnow : s'.now = s.now) : ReflTransGen (SafeStep zl archive history paths) s s' := by
  have hle : ∀ {t : ArchiveSystem}, ReflTransGen (OpenStep zl archive history paths) s t →
      s.now ≤ t.now := by
    intro t ht
    induction ht with
    | refl => exact le_rfl
    | tail _ hstep ih => exact ih.trans hstep.now_le
  induction hrun with
  | refl => exact .refl
  | tail hrun hstep ih =>
      have hsame := le_antisymm (hstep.now_le.trans hnow.le) (hle hrun)
      exact (ih hsame).tail ⟨hstep, fun h ↦ absurd (hnow.trans hsame.symm) h⟩

/-! ## Unsafe changes -/

/-- An old buffer that is found under the size and mtime of the next version is handed to the next
open. -/
theorem stale_of_lookup {i : ℕ} {data : SharedString} (hp : splitChunkSuffix archive = none)
    (hmem : archive ∈ paths) (hfree : s.lockedBy = none) (hidle : s.calls i = none)
    (hcached : (s.cache archive).lookup (statFile (history (s.now + 1))) = some data)
    (hstale : ¬DecompressesTo zl data.bytes (history (s.now + 1))) :
    ∃ s', ReflTransGen (OpenStep zl archive history paths) s s' ∧ ∃ r ∈ s'.records,
      r.realPath = archive ∧ r.result = .ok data ∧
        ¬During history r.begun r.ended (DecompressesTo zl data.bytes) := by
  let changed : ArchiveSystem := { s with now := s.now + 1 }
  have hresolved : (resolve archive).1 = archive := by rw [resolve_of_none hp]
  have hchange : OpenStep zl archive history paths s changed := .change
  have hopen : ReflTransGen (OpenStep zl archive history paths) changed _ :=
    run_cached hmem hresolved hfree hidle hcached
  refine ⟨_, hopen.head hchange, _, List.mem_cons_self, rfl, rfl, ?_⟩
  rintro ⟨k, hk, hk', hversion⟩
  rw [le_antisymm hk' hk] at hversion
  exact hstale hversion

/-- Every change that is not safe can make the next open return a stale buffer. -/
theorem stale_of_not_safe {i : ℕ} (hp : splitChunkSuffix archive = none) (hmem : archive ∈ paths)
    (hs : s.Allocated) (hfree : s.lockedBy = none) (hidle : s.calls i = none)
    (hnot : ¬SafeChange zl archive history s) :
    ∃ s', ReflTransGen (OpenStep zl archive history paths) s s' ∧ ∃ r ∈ s'.records, ∃ data,
      r.realPath = archive ∧ r.result = .ok data ∧
        ¬During history r.begun r.ended (DecompressesTo zl data.bytes) := by
  unfold SafeChange at hnot
  push Not at hnot
  obtain ⟨bytes, hbuffered, hstale⟩ := hnot
  rcases hbuffered with ⟨d, hlive, rfl⟩ | ⟨j, call, hcall, rfl, hstat, hdone⟩
  · obtain ⟨s', hrun, r, hr, hpath, hresult, hold⟩ :=
      stale_of_lookup hp hmem hfree hidle (hlive.lookup (hs archive)) hstale
    exact ⟨s', hrun, r, hr, d, hpath, hresult, hold⟩
  · -- the running call stores its buffer before the change
    let slot := s.cache call.realPath
    let data : SharedString := ⟨slot.allocated, bytes⟩
    let stored := (s.setSlot call.realPath ((slot.store bytes call.stat).2.hold data)).finish j call
      (.ok data)
    have hstore : OpenStep zl call.realPath history paths s stored := .store hcall hdone rfl
    have hslot : stored.cache call.realPath = (slot.store bytes call.stat).2.hold data :=
      Function.update_self ..
    have hlive : (stored.cache call.realPath).Live call.stat data := by
      rw [hslot]
      exact ⟨List.mem_cons_self, rfl⟩
    have hcached := hlive.lookup (hstore.allocated hs call.realPath)
    rw [hstat] at hcached
    obtain ⟨s', hrun, r, hr, hpath, hresult, hold⟩ :=
      stale_of_lookup hp hmem rfl (Function.update_self ..) hcached hstale
    exact ⟨s', hrun.head hstore, r, hr, data, hpath, hresult, hold⟩

/-! ## One-byte archives -/

/-- Versions of one size that hold their number. -/
def numbered (mtime : ℕ → ℤ) (k : ℕ) : Option File := some ⟨[0, UInt8.ofNat k], mtime k⟩

theorem decompressesTo_numbered {mtime : ℕ → ℤ} {bytes : Bytes} {k : ℕ} :
    DecompressesTo .stored bytes (numbered mtime k) ↔ bytes = [UInt8.ofNat k] := by
  constructor
  · rintro ⟨file, hfile, hbytes⟩
    obtain rfl := Option.some.inj hfile
    exact (Except.ok.inj hbytes).symm
  · rintro rfl
    exact ⟨_, rfl, rfl⟩

theorem splitChunkSuffix_a : splitChunkSuffix "a" = none := by decide +kernel

theorem run_numbered {mtime : ℕ → ℤ} {s : ArchiveSystem} (hfree : s.lockedBy = none)
    (hidle : s.calls 0 = none) (hmiss : (s.cache "a").lookup ⟨2, mtime s.now⟩ = none) :
    ReflTransGen (OpenStep .stored "a" (numbered mtime) Set.univ) s
      (s.opened "a" (Function.update s.cache "a"
        (((s.cache "a").store [UInt8.ofNat s.now] ⟨2, mtime s.now⟩).2.hold
          ⟨(s.cache "a").allocated, [UInt8.ofNat s.now]⟩))
        (.ok ⟨(s.cache "a").allocated, [UInt8.ofNat s.now]⟩)) := by
  let w : World := { World.empty with files := fun _ ↦ numbered mtime s.now }
  have hw : w.At "a" (numbered mtime) s := rfl
  have hholds : HoldsFrame "a" [0, UInt8.ofNat s.now] w := by
    refine ⟨rfl, ?_⟩
    intro h
    exact absurd (List.cons.inj h).1 (by decide)
  have hresolve := resolve_of_none splitChunkSuffix_a
  have hdecompress : decompressArchive .stored (resolve "a") w = .ok [UInt8.ofNat s.now] w := by
    rw [hresolve]
    exact hholds.decompressToBuffer
  exact run_decompressed hw (Set.mem_univ _) (by rw [hresolve]) hfree hidle hmiss hdecompress

/-- One handle is open on version 0. -/
def openedOnce (mtime : ℕ → ℤ) : ArchiveSystem :=
  ArchiveSystem.opened {} "a"
    (Function.update (fun _ ↦ {}) "a" ⟨⟨some 0, ⟨2, mtime 0⟩⟩, [⟨0, [0]⟩], 1⟩) (.ok ⟨0, [0]⟩)

theorem openedOnce_cache (mtime : ℕ → ℤ) :
    (openedOnce mtime).cache "a" = ⟨⟨some 0, ⟨2, mtime 0⟩⟩, [⟨0, [0]⟩], 1⟩ := by
  simp [openedOnce, ArchiveSystem.opened]

theorem run_openedOnce (mtime : ℕ → ℤ) :
    ReflTransGen (OpenStep .stored "a" (numbered mtime) Set.univ) {} (openedOnce mtime) :=
  run_numbered rfl rfl rfl

theorem lookup_openedOnce {mtime : ℕ → ℤ} (stat : ArchiveStat) :
    ((openedOnce mtime).cache "a").lookup stat =
      if (⟨2, mtime 0⟩ : ArchiveStat) = stat then some ⟨0, [0]⟩ else none := by
  rw [openedOnce_cache]
  rfl

/-- Two archives written within a second: an open of the second is handed the first. -/
theorem stale_buffer_in_same_second : ∃ s,
    ReflTransGen (OpenStep .stored "a" (numbered fun _ ↦ 0) Set.univ) {} s ∧
      ∃ r ∈ s.records, ∃ data, r.realPath = "a" ∧ r.result = .ok data ∧
        ¬During (numbered fun _ ↦ 0) r.begun r.ended (DecompressesTo .stored data.bytes) := by
  have hcached : ((openedOnce fun _ ↦ 0).cache "a").lookup (statFile (numbered (fun _ ↦ 0) 1)) =
      some ⟨0, [0]⟩ := by
    rw [lookup_openedOnce]
    rfl
  have hstale : ¬DecompressesTo .stored [0] (numbered (fun _ ↦ 0) 1) := by
    rw [decompressesTo_numbered]
    decide
  have hidle : (openedOnce fun _ ↦ 0).calls 0 = none := rfl
  obtain ⟨s, hrun, r, hr, hpath, hresult, hold⟩ := stale_of_lookup splitChunkSuffix_a
    (Set.mem_univ "a") rfl hidle hcached hstale
  exact ⟨s, (run_openedOnce _).trans hrun, r, hr, _, hpath, hresult, hold⟩

/-- With a new mtime the second open is returned the second archive. -/
theorem returns_version_of_new_mtime : ∃ s : ArchiveSystem,
    ReflTransGen (SafeStep .stored "a" (numbered Nat.cast) Set.univ) {} s ∧
    (∃ r ∈ s.records, r.realPath = "a" ∧ r.begun = 1 ∧ ∃ data, r.result = .ok data) ∧
      ∀ r ∈ s.records, r.realPath = "a" → ∀ data, r.result = .ok data →
        During (numbered Nat.cast) r.begun r.ended (DecompressesTo .stored data.bytes) := by
  let first := openedOnce Nat.cast
  let changed : ArchiveSystem := { first with now := 1 }
  have hsafe : SafeChange .stored "a" (numbered Nat.cast) first := by
    rintro bytes (⟨d, hlive, -⟩ | ⟨i, call, hcall, -⟩)
    · have hentry := hlive.entry
      rw [openedOnce_cache] at hentry
      cases (ArchiveCacheEntry.mk.inj hentry).2
    · cases hcall
  have hchange : SafeStep .stored "a" (numbered Nat.cast) Set.univ first changed :=
    ⟨.change, fun _ ↦ hsafe⟩
  have hmiss : (changed.cache "a").lookup ⟨2, (1 : ℕ)⟩ = none := by
    rw [lookup_openedOnce]
    rfl
  have hfirst := safe_of_now_eq (run_openedOnce Nat.cast) rfl
  have hsecond := safe_of_now_eq (run_numbered (s := changed) rfl rfl hmiss) rfl
  have hrun := (hfirst.tail hchange).trans hsecond
  refine ⟨_, hrun, ?_, returns_version_of_safe_changes splitChunkSuffix_a hrun⟩
  exact ⟨_, List.mem_cons_self, rfl, rfl, _, rfl⟩

end DuckdbOpenzl
