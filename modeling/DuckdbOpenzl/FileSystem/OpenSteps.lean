import DuckdbOpenzl.FileSystem.Interleaving

/-!
# What one step of interleaved opens can do

To the calls, to a slot of the cache, and to the records; and where the bytes
come from that a call returns: located in one version of the archive and read
from the same or a later one.
-/

set_option autoImplicit false

namespace DuckdbOpenzl

open Relation Runs

/-! ## The opens of a call -/

theorem OpenCall.locating_of_next {zl : OpenZL} {archive : Path} {call : OpenCall}
    {file : Option Bytes} {last : LastRead}
    (h : call.next zl archive file = some (.ok (.reading last))) :
    locate archive (resolve call.realPath).2 file = .ok last := by
  unfold OpenCall.next OpenPhase.next at h
  split at h
  · cases hr : requireFile archive file <;> simp [hr, Except.map] at h
  · cases hl : locate archive (resolve call.realPath).2 file with
    | error e => simp [hl, Except.map] at h
    | ok last' => simpa [hl, Except.map] using h
  · rename_i last' _
    cases hr : last'.read zl archive file <;> simp [hr, Except.map] at h
  · cases h
  · cases h

theorem OpenCall.reading_of_next {zl : OpenZL} {archive : Path} {call : OpenCall}
    {file : Option Bytes} {bytes : Bytes}
    (h : call.next zl archive file = some (.ok (.decompressed bytes))) :
    ∃ last, call.phase = .reading last ∧ last.read zl archive file = .ok bytes := by
  unfold OpenCall.next OpenPhase.next at h
  split at h
  · cases hr : requireFile archive file <;> simp [hr, Except.map] at h
  · cases hl : locate archive (resolve call.realPath).2 file <;> simp [hl, Except.map] at h
  · rename_i last hphase
    refine ⟨last, hphase, ?_⟩
    cases hr : last.read zl archive file with
    | error e => simp [hr, Except.map] at h
    | ok bytes' => simpa [hr, Except.map] using h
  · cases h
  · cases h

/-- The version's own decompression. -/
def DecompressesTo (zl : OpenZL) (bytes : Bytes) (version : Option File) : Prop :=
  ∃ file, version = some file ∧ zl.decompressSerial file.content = .ok bytes

theorem eq_file_of_locate {path : Path} {file : Option Bytes} {last : LastRead}
    (h : locate path none file = .ok last) : last = .file := by
  unfold locate at h
  cases hplain : requirePlain path file with
  | error e =>
      rw [hplain] at h
      cases h
  | ok u =>
      rw [hplain] at h
      exact (Except.ok.inj h).symm

theorem decompressesTo_of_read {zl : OpenZL} {history : ℕ → Option File} {path : Path} {k : ℕ}
    {bytes : Bytes}
    (h : LastRead.file.read zl path (contentAt history k) = .ok bytes) :
    DecompressesTo zl bytes (history k) := by
  unfold LastRead.read contentAt at h
  cases hversion : history k with
  | none =>
      rw [hversion] at h
      cases h
  | some file =>
      rw [hversion] at h
      exact ⟨file, rfl, decodeFile_eq_ok_iff.mp h⟩

theorem locate_chunk_eq_ok_iff {path : Path} {i : ℕ} {file : Option Bytes} {last : LastRead} :
    locate path (some i) file = .ok last ↔
      ∃ r, chunkRange path i file = .ok r ∧ last = .frame i r := by
  cases hrange : chunkRange path i file with
  | error e => simp [locate, hrange, bind, Except.bind]
  | ok r => simp [locate, hrange, bind, Except.bind, pure, Except.pure, eq_comm]

theorem read_frame_eq_ok_iff {zl : OpenZL} {path : Path} {i : ℕ} {r : ChunkRange}
    {file : Option Bytes} {bytes : Bytes} : (LastRead.frame i r).read zl path file = .ok bytes ↔
      ∃ frame, readFrame path i r file = .ok frame ∧ zl.decompressSerial frame = .ok bytes := by
  cases hframe : readFrame path i r file with
  | error e => simp [LastRead.read, hframe, bind, Except.bind]
  | ok frame =>
      cases hdecompress : zl.decompressSerial frame <;>
        simp [LastRead.read, hframe, bind, Except.bind, decodeChunk, hdecompress]

/-! ## Live buffers -/

namespace ArchiveSlot

variable {slot : ArchiveSlot} {stat : ArchiveStat} {d data : SharedString} {bytes : Bytes}

/-- A buffer that some handle holds and the entry points to, tagged with this stat. -/
structure Live (slot : ArchiveSlot) (stat : ArchiveStat) (d : SharedString) : Prop where
  held : d ∈ slot.held
  entry : slot.entry = ⟨some d.id, stat⟩

theorem live_of_lookup (h : slot.lookup stat = some d) : slot.Live stat d := by
  unfold lookup lock at h
  split at h
  · rename_i data hdata
    obtain ⟨id, hid, hfind⟩ := Option.bind_eq_some_iff.mp hdata
    split at h
    · rename_i hstat
      obtain rfl := Option.some.inj h
      have heq : data.id = id := by simpa using List.find?_some hfind
      refine ⟨List.mem_of_find?_eq_some hfind, ?_⟩
      rw [← hstat, heq, ← hid]
    · cases h
  · cases h

theorem Live.of_hold (h : (slot.hold data).Live stat d) (hdata : data ∈ slot.held) :
    slot.Live stat d := by
  refine ⟨?_, h.entry⟩
  rcases List.mem_cons.mp h.held with rfl | hd
  · exact hdata
  · exact hd

theorem Live.of_release (h : (slot.release data).Live stat d) : slot.Live stat d :=
  ⟨List.mem_of_mem_erase h.held, h.entry⟩

/-- Every held buffer is one of the allocations made so far, and no two share one. -/
structure Allocated (slot : ArchiveSlot) : Prop where
  lt : ∀ d ∈ slot.held, d.id < slot.allocated
  unique : ∀ d ∈ slot.held, ∀ d' ∈ slot.held, d.id = d'.id → d = d'

theorem Live.lookup (h : slot.Live stat d) (hslot : slot.Allocated) :
    slot.lookup stat = some d := by
  have hlock : slot.lock = some d := by
    unfold lock
    rw [h.entry, Option.bind_some]
    cases hfind : slot.held.find? fun d' ↦ d'.id == d.id with
    | none => exact absurd (List.find?_eq_none.mp hfind d h.held) (by simp)
    | some d' =>
        have hid : d'.id = d.id := by simpa using List.find?_some hfind
        rw [hslot.unique d' (List.mem_of_find?_eq_some hfind) d h.held hid]
  rw [ArchiveSlot.lookup, hlock]
  exact if_pos (congrArg ArchiveCacheEntry.stat h.entry)

theorem Allocated.hold (h : slot.Allocated) (hd : d ∈ slot.held) : (slot.hold d).Allocated := by
  have hmem : ∀ d' ∈ (slot.hold d).held, d' ∈ slot.held := by
    intro d' hd'
    rcases List.mem_cons.mp hd' with rfl | hd'
    · exact hd
    · exact hd'
  exact ⟨fun d' hd' ↦ h.lt d' (hmem d' hd'),
    fun d₁ h₁ d₂ h₂ ↦ h.unique d₁ (hmem d₁ h₁) d₂ (hmem d₂ h₂)⟩

theorem Allocated.release (h : slot.Allocated) : (slot.release d).Allocated :=
  ⟨fun d' hd' ↦ h.lt d' (List.mem_of_mem_erase hd'),
    fun d₁ h₁ d₂ h₂ ↦ h.unique d₁ (List.mem_of_mem_erase h₁) d₂ (List.mem_of_mem_erase h₂)⟩

theorem Allocated.store {slot' : ArchiveSlot} (h : slot.Allocated)
    (hstored : slot.store bytes stat = (data, slot')) : (slot'.hold data).Allocated := by
  obtain ⟨rfl, rfl⟩ := Prod.mk.inj hstored
  constructor
  · intro d hd
    rcases List.mem_cons.mp hd with rfl | hd
    · exact Nat.lt_succ_self _
    · exact Nat.lt_succ_of_lt (h.lt d hd)
  · intro d₁ h₁ d₂ h₂ hid
    rcases List.mem_cons.mp h₁ with rfl | h₁ <;> rcases List.mem_cons.mp h₂ with rfl | h₂
    · rfl
    · exact absurd hid (h.lt d₂ h₂).ne'
    · exact absurd hid (h.lt d₁ h₁).ne
    · exact h.unique d₁ h₁ d₂ h₂ hid

/-- Behind a decompression the entry points to the new buffer and to no other. -/
theorem Live.of_store {slot' : ArchiveSlot} {tag : ArchiveStat} (hslot : slot.Allocated)
    (hstored : slot.store bytes tag = (data, slot')) (h : (slot'.hold data).Live stat d) :
    d.bytes = bytes ∧ stat = tag := by
  obtain ⟨rfl, rfl⟩ := Prod.mk.inj hstored
  obtain ⟨hid, hstat⟩ := ArchiveCacheEntry.mk.inj h.entry
  refine ⟨?_, hstat.symm⟩
  rcases List.mem_cons.mp h.held with rfl | hd
  · rfl
  · exact absurd (Option.some.inj hid) (hslot.lt d hd).ne'

end ArchiveSlot

/-! ## Steps -/

namespace ArchiveSystem

def Allocated (s : ArchiveSystem) : Prop := ∀ path, (s.cache path).Allocated

/-- Bytes that an open with this stat can be handed without reading them itself: those of a live
buffer, or those of a call that will store its buffer under this stat. -/
def Buffered (s : ArchiveSystem) (path : Path) (stat : ArchiveStat) (bytes : Bytes) : Prop :=
  (∃ d, (s.cache path).Live stat d ∧ d.bytes = bytes) ∨
    ∃ i call, s.calls i = some call ∧ call.realPath = path ∧ call.stat = stat ∧
      call.phase = .decompressed bytes

theorem setCall_calls {s : ArchiveSystem} {i j : ℕ} {call call' : OpenCall}
    (h : (s.setCall j call).calls i = some call') :
    i = j ∧ call' = call ∨ s.calls i = some call' := by
  rcases eq_or_ne i j with rfl | hij
  · rw [setCall_calls_self] at h
    exact .inl ⟨rfl, (Option.some.inj h).symm⟩
  · exact .inr ((Function.update_of_ne hij ..).symm.trans h)

theorem calls_of_finish {calls : ℕ → Option OpenCall} {i j : ℕ} {call : OpenCall}
    (h : Function.update calls j none i = some call) : calls i = some call := by
  rcases eq_or_ne i j with rfl | hij
  · cases (Function.update_self ..).symm.trans h
  · exact (Function.update_of_ne hij ..).symm.trans h

end ArchiveSystem

section Steps

variable {zl : OpenZL} {archive : Path} {history : ℕ → Option File} {paths : Set Path}
  {s s' : ArchiveSystem} {path : Path}

/-- A running call, and what it was one step before. -/
inductive CallStep (zl : OpenZL) (archive : Path) (history : ℕ → Option File) (paths : Set Path)
    (now : ℕ) : Option OpenCall → OpenCall → Prop where
  | same (call : OpenCall) : CallStep zl archive history paths now (some call) call
  | start {realPath : Path} (mem : realPath ∈ paths) (resolved : (resolve realPath).1 = archive) :
      CallStep zl archive history paths now none
        ⟨realPath, now, statFile (history now), .waiting⟩
  | miss (call : OpenCall) :
      CallStep zl archive history paths now (some call) { call with phase := .checking }
  | proceed (call : OpenCall) {phase : OpenPhase}
      (next : call.next zl archive (contentAt history now) = some (.ok phase)) :
      CallStep zl archive history paths now (some call) { call with phase := phase }

theorem CallStep.origin {now : ℕ} {before : Option OpenCall} {call : OpenCall}
    (h : CallStep zl archive history paths now before call) :
    (∃ call₀, before = some call₀ ∧ call₀.realPath = call.realPath ∧ call₀.begun = call.begun ∧
      call₀.stat = call.stat) ∨ call.begun = now ∧ call.stat = statFile (history now) := by
  cases h with
  | same call => exact .inl ⟨_, rfl, rfl, rfl, rfl⟩
  | start mem resolved => exact .inr ⟨rfl, rfl⟩
  | miss call => exact .inl ⟨_, rfl, rfl, rfl, rfl⟩
  | proceed call next => exact .inl ⟨_, rfl, rfl, rfl, rfl⟩

theorem OpenStep.callStep (hstep : OpenStep zl archive history paths s s') {i : ℕ}
    {call : OpenCall} (hcall : s'.calls i = some call) :
    CallStep zl archive history paths s.now (s.calls i) call := by
  have hsame : s.calls i = some call →
      CallStep zl archive history paths s.now (s.calls i) call := by
    intro h
    rw [h]
    exact .same call
  cases hstep with
  | change => exact hsame hcall
  | start mem resolved idle =>
      rcases ArchiveSystem.setCall_calls hcall with ⟨rfl, rfl⟩ | h
      · rw [idle]
        exact .start mem resolved
      · exact hsame h
  | hit running waiting free cached => exact hsame (ArchiveSystem.calls_of_finish hcall)
  | miss running waiting free cached =>
      rcases ArchiveSystem.setCall_calls hcall with ⟨rfl, rfl⟩ | h
      · rw [running]
        exact .miss _
      · exact hsame h
  | proceed running next =>
      rcases ArchiveSystem.setCall_calls hcall with ⟨rfl, rfl⟩ | h
      · rw [running]
        exact .proceed _ next
      · exact hsame h
  | fail running next => exact hsame (ArchiveSystem.calls_of_finish hcall)
  | store running done stored => exact hsame (ArchiveSystem.calls_of_finish hcall)
  | close held => exact hsame hcall

/-- A slot of the cache after one step. -/
inductive SlotStep (s : ArchiveSystem) (path : Path) : ArchiveSlot → Prop where
  | same : SlotStep s path (s.cache path)
  | hold {d : SharedString} (held : d ∈ (s.cache path).held) :
      SlotStep s path ((s.cache path).hold d)
  | release (d : SharedString) : SlotStep s path ((s.cache path).release d)
  | store {i : ℕ} {call : OpenCall} {bytes : Bytes} {d : SharedString} {slot : ArchiveSlot}
      (running : s.calls i = some call) (atPath : call.realPath = path)
      (done : call.phase = .decompressed bytes)
      (stored : (s.cache path).store bytes call.stat = (d, slot)) :
      SlotStep s path (slot.hold d)

theorem OpenStep.slotStep (hstep : OpenStep zl archive history paths s s') (path : Path) :
    SlotStep s path (s'.cache path) := by
  have hset : ∀ {p : Path} {slot : ArchiveSlot}, SlotStep s p slot →
      SlotStep s path (Function.update s.cache p slot path) := by
    intro p slot h
    rcases eq_or_ne path p with rfl | hne
    · rwa [Function.update_self]
    · rw [Function.update_of_ne hne]
      exact .same
  cases hstep with
  | change => exact .same
  | start mem resolved idle => exact .same
  | hit running waiting free cached =>
      exact hset (.hold (ArchiveSlot.live_of_lookup cached).held)
  | miss running waiting free cached => exact .same
  | proceed running next => exact .same
  | fail running next => exact .same
  | store running done stored => exact hset (.store running rfl done stored)
  | close held => exact hset (.release _)

theorem OpenStep.now_cases (hstep : OpenStep zl archive history paths s s') :
    s'.now = s.now ∨ s' = { s with now := s.now + 1 } := by
  cases hstep with
  | change => exact .inr rfl
  | start mem resolved idle => exact .inl rfl
  | hit running waiting free cached => exact .inl rfl
  | miss running waiting free cached => exact .inl rfl
  | proceed running next => exact .inl rfl
  | fail running next => exact .inl rfl
  | store running done stored => exact .inl rfl
  | close held => exact .inl rfl

theorem OpenStep.now_le (hstep : OpenStep zl archive history paths s s') : s.now ≤ s'.now := by
  rcases hstep.now_cases with h | rfl
  · exact h.ge
  · exact Nat.le_succ _

/-- A new reference is to a held buffer or to a fresh one with the bytes of a decompression. -/
theorem OpenStep.held (hstep : OpenStep zl archive history paths s s') {d : SharedString}
    (hd : d ∈ (s'.cache path).held) :
    d ∈ (s.cache path).held ∨ d.id = (s.cache path).allocated ∧
      ∃ i call, s.calls i = some call ∧ call.realPath = path ∧
        call.phase = .decompressed d.bytes := by
  have hslot := hstep.slotStep path
  generalize s'.cache path = slot at hslot hd
  cases hslot with
  | same => exact .inl hd
  | hold held =>
      rcases List.mem_cons.mp hd with rfl | hd
      · exact .inl held
      · exact .inl hd
  | release d' => exact .inl (List.mem_of_mem_erase hd)
  | store running atPath done stored =>
      obtain ⟨rfl, rfl⟩ := Prod.mk.inj stored
      rcases List.mem_cons.mp hd with rfl | hd
      · exact .inr ⟨rfl, _, _, running, atPath, done⟩
      · exact .inl hd

theorem OpenStep.allocated (hstep : OpenStep zl archive history paths s s') (hs : s.Allocated) :
    s'.Allocated := by
  intro path
  have hslot := hstep.slotStep path
  generalize s'.cache path = slot at hslot
  cases hslot with
  | same => exact hs path
  | hold held => exact (hs path).hold held
  | release d => exact (hs path).release
  | store running atPath done stored => exact (hs path).store stored

/-- Only the last open of a decompression brings in new bytes. -/
theorem OpenStep.buffered (hstep : OpenStep zl archive history paths s s') (hs : s.Allocated)
    {stat : ArchiveStat} {bytes : Bytes} (h : s'.Buffered path stat bytes) :
    s.Buffered path stat bytes ∨ s'.now = s.now ∧
      ∃ i call last, s.calls i = some call ∧ call.realPath = path ∧ call.stat = stat ∧
        call.phase = .reading last ∧
        last.read zl archive (contentAt history s.now) = .ok bytes := by
  rcases h with ⟨d, hlive, rfl⟩ | ⟨i, call', hcall', rfl, rfl, hphase⟩
  · have hslot := hstep.slotStep path
    generalize s'.cache path = slot at hslot hlive
    cases hslot with
    | same => exact .inl (.inl ⟨d, hlive, rfl⟩)
    | hold held => exact .inl (.inl ⟨d, hlive.of_hold held, rfl⟩)
    | release d' => exact .inl (.inl ⟨d, hlive.of_release, rfl⟩)
    | store running atPath done stored =>
        obtain ⟨rfl, rfl⟩ := hlive.of_store (hs path) stored
        exact .inl (.inr ⟨_, _, running, atPath, rfl, done⟩)
  · rcases hstep.now_cases with hnow | rfl
    · have hcall := hstep.callStep hcall'
      generalize hbefore : s.calls i = before at hcall
      cases hcall with
      | same call => exact .inl (.inr ⟨i, _, hbefore, rfl, rfl, hphase⟩)
      | start mem resolved => cases hphase
      | miss call => cases hphase
      | proceed call next =>
          obtain rfl : _ = OpenPhase.decompressed bytes := hphase
          obtain ⟨last, hreading, hread⟩ := OpenCall.reading_of_next next
          exact .inr ⟨hnow, i, call, last, hbefore, rfl, rfl, hreading, hread⟩
    · exact .inl (.inr ⟨i, call', hcall', rfl, rfl, hphase⟩)

theorem OpenStep.record (hstep : OpenStep zl archive history paths s s') {r : OpenRecord}
    (hr : r ∈ s'.records) :
    r ∈ s.records ∨ ∃ i call, s.calls i = some call ∧ r.realPath = call.realPath ∧
      r.begun = call.begun ∧ r.ended = s.now ∧
      ∀ data, r.result = .ok data → s.Buffered call.realPath call.stat data.bytes := by
  cases hstep with
  | change => exact .inl hr
  | start mem resolved idle => exact .inl hr
  | hit running waiting free cached =>
      rcases List.mem_cons.mp hr with rfl | hr
      · refine .inr ⟨_, _, running, rfl, rfl, rfl, ?_⟩
        intro data hdata
        obtain rfl := Except.ok.inj hdata
        exact .inl ⟨_, ArchiveSlot.live_of_lookup cached, rfl⟩
      · exact .inl hr
  | miss running waiting free cached => exact .inl hr
  | proceed running next => exact .inl hr
  | fail running next =>
      rcases List.mem_cons.mp hr with rfl | hr
      · exact .inr ⟨_, _, running, rfl, rfl, rfl, nofun⟩
      · exact .inl hr
  | store running done stored =>
      rcases List.mem_cons.mp hr with rfl | hr
      · obtain ⟨rfl, rfl⟩ := Prod.mk.inj stored
        refine .inr ⟨_, _, running, rfl, rfl, rfl, ?_⟩
        intro data hdata
        obtain rfl := Except.ok.inj hdata
        exact .inr ⟨_, _, running, rfl, rfl, done⟩
      · exact .inl hr
  | close held => exact .inl hr

end Steps

/-! ## Where the bytes come from -/

section Sources

variable (zl : OpenZL) (archive : Path) (history : ℕ → Option File) (paths : Set Path)

/-- Located in one version and read from the same or a later one, both between `a` and `b`. -/
def ReadBetween (chunk : Option ℕ) (a b : ℕ) (bytes : Bytes) : Prop :=
  ∃ last j k, a ≤ j ∧ j ≤ k ∧ k ≤ b ∧ locate archive chunk (contentAt history j) = .ok last ∧
    last.read zl archive (contentAt history k) = .ok bytes

structure OpenCall.Sourced (start now : ℕ) (call : OpenCall) : Prop where
  mem : call.realPath ∈ paths
  resolved : (resolve call.realPath).1 = archive
  start_le : start ≤ call.begun
  begun_le : call.begun ≤ now
  located : ∀ last, call.phase = .reading last →
    During (contentAt history) call.begun now fun file ↦
      locate archive (resolve call.realPath).2 file = .ok last
  decompressed : ∀ bytes, call.phase = .decompressed bytes →
    ReadBetween zl archive history (resolve call.realPath).2 call.begun now bytes

structure OpenRecord.Sourced (start now : ℕ) (r : OpenRecord) : Prop where
  mem : r.realPath ∈ paths
  resolved : (resolve r.realPath).1 = archive
  ended_le : r.ended ≤ now
  read : ∀ data, r.result = .ok data →
    ReadBetween zl archive history (resolve r.realPath).2 start r.ended data.bytes

/-- Since `start`, when nothing was cached. -/
structure ArchiveSystem.Sourced (start : ℕ) (s : ArchiveSystem) : Prop where
  call : ∀ i call, s.calls i = some call → call.Sourced zl archive history paths start s.now
  held : ∀ path, ∀ d ∈ (s.cache path).held,
    ReadBetween zl archive history (resolve path).2 start s.now d.bytes
  record : ∀ r ∈ s.records, r.Sourced zl archive history paths start s.now

end Sources

section Sources

variable {zl : OpenZL} {archive : Path} {history : ℕ → Option File} {paths : Set Path}
  {s s' : ArchiveSystem} {start a a' b b' : ℕ} {chunk : Option ℕ} {bytes : Bytes} {call : OpenCall}

theorem ReadBetween.mono (h : ReadBetween zl archive history chunk a b bytes) (ha : a' ≤ a)
    (hb : b ≤ b') : ReadBetween zl archive history chunk a' b' bytes := by
  obtain ⟨last, j, k, haj, hjk, hkb, hlocate, hread⟩ := h
  exact ⟨last, j, k, ha.trans haj, hjk, hkb.trans hb, hlocate, hread⟩

theorem OpenCall.Sourced.mono (h : call.Sourced zl archive history paths start a) (hab : a ≤ b) :
    call.Sourced zl archive history paths start b where
  mem := h.mem
  resolved := h.resolved
  start_le := h.start_le
  begun_le := h.begun_le.trans hab
  located last hlast := (h.located last hlast).mono le_rfl hab
  decompressed bytes hbytes := (h.decompressed bytes hbytes).mono le_rfl hab

theorem OpenCall.Sourced.readBetween {last : LastRead}
    (h : call.Sourced zl archive history paths start a) (hphase : call.phase = .reading last)
    (hread : last.read zl archive (contentAt history a) = .ok bytes) :
    ReadBetween zl archive history (resolve call.realPath).2 call.begun a bytes := by
  obtain ⟨j, hj, hja, hlocate⟩ := h.located last hphase
  exact ⟨last, j, a, hj, hja, le_rfl, hlocate, hread⟩

theorem OpenCall.Sourced.next {phase : OpenPhase}
    (h : call.Sourced zl archive history paths start a)
    (hnext : call.next zl archive (contentAt history a) = some (.ok phase)) :
    OpenCall.Sourced zl archive history paths start a { call with phase := phase } where
  mem := h.mem
  resolved := h.resolved
  start_le := h.start_le
  begun_le := h.begun_le
  located last hlast := by
    obtain rfl : phase = .reading last := hlast
    have hlocate := OpenCall.locating_of_next hnext
    exact ⟨a, h.begun_le, le_rfl, hlocate⟩
  decompressed bytes hbytes := by
    obtain rfl : phase = .decompressed bytes := hbytes
    obtain ⟨last, hphase, hread⟩ := OpenCall.reading_of_next hnext
    exact h.readBetween hphase hread

theorem CallStep.sourced {before : Option OpenCall}
    (hcall : CallStep zl archive history paths a before call) (hstart : start ≤ a)
    (hbefore : ∀ call₀, before = some call₀ → call₀.Sourced zl archive history paths start a) :
    call.Sourced zl archive history paths start a := by
  cases hcall with
  | same call => exact hbefore _ rfl
  | start mem resolved => exact ⟨mem, resolved, hstart, le_rfl, nofun, nofun⟩
  | miss call =>
      have h := hbefore _ rfl
      exact ⟨h.mem, h.resolved, h.start_le, h.begun_le, nofun, nofun⟩
  | proceed call next => exact (hbefore _ rfl).next next

theorem ArchiveSystem.Sourced.buffered {path : Path} {stat : ArchiveStat}
    (hs : s.Sourced zl archive history paths start) (h : s.Buffered path stat bytes) :
    ReadBetween zl archive history (resolve path).2 start s.now bytes := by
  rcases h with ⟨d, hlive, rfl⟩ | ⟨i, call, hcall, rfl, -, hphase⟩
  · exact hs.held path d hlive.held
  · exact ((hs.call i call hcall).decompressed bytes hphase).mono (hs.call i call hcall).start_le
      le_rfl

/-- Every step keeps the sources. -/
theorem ArchiveSystem.Sourced.step (hs : s.Sourced zl archive history paths start)
    (hstart : start ≤ s.now) (hstep : OpenStep zl archive history paths s s') :
    s'.Sourced zl archive history paths start where
  call i call hcall :=
    ((hstep.callStep hcall).sourced hstart (hs.call i)).mono hstep.now_le
  held path d hd := by
    rcases hstep.held hd with hd | ⟨-, i, call, hcall, rfl, hphase⟩
    · exact (hs.held path d hd).mono le_rfl hstep.now_le
    · exact ((hs.call i call hcall).decompressed _ hphase).mono (hs.call i call hcall).start_le
        hstep.now_le
  record r hr := by
    rcases hstep.record hr with hr | ⟨i, call, hcall, hpath, -, hended, hresult⟩
    · have h := hs.record r hr
      exact ⟨h.mem, h.resolved, h.ended_le.trans hstep.now_le, h.read⟩
    · have h := hs.call i call hcall
      constructor
      · rw [hpath]
        exact h.mem
      · rw [hpath]
        exact h.resolved
      · rw [hended]
        exact hstep.now_le
      · rw [hpath, hended]
        exact fun data hdata ↦ hs.buffered (hresult data hdata)

theorem ArchiveSystem.sourced_initial (k : ℕ) :
    ArchiveSystem.Sourced zl archive history paths k { now := k } :=
  ⟨nofun, nofun, nofun⟩

theorem ArchiveSystem.allocated_initial (k : ℕ) : ArchiveSystem.Allocated { now := k } :=
  fun _ ↦ ⟨nofun, nofun⟩

end Sources

end DuckdbOpenzl
