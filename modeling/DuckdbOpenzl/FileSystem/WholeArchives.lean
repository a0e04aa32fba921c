import DuckdbOpenzl.FileSystem.CloseSteps

/-!
# Readers see whole archives

As long as no two calls have one temporary file at a time, no temporary file
is a target itself, and no flush is lost. A file that a target led to once is
never written again.
-/

set_option autoImplicit false

namespace DuckdbOpenzl

open FileContent NamedFiles Relation Runs

section

variable (zl : OpenZL) (targets : Set Path) (initial : Path → Option Bytes)

/-- The content a target had at the start, or the complete archive of a `Close` that returned. -/
def CloseSystem.Whole (s : CloseSystem) (path : Path) (bytes : Bytes) : Prop :=
  initial path = some bytes ∨ ∃ i call, s.calls i = some call ∧ call.phase = .done (.ok ()) ∧
    call.handle.realPath = path ∧ call.Produces zl bytes

/-- A call opens its temporary file only while no other call has it and it is not a target, and
the flush of the stream's destructor brings the rest of the frame into the file. -/
structure ExclusiveStep (s s' : CloseSystem) : Prop where
  step : CloseStep zl targets s s'
  alone : ∀ i call call', s.calls i = some call → s'.calls i = some call' → ¬call.Holds →
    call'.Holds → call.tmpPath ∉ targets ∧
      ∀ j other, s.calls j = some other → other.Holds → call.tmpPath ≠ other.tmpPath
  kept : ∀ i call call' f, s.calls i = some call → s'.calls i = some call' →
    call.phase = .streaming .flushing f → call'.phase = .moving → f.frame.length ≤ f.stored

/-- Nobody writes to the file any more, and no name but a target leads to it. -/
structure CloseSystem.Settled (s : CloseSystem) (file : FileId Path) : Prop where
  known : s.disk.Known file
  names : ∀ name, s.disk.names name = some file → name ∈ targets
  unwritten : ∀ i call, s.calls i = some call → ¬call.Writes file

/-- The call's temporary file, open under its stream. -/
structure CloseSystem.Owned (s : CloseSystem) (call : CloseCall) (file : FileId Path) : Prop where
  known : s.disk.Known file
  names : ∀ name, s.disk.names name = some file → name = call.tmpPath
  file : ∀ other, s.disk.names call.tmpPath = some other → other = file

/-- What the call has of its archive on the disk. -/
structure CloseSystem.Progress (s : CloseSystem) (call : CloseCall) : Prop where
  streaming : ∀ stage f, call.phase = .streaming stage f →
    s.disk.contents f.file = f.frame.take f.stored ∧ f.stored ≤ f.frame.length ∧
      call.Produces zl f.frame
  moving : call.phase = .moving → ∀ bytes, s.disk.content call.tmpPath = some bytes →
    call.Produces zl bytes

structure CloseSystem.Apart (call other : CloseCall) : Prop where
  tmpPath : call.Holds → other.Holds → call.tmpPath ≠ other.tmpPath
  file : ∀ file, call.Writes file → ¬other.Writes file

structure CloseSystem.Sound (s : CloseSystem) : Prop where
  distinct : s.disk.Distinct
  target : ∀ i call, s.calls i = some call → call.handle.realPath ∈ targets
  hidden : ∀ i call, s.calls i = some call → call.Holds → call.tmpPath ∉ targets
  apart : ∀ i j call other, i ≠ j → s.calls i = some call → s.calls j = some other →
    Apart call other
  owned : ∀ i call file, s.calls i = some call → call.Writes file → s.Owned call file
  progress : ∀ i call, s.calls i = some call → s.Progress zl call
  settled : ∀ path ∈ targets, ∀ file, s.disk.names path = some file →
    s.Settled targets file ∧ s.Whole zl initial path (s.disk.contents file)
  reader : ∀ j r, s.readers j = some r → s.Settled targets r.file ∧
    s.Whole zl initial r.path (s.disk.contents r.file) ∧ r.seen <+: s.disk.contents r.file

end

variable {zl : OpenZL} {targets : Set Path} {initial : Path → Option Bytes} {s s' : CloseSystem}
  {i j : ℕ} {call other : CloseCall} {disk : Disk Path UInt8} {phase : ClosePhase}
  {file : FileId Path}

namespace CloseSystem

@[simp] theorem setCall_self (s : CloseSystem) (i : ℕ) (call : CloseCall) :
    (s.setCall i call).calls i = some call :=
  Function.update_self ..

theorem setCall_cases (h : (s.setCall i call).calls j = some other) :
    j = i ∧ other = call ∨ j ≠ i ∧ s.calls j = some other := by
  rcases eq_or_ne j i with rfl | hne
  · rw [setCall_self] at h
    exact .inl ⟨rfl, (Option.some.inj h).symm⟩
  · exact .inr ⟨hne, (Function.update_of_ne hne ..).symm.trans h⟩

theorem Apart.symm (h : Apart call other) : Apart other call :=
  ⟨fun ho hc heq ↦ h.tmpPath hc ho heq.symm, fun file ho hc ↦ h.file file hc ho⟩

/-- A move of an exclusive step. -/
structure ExclusiveMove (zl : OpenZL) (targets : Set Path) (s : CloseSystem) (i : ℕ)
    (call : CloseCall) (disk : Disk Path UInt8) (phase : ClosePhase) : Prop where
  running : s.calls i = some call
  move : CloseMove zl call s.disk disk phase
  alone : ¬call.Holds → ({ call with phase := phase } : CloseCall).Holds →
    call.tmpPath ∉ targets ∧
      ∀ j other, s.calls j = some other → other.Holds → call.tmpPath ≠ other.tmpPath
  kept : ∀ f, call.phase = .streaming .flushing f → phase = .moving → f.frame.length ≤ f.stored

namespace ExclusiveMove

variable (h : ExclusiveMove zl targets s i call disk phase) (hs : s.Sound zl targets initial)
include h hs

theorem hidden (hholds : ({ call with phase := phase } : CloseCall).Holds) :
    call.tmpPath ∉ targets := by
  by_cases hbefore : call.Holds
  · exact hs.hidden i call h.running hbefore
  · exact (h.alone hbefore hholds).1

theorem apart (hne : j ≠ i) (hother : s.calls j = some other) :
    Apart { call with phase := phase } other := by
  have hapart := hs.apart i j call other hne.symm h.running hother
  constructor
  · intro hholds hholds'
    by_cases hbefore : call.Holds
    · exact hapart.tmpPath hbefore hholds'
    · exact (h.alone hbefore hholds).2 j other hother hholds'
  · intro file hwrites hwrites'
    have howned := hs.owned j other file hother hwrites'
    rcases h.move.writes hwrites with hbefore | ⟨hbefore, hbehind⟩
    · exact hapart.file file hbefore hwrites'
    · exact (h.alone hbefore hwrites.holds).2 j other hother hwrites'.holds
        (howned.names _ (hbehind howned.known))

/-- A name of another call's file leads where it led before. -/
theorem names_other {name : Path} (hne : j ≠ i) (hother : s.calls j = some other)
    (hholds : other.Holds) (hname : disk.names name = some file)
    (hown : name = other.tmpPath ∨ other.Writes file) : s.disk.names name = some file := by
  have hapart := h.apart hs hne hother
  rcases h.move.names hname with hsame | ⟨rfl, hwrites⟩ | ⟨rfl, htmp, hmoving, -⟩
  · exact hsame
  · rcases hown with htmp | hwrites'
    · exact absurd htmp (hapart.tmpPath hwrites.holds hholds)
    · exact absurd hwrites' (hapart.file file hwrites)
  · rcases hown with htarget | hwrites'
    · have hhidden := hs.hidden j other hother hholds
      rw [← htarget] at hhidden
      exact absurd (hs.target i call h.running) hhidden
    · have hsame := (hs.owned j other file hother hwrites').names _ htmp
      exact absurd hsame ((hs.apart i j call other hne.symm h.running hother).tmpPath
        (.inr hmoving) hholds)

theorem owned_other (hne : j ≠ i) (hother : s.calls j = some other) (hwrites : other.Writes file) :
    Owned { s with disk := disk } other file := by
  have howned := hs.owned j other file hother hwrites
  refine ⟨h.move.known howned.known, ?_, ?_⟩
  · intro name hname
    exact howned.names name (h.names_other hs hne hother hwrites.holds hname (.inr hwrites))
  · intro file' hname
    exact howned.file file' (h.names_other hs hne hother hwrites.holds hname (.inl rfl))

theorem owned_self (hwrites : ({ call with phase := phase } : CloseCall).Writes file) :
    Owned { s with disk := disk } call file := by
  obtain ⟨hrunning, hmove, -, -⟩ := h
  cases hmove with
  | phase move => exact hs.owned i call file hrunning (move.writes hwrites)
  | openTrunc compressing compressed =>
      obtain ⟨stage, f, hphase, rfl⟩ := hwrites
      obtain ⟨-, rfl⟩ := ClosePhase.streaming.inj hphase
      have hopened := Disk.names_openTrunc_self s.disk call.tmpPath
      refine ⟨hs.distinct.known_openTrunc _, ?_, ?_⟩
      · intro name hname
        exact (hs.distinct.openTrunc _).unique _ _ _ hname hopened
      · intro other hother
        exact (Option.some.inj (hopened.symm.trans hother)).symm
  | store streaming some =>
      obtain ⟨stage, f, hphase, rfl⟩ := hwrites
      obtain ⟨-, rfl⟩ := ClosePhase.streaming.inj hphase
      have howned := hs.owned i call _ hrunning ⟨_, _, streaming, rfl⟩
      exact ⟨howned.known, howned.names, howned.file⟩
  | moved moving present =>
      obtain ⟨stage, f, hphase, -⟩ := hwrites
      cases hphase
  | removed removing =>
      obtain ⟨stage, f, hphase, -⟩ := hwrites
      cases hphase

theorem progress_other (hne : j ≠ i) (hother : s.calls j = some other) :
    Progress zl { s with disk := disk } other := by
  have hprogress := hs.progress j other hother
  have hbefore := hs.apart i j call other hne.symm h.running hother
  have hafter := h.apart hs hne hother
  constructor
  · intro stage f hphase
    have hwrites : other.Writes f.file := ⟨stage, f, hphase, rfl⟩
    have hsame := h.move.contents (fun hw ↦ hbefore.file _ hw hwrites)
      (fun hw ↦ hafter.file _ hw hwrites)
    obtain ⟨hcontents, hstored, hproduces⟩ := hprogress.streaming stage f hphase
    exact ⟨hsame.trans hcontents, hstored, hproduces⟩
  · intro hphase bytes hbytes
    obtain ⟨file, hname, rfl⟩ := Disk.content_eq_some_iff.mp hbytes
    have hname' := h.names_other hs hne hother (.inr hphase) hname (.inl rfl)
    have hsame : disk.contents file = s.disk.contents file := by
      apply h.move.contents
      · intro hw
        have htmp := (hs.owned i call file h.running hw).names _ hname'
        exact hbefore.tmpPath hw.holds (.inr hphase) htmp.symm
      · intro hw
        have htmp := (h.owned_self hs hw).names _ hname
        exact hafter.tmpPath hw.holds (.inr hphase) htmp.symm
    exact hprogress.moving hphase _ (Disk.content_eq_some_iff.mpr ⟨file, hname', hsame.symm⟩)

theorem progress_self :
    Progress zl { s with disk := disk } { call with phase := phase } := by
  obtain ⟨hrunning, hmove, -, hkept⟩ := h
  have hprogress := hs.progress i call hrunning
  cases hmove with
  | phase move =>
      constructor
      · intro stage f hphase
        obtain ⟨stage', f', hbefore, ⟨stage'', hnext⟩ | ⟨hnext, -⟩⟩ :=
          move.holds (.inl ⟨stage, f, hphase⟩)
        · obtain ⟨-, rfl⟩ := ClosePhase.streaming.inj (hphase.symm.trans hnext)
          exact hprogress.streaming stage' f hbefore
        · cases hphase.symm.trans hnext
      · intro hphase bytes hbytes
        obtain ⟨stage', f, hbefore, ⟨stage'', hnext⟩ | ⟨-, rfl⟩⟩ := move.holds (.inr hphase)
        · cases hphase.symm.trans hnext
        · -- the stream is destroyed with the whole frame in the file
          obtain ⟨hcontents, -, hproduces⟩ := hprogress.streaming _ f hbefore
          rw [List.take_of_length_le (hkept f hbefore hphase)] at hcontents
          obtain ⟨file, hname, rfl⟩ := Disk.content_eq_some_iff.mp hbytes
          obtain rfl := (hs.owned i call f.file hrunning ⟨_, f, hbefore, rfl⟩).file _ hname
          rw [hcontents]
          exact hproduces
  | openTrunc compressing compressed =>
      constructor
      · intro stage f hphase
        obtain ⟨-, rfl⟩ := ClosePhase.streaming.inj hphase
        exact ⟨Disk.contents_openTrunc_self .., Nat.zero_le _, _, compressed⟩
      · nofun
  | store streaming some =>
      rename_i stage f n
      constructor
      · intro stage f hphase
        obtain ⟨-, rfl⟩ := ClosePhase.streaming.inj hphase
        obtain ⟨hcontents, hstored, hproduces⟩ := hprogress.streaming _ _ streaming
        refine ⟨?_, ?_, hproduces⟩
        · have hlength : (f.frame.take f.stored).length = f.stored := List.length_take_of_le hstored
          have happend := apply_write_length (f.frame.take f.stored) (f.portion n)
          rw [hlength] at happend
          exact ((Disk.contents_writeAt_self ..).trans (hcontents ▸ happend)).trans
            (take_append_slice ..)
        · have hportion := length_slice f.frame f.stored n
          change f.stored + (slice f.frame f.stored n).length ≤ f.frame.length
          omega
      · nofun
  | moved moving present => exact ⟨nofun, nofun⟩
  | removed removing => exact ⟨nofun, nofun⟩

/-- A file that nobody writes to is left as it is. -/
theorem settled (hfile : s.Settled targets file) :
    Settled targets ({ s with disk := disk }.setCall i { call with phase := phase }) file ∧
      disk.contents file = s.disk.contents file := by
  have hbefore := hfile.unwritten i call h.running
  have hafter : ¬({ call with phase := phase } : CloseCall).Writes file := by
    intro hwrites
    rcases h.move.writes hwrites with hw | ⟨-, hbehind⟩
    · exact hbefore hw
    · exact h.hidden hs hwrites.holds (hfile.names _ (hbehind hfile.known))
  refine ⟨⟨h.move.known hfile.known, ?_, ?_⟩, h.move.contents hbefore hafter⟩
  · intro name hname
    rcases h.move.names hname with hsame | ⟨-, hwrites⟩ | ⟨rfl, -⟩
    · exact hfile.names name hsame
    · exact absurd hwrites hafter
    · exact hs.target i call h.running
  · intro j other hother
    rcases setCall_cases hother with ⟨-, rfl⟩ | ⟨-, hother⟩
    · exact hafter
    · exact hfile.unwritten j other hother

omit hs in
theorem whole {path : Path} {bytes : Bytes} (hwhole : s.Whole zl initial path bytes) :
    Whole zl initial ({ s with disk := disk }.setCall i { call with phase := phase })
      path bytes := by
  rcases hwhole with hinitial | ⟨j, other, hother, hdone, hpath, hproduces⟩
  · exact .inl hinitial
  · have hne : j ≠ i := by
      rintro rfl
      obtain rfl := Option.some.inj (h.running.symm.trans hother)
      exact h.move.not_done _ hdone
    exact .inr ⟨j, other, (Function.update_of_ne hne ..).trans hother, hdone, hpath, hproduces⟩

/-- A target leads to the file it led to, or to the archive that was moved there. -/
theorem settled_target {path : Path} (hpath : path ∈ targets)
    (hname : disk.names path = some file) :
    Settled targets ({ s with disk := disk }.setCall i { call with phase := phase }) file ∧
      Whole zl initial ({ s with disk := disk }.setCall i { call with phase := phase }) path
        (disk.contents file) := by
  rcases h.move.names hname with hsame | ⟨rfl, hwrites⟩ | ⟨rfl, htmp, hmoving, hdone⟩
  · obtain ⟨hsettled, hwhole⟩ := hs.settled path hpath file hsame
    obtain ⟨hsettled', hcontents⟩ := h.settled hs hsettled
    rw [hcontents]
    exact ⟨hsettled', h.whole hwhole⟩
  · exact absurd hpath (h.hidden hs hwrites.holds)
  · have hunwritten : ∀ j other, s.calls j = some other → ¬other.Writes file := by
      intro j other hother hwrites
      rcases eq_or_ne j i with rfl | hne
      · obtain rfl := Option.some.inj (h.running.symm.trans hother)
        obtain ⟨stage, f, hphase, -⟩ := hwrites
        cases hmoving.symm.trans hphase
      · have hsame := (hs.owned j other file hother hwrites).names _ htmp
        exact (hs.apart i j call other hne.symm h.running hother).tmpPath (.inr hmoving)
          hwrites.holds hsame
    have hafter : ¬({ call with phase := phase } : CloseCall).Writes file := by
      rintro ⟨stage, f, hphase, -⟩
      cases hdone.symm.trans hphase
    have hcontents := h.move.contents (hunwritten i call h.running) hafter
    constructor
    · refine ⟨h.move.known (hs.distinct.known htmp), ?_, ?_⟩
      · intro name hname'
        rwa [(h.move.distinct hs.distinct).unique _ _ _ hname' hname]
      · intro j other hother
        rcases setCall_cases hother with ⟨-, rfl⟩ | ⟨-, hother⟩
        · exact hafter
        · exact hunwritten j other hother
    · have hbytes := Disk.content_eq_some_iff.mpr ⟨file, htmp, hcontents.symm⟩
      exact .inr ⟨i, _, setCall_self _ i _, hdone, rfl,
        (hs.progress i call h.running).moving hmoving _ hbytes⟩

theorem sound :
    Sound zl targets initial ({ s with disk := disk }.setCall i { call with phase := phase }) where
  distinct := h.move.distinct hs.distinct
  target := by
    intro j other hother
    rcases setCall_cases hother with ⟨-, rfl⟩ | ⟨-, hother⟩
    · exact hs.target i call h.running
    · exact hs.target j other hother
  hidden := by
    intro j other hother hholds
    rcases setCall_cases hother with ⟨-, rfl⟩ | ⟨-, hother⟩
    · exact h.hidden hs hholds
    · exact hs.hidden j other hother hholds
  apart := by
    intro j k first second hne hfirst hsecond
    rcases setCall_cases hfirst with ⟨hj, rfl⟩ | ⟨hj, hbefore⟩ <;>
      rcases setCall_cases hsecond with ⟨hk, rfl⟩ | ⟨hk, hbefore'⟩
    · exact absurd (hj.trans hk.symm) hne
    · exact h.apart hs hk hbefore'
    · exact (h.apart hs hj hbefore).symm
    · exact hs.apart j k first second hne hbefore hbefore'
  owned := by
    intro j other file hother hwrites
    rcases setCall_cases hother with ⟨-, rfl⟩ | ⟨hne, hother⟩
    · obtain ⟨hknown, hnames, hfile⟩ := h.owned_self hs hwrites
      exact ⟨hknown, hnames, hfile⟩
    · obtain ⟨hknown, hnames, hfile⟩ := h.owned_other hs hne hother hwrites
      exact ⟨hknown, hnames, hfile⟩
  progress := by
    intro j other hother
    rcases setCall_cases hother with ⟨-, rfl⟩ | ⟨hne, hother⟩
    · obtain ⟨hstreaming, hmoving⟩ := h.progress_self hs
      exact ⟨hstreaming, hmoving⟩
    · obtain ⟨hstreaming, hmoving⟩ := h.progress_other hs hne hother
      exact ⟨hstreaming, hmoving⟩
  settled := fun path hpath file hname ↦ h.settled_target hs hpath hname
  reader := by
    intro j r hr
    obtain ⟨hsettled, hwhole, hseen⟩ := hs.reader j r hr
    obtain ⟨hsettled', hcontents⟩ := h.settled hs hsettled
    have hsame : ({ s with disk := disk }.setCall i { call with phase := phase }).disk.contents
        r.file = s.disk.contents r.file := hcontents
    rw [hsame]
    exact ⟨hsettled', h.whole hwhole, hseen⟩

end ExclusiveMove

namespace Sound

theorem start (hs : s.Sound zl targets initial) {h : OpenzlFileHandle} {buffer : Bytes}
    (target : h.realPath ∈ targets) (idle : s.calls i = none) :
    Sound zl targets initial (s.setCall i ⟨h, buffer, .compressing false⟩) := by
  have hnot : ¬CloseCall.Holds ⟨h, buffer, .compressing false⟩ := by
    rintro (⟨stage, f, hphase⟩ | hphase) <;> cases hphase
  have hsettled : ∀ file, s.Settled targets file →
      Settled targets (s.setCall i ⟨h, buffer, .compressing false⟩) file := by
    rintro file ⟨hknown, hnames, hunwritten⟩
    refine ⟨hknown, hnames, ?_⟩
    intro j other hother
    rcases setCall_cases hother with ⟨-, rfl⟩ | ⟨-, hother⟩
    · exact fun hwrites ↦ hnot hwrites.holds
    · exact hunwritten j other hother
  have hwhole : ∀ path bytes, s.Whole zl initial path bytes →
      Whole zl initial (s.setCall i ⟨h, buffer, .compressing false⟩) path bytes := by
    rintro path bytes (hinitial | ⟨j, other, hother, hdone⟩)
    · exact .inl hinitial
    · have hne : j ≠ i := by
        rintro rfl
        cases idle.symm.trans hother
      exact .inr ⟨j, other, (Function.update_of_ne hne ..).trans hother, hdone⟩
  constructor
  · exact hs.distinct
  · intro j other hother
    rcases setCall_cases hother with ⟨-, rfl⟩ | ⟨-, hother⟩
    · exact target
    · exact hs.target j other hother
  · intro j other hother hholds
    rcases setCall_cases hother with ⟨-, rfl⟩ | ⟨-, hother⟩
    · exact absurd hholds hnot
    · exact hs.hidden j other hother hholds
  · intro j k first second hne hfirst hsecond
    rcases setCall_cases hfirst with ⟨hj, rfl⟩ | ⟨hj, hbefore⟩
    · exact ⟨fun hholds ↦ absurd hholds hnot, fun file hwrites ↦ absurd hwrites.holds hnot⟩
    · rcases setCall_cases hsecond with ⟨hk, rfl⟩ | ⟨hk, hbefore'⟩
      · exact ⟨fun _ hholds ↦ absurd hholds hnot, fun file _ hwrites ↦ hnot hwrites.holds⟩
      · exact hs.apart j k first second hne hbefore hbefore'
  · intro j other file hother hwrites
    rcases setCall_cases hother with ⟨-, rfl⟩ | ⟨-, hother⟩
    · exact absurd hwrites.holds hnot
    · obtain ⟨hknown, hnames, hfile⟩ := hs.owned j other file hother hwrites
      exact ⟨hknown, hnames, hfile⟩
  · intro j other hother
    rcases setCall_cases hother with ⟨-, rfl⟩ | ⟨-, hother⟩
    · exact ⟨nofun, nofun⟩
    · obtain ⟨hstreaming, hmoving⟩ := hs.progress j other hother
      exact ⟨hstreaming, hmoving⟩
  · intro path hpath file hname
    exact (hs.settled path hpath file hname).imp (hsettled file) (hwhole _ _)
  · intro j r hr
    obtain ⟨hfile, hbytes, hseen⟩ := hs.reader j r hr
    exact ⟨hsettled _ hfile, hwhole _ _ hbytes, hseen⟩

/-- Only what the reader has read and what it reads from matters of the readers. -/
theorem setReader (hs : s.Sound zl targets initial) {r : ArchiveReader}
    (hsettled : s.Settled targets r.file)
    (hwhole : s.Whole zl initial r.path (s.disk.contents r.file))
    (hseen : r.seen <+: s.disk.contents r.file) :
    Sound zl targets initial (s.setReader j r) := by
  obtain ⟨hdistinct, htarget, hhidden, hapart, howned, hprogress, htargets, hreader⟩ := hs
  have hkept : ∀ file, s.Settled targets file → Settled targets (s.setReader j r) file :=
    fun file hfile ↦ ⟨hfile.known, hfile.names, hfile.unwritten⟩
  refine ⟨hdistinct, htarget, hhidden, hapart, ?_, ?_, ?_, ?_⟩
  · intro i call file hcall hwrites
    obtain ⟨hknown, hnames, hfile⟩ := howned i call file hcall hwrites
    exact ⟨hknown, hnames, hfile⟩
  · intro i call hcall
    obtain ⟨hstreaming, hmoving⟩ := hprogress i call hcall
    exact ⟨hstreaming, hmoving⟩
  · intro path hpath file hname
    exact (htargets path hpath file hname).imp_left (hkept file)
  · intro k r' hr'
    rcases eq_or_ne k j with rfl | hne
    · have hself : (s.setReader k r).readers k = some r := Function.update_self ..
      obtain rfl := Option.some.inj (hself.symm.trans hr')
      exact ⟨hkept _ hsettled, hwhole, hseen⟩
    · obtain ⟨hfile, hbytes⟩ := hreader k r' ((Function.update_of_ne hne ..).symm.trans hr')
      exact ⟨hkept _ hfile, hbytes⟩

theorem step (hs : s.Sound zl targets initial) (hstep : ExclusiveStep zl targets s s') :
    s'.Sound zl targets initial := by
  obtain ⟨hstep, halone, hkept⟩ := hstep
  cases hstep with
  | start target idle buffered open_ => exact hs.start target idle
  | move running move =>
      rename_i i call disk phase
      have hafter := setCall_self { s with disk := disk } i { call with phase := phase }
      have h : ExclusiveMove zl targets s i call disk phase :=
        ⟨running, move, halone i call _ running hafter, fun f ↦ hkept i call _ f running hafter⟩
      exact h.sound hs
  | openReader target idle found =>
      obtain ⟨hsettled, hwhole⟩ := hs.settled _ target _ found
      exact hs.setReader hsettled hwhole List.nil_prefix
  | read n reading =>
      obtain ⟨hsettled, hwhole, hseen⟩ := hs.reader _ _ reading
      rename_i j r
      have hread := take_append_slice (s.disk.contents r.file) r.seen.length n
      rw [← List.prefix_iff_eq_take.mp hseen] at hread
      have hprefix : r.seen ++ slice (s.disk.contents r.file) r.seen.length n <+:
          s.disk.contents r.file := by
        rw [hread]
        exact List.take_prefix _ _
      exact hs.setReader (r := ⟨r.path, r.file, _⟩) hsettled hwhole hprefix

theorem holding : Sound zl targets initial { disk := Disk.holding initial } := by
  have hdistinct := Disk.distinct_holding initial
  have hcalls : ∀ i call, ({ disk := Disk.holding initial } : CloseSystem).calls i ≠ some call := by
    intro i call h
    cases h
  constructor
  · exact hdistinct
  · exact fun i call h ↦ absurd h (hcalls i call)
  · exact fun i call h ↦ absurd h (hcalls i call)
  · exact fun i j call other _ h ↦ absurd h (hcalls i call)
  · exact fun i call _ h ↦ absurd h (hcalls i call)
  · exact fun i call h ↦ absurd h (hcalls i call)
  · intro path hpath file hname
    have hcontent := Disk.content_eq_some_iff.mpr ⟨file, hname, rfl⟩
    rw [Disk.content_holding] at hcontent
    refine ⟨⟨hdistinct.known hname, ?_, fun i call h ↦ absurd h (hcalls i call)⟩, .inl hcontent⟩
    intro name hname'
    rwa [hdistinct.unique _ _ _ hname' hname]
  · intro j r hr
    cases hr

end Sound

end CloseSystem

/-- In every run of exclusive steps each target is absent or holds a whole file, and what a reader
has read is the beginning of one. -/
theorem whole_of_exclusive
    (hrun : ReflTransGen (ExclusiveStep zl targets) { disk := Disk.holding initial } s) :
    (∀ path ∈ targets, ∀ bytes, s.disk.content path = some bytes → s.Whole zl initial path bytes) ∧
      ∀ j r, s.readers j = some r → ∃ bytes, s.Whole zl initial r.path bytes ∧
        s.disk.contents r.file = bytes ∧ r.seen <+: bytes := by
  have hs : s.Sound zl targets initial :=
    invariant (fun _ _ hs hstep ↦ hs.step hstep) CloseSystem.Sound.holding hrun
  constructor
  · intro path hpath bytes hbytes
    obtain ⟨file, hname, rfl⟩ := Disk.content_eq_some_iff.mp hbytes
    exact (hs.settled path hpath file hname).2
  · intro j r hr
    obtain ⟨-, hwhole, hseen⟩ := hs.reader j r hr
    exact ⟨_, hwhole, rfl, hseen⟩

/-! ## Calls that overlap -/

/-- A call that opens the temporary file while another is about to move it makes that one move an
empty file into place. -/
theorem emptied_of_overlap (targets : Set Path) {generic : Bool} {frame : Bytes} (hne : i ≠ j)
    (hcall : s.calls i = some call) (hmoving : call.phase = .moving)
    (hpresent : (s.disk.names call.tmpPath).isSome) (hother : s.calls j = some other)
    (hcompressing : other.phase = .compressing generic)
    (hframe : other.compress zl generic = .ok frame) (hsame : other.tmpPath = call.tmpPath) :
    ∃ s', ReflTransGen (CloseStep zl targets) s s' ∧
      s'.disk.content call.handle.realPath = some [] := by
  obtain ⟨file, hname⟩ := Option.isSome_iff_exists.mp hpresent
  let emptied : Disk Path UInt8 :=
    { s.disk with contents := Function.update s.disk.contents file [] }
  have hopened : s.disk.openTrunc other.tmpPath = (file, emptied) :=
    Disk.openTrunc_of_some (hsame ▸ hname)
  let opening := { other with phase := .streaming (.writing generic) ⟨file, frame, 0⟩ }
  let opened := { s with disk := emptied }.setCall j opening
  have hopen : CloseStep zl targets s opened := by
    have hmove : CloseMove zl other s.disk _ _ := .openTrunc hcompressing hframe
    rw [hopened] at hmove
    exact .move hother hmove
  have hrunning : opened.calls i = some call := (Function.update_of_ne hne ..).trans hcall
  have hmove : CloseStep zl targets opened _ := .move hrunning (.moved hmoving hpresent)
  refine ⟨_, .tail (.single hopen) hmove, ?_⟩
  change (emptied.rename call.tmpPath call.handle.realPath).content call.handle.realPath = _
  rw [Disk.content, Disk.names_rename_target,
    show emptied.names call.tmpPath = some file from hname, Option.map_some]
  exact congrArg some (Function.update_self ..)

/-- A handle with one byte to archive. -/
def oneByteHandle (target : Path) (byte : UInt8) : OpenzlFileHandle where
  path := scheme ++ target
  writeBuffer := some [byte]
  realPath := target

theorem compress_oneByteHandle (target : Path) (byte : UInt8) (phase : ClosePhase)
    (generic : Bool) :
    CloseCall.compress .stored ⟨oneByteHandle target byte, [byte], phase⟩ generic =
      .ok [0, byte] := by
  cases generic <;> rfl

theorem CloseCall.produces_stored {bytes : Bytes} (h : call.Produces .stored bytes) :
    bytes = 0 :: call.buffer := by
  obtain ⟨generic, hcompress⟩ := h
  obtain ⟨cctx, hframe⟩ := compressBytesImpl_ok hcompress
  exact (Except.ok.inj hframe).symm

/-- Two handles on one path: the second opens the temporary file just before the first moves it. -/
theorem half_written_target : ∃ s,
    ReflTransGen (CloseStep .stored {"a"}) { disk := Disk.holding fun _ ↦ none } s ∧
      ∃ bytes, s.disk.content "a" = some bytes ∧ ¬s.Whole .stored (fun _ ↦ none) "a" bytes := by
  let call : CloseCall := ⟨oneByteHandle "a" 1, [1], .compressing false⟩
  let empty : Disk Path UInt8 := Disk.holding fun _ ↦ none
  have hagrees : Agrees empty World.empty :=
    ⟨Disk.distinct_holding _, fun path ↦ Disk.content_holding _ path⟩
  have hfirst : CloseStep .stored {"a"} { disk := empty } _ :=
    .start (i := 0) (h := oneByteHandle "a" 1) rfl rfl rfl rfl
  have hsecond : CloseStep .stored {"a"} (CloseSystem.setCall { disk := empty } 0 call) _ :=
    .start (i := 1) (h := oneByteHandle "a" 1) rfl rfl rfl rfl
  let file := (empty.openTrunc call.tmpPath).1
  have hopen : CallRun .stored call (empty, .compressing false)
      ((empty.openTrunc call.tmpPath).2, .streaming (.writing false) ⟨file, [0, 1], 0⟩) :=
    .single (.openTrunc rfl (compress_oneByteHandle "a" 1 _ false))
  obtain ⟨d, hstore, -, hname, -⟩ := CallRun.store .stored (.writing false)
    ⟨file, [0, 1], 0⟩ (hagrees.openTrunc call.tmpPath) (Disk.names_openTrunc_self empty _)
    (by rw [Disk.contents_openTrunc_self]; rfl) 2
  have hwrote : CallRun .stored call (empty, .compressing false) (d, .streaming .flushing _) :=
    (hopen.trans hstore).tail (.phase (@PhaseMove.wrote _ _ false _ rfl))
  have hmoving : CallRun .stored call (empty, .compressing false) (d, .moving) :=
    hwrote.tail (.phase (.destroyed rfl))
  have hrunning : ((CloseSystem.setCall { disk := empty } 0 call).setCall 1 call).calls 0 =
      some call := rfl
  have hrun := CallRun.lift {"a"} hrunning hmoving
  let written : CloseSystem :=
    ⟨d, ((CloseSystem.setCall { disk := empty } 0 call).setCall 1 call).calls, fun _ ↦ none⟩
  have hpresent : (d.names call.tmpPath).isSome := Option.isSome_iff_exists.mpr ⟨_, hname⟩
  obtain ⟨s, hrest, hcontent⟩ := @emptied_of_overlap .stored
    (written.setCall 0 ⟨oneByteHandle "a" 1, [1], .moving⟩) 0 1
    ⟨oneByteHandle "a" 1, [1], .moving⟩ call {"a"} false _ Nat.zero_ne_one
      (CloseSystem.setCall_self ..) rfl hpresent rfl rfl
    (compress_oneByteHandle "a" 1 _ false) rfl
  refine ⟨s, ((hrun.head hsecond).head hfirst).trans hrest, [], hcontent, ?_⟩
  rintro (hinitial | ⟨i, other, -, -, -, hproduces⟩)
  · cases hinitial
  · cases CloseCall.produces_stored hproduces

/-! ## Calls and a reader that keep apart -/

theorem CloseSystem.ExclusiveMove.step (h : ExclusiveMove zl targets s i call disk phase) :
    ExclusiveStep zl targets s
      ({ s with disk := disk }.setCall i { call with phase := phase }) := by
  refine ⟨.move h.running h.move, ?_, ?_⟩
  · intro k before after hbefore hafter hnot hholds
    rcases setCall_cases hafter with ⟨rfl, rfl⟩ | ⟨hne, hsame⟩
    · obtain rfl := Option.some.inj (h.running.symm.trans hbefore)
      exact h.alone hnot hholds
    · obtain rfl := Option.some.inj (hsame.symm.trans hbefore)
      exact absurd hholds hnot
  · intro k before after f hbefore hafter hflushing hmoving
    rcases setCall_cases hafter with ⟨rfl, rfl⟩ | ⟨hne, hsame⟩
    · obtain rfl := Option.some.inj (h.running.symm.trans hbefore)
      exact h.kept f hflushing hmoving
    · obtain rfl := Option.some.inj (hsame.symm.trans hbefore)
      cases hflushing.symm.trans hmoving

theorem ExclusiveStep.of_calls (hstep : CloseStep zl targets s s')
    (hcalls : ∀ i call call', s.calls i = some call → s'.calls i = some call' → call' = call) :
    ExclusiveStep zl targets s s' := by
  refine ⟨hstep, ?_, ?_⟩
  · intro i call call' hcall hcall' hnot hholds
    exact absurd (hcalls i call call' hcall hcall' ▸ hholds) hnot
  · intro i call call' f hcall hcall' hflushing hmoving
    rw [hcalls i call call' hcall hcall', hflushing] at hmoving
    cases hmoving

theorem ExclusiveStep.openReader {path : Path} (htarget : path ∈ targets)
    (hidle : s.readers j = none) (hfound : s.disk.names path = some file) :
    ExclusiveStep zl targets s (s.setReader j ⟨path, file, []⟩) :=
  .of_calls (.openReader htarget hidle hfound) fun _ _ _ hcall hcall' ↦
    Option.some.inj (hcall'.symm.trans hcall)

theorem ExclusiveStep.read {r : ArchiveReader} {n : ℕ} {bytes : Bytes}
    (hreading : s.readers j = some r)
    (hbytes : slice (s.disk.contents r.file) r.seen.length n = bytes) :
    ExclusiveStep zl targets s (s.setReader j { r with seen := r.seen ++ bytes }) := by
  subst hbytes
  exact .of_calls (.read n hreading) fun _ _ _ hcall hcall' ↦
    Option.some.inj (hcall'.symm.trans hcall)

variable {target : Path} {byte : UInt8}

/-- The stream of a one-byte archive has just been opened. -/
def openedCall (target : Path) (byte : UInt8) (file : FileId Path) : CloseCall :=
  ⟨oneByteHandle target byte, [byte], .streaming (.writing false) ⟨file, [0, byte], 0⟩⟩

def CloseSystem.openOneByte (s : CloseSystem) (i : ℕ) (target : Path) (byte : UInt8) :
    CloseSystem :=
  let tmp := (oneByteHandle target byte).tmpPath
  { s with disk := (s.disk.openTrunc tmp).2 }.setCall i
    (openedCall target byte (s.disk.openTrunc tmp).1)

def CloseSystem.finishOneByte (s : CloseSystem) (i : ℕ) (target : Path) (byte : UInt8)
    (file : FileId Path) : CloseSystem :=
  let disk := (s.disk.writeAt file 0 [0, byte]).rename (oneByteHandle target byte).tmpPath target
  { s with disk := disk }.setCall i ⟨oneByteHandle target byte, [byte], .done (.ok ())⟩

theorem run_openOneByte (byte : UInt8) (hidle : s.calls i = none) (htarget : target ∈ targets)
    (htmp : (oneByteHandle target byte).tmpPath ∉ targets)
    (hfree : ∀ j other, s.calls j = some other → other.Holds →
      (oneByteHandle target byte).tmpPath ≠ other.tmpPath) :
    ReflTransGen (ExclusiveStep .stored targets) s (s.openOneByte i target byte) := by
  let call : CloseCall := ⟨oneByteHandle target byte, [byte], .compressing false⟩
  have hstart : ExclusiveStep .stored targets s (s.setCall i call) := by
    refine .of_calls (.start htarget hidle rfl rfl) ?_
    intro j before after hbefore hafter
    rcases CloseSystem.setCall_cases hafter with ⟨rfl, -⟩ | ⟨-, hsame⟩
    · cases hidle.symm.trans hbefore
    · exact Option.some.inj (hsame.symm.trans hbefore)
  have hmove : CloseSystem.ExclusiveMove .stored targets (s.setCall i call) i call
      (s.disk.openTrunc call.tmpPath).2
      (.streaming (.writing false) ⟨(s.disk.openTrunc call.tmpPath).1, [0, byte], 0⟩) := by
    refine ⟨CloseSystem.setCall_self .., .openTrunc rfl (compress_oneByteHandle ..), ?_, nofun⟩
    rintro hnot -
    refine ⟨htmp, ?_⟩
    intro j other hother hholds
    rcases CloseSystem.setCall_cases hother with ⟨-, rfl⟩ | ⟨-, hsame⟩
    · exact absurd hholds hnot
    · exact hfree j other hsame hholds
  have hstep := hmove.step
  rw [CloseSystem.setCall_setCall s s.disk] at hstep
  exact (ReflTransGen.single hstart).tail hstep

theorem run_finishOneByte {file : FileId Path}
    (hrunning : s.calls i = some (openedCall target byte file))
    (hname : s.disk.names (oneByteHandle target byte).tmpPath = some file) :
    ReflTransGen (ExclusiveStep .stored targets) s (s.finishOneByte i target byte file) := by
  let stored := s.disk.writeAt file 0 [0, byte]
  let call (phase : ClosePhase) : CloseCall := ⟨oneByteHandle target byte, [byte], phase⟩
  let f : WriteStream := ⟨file, [0, byte], 2⟩
  have hstore : CloseSystem.ExclusiveMove .stored targets s i (openedCall target byte file) stored
      (.streaming (.writing false) f) := by
    refine ⟨hrunning, @CloseMove.store _ (openedCall target byte file) _ _ _ 2 rfl
      (List.cons_ne_nil 0 [byte]), ?_, nofun⟩
    exact fun hnot ↦ absurd (.inl ⟨_, _, rfl⟩) hnot
  have hwrote : CloseSystem.ExclusiveMove .stored targets
      ({ s with disk := stored }.setCall i (call (.streaming (.writing false) f))) i
      (call (.streaming (.writing false) f)) stored (.streaming .flushing f) := by
    refine ⟨CloseSystem.setCall_self .., .phase (@PhaseMove.wrote _
      (call (.streaming (.writing false) f)) false f rfl), ?_, nofun⟩
    exact fun hnot ↦ absurd (.inl ⟨_, _, rfl⟩) hnot
  have hdestroyed : CloseSystem.ExclusiveMove .stored targets
      ({ s with disk := stored }.setCall i (call (.streaming .flushing f))) i
      (call (.streaming .flushing f)) stored .moving := by
    refine ⟨CloseSystem.setCall_self .., .phase (@PhaseMove.destroyed _
      (call (.streaming .flushing f)) f rfl), ?_, ?_⟩
    · exact fun hnot ↦ absurd (.inl ⟨_, _, rfl⟩) hnot
    · rintro _ ⟨⟩ -
      exact le_rfl
  have hmoved : CloseSystem.ExclusiveMove .stored targets
      ({ s with disk := stored }.setCall i (call .moving)) i (call .moving)
      (stored.rename (oneByteHandle target byte).tmpPath target) (.done (.ok ())) := by
    refine ⟨CloseSystem.setCall_self .., @CloseMove.moved _ (call .moving) _ rfl
      (Option.isSome_iff_exists.mpr ⟨file, hname⟩), ?_, nofun⟩
    exact fun hnot ↦ absurd (.inr rfl) hnot
  have hthird := hwrote.step
  rw [CloseSystem.setCall_setCall s stored] at hthird
  have hfourth := hdestroyed.step
  rw [CloseSystem.setCall_setCall s stored] at hfourth
  have hlast := hmoved.step
  rw [CloseSystem.setCall_setCall s stored] at hlast
  exact (((ReflTransGen.single hstore.step).tail hthird).tail hfourth).tail hlast

/-- A reader of `a` goes on in the archive that it has opened while a second handle on `a` replaces
it. A handle on `b` is open all the time. -/
theorem whole_of_exclusive_three : ∃ s : CloseSystem,
    ReflTransGen (ExclusiveStep .stored {"a", "b"}) { disk := Disk.holding fun _ ↦ none } s ∧
    s.disk.content "a" = some [0, 2] ∧ s.disk.content "b" = some [0, 3] ∧
    (∃ file, s.readers 0 = some ⟨"a", file, [0, 1]⟩) ∧
    (∀ path ∈ ({"a", "b"} : Set Path), ∀ bytes, s.disk.content path = some bytes →
      s.Whole .stored (fun _ ↦ none) path bytes) ∧
    ∀ j r, s.readers j = some r → ∃ bytes, s.Whole .stored (fun _ ↦ none) r.path bytes ∧
      s.disk.contents r.file = bytes ∧ r.seen <+: bytes := by
  have ha : "a" ∈ ({"a", "b"} : Set Path) := .inl rfl
  have hb : "b" ∈ ({"a", "b"} : Set Path) := .inr rfl
  have hatmp : "a" ++ ".openzl_tmp" = "a.openzl_tmp" := by decide +kernel
  have hbtmp : "b" ++ ".openzl_tmp" = "b.openzl_tmp" := by decide +kernel
  have hahidden : "a" ++ ".openzl_tmp" ∉ ({"a", "b"} : Set Path) := by simp [hatmp]
  have hbhidden : "b" ++ ".openzl_tmp" ∉ ({"a", "b"} : Set Path) := by simp [hbtmp]
  have hne : "a" ++ ".openzl_tmp" ≠ "b" ++ ".openzl_tmp" := by simp [hatmp, hbtmp]
  let s₀ : CloseSystem := { disk := Disk.holding fun _ ↦ none }
  let s₁ := s₀.openOneByte 2 "b" 3
  let s₂ := s₁.openOneByte 0 "a" 1
  let s₃ := s₂.finishOneByte 0 "a" 1 (.created 1)
  let s₄ := s₃.setReader 0 ⟨"a", .created 1, []⟩
  let s₅ := s₄.setReader 0 ⟨"a", .created 1, [0]⟩
  let s₆ := s₅.openOneByte 1 "a" 2
  let s₇ := s₆.finishOneByte 1 "a" 2 (.created 2)
  let s₈ := s₇.setReader 0 ⟨"a", .created 1, [0, 1]⟩
  have h₁ : ReflTransGen (ExclusiveStep .stored {"a", "b"}) s₀ s₁ :=
    run_openOneByte 3 rfl hb hbhidden fun j other hother ↦
      absurd hother (Option.some_ne_none other).symm
  have h₂ : ReflTransGen (ExclusiveStep .stored {"a", "b"}) s₁ s₂ := by
    refine run_openOneByte 1 rfl ha hahidden ?_
    intro j other hother _
    rcases CloseSystem.setCall_cases hother with ⟨-, rfl⟩ | ⟨-, hnone⟩
    · exact hne
    · cases hnone
  have h₃ : ReflTransGen (ExclusiveStep .stored {"a", "b"}) s₂ s₃ :=
    run_finishOneByte rfl (by decide +kernel)
  have hfound : s₃.disk.names "a" = some (.created 1) := by decide +kernel
  have h₄ : ExclusiveStep .stored {"a", "b"} s₃ s₄ := .openReader ha rfl hfound
  have hold : s₃.disk.contents (.created 1) = [0, 1] := by decide +kernel
  have h₅ : ExclusiveStep .stored {"a", "b"} s₄ s₅ :=
    .read (r := ⟨"a", .created 1, []⟩) (n := 1) rfl
      (congrArg (slice · 0 1) hold)
  have h₆ : ReflTransGen (ExclusiveStep .stored {"a", "b"}) s₅ s₆ := by
    refine run_openOneByte 2 rfl ha hahidden ?_
    intro j other hother hholds
    rcases CloseSystem.setCall_cases hother with ⟨-, rfl⟩ | ⟨hnot, hother⟩
    · -- the first handle is done with the temporary file
      rcases hholds with ⟨_, _, hphase⟩ | hphase <;> cases hphase
    · rcases CloseSystem.setCall_cases hother with ⟨hzero, -⟩ | ⟨-, hother⟩
      · exact absurd hzero hnot
      · rcases CloseSystem.setCall_cases hother with ⟨-, rfl⟩ | ⟨-, hnone⟩
        · exact hne
        · cases hnone
  have h₇ : ReflTransGen (ExclusiveStep .stored {"a", "b"}) s₆ s₇ :=
    run_finishOneByte rfl (by decide +kernel)
  have hkept : s₇.disk.contents (.created 1) = [0, 1] := by decide +kernel
  have h₈ : ExclusiveStep .stored {"a", "b"} s₇ s₈ :=
    .read (r := ⟨"a", .created 1, [0]⟩) (n := 1) rfl
      (congrArg (slice · 1 1) hkept)
  have h₉ : ReflTransGen (ExclusiveStep .stored {"a", "b"}) s₈
      (s₈.finishOneByte 2 "b" 3 (.created 0)) := run_finishOneByte rfl (by decide +kernel)
  have hfirst := (((h₁.trans h₂).trans h₃).tail h₄).tail h₅
  have hrun := (((hfirst.trans h₆).trans h₇).tail h₈).trans h₉
  exact ⟨_, hrun, by decide +kernel, by decide +kernel, ⟨_, rfl⟩, whole_of_exclusive hrun⟩

end DuckdbOpenzl
