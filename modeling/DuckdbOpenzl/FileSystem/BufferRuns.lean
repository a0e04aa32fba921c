import DuckdbOpenzl.FileSystem.FileCalls
import DuckdbOpenzl.FileSystem.SeparateBuffers
import DuckdbOpenzl.Library.Runs

/-!
# COPYs and other clients on one registry

Any number of COPYs stage their chunks in buffers, while other clients open and
write paths of the same scheme. No path is handed out twice before the counter
wraps; what a COPY takes is what it wrote as long as nobody else has opened its
path before it was handed out.
-/

set_option autoImplicit false

namespace DuckdbOpenzl

open Relation Runs

/-! ## The system -/

/-- No path that `GenerateUniquePath` ever returns. -/
def Foreign (path : Path) : Prop := ∀ n < 2 ^ 64, path ≠ uniquePath n

/-- Where a COPY is with its chunk: it has a path, or its parquet writer has that open. What was
done through the handle is kept as the file it would have given. -/
inductive ChunkStaging where
  | idle
  | named (path : Path)
  | writing (h : OpenzlBufferFileHandle) (written : OrdinaryFile)

def ChunkStaging.path? : ChunkStaging → Option Path
  | .idle => none
  | .named path => some path
  | .writing h _ => some h.path

/-- The registry, the COPYs and the other clients' handles. The three lists record the paths that
were handed out, opened and taken. -/
structure BufferSystem where
  fs : OpenzlBufferFileSystem := {}
  copies : ℕ → ChunkStaging := fun _ ↦ .idle
  clients : ℕ → Option OpenzlBufferFileHandle := fun _ ↦ none
  handedOut : List Path := []
  opened : List Path := []
  taken : List Path := []

inductive BufferAction where
  | generateUniquePath (copy : ℕ)
  | openFile (copy : ℕ)
  | call (copy : ℕ) (c : FileCall)
  | takeBuffer (copy : ℕ)
  | abandon (copy : ℕ)
  | clientOpen (client : ℕ) (path : Path)
  | clientCall (client : ℕ) (c : FileCall)
  | clientClose (client : ℕ)

namespace BufferSystem

def setCopy (s : BufferSystem) (copy : ℕ) (staging : ChunkStaging) : BufferSystem :=
  { s with copies := Function.update s.copies copy staging }

def setClient (s : BufferSystem) (client : ℕ) (h : Option OpenzlBufferFileHandle) :
    BufferSystem :=
  { s with clients := Function.update s.clients client h }

/-- A COPY that fails leaves its buffer registered. Other clients open only paths that are not
handed out yet. -/
def step (s : BufferSystem) : BufferAction → Option BufferSystem
  | .generateUniquePath copy =>
      match s.copies copy with
      | .idle =>
          let (path, fs) := s.fs.generateUniquePath
          some (setCopy { s with fs := fs, handedOut := path :: s.handedOut } copy (.named path))
      | _ => none
  | .openFile copy =>
      match s.copies copy with
      | .named path =>
          let (h, fs) := s.fs.openFile path
          some (setCopy { s with fs := fs, opened := path :: s.opened } copy (.writing h ⟨[], 0⟩))
      | _ => none
  | .call copy c =>
      match s.copies copy with
      | .writing h f =>
          if c.Ordinary then
            let (_, fs, h) := s.fs.run h c
            some (setCopy { s with fs := fs } copy (.writing h (f.run c).2))
          else none
      | _ => none
  | .takeBuffer copy =>
      match s.copies copy with
      | .writing h _ =>
          match s.fs.takeBuffer h.path with
          | .ok (_, fs) => some (setCopy { s with fs := fs, taken := h.path :: s.taken } copy .idle)
          | .error _ => some (s.setCopy copy .idle)
      | _ => none
  | .abandon copy => some (s.setCopy copy .idle)
  | .clientOpen client path =>
      if path ∈ s.handedOut then none
      else
        let (h, fs) := s.fs.openFile path
        some (setClient { s with fs := fs, opened := path :: s.opened } client (some h))
  | .clientCall client c =>
      match s.clients client with
      | some h =>
          if c.Ordinary then
            let (_, fs, h) := s.fs.run h c
            some (setClient { s with fs := fs } client (some h))
          else none
      | none => none
  | .clientClose client => some (s.setClient client none)

/-- A client opens no path that is still to be handed out, and the counter does not come round to
a path it has returned. -/
def Apart (s : BufferSystem) : BufferAction → Prop
  | .generateUniquePath _ => s.handedOut.length < 2 ^ 64
  | .clientOpen _ path => ∀ n, s.fs.counter ≤ n → n < 2 ^ 64 → path ≠ uniquePath n
  | _ => True

def Step (s t : BufferSystem) : Prop := ∃ a, s.step a = some t

def ApartStep (s t : BufferSystem) : Prop := ∃ a, s.Apart a ∧ s.step a = some t

/-! ## What holds in every state -/

/-- The next path is new; the first open of a path gives an empty buffer; `PeekSize` and
`TakeBuffer` give what the COPY wrote; and nothing is taken twice. -/
structure OwnBytes (s : BufferSystem) : Prop where
  fresh : s.handedOut.length < 2 ^ 64 →
    s.fs.generateUniquePath.1 ∉ s.handedOut ∧ s.fs.generateUniquePath.1 ∉ s.opened
  empty : ∀ copy path, s.copies copy = .named path →
    (s.fs.openFile path).2.strings (s.fs.openFile path).1.buffer = []
  peek : ∀ copy h f, s.copies copy = .writing h f → s.fs.peekSize h.path = f.content.length
  take : ∀ copy h f, s.copies copy = .writing h f →
    ∃ fs, s.fs.takeBuffer h.path = .ok (f.content, fs) ∧
      fs.takeBuffer h.path = .error (noBufferRegistered h.path)
  once : ∀ path ∈ s.taken, s.fs.takeBuffer path = .error (noBufferRegistered path)

end BufferSystem

/-- What a COPY relies on: nothing is registered under a path it has not opened, and its buffer
holds what it wrote. -/
def ChunkStaging.Intact (fs : OpenzlBufferFileSystem) : ChunkStaging → Prop
  | .idle => True
  | .named path => fs.buffers path = none
  | .writing h f => fs.buffers h.path = some h.buffer ∧ Mirrors fs h f

theorem ChunkStaging.Intact.of_keeps {fs fs' : OpenzlBufferFileSystem} {staging : ChunkStaging}
    (h : staging.Intact fs) (hkeeps : ∀ p, staging.path? = some p → fs.Keeps fs' p) :
    staging.Intact fs' := by
  cases staging with
  | idle => trivial
  | named path => exact (hkeeps path rfl).buffers.trans h
  | writing handle f =>
      obtain ⟨hbuffer, hm⟩ := h
      have hkept := hkeeps handle.path rfl
      exact ⟨hkept.buffers.trans hbuffer, (hkept.strings _ hbuffer).trans hm.content, hm.position,
        hm.length_lt, hm.position_lt⟩

namespace BufferSystem

structure Sound (s : BufferSystem) : Prop where
  separate : s.fs.Separate
  bounded : s.handedOut.length ≤ 2 ^ 64
  counter : s.fs.counter = s.handedOut.length % 2 ^ 64
  handedOut : ∀ p, p ∈ s.handedOut ↔ ∃ n < s.handedOut.length, p = uniquePath n
  registered : ∀ p id, s.fs.buffers p = some id → p ∈ s.handedOut ∨ Foreign p
  opened : ∀ p ∈ s.opened, p ∈ s.handedOut ∨ Foreign p
  client : ∀ client h, s.clients client = some h →
    s.fs.buffers h.path = some h.buffer ∧ Foreign h.path
  path : ∀ copy p, (s.copies copy).path? = some p → p ∈ s.handedOut
  alone : ∀ copy other p, (s.copies copy).path? = some p → (s.copies other).path? = some p →
    copy = other
  intact : ∀ copy, (s.copies copy).Intact s.fs
  taken : ∀ p ∈ s.taken, p ∈ s.handedOut ∧ s.fs.buffers p = none ∧
    ∀ copy, (s.copies copy).path? ≠ some p

variable {s t : BufferSystem} {copy client : ℕ} {p q : Path} {staging : ChunkStaging}
  {fs : OpenzlBufferFileSystem} {h : OpenzlBufferFileHandle} {f : OrdinaryFile}
  {opened taken : List Path}

theorem sound_initial : Sound {} where
  separate := ⟨nofun, nofun⟩
  bounded := Nat.zero_le _
  counter := rfl
  handedOut _ := ⟨nofun, fun ⟨n, hn, _⟩ ↦ absurd hn (Nat.not_lt_zero n)⟩
  registered := nofun
  opened := nofun
  client := nofun
  path := nofun
  alone := nofun
  intact _ := trivial
  taken := nofun

theorem Sound.not_foreign (hs : s.Sound) (hp : p ∈ s.handedOut) : ¬Foreign p := by
  obtain ⟨n, hn, rfl⟩ := (hs.handedOut p).mp hp
  exact fun hforeign ↦ hforeign n (hn.trans_le hs.bounded) rfl

/-- A client's path is none of a COPY. -/
theorem Sound.ne_of_foreign (hs : s.Sound) (hq : Foreign q)
    (hp : (s.copies copy).path? = some p) : p ≠ q := by
  rintro rfl
  exact hs.not_foreign (hs.path copy p hp) hq

theorem setCopy_self (s : BufferSystem) (copy : ℕ) (staging : ChunkStaging) :
    (s.setCopy copy staging).copies copy = staging :=
  Function.update_self ..

theorem setCopy_of_ne {other : ℕ} (hne : other ≠ copy) :
    (s.setCopy copy staging).copies other = s.copies other :=
  Function.update_of_ne hne ..

theorem setClient_self (s : BufferSystem) (client : ℕ) (handle : Option OpenzlBufferFileHandle) :
    (s.setClient client handle).clients client = handle :=
  Function.update_self ..

theorem setClient_of_ne {other : ℕ} {handle : Option OpenzlBufferFileHandle}
    (hne : other ≠ client) : (s.setClient client handle).clients other = s.clients other :=
  Function.update_of_ne hne ..

theorem path?_setCopy {other : ℕ} (hp : ((s.setCopy copy staging).copies other).path? = some p) :
    other = copy ∧ staging.path? = some p ∨ other ≠ copy ∧ (s.copies other).path? = some p := by
  rcases eq_or_ne other copy with rfl | hne
  · rw [setCopy_self] at hp
    exact .inl ⟨rfl, hp⟩
  · rw [setCopy_of_ne hne] at hp
    exact .inr ⟨hne, hp⟩

/-- A COPY does something to the path it has, or gives it up. -/
theorem Sound.copyStep (hs : s.Sound) (hq : (s.copies copy).path? = some q)
    (hseparate : fs.Separate) (hcounter : fs.counter = s.fs.counter)
    (hkeeps : ∀ p, p ≠ q → s.fs.Keeps fs p) (hintact : staging.Intact fs)
    (hpath : staging.path? = none ∨ staging.path? = some q)
    (hopened : ∀ p ∈ opened, p = q ∨ p ∈ s.opened)
    (htaken : ∀ p ∈ taken, p ∈ s.taken ∨ p = q ∧ fs.buffers q = none ∧ staging.path? = none) :
    Sound (setCopy { s with fs := fs, opened := opened, taken := taken } copy staging) := by
  have hhanded := hs.path copy q hq
  -- what a COPY has afterwards it had before
  have hhad : ∀ other p, ((setCopy { s with fs := fs, opened := opened, taken := taken } copy
      staging).copies other).path? = some p → (s.copies other).path? = some p := by
    intro other p hp
    rcases path?_setCopy hp with ⟨rfl, hp'⟩ | ⟨-, hp'⟩
    · rcases hpath with hnone | hsome
      · cases hnone.symm.trans hp'
      · rwa [hsome.symm.trans hp'] at hq
    · exact hp'
  constructor
  · exact hseparate
  · exact hs.bounded
  · exact hcounter.trans hs.counter
  · exact hs.handedOut
  · intro p id hid
    by_cases hne : p = q
    · exact .inl (hne ▸ hhanded)
    · exact hs.registered p id ((hkeeps p hne).buffers.symm.trans hid)
  · intro p hp
    rcases hopened p hp with rfl | hp
    · exact .inl hhanded
    · exact hs.opened p hp
  · intro client h hclient
    obtain ⟨hbuffer, hforeign⟩ := hs.client client h hclient
    have hne : h.path ≠ q := (hs.ne_of_foreign hforeign hq).symm
    exact ⟨(hkeeps _ hne).buffers.trans hbuffer, hforeign⟩
  · exact fun other p hp ↦ hs.path other p (hhad other p hp)
  · exact fun copy other p hp hp' ↦ hs.alone copy other p (hhad copy p hp) (hhad other p hp')
  · intro other
    rcases eq_or_ne other copy with rfl | hne
    · rw [setCopy_self]
      exact hintact
    · rw [setCopy_of_ne hne]
      refine (hs.intact other).of_keeps fun p hp ↦ hkeeps p ?_
      rintro rfl
      exact hne (hs.alone other copy p hp hq)
  · intro p hp
    rcases htaken p hp with hp | ⟨rfl, hnone, hgone⟩
    · obtain ⟨hmem, hnone, hnobody⟩ := hs.taken p hp
      have hne : p ≠ q := by
        rintro rfl
        exact hnobody copy hq
      exact ⟨hmem, (hkeeps p hne).buffers.trans hnone,
        fun other hp ↦ hnobody other (hhad other p hp)⟩
    · refine ⟨hhanded, hnone, fun other hp ↦ ?_⟩
      rcases path?_setCopy hp with ⟨-, hp'⟩ | ⟨hne, hp'⟩
      · cases hgone.symm.trans hp'
      · exact hne (hs.alone other copy p hp' hq)

/-- Another client does something to a path that is never handed out. -/
theorem Sound.clientStep (hs : s.Sound) (hq : Foreign q) (hseparate : fs.Separate)
    (hcounter : fs.counter = s.fs.counter) (hkeeps : ∀ p, p ≠ q → s.fs.Keeps fs p)
    (hsame : ∀ id, s.fs.buffers q = some id → fs.buffers q = some id)
    {opened : List Path} {handle : Option OpenzlBufferFileHandle}
    (hopened : ∀ p ∈ opened, p = q ∨ p ∈ s.opened)
    (hhandle : ∀ h, handle = some h → h.path = q ∧ fs.buffers q = some h.buffer) :
    Sound (setClient { s with fs := fs, opened := opened } client handle) := by
  have hne : ∀ p ∈ s.handedOut, p ≠ q := by
    rintro p hp rfl
    exact hs.not_foreign hp hq
  constructor
  · exact hseparate
  · exact hs.bounded
  · exact hcounter.trans hs.counter
  · exact hs.handedOut
  · intro p id hid
    by_cases hp : p = q
    · exact .inr (hp ▸ hq)
    · exact hs.registered p id ((hkeeps p hp).buffers.symm.trans hid)
  · intro p hp
    rcases hopened p hp with rfl | hp
    · exact .inr hq
    · exact hs.opened p hp
  · intro other h hother
    rcases eq_or_ne other client with rfl | hdiff
    · rw [setClient_self] at hother
      obtain ⟨rfl, hbuffer⟩ := hhandle h hother
      exact ⟨hbuffer, hq⟩
    · rw [setClient_of_ne hdiff] at hother
      obtain ⟨hbuffer, hforeign⟩ := hs.client other h hother
      refine ⟨?_, hforeign⟩
      by_cases hp : h.path = q
      · rw [hp] at hbuffer ⊢
        exact hsame _ hbuffer
      · exact (hkeeps _ hp).buffers.trans hbuffer
  · exact hs.path
  · exact hs.alone
  · exact fun copy ↦ (hs.intact copy).of_keeps fun p hp ↦ hkeeps p (hne p (hs.path copy p hp))
  · intro p hp
    obtain ⟨hmem, hnone, hnobody⟩ := hs.taken p hp
    exact ⟨hmem, (hkeeps p (hne p hmem)).buffers.trans hnone, hnobody⟩

/-- The path that the counter stands at is new. -/
theorem Sound.next (hs : s.Sound) (hlength : s.handedOut.length < 2 ^ 64) :
    s.fs.generateUniquePath.1 = uniquePath s.handedOut.length ∧
      s.fs.generateUniquePath.1 ∉ s.handedOut ∧ s.fs.generateUniquePath.1 ∉ s.opened ∧
        s.fs.buffers s.fs.generateUniquePath.1 = none := by
  have hpath : s.fs.generateUniquePath.1 = uniquePath s.handedOut.length := by
    change uniquePath s.fs.counter = _
    rw [hs.counter, Nat.mod_eq_of_lt hlength]
  have hnew : uniquePath s.handedOut.length ∉ s.handedOut := by
    rw [hs.handedOut]
    rintro ⟨n, hn, heq⟩
    exact hn.ne' (uniquePath_injective heq)
  have hnotForeign : ¬Foreign (uniquePath s.handedOut.length) := fun hforeign ↦
    hforeign _ hlength rfl
  rw [hpath]
  refine ⟨rfl, hnew, ?_, ?_⟩
  · intro hopened
    exact (hs.opened _ hopened).elim hnew hnotForeign
  · cases hid : s.fs.buffers (uniquePath s.handedOut.length) with
    | none => rfl
    | some id => exact absurd (hs.registered _ id hid) (not_or.mpr ⟨hnew, hnotForeign⟩)

theorem Sound.generateUniquePath (hs : s.Sound) (hlength : s.handedOut.length < 2 ^ 64) :
    Sound (setCopy { s with
      fs := s.fs.generateUniquePath.2
      handedOut := s.fs.generateUniquePath.1 :: s.handedOut } copy
        (.named s.fs.generateUniquePath.1)) := by
  obtain ⟨hpath, hnew, -, hnone⟩ := hs.next hlength
  have hold : ∀ other p, (s.copies other).path? = some p → p ≠ s.fs.generateUniquePath.1 := by
    rintro other p hp rfl
    exact hnew (hs.path other _ hp)
  constructor
  · exact ⟨hs.separate.unique, hs.separate.allocated⟩
  · exact hlength
  · change add64 s.fs.counter 1 = (s.handedOut.length + 1) % 2 ^ 64
    rw [hs.counter, add64, Nat.mod_add_mod]
  · intro p
    change p ∈ s.fs.generateUniquePath.1 :: s.handedOut ↔
      ∃ n < s.handedOut.length + 1, p = uniquePath n
    rw [List.mem_cons, hs.handedOut, hpath]
    constructor
    · rintro (rfl | ⟨n, hn, rfl⟩)
      · exact ⟨_, Nat.lt_succ_self _, rfl⟩
      · exact ⟨n, hn.trans (Nat.lt_succ_self _), rfl⟩
    · rintro ⟨n, hn, rfl⟩
      rcases Nat.lt_succ_iff_lt_or_eq.mp hn with hn | rfl
      · exact .inr ⟨n, hn, rfl⟩
      · exact .inl rfl
  · exact fun p id hid ↦ (hs.registered p id hid).imp_left (List.mem_cons_of_mem _)
  · exact fun p hp ↦ (hs.opened p hp).imp_left (List.mem_cons_of_mem _)
  · exact hs.client
  · intro other p hp
    rcases path?_setCopy hp with ⟨-, hp'⟩ | ⟨-, hp'⟩
    · exact Option.some.inj hp' ▸ List.mem_cons_self
    · exact List.mem_cons_of_mem _ (hs.path other p hp')
  · intro first second p hp hp'
    rcases path?_setCopy hp with ⟨rfl, hfirst⟩ | ⟨-, hfirst⟩ <;>
      rcases path?_setCopy hp' with ⟨rfl, hsecond⟩ | ⟨-, hsecond⟩
    · rfl
    · exact absurd (Option.some.inj hfirst).symm (hold second p hsecond)
    · exact absurd (Option.some.inj hsecond).symm (hold first p hfirst)
    · exact hs.alone first second p hfirst hsecond
  · intro other
    rcases eq_or_ne other copy with rfl | hne
    · rw [setCopy_self]
      exact hnone
    · rw [setCopy_of_ne hne]
      exact (hs.intact other).of_keeps fun p _ ↦ ⟨rfl, fun _ _ ↦ rfl⟩
  · intro p hp
    obtain ⟨hmem, hnone', hnobody⟩ := hs.taken p hp
    refine ⟨List.mem_cons_of_mem _ hmem, hnone', fun other hp' ↦ ?_⟩
    rcases path?_setCopy hp' with ⟨-, hp''⟩ | ⟨-, hp''⟩
    · exact hnew (Option.some.inj hp'' ▸ hmem)
    · exact hnobody other hp''

/-! ## Steps and runs -/

theorem Sound.openFile (hs : s.Sound) {path : Path} (hcopy : s.copies copy = .named path) :
    Sound (setCopy { s with fs := (s.fs.openFile path).2, opened := path :: s.opened } copy
      (.writing (s.fs.openFile path).1 ⟨[], 0⟩)) := by
  have hintact := hs.intact copy
  rw [hcopy] at hintact
  obtain ⟨hpath, hposition, hcounter⟩ := OpenzlBufferFileSystem.openFile_handle s.fs path
  have hself := OpenzlBufferFileSystem.openFile_self s.fs path
  have hempty := OpenzlBufferFileSystem.openFile_empty hintact
  refine hs.copyStep (q := path) (congrArg ChunkStaging.path? hcopy) (hs.separate.openFile path)
    hcounter (fun p hne ↦ hs.separate.openFile_keeps hne) ?_ (.inr (congrArg some hpath))
    (fun p hp ↦ List.mem_cons.mp hp) fun p hp ↦ .inl hp
  refine ⟨?_, hempty, hposition, Nat.two_pow_pos 63, Nat.two_pow_pos 63⟩
  rw [hpath]
  exact hself

theorem Sound.call (hs : s.Sound) {c : FileCall} (hcopy : s.copies copy = .writing h f)
    (hc : c.Ordinary) :
    Sound (setCopy { s with fs := (s.fs.run h c).2.1 } copy
      (.writing (s.fs.run h c).2.2 (f.run c).2)) := by
  have hintact := hs.intact copy
  rw [hcopy] at hintact
  obtain ⟨hbuffer, hm⟩ := hintact
  obtain ⟨content, hset, hpath, hid⟩ := s.fs.run_setString h c
  obtain ⟨-, hm', hsame⟩ := hm.run hc
  refine hs.copyStep (q := h.path) (congrArg ChunkStaging.path? hcopy) ?_ hsame.counter ?_ ?_
    (.inr (congrArg some hpath)) (fun p hp ↦ .inr hp) fun p hp ↦ .inl hp
  · rw [hset]
    exact hs.separate.setString _ _
  · intro p hne
    rw [hset]
    exact hs.separate.setString_keeps hbuffer hne content
  · refine ⟨?_, hm'⟩
    rw [hsame.buffers, hpath, hid]
    exact hbuffer

theorem Sound.takeBuffer (hs : s.Sound) {bytes : Bytes} (hcopy : s.copies copy = .writing h f)
    (htake : s.fs.takeBuffer h.path = .ok (bytes, fs)) :
    Sound (setCopy { s with fs := fs, taken := h.path :: s.taken } copy .idle) := by
  have hnone : fs.buffers h.path = none := by
    obtain ⟨id, -, -, rfl⟩ := OpenzlBufferFileSystem.takeBuffer_ok htake
    exact Function.update_self ..
  have hcounter : fs.counter = s.fs.counter := by
    obtain ⟨id, -, -, rfl⟩ := OpenzlBufferFileSystem.takeBuffer_ok htake
    rfl
  refine hs.copyStep (q := h.path) (congrArg ChunkStaging.path? hcopy)
    (hs.separate.takeBuffer htake)
    hcounter (fun p hne ↦ hs.separate.takeBuffer_keeps htake hne) trivial (.inl rfl)
    (fun p hp ↦ .inr hp) fun p hp ↦ ?_
  rcases List.mem_cons.mp hp with rfl | hp
  · exact .inr ⟨rfl, hnone, rfl⟩
  · exact .inl hp

/-- A COPY lets go of its path, and what is registered stays. -/
theorem Sound.abandon (hs : s.Sound) (copy : ℕ) : Sound (s.setCopy copy .idle) := by
  have hidle : ChunkStaging.Intact s.fs .idle := trivial
  cases hq : (s.copies copy).path? with
  | some q =>
      exact hs.copyStep hq hs.separate rfl (fun p _ ↦ ⟨rfl, fun _ _ ↦ rfl⟩) hidle (.inl rfl)
        (fun p hp ↦ .inr hp) fun p hp ↦ .inl hp
  | none =>
      have hidle : s.copies copy = .idle := by
        cases hcopy : s.copies copy with
        | idle => rfl
        | named path => simp [hcopy, ChunkStaging.path?] at hq
        | writing h f => simp [hcopy, ChunkStaging.path?] at hq
      have hsame : s.setCopy copy .idle = s := by
        rw [setCopy, ← hidle, Function.update_eq_self]
      rw [hsame]
      exact hs

/-- A path that is neither handed out nor to be handed out is no path of the counter. -/
theorem Sound.foreign_of_apart (hs : s.Sound) {path : Path} (hpath : path ∉ s.handedOut)
    (hapart : ∀ n, s.fs.counter ≤ n → n < 2 ^ 64 → path ≠ uniquePath n) : Foreign path := by
  intro n hn heq
  rcases lt_or_ge n s.handedOut.length with hlt | hge
  · exact hpath ((hs.handedOut path).mpr ⟨n, hlt, heq⟩)
  · have hcounter := hs.counter
    rw [Nat.mod_eq_of_lt (hge.trans_lt hn)] at hcounter
    exact hapart n (hcounter.trans_le hge) hn heq

theorem Sound.clientOpen (hs : s.Sound) {path : Path} (hforeign : Foreign path) :
    Sound (setClient { s with fs := (s.fs.openFile path).2, opened := path :: s.opened } client
      (some (s.fs.openFile path).1)) := by
  obtain ⟨hpath, -, hcounter⟩ := OpenzlBufferFileSystem.openFile_handle s.fs path
  have hself := OpenzlBufferFileSystem.openFile_self s.fs path
  refine hs.clientStep hforeign (hs.separate.openFile path) hcounter
    (fun p hne ↦ hs.separate.openFile_keeps hne) ?_ (fun p hp ↦ List.mem_cons.mp hp) ?_
  · intro id hid
    rw [OpenzlBufferFileSystem.openFile_of_some hid]
    exact hid
  · rintro h heq
    obtain rfl := Option.some.inj heq
    exact ⟨hpath, hself⟩

theorem Sound.clientCall (hs : s.Sound) {c : FileCall} (hclient : s.clients client = some h) :
    Sound (setClient { s with fs := (s.fs.run h c).2.1 } client (some (s.fs.run h c).2.2)) := by
  obtain ⟨hbuffer, hforeign⟩ := hs.client client h hclient
  obtain ⟨content, hset, hpath, hid⟩ := s.fs.run_setString h c
  rw [hset]
  refine hs.clientStep hforeign (hs.separate.setString _ _) rfl
    (fun p hne ↦ hs.separate.setString_keeps hbuffer hne content) (fun id hid ↦ hid)
    (fun p hp ↦ .inr hp) ?_
  rintro h' heq
  obtain rfl := Option.some.inj heq
  refine ⟨hpath, ?_⟩
  rw [hid]
  exact hbuffer

theorem Sound.clientClose (hs : s.Sound) (client : ℕ) : Sound (s.setClient client none) := by
  refine { hs with client := ?_ }
  intro other h hother
  rcases eq_or_ne other client with rfl | hne
  · rw [setClient_self] at hother
    cases hother
  · rw [setClient_of_ne hne] at hother
    exact hs.client other h hother

theorem Sound.step (hs : s.Sound) {a : BufferAction} (hapart : s.Apart a)
    (hstep : s.step a = some t) : t.Sound := by
  cases a with
  | generateUniquePath copy =>
      dsimp only [BufferSystem.step] at hstep
      split at hstep
      · obtain rfl := Option.some.inj hstep
        exact hs.generateUniquePath hapart
      · cases hstep
  | openFile copy =>
      dsimp only [BufferSystem.step] at hstep
      split at hstep
      · obtain rfl := Option.some.inj hstep
        exact hs.openFile ‹_›
      · cases hstep
  | call copy c =>
      dsimp only [BufferSystem.step] at hstep
      split at hstep
      · split at hstep
        · obtain rfl := Option.some.inj hstep
          exact hs.call ‹_› ‹_›
        · cases hstep
      · cases hstep
  | takeBuffer copy =>
      dsimp only [BufferSystem.step] at hstep
      split at hstep
      · split at hstep
        · obtain rfl := Option.some.inj hstep
          exact hs.takeBuffer ‹_› ‹_›
        · obtain rfl := Option.some.inj hstep
          exact hs.abandon copy
      · cases hstep
  | abandon copy => exact Option.some.inj hstep ▸ hs.abandon copy
  | clientOpen client path =>
      dsimp only [BufferSystem.step] at hstep
      split at hstep
      · cases hstep
      · obtain rfl := Option.some.inj hstep
        exact hs.clientOpen (hs.foreign_of_apart ‹_› hapart)
  | clientCall client c =>
      dsimp only [BufferSystem.step] at hstep
      split at hstep
      · split at hstep
        · obtain rfl := Option.some.inj hstep
          exact hs.clientCall ‹_›
        · cases hstep
      · cases hstep
  | clientClose client => exact Option.some.inj hstep ▸ hs.clientClose client

theorem Sound.ownBytes (hs : s.Sound) : s.OwnBytes where
  fresh hlength := by
    obtain ⟨-, hnew, hunopened, -⟩ := hs.next hlength
    exact ⟨hnew, hunopened⟩
  empty copy path hcopy := by
    have hintact := hs.intact copy
    rw [hcopy] at hintact
    exact OpenzlBufferFileSystem.openFile_empty hintact
  peek copy h f hcopy := by
    have hintact := hs.intact copy
    rw [hcopy] at hintact
    rw [OpenzlBufferFileSystem.peekSize_of_some hintact.1, hintact.2.content]
  take copy h f hcopy := by
    have hintact := hs.intact copy
    rw [hcopy] at hintact
    have htake := OpenzlBufferFileSystem.takeBuffer_of_some hintact.1
    rw [hintact.2.content] at htake
    exact ⟨_, htake, OpenzlBufferFileSystem.takeBuffer_of_none (Function.update_self ..)⟩
  once p hp := OpenzlBufferFileSystem.takeBuffer_of_none (hs.taken p hp).2.1

/-- While no client opens a path before it is handed out, and the counter has not wrapped, every
COPY takes what it wrote, once. -/
theorem ownBytes_of_apart (hrun : ReflTransGen ApartStep {} s) : s.OwnBytes := by
  have hsound : s.Sound := Runs.invariant (fun s t hs hstep ↦ by
    obtain ⟨a, hapart, hstep⟩ := hstep
    exact hs.step hapart hstep) sound_initial hrun
  exact hsound.ownBytes

theorem scheme_ne_uniquePath (n : ℕ) : bufferScheme ≠ uniquePath n := by
  intro heq
  have hdigits : (toString n).toList = Nat.toDigits 10 n := Nat.toList_repr
  have hlength := congrArg List.length (congrArg String.toList heq)
  rw [uniquePath, String.toList_append, List.length_append, hdigits] at hlength
  have hpos : 0 < (Nat.toDigits 10 n).length := Nat.length_toDigits_pos
  omega

/-- Two COPYs and a client side by side. -/
theorem ownBytes_of_apart_two : ∃ s : BufferSystem,
    List.foldlM step {} [.clientOpen 0 bufferScheme, .generateUniquePath 0, .generateUniquePath 1,
      .openFile 0, .openFile 1, .call 0 (.write [1]), .clientCall 0 (.write [3]),
      .call 1 (.write [2]), .takeBuffer 0] = some s ∧ s.OwnBytes := by
  refine ⟨_, rfl, ownBytes_of_apart ?_⟩
  have hnext : ∀ s : BufferSystem, s.handedOut.length < 2 → s.handedOut.length < 2 ^ 64 :=
    fun s hlength ↦ hlength.trans (by decide)
  exact .head ⟨.clientOpen 0 bufferScheme, fun n _ _ ↦ scheme_ne_uniquePath n, rfl⟩ <|
    .head ⟨.generateUniquePath 0, hnext _ (by decide), rfl⟩ <|
    .head ⟨.generateUniquePath 1, hnext _ (by decide), rfl⟩ <|
    .head ⟨.openFile 0, trivial, rfl⟩ <| .head ⟨.openFile 1, trivial, rfl⟩ <|
    .head ⟨.call 0 (.write [1]), trivial, rfl⟩ <|
    .head ⟨.clientCall 0 (.write [3]), trivial, rfl⟩ <|
    .head ⟨.call 1 (.write [2]), trivial, rfl⟩ <| .single ⟨.takeBuffer 0, trivial, rfl⟩

/-- A client has opened and written the first path before it is handed out: the COPY that gets it
takes the client's bytes behind its own. -/
theorem clientBytes_taken : ∃ s : BufferSystem, ReflTransGen Step {} s ∧ ¬s.OwnBytes ∧
    ∃ h f fs, s.copies 0 = .writing h f ∧ f.content = [9] ∧
      s.fs.takeBuffer h.path = .ok ([9, 2, 3], fs) := by
  have hrun : ∃ s : BufferSystem, ReflTransGen Step {} s ∧ ∃ h f fs, s.copies 0 = .writing h f ∧
      f.content = [9] ∧ s.fs.takeBuffer h.path = .ok ([9, 2, 3], fs) :=
    ⟨_, .head ⟨.clientOpen 0 "openzl-buffer://0", rfl⟩ <|
      .head ⟨.clientCall 0 (.write [1, 2, 3]), rfl⟩ <| .head ⟨.generateUniquePath 0, rfl⟩ <|
      .head ⟨.openFile 0, rfl⟩ <| .single ⟨.call 0 (.write [9]), rfl⟩, _, _, _, rfl, rfl, rfl⟩
  obtain ⟨s, hsteps, h, f, fs, hcopy, hcontent, htake⟩ := hrun
  refine ⟨s, hsteps, fun hown ↦ ?_, h, f, fs, hcopy, hcontent, htake⟩
  obtain ⟨fs', htake', -⟩ := hown.take 0 h f hcopy
  rw [htake, hcontent] at htake'
  cases htake'

/-- Wherever a run is, a client that opens and writes the next path spoils the COPY that gets it. -/
theorem not_ownBytes_of_early_open (hs : s.Sound) (hlength : s.handedOut.length < 2 ^ 64)
    (hidle : s.copies copy = .idle) (client : ℕ) :
    ∃ t, ReflTransGen Step s t ∧ ¬t.OwnBytes := by
  obtain ⟨-, hnew, -, hnone⟩ := hs.next hlength
  let p := s.fs.generateUniquePath.1
  let c : FileCall := .write [0]
  obtain ⟨hpath, hposition, hcounter⟩ := OpenzlBufferFileSystem.openFile_handle s.fs p
  have hbuffer := OpenzlBufferFileSystem.openFile_self s.fs p
  let s₁ := setClient { s with fs := (s.fs.openFile p).2, opened := p :: s.opened } client
    (some (s.fs.openFile p).1)
  have hopened : s.step (.clientOpen client p) = some s₁ := if_neg hnew
  have hm : Mirrors s₁.fs (s.fs.openFile p).1 ⟨[], 0⟩ :=
    ⟨OpenzlBufferFileSystem.openFile_empty hnone, hposition, Nat.two_pow_pos 63, Nat.two_pow_pos 63⟩
  have hc : c.Ordinary := ⟨List.cons_ne_nil 0 [], by decide⟩
  obtain ⟨-, hm', hsame⟩ := hm.run hc
  let s₂ := setClient { s₁ with fs := (s₁.fs.run (s.fs.openFile p).1 c).2.1 } client
    (some (s₁.fs.run (s.fs.openFile p).1 c).2.2)
  have hcalled : s₁.step (.clientCall client c) = some s₂ := by
    dsimp only [step]
    rw [show s₁.clients client = some (s.fs.openFile p).1 from setClient_self ..]
    exact if_pos hc
  have hp : s₂.fs.generateUniquePath.1 = p := by
    change uniquePath s₂.fs.counter = uniquePath s.fs.counter
    exact congrArg uniquePath (hsame.counter.trans hcounter)
  let s₃ := setCopy { s₂ with
    fs := s₂.fs.generateUniquePath.2
    handedOut := s₂.fs.generateUniquePath.1 :: s₂.handedOut } copy
      (.named s₂.fs.generateUniquePath.1)
  have hnamed : s₂.step (.generateUniquePath copy) = some s₃ := by
    dsimp only [step]
    rw [show s₂.copies copy = .idle from hidle]
  refine ⟨s₃, .head ⟨_, hopened⟩ (.head ⟨_, hcalled⟩ (.single ⟨_, hnamed⟩)), fun hown ↦ ?_⟩
  have hempty := hown.empty copy p (by rw [← hp]; exact setCopy_self ..)
  have hregistered : s₃.fs.buffers p = some (s.fs.openFile p).1.buffer :=
    (congrFun hsame.buffers p).trans hbuffer
  rw [OpenzlBufferFileSystem.openFile_of_some hregistered, ← hsame.buffer] at hempty
  have hcontent := hm'.content
  cases hcontent.symm.trans hempty

end BufferSystem

end DuckdbOpenzl
