import DuckdbOpenzl.Copy.InMemory
import DuckdbOpenzl.FileSystem.SeparateBuffers

/-!
# A parquet writer that only appends

The callbacks over outcomes are what is seen of the callbacks over file calls
when each call on the parquet writer is one write at the end of its target.
`outline` forgets the handles and the string objects; a COPY then takes the
same steps on both sides, whether it returns or throws.
-/

set_option autoImplicit false

namespace DuckdbOpenzl

open ExceptionState FileContent OpenzlBufferFileSystem

/-- States of the writer that a COPY of these batches does not leave, and in which no call writes
more than `n` bytes. -/
structure ParquetCopyFunction.WritesAtMost (P : ParquetCopyFunction) (batches : List (List P.Row))
    (n : ℕ) where
  Global : P.GlobalState → Prop
  Local : P.LocalState → Prop
  initializeGlobal : ∀ k o, P.initializeGlobal k = .ok o →
    o.written.length ≤ n ∧ ∀ g, o.result = .ok g → Global g
  initializeLocal : ∀ k l, P.initializeLocal k = .ok l → Local l
  sink : ∀ k, ∀ input ∈ batches, ∀ g l, Global g → Local l →
    (P.sink k input g l).written.length ≤ n ∧
      ∀ r, (P.sink k input g l).result = .ok r → Global r.1 ∧ Local r.2
  combine : ∀ k g l, Global g → Local l →
    (P.combine k g l).written.length ≤ n ∧ ∀ g', (P.combine k g l).result = .ok g' → Global g'
  finalize : ∀ k g, Global g → (P.finalize k g).written.length ≤ n

namespace Staging

variable {P : ParquetCopyFunction} {batches : List (List P.Row)} {zl : OpenZL}
  {bind : OpenzlCopyBindData} {m n : ℕ}

/-! ## Without handles -/

/-- What is held at each path, and memory for every string. -/
def Process.outline (p : Process) : CopyProcess where
  world := p.world
  counter := p.bufferFileSystem.counter
  buffers := p.bufferFileSystem.contents
  fallbackChunks := p.fallbackChunks
  hostCalls := p.hostCalls

def State.outline (s : State (.ofAppends P)) : CopyState P where
  process := s.process.outline
  gstate :=
    { tmpParquetPath := s.gstate.tmpParquetPath
      finalZlPath := s.gstate.finalZlPath
      parquetGlobalState := s.gstate.parquetGlobalState.map Prod.fst
      archive := s.gstate.archive
      chunkIndex := s.gstate.chunkIndex
      currentChunkOpen := s.gstate.currentChunkOpen }
  lstate := s.lstate

theorem outline_initial (p : Process) (filePath : Path) :
    (State.initial (.ofAppends P) p filePath).outline = CopyState.initial P p.outline filePath :=
  rfl

theorem outline_destroy (s : State (.ofAppends P)) : s.destroy.outline = s.outline.destroy := rfl

/-! ## The registry between the calls -/

/-- Paths do not share strings, and the next `m` paths are new. -/
structure Upcoming (m : ℕ) (fs : OpenzlBufferFileSystem) : Prop where
  separate : fs.Separate
  free : ∀ k ≥ fs.counter, fs.buffers (uniquePath k) = none
  counter : fs.counter + m < 2 ^ 64

namespace Upcoming

variable {fs fs' : OpenzlBufferFileSystem}

theorem mono (h : Upcoming m fs) {k : ℕ} (hk : k ≤ m) : Upcoming k fs :=
  ⟨h.separate, h.free, (Nat.add_le_add_left hk _).trans_lt h.counter⟩

theorem setString (h : Upcoming m fs) (id : ℕ) (bytes : Bytes) :
    Upcoming m (fs.setString id bytes) :=
  ⟨h.separate.setString id bytes, h.free, h.counter⟩

theorem takeBuffer (h : Upcoming m fs) {path : Path} {bytes : Bytes}
    (htake : fs.takeBuffer path = .ok (bytes, fs')) : Upcoming m fs' := by
  have hseparate := h.separate.takeBuffer htake
  obtain ⟨id, -, -, rfl⟩ := takeBuffer_ok htake
  refine ⟨hseparate, fun k hk ↦ ?_, h.counter⟩
  dsimp only
  by_cases hpath : uniquePath k = path
  · rw [hpath, Function.update_self]
  · rw [Function.update_of_ne hpath]
    exact h.free k hk

/-- The path that is handed out is new, and so are those after it. -/
theorem generateUniquePath (h : Upcoming (m + 1) fs) :
    fs.generateUniquePath =
        (uniquePath fs.counter, { fs with counter := fs.counter + 1 }) ∧
      Upcoming m { fs with counter := fs.counter + 1 } := by
  have hcounter := h.counter
  constructor
  · unfold OpenzlBufferFileSystem.generateUniquePath
    rw [add64_eq (by omega)]
    rfl
  · exact ⟨⟨h.separate.unique, h.separate.allocated⟩,
      fun k hk ↦ h.free k ((Nat.le_succ _).trans hk), by
        dsimp only
        omega⟩

theorem openFile (h : Upcoming m fs) {path : Path} (hpath : ∀ k ≥ fs.counter, uniquePath k ≠ path) :
    Upcoming m (fs.openFile path).2 := by
  have hcounter : (fs.openFile path).2.counter = fs.counter := (openFile_handle fs path).2.2
  refine ⟨h.separate.openFile path, fun k hk ↦ ?_, ?_⟩
  · rw [hcounter] at hk
    rw [openFile_other (hpath k hk)]
    exact h.free k hk
  · rw [hcounter]
    exact h.counter

end Upcoming

/-! ## One append -/

/-- The handle is at the end of the target. -/
inductive AtEnd (p : Process) (path : Path) (content : Bytes) : Bool → Handle → Prop
  | buffer {h : OpenzlBufferFileHandle}
      (registered : p.bufferFileSystem.buffers path = some h.buffer)
      (mirrors : Mirrors p.bufferFileSystem h ⟨content, content.length⟩) :
      AtEnd p path content true (.buffer h)
  | file (held : p.world.content path = some content) :
      AtEnd p path content false (.file path content.length)

theorem AtEnd.called {p : Process} {path : Path} {content : Bytes} {inMemory : Bool}
    {handle : Handle} (h : AtEnd p path content inMemory handle) :
    AtEnd p.called path content inMemory handle := by
  cases h with
  | buffer registered mirrors => exact .buffer registered mirrors
  | file held => exact .file held

/-- One write at the end of a file that stays below the limit. -/
theorem runFile_appending {α : Type} (o : HostOutcome α) {content : Bytes}
    (hlength : content.length + o.written.length < 2 ^ 63) :
    (appending o).runFile ⟨content, content.length⟩ =
      (o.result, ⟨content ++ o.written, (content ++ o.written).length⟩) := by
  unfold appending
  by_cases hord : (FileCall.write o.written).Ordinary
  · rw [dif_pos hord, FileProgram.runFile, FileProgram.runFile]
    unfold OrdinaryFile.run OrdinaryFile.writeAt
    dsimp only
    rw [if_pos hlength, apply_write_length, List.length_append]
  · have hnil : o.written = [] := by
      by_contra hne
      exact hord ⟨hne, by omega⟩
    rw [dif_neg hord, FileProgram.runFile, hnil, List.append_nil]

/-- A call that is one append, on either target. -/
theorem Process.run_appending {α : Type} {p : Process} {path : Path} {content : Bytes}
    {inMemory : Bool} {handle : Handle} (o : HostOutcome α)
    (h : AtEnd p path content inMemory handle) (hfs : Upcoming m p.bufferFileSystem)
    (hlength : content.length + o.written.length < 2 ^ 63) :
    ∃ handle' p', p.run (appending o) handle = (o.result, handle', p') ∧
      AtEnd p' path (content ++ o.written) inMemory handle' ∧ Upcoming m p'.bufferFileSystem ∧
        p'.outline = p.outline.appendTarget inMemory path o.written := by
  have hfile := runFile_appending o hlength
  cases h with
  | @buffer h registered mirrors =>
      obtain ⟨hresult, hmirrors, hsame⟩ := (appending o).runBuffer_eq mirrors
      obtain ⟨content', hset⟩ := (appending o).runBuffer_setString p.bufferFileSystem h
      rw [hfile] at hresult hmirrors
      -- the string of the handle is the appended content
      have hcontent := hmirrors.content
      rw [hsame.buffer, hset] at hcontent
      change Function.update p.bufferFileSystem.strings h.buffer content' h.buffer =
        content ++ o.written at hcontent
      rw [Function.update_self] at hcontent
      have hrun : p.run (appending o) (.buffer h) =
          (o.result, .buffer ((appending o).runBuffer p.bufferFileSystem h).2.2,
            { p with bufferFileSystem := p.bufferFileSystem.setString h.buffer content' }) := by
        rw [← hset]
        exact Prod.ext hresult rfl
      refine ⟨_, _, hrun, .buffer ?_ ?_, hfs.setString _ _, ?_⟩
      · rw [hsame.buffer]
        exact registered
      · rw [← hset]
        exact hmirrors
      · have hheld : p.bufferFileSystem.contents path = some content := by
          rw [contents, registered, Option.map_some, mirrors.content]
        unfold Process.outline CopyProcess.appendTarget
        dsimp only
        rw [if_pos rfl, hfs.separate.contents_setString registered, hheld, hcontent,
          Option.map_some]
        rfl
  | file held =>
      have hrun : p.run (appending o) (.file path content.length) =
          (o.result, .file path (content ++ o.written).length,
            { p with world := p.world.put path (content ++ o.written) }) := by
        unfold Process.run
        dsimp only
        rw [held, Option.getD_some, hfile]
      refine ⟨_, _, hrun, .file (World.content_put_self ..), hfs, ?_⟩
      unfold Process.outline CopyProcess.appendTarget World.store
      dsimp only
      rw [if_neg Bool.false_ne_true, held, Option.getD_some]

/-- Opening a target that is new, or a file. -/
theorem Process.openFile_outline {p : Process} {path : Path} (inMemory : Bool)
    (hfs : Upcoming m p.bufferFileSystem)
    (hfree : inMemory = true → p.bufferFileSystem.buffers path = none)
    (hpath : inMemory = true → ∀ k ≥ p.bufferFileSystem.counter, uniquePath k ≠ path) :
    AtEnd (p.openFile inMemory path).2 path [] inMemory (p.openFile inMemory path).1 ∧
      Upcoming m (p.openFile inMemory path).2.bufferFileSystem ∧
        (p.openFile inMemory path).2.outline = p.outline.openTarget inMemory path := by
  cases inMemory with
  | false =>
      exact ⟨.file (World.content_put_self ..), hfs, rfl⟩
  | true =>
      have hnone := hfree rfl
      have hposition := (openFile_handle p.bufferFileSystem path).2.1
      have hheld : p.bufferFileSystem.contents path = none := by
        rw [contents, hnone, Option.map_none]
      refine ⟨.buffer (openFile_self ..) ⟨openFile_empty hnone, hposition, Nat.two_pow_pos 63,
        Nat.two_pow_pos 63⟩, hfs.openFile (hpath rfl), ?_⟩
      unfold Process.openFile Process.outline CopyProcess.openTarget
      dsimp only
      rw [if_pos rfl, if_pos rfl]
      dsimp only
      rw [hfs.separate.contents_openFile hnone, (openFile_handle p.bufferFileSystem path).2.2,
        hheld, Option.getD_none]

/-! ## Calls on the parquet writer -/

/-- The parquet writer has no target. -/
structure Between (B : P.WritesAtMost batches n) (m : ℕ) (s : State (.ofAppends P)) : Prop where
  localState : ∀ l, s.lstate = some l → B.Local l
  upcoming : Upcoming m s.process.bufferFileSystem

/-- The parquet writer has made `k` calls, and its handle is at the end of the target. -/
structure Appended (B : P.WritesAtMost batches n) (bind : OpenzlCopyBindData) (k m : ℕ)
    (s : State (.ofAppends P)) : Prop extends Between B m s where
  target : ∃ g handle content, s.gstate.parquetGlobalState = some (g, handle) ∧ B.Global g ∧
    AtEnd s.process s.gstate.tmpParquetPath content bind.inMemory handle ∧ content.length ≤ k * n

variable {B : P.WritesAtMost batches n} {k : ℕ} {s : State (.ofAppends P)}

theorem Appended.mono (h : Appended B bind k m s) {m' : ℕ} (hm : m' ≤ m) :
    Appended B bind k m' s :=
  ⟨⟨h.localState, h.upcoming.mono hm⟩, h.target⟩

theorem callHost_through {α : Type} {Q : α → Prop} (step : HostStep)
    {f : ℕ → P.GlobalState → HostOutcome α}
    (hf : ∀ i g, B.Global g → (f i g).written.length ≤ n ∧ ∀ a, (f i g).result = .ok a → Q a)
    (hsize : (k + 1) * n < 2 ^ 63) (h : Appended B bind k m s) :
    Through State.outline (fun a t ↦ Q a ∧ Appended B bind (k + 1) m t)
      (callHost (W := .ofAppends P) step fun i g ↦ appending (f i g))
      (DuckdbOpenzl.callHost bind step f) s := by
  obtain ⟨⟨hlocal, hupcoming⟩, g, handle, content, hg, hglobal, hend, hlength⟩ := h
  obtain ⟨hwritten, hreturned⟩ := hf s.process.hostCalls g hglobal
  rw [Nat.add_mul, Nat.one_mul] at hsize
  obtain ⟨handle', p, hrun, hend', hupcoming', houtline⟩ := Process.run_appending
    (f s.process.hostCalls g) hend.called hupcoming (by omega)
  let t : State (.ofAppends P) := { s with
    process := p
    gstate := { s.gstate with parquetGlobalState := some (g, handle') } }
  have ht : t.outline = s.outline.wrote bind (f s.process.hostCalls g).written := by
    unfold State.outline CopyState.wrote
    dsimp only [t]
    rw [houtline, hg]
    rfl
  have happended : Appended B bind (k + 1) m t := by
    refine ⟨⟨hlocal, hupcoming'⟩, g, handle', _, rfl, hglobal, hend', ?_⟩
    rw [List.length_append, Nat.add_mul, Nat.one_mul]
    omega
  have hg' : s.outline.gstate.parquetGlobalState = some g := congrArg (Option.map Prod.fst) hg
  have hcalls : s.outline.process.hostCalls = s.process.hostCalls := rfl
  cases hresult : (f s.process.hostCalls g).result with
  | ok a =>
      refine .ok (a := a) (t := t) ?_ ?_ ⟨hreturned a hresult, happended⟩
      · unfold callHost
        rw [hg]
        dsimp only
        rw [hrun, hresult]
      · rw [callHost_eq hg', hcalls, hresult, ht]
  | error what =>
      refine .error (e := .host step what) (t := t) ?_ ?_
      · unfold callHost
        rw [hg]
        dsimp only
        rw [hrun, hresult]
      · rw [callHost_eq hg', hcalls, hresult, ht]

theorem parquetSink_eq {W : ParquetWriter} {s : State W} {l : W.LocalState}
    (hl : s.lstate = some l) (input : List W.Row) :
    parquetSink input s = (callHost .sink (fun i g ↦ W.sink i input g l) >>= fun r t ↦
      .ok () { setGlobalState r.1 t with lstate := some r.2 }) s := by
  unfold parquetSink
  rw [hl]
  refine Eq.trans ?_ (bind_apply _ _ _).symm
  dsimp only
  cases callHost .sink (fun i g ↦ W.sink i input g l) s <;> rfl

theorem parquetSink_eq_outcome {s : CopyState P} {l : P.LocalState} (hl : s.lstate = some l)
    (input : List P.Row) :
    DuckdbOpenzl.parquetSink bind input s =
      (DuckdbOpenzl.callHost bind .sink (fun i g ↦ P.sink i input g l) >>= fun r t ↦ .ok ()
        { t with
          gstate := { t.gstate with parquetGlobalState := some r.1 }
          lstate := some r.2 }) s := by
  unfold DuckdbOpenzl.parquetSink
  rw [hl]
  refine Eq.trans ?_ (bind_apply _ _ _).symm
  dsimp only
  cases DuckdbOpenzl.callHost bind .sink (fun i g ↦ P.sink i input g l) s <;> rfl

theorem parquetCombine_eq {W : ParquetWriter} {s : State W} {l : W.LocalState}
    (hl : s.lstate = some l) :
    parquetCombine s = (callHost .combine (fun i g ↦ W.combine i g l) >>= fun g t ↦
      .ok () (setGlobalState g t)) s := by
  unfold parquetCombine
  rw [hl]
  refine Eq.trans ?_ (bind_apply _ _ _).symm
  dsimp only
  cases callHost .combine (fun i g ↦ W.combine i g l) s <;> rfl

theorem parquetCombine_eq_outcome {s : CopyState P} {l : P.LocalState} (hl : s.lstate = some l) :
    DuckdbOpenzl.parquetCombine bind s =
      (DuckdbOpenzl.callHost bind .combine (fun i g ↦ P.combine i g l) >>= fun g t ↦ .ok ()
        { t with gstate := { t.gstate with parquetGlobalState := some g } }) s := by
  unfold DuckdbOpenzl.parquetCombine
  rw [hl]
  refine Eq.trans ?_ (bind_apply _ _ _).symm
  dsimp only
  cases DuckdbOpenzl.callHost bind .combine (fun i g ↦ P.combine i g l) s <;> rfl

theorem parquetFinalize_eq {W : ParquetWriter} (s : State W) :
    parquetFinalize s = (callHost .finalize W.finalize >>= fun _ t ↦ .ok () { t with gstate :=
      { t.gstate with parquetGlobalState := none, currentChunkOpen := false } }) s := by
  unfold parquetFinalize
  refine Eq.trans ?_ (bind_apply _ _ _).symm
  cases callHost .finalize W.finalize s <;> rfl

theorem parquetFinalize_eq_outcome (s : CopyState P) :
    DuckdbOpenzl.parquetFinalize bind s =
      (DuckdbOpenzl.callHost bind .finalize P.finalize >>= fun _ t ↦ .ok () { t with gstate :=
        { t.gstate with parquetGlobalState := none, currentChunkOpen := false } }) s := by
  unfold DuckdbOpenzl.parquetFinalize
  refine Eq.trans ?_ (bind_apply _ _ _).symm
  cases DuckdbOpenzl.callHost bind .finalize P.finalize s <;> rfl

/-- The parquet writer returned its state. -/
theorem Appended.setGlobalState (h : Appended B bind k m s) {g : P.GlobalState}
    (hg : B.Global g) {l : Option P.LocalState} (hl : ∀ l', l = some l' → B.Local l') :
    Appended B bind k m { setGlobalState (W := .ofAppends P) g s with lstate := l } ∧
      State.outline { setGlobalState (W := .ofAppends P) g s with lstate := l } =
        { s.outline with
          gstate := { s.outline.gstate with parquetGlobalState := some g }
          lstate := l } := by
  obtain ⟨⟨-, hupcoming⟩, g', handle, content, hg', -, hend, hlength⟩ := h
  unfold Staging.setGlobalState
  rw [hg']
  refine ⟨⟨⟨hl, hupcoming⟩, g, handle, content, rfl, hg, hend, hlength⟩, ?_⟩
  unfold State.outline
  rfl

theorem parquetSink_through {input : List P.Row} (hinput : input ∈ batches)
    (hsize : (k + 1) * n < 2 ^ 63) (h : Appended B bind k m s) :
    Through State.outline (fun _ ↦ Appended B bind (k + 1) m)
      (parquetSink (W := .ofAppends P) input) (DuckdbOpenzl.parquetSink bind input) s := by
  have hlstate : s.outline.lstate = s.lstate := rfl
  cases hl : s.lstate with
  | none =>
      refine .error (e := nullDereference) (t := s) ?_ ?_
      · unfold parquetSink
        rw [hl]
      · unfold DuckdbOpenzl.parquetSink
        rw [hlstate, hl]
  | some l =>
      have hcall := callHost_through .sink
        (fun i g hg ↦ B.sink i input hinput g l hg (h.localState l hl)) hsize h
      refine (hcall.bind
        (g := fun r t ↦ .ok () { setGlobalState r.1 t with lstate := some r.2 })
        (k := fun r t ↦ .ok () { t with
          gstate := { t.gstate with parquetGlobalState := some r.1 }
          lstate := some r.2 }) ?_).of_eq ?_ ?_
      · rintro r t ⟨⟨hglobal, hlocal⟩, ht⟩
        obtain ⟨happended, houtline⟩ := ht.setGlobalState hglobal
          (l := some r.2) fun l' hl' ↦ Option.some.inj hl' ▸ hlocal
        exact .ok rfl (congrArg (EStateM.Result.ok ()) houtline.symm) happended
      · exact parquetSink_eq hl input
      · exact parquetSink_eq_outcome (hlstate.trans hl) input

theorem parquetCombine_through (hsize : (k + 1) * n < 2 ^ 63) (h : Appended B bind k m s) :
    Through State.outline (fun _ ↦ Appended B bind (k + 1) m)
      (parquetCombine (W := .ofAppends P)) (DuckdbOpenzl.parquetCombine bind) s := by
  have hlstate : s.outline.lstate = s.lstate := rfl
  cases hl : s.lstate with
  | none =>
      refine .error (e := nullDereference) (t := s) ?_ ?_
      · unfold parquetCombine
        rw [hl]
      · unfold DuckdbOpenzl.parquetCombine
        rw [hlstate, hl]
  | some l =>
      have hcall := callHost_through .combine
        (fun i g hg ↦ B.combine i g l hg (h.localState l hl)) hsize h
      refine (hcall.bind
        (g := fun g t ↦ .ok () (setGlobalState g t))
        (k := fun g t ↦ .ok () { t with
          gstate := { t.gstate with parquetGlobalState := some g } }) ?_).of_eq ?_ ?_
      · rintro g t ⟨hglobal, ht⟩
        obtain ⟨happended, houtline⟩ := ht.setGlobalState hglobal ht.localState
        exact .ok rfl (congrArg (EStateM.Result.ok ()) houtline.symm) happended
      · exact parquetCombine_eq hl
      · exact parquetCombine_eq_outcome (hlstate.trans hl)

theorem parquetFinalize_through (hsize : (k + 1) * n < 2 ^ 63) (h : Appended B bind k m s) :
    Through State.outline (fun _ ↦ Between B m)
      (parquetFinalize (W := .ofAppends P)) (DuckdbOpenzl.parquetFinalize bind) s := by
  have hcall := callHost_through (Q := fun _ ↦ True) .finalize
    (fun i g hg ↦ ⟨B.finalize i g hg, fun _ _ ↦ trivial⟩) hsize h
  refine (hcall.bind
    (g := fun _ t ↦ .ok () { t with gstate :=
      { t.gstate with parquetGlobalState := none, currentChunkOpen := false } })
    (k := fun _ t ↦ .ok () { t with gstate :=
      { t.gstate with parquetGlobalState := none, currentChunkOpen := false } }) ?_).of_eq ?_ ?_
  · rintro u t ⟨-, ht⟩
    exact .ok rfl rfl ⟨ht.localState, ht.upcoming⟩
  · exact parquetFinalize_eq s
  · exact parquetFinalize_eq_outcome s.outline

end Staging

end DuckdbOpenzl
