import DuckdbOpenzl.Library.ExceptionState
import DuckdbOpenzl.Library.FileContent
import Mathlib.Algebra.Group.Int.Defs
import Mathlib.Algebra.Group.Nat.Defs
import Mathlib.Data.Int.Notation
import Mathlib.Data.List.TakeDrop
import Mathlib.Logic.Function.Basic
import Mathlib.Order.Nat

/-!
# Files and output streams

The file helpers of the bridge over a world of named files. What the operating
system answers to each call on an output stream is a script: any open, write
or close may fail, and a write may leave bytes in the stream's buffer.
-/

set_option autoImplicit false

namespace DuckdbOpenzl

abbrev Bytes := List UInt8

abbrev Path := String

/-- `openzl_bridge::Error`. -/
structure Error where
  what : String
  deriving DecidableEq, Repr

/-! ## 64-bit arithmetic -/

def add64 (a b : ℕ) : ℕ := (a + b) % 2 ^ 64

def sub64 (a b : ℕ) : ℕ := (a + 2 ^ 64 - b) % 2 ^ 64

def mul64 (a b : ℕ) : ℕ := a * b % 2 ^ 64

/-- `static_cast<size_t>` of an `int64_t`. -/
def toSize (v : ℤ) : ℕ := (v % 2 ^ 64).toNat

theorem add64_eq {a b : ℕ} (h : a + b < 2 ^ 64) : add64 a b = a + b :=
  Nat.mod_eq_of_lt h

theorem sub64_eq {a b : ℕ} (ha : a < 2 ^ 64) (h : b ≤ a) : sub64 a b = a - b := by
  unfold sub64
  omega

theorem mul64_eq {a b : ℕ} (h : a * b < 2 ^ 64) : mul64 a b = a * b :=
  Nat.mod_eq_of_lt h

/-! ## The world -/

/-- The answer to one call on an output stream: whether it reports success, and how many
of the bytes waiting in the stream reach the file. -/
structure StreamOutcome where
  ok : Bool
  stored : ℕ

/-- The answers to the calls of a run, by the number of the call. -/
structure IoScript where
  onOpen : ℕ → Bool
  onWrite : ℕ → StreamOutcome
  onClose : ℕ → StreamOutcome
  onDestroy : ℕ → StreamOutcome
  onRename : ℕ → Bool

structure File where
  content : Bytes
  mtime : ℤ

structure World where
  files : Path → Option File
  now : ℤ
  script : IoScript
  calls : ℕ

namespace World

def content (w : World) (path : Path) : Option Bytes := (w.files path).map File.content

def tick (w : World) : World := { w with calls := w.calls + 1 }

def put (w : World) (path : Path) (bytes : Bytes) : World :=
  { w with files := Function.update w.files path (some ⟨bytes, w.now⟩) }

/-- `std::remove`. -/
def remove (w : World) (path : Path) : World :=
  { w with files := Function.update w.files path none }

/-- `std::rename`, and whether it reported success. -/
def rename (w : World) (source target : Path) : Bool × World :=
  if w.script.onRename w.calls && (w.files source).isSome then
    let files := Function.update w.files source none
    (true, { w.tick with files := Function.update files target (w.files source) })
  else
    (false, w.tick)

/-- Append to a file that is open for writing. -/
def store (w : World) (path : Path) (bytes : Bytes) : World :=
  w.put path ((w.content path).getD [] ++ bytes)

@[simp] theorem content_tick (w : World) (path : Path) : w.tick.content path = w.content path := rfl

@[simp] theorem content_put_self (w : World) (path : Path) (bytes : Bytes) :
    (w.put path bytes).content path = some bytes := by
  simp [content, put]

theorem content_put_of_ne (w : World) {path other : Path} (bytes : Bytes) (h : other ≠ path) :
    (w.put path bytes).content other = w.content other := by
  simp [content, put, Function.update_of_ne h]

@[simp] theorem content_remove_self (w : World) (path : Path) :
    (w.remove path).content path = none := by
  simp [content, remove]

theorem content_remove_of_ne (w : World) {path other : Path} (h : other ≠ path) :
    (w.remove path).content other = w.content other := by
  simp [content, remove, Function.update_of_ne h]

@[simp] theorem content_store_self (w : World) (path : Path) (bytes : Bytes) :
    (w.store path bytes).content path = some ((w.content path).getD [] ++ bytes) := by
  simp [store]

theorem content_rename {w : World} {source target : Path} (h : (w.rename source target).1 = true) :
    (w.rename source target).2.content target = w.content source := by
  unfold rename at h ⊢
  split at h
  · rename_i hok
    rw [if_pos hok]
    simp [content]
  · cases h

theorem content_store_of_ne (w : World) {path other : Path} (bytes : Bytes) (h : other ≠ path) :
    (w.store path bytes).content other = w.content other := by
  simp [store, content_put_of_ne _ _ h]

end World

/-! ## Output streams -/

/-- File offsets are signed, so no file grows to this many bytes. -/
def fileSizeLimit : ℕ := 2 ^ 63

/-- A `std::ofstream`: `good` is its error state, `pending` the bytes it has accepted and
not yet handed to the file. -/
structure OFStream where
  path : Path := ""
  isOpen : Bool := false
  good : Bool := true
  pending : Bytes := []

namespace OFStream

/-- `open(path, binary | trunc)`. -/
def openTrunc (path : Path) (w : World) : OFStream × World :=
  if w.script.onOpen w.calls then
    ({ path := path, isOpen := true }, w.tick.put path [])
  else
    ({ path := path, good := false }, w.tick)

/-- Everything the stream has accepted since the file was opened: what the file holds
already and what still waits. -/
def accepted (s : OFStream) (w : World) : Bytes :=
  (w.content s.path).getD [] ++ s.pending

/-- `write(bytes)`: a stream in an error state accepts nothing. -/
def write (s : OFStream) (bytes : Bytes) (w : World) : OFStream × World :=
  if s.good && s.isOpen then
    let o := w.script.onWrite w.calls
    let s := { s with pending := s.pending ++ bytes }
    let fits := decide ((s.accepted w).length < fileSizeLimit)
    let stored := if fits then o.stored else 0
    ({ s with good := o.ok && fits, pending := s.pending.drop stored },
      w.tick.store s.path (s.pending.take stored))
  else
    ({ s with good := false }, w)

/-- `close()`: the file is closed also when the last bytes cannot be stored. -/
def close (s : OFStream) (w : World) : OFStream × World :=
  if s.isOpen then
    let o := w.script.onClose w.calls
    ({ s with isOpen := false, good := s.good && o.ok, pending := [] },
      w.tick.store s.path (if o.ok then s.pending else s.pending.take o.stored))
  else
    ({ s with good := false }, w)

/-- The destructor flushes and closes; a failure here is seen by nobody. -/
def destroy (s : OFStream) (w : World) : World :=
  if s.isOpen then
    let o := w.script.onDestroy w.calls
    w.tick.store s.path (if o.ok then s.pending else s.pending.take o.stored)
  else
    w

end OFStream

/-! ## What the stream operations do -/

namespace World

/-- `w'` differs from `w` at most in the file at `path` and in the number of calls made. -/
structure OnlyTouches (path : Path) (w w' : World) : Prop where
  files : ∀ other, other ≠ path → w'.files other = w.files other
  script : w'.script = w.script
  now : w'.now = w.now
  calls : w.calls ≤ w'.calls

namespace OnlyTouches

variable {path : Path} {w w' w'' : World}

theorem refl (path : Path) (w : World) : OnlyTouches path w w :=
  ⟨fun _ _ ↦ rfl, rfl, rfl, le_rfl⟩

theorem trans (h : OnlyTouches path w w') (h' : OnlyTouches path w' w'') :
    OnlyTouches path w w'' :=
  ⟨fun other ho ↦ (h'.files other ho).trans (h.files other ho),
    h'.script.trans h.script, h'.now.trans h.now, h.calls.trans h'.calls⟩

theorem tick (path : Path) (w : World) : OnlyTouches path w w.tick :=
  ⟨fun _ _ ↦ rfl, rfl, rfl, Nat.le_succ _⟩

theorem put (path : Path) (w : World) (bytes : Bytes) : OnlyTouches path w (w.put path bytes) :=
  ⟨fun _ ho ↦ Function.update_of_ne ho _ _, rfl, rfl, le_rfl⟩

theorem store (path : Path) (w : World) (bytes : Bytes) :
    OnlyTouches path w (w.store path bytes) :=
  put path w _

theorem remove (path : Path) (w : World) : OnlyTouches path w (w.remove path) :=
  ⟨fun _ ho ↦ Function.update_of_ne ho _ _, rfl, rfl, le_rfl⟩

end OnlyTouches

end World

namespace OFStream

variable {s : OFStream} {w : World}

theorem openTrunc_touches (path : Path) (w : World) :
    w.OnlyTouches path (openTrunc path w).2 := by
  unfold openTrunc
  split
  · exact (World.OnlyTouches.tick path w).trans (World.OnlyTouches.put path _ _)
  · exact World.OnlyTouches.tick path w

@[simp] theorem openTrunc_path (path : Path) (w : World) : (openTrunc path w).1.path = path := by
  unfold openTrunc
  split <;> rfl

theorem openTrunc_good {path : Path} (h : (openTrunc path w).1.good = true) :
    (openTrunc path w).1.pending = [] ∧ (openTrunc path w).2.content path = some [] := by
  unfold openTrunc at h ⊢
  split at h
  · rename_i hopen
    simp [hopen]
  · cases h

theorem write_touches (s : OFStream) (bytes : Bytes) (w : World) :
    w.OnlyTouches s.path (s.write bytes w).2 := by
  unfold write
  split
  · exact (World.OnlyTouches.tick s.path w).trans (World.OnlyTouches.store s.path _ _)
  · exact World.OnlyTouches.refl s.path w

@[simp] theorem write_path (s : OFStream) (bytes : Bytes) (w : World) :
    (s.write bytes w).1.path = s.path := by
  unfold write
  split <;> rfl

@[simp] theorem write_isOpen (s : OFStream) (bytes : Bytes) (w : World) :
    (s.write bytes w).1.isOpen = s.isOpen := by
  unfold write
  split <;> rfl

theorem write_good (s : OFStream) (bytes : Bytes) (w : World) :
    (s.write bytes w).1.good = true ↔
      s.good = true ∧ s.isOpen = true ∧ (w.script.onWrite w.calls).ok = true ∧
        (s.accepted w ++ bytes).length < fileSizeLimit := by
  unfold write
  by_cases hs : (s.good && s.isOpen) = true
  · obtain ⟨hgood, hopen⟩ := Bool.and_eq_true_iff.mp hs
    simp [hgood, hopen, accepted]
  · rw [if_neg hs]
    rw [Bool.and_eq_true] at hs
    simp only [Bool.false_eq_true, false_iff]
    exact fun h ↦ hs ⟨h.1, h.2.1⟩

theorem write_good_before {bytes : Bytes} (h : (s.write bytes w).1.good = true) :
    s.good = true ∧ s.isOpen = true :=
  ⟨((write_good s bytes w).mp h).1, ((write_good s bytes w).mp h).2.1⟩

theorem write_calls (s : OFStream) (bytes : Bytes) (w : World) (hgood : s.good = true)
    (hopen : s.isOpen = true) : (s.write bytes w).2.calls = w.calls + 1 := by
  simp [write, hgood, hopen, World.store, World.put, World.tick]

theorem write_isSome (s : OFStream) (bytes : Bytes) (w : World)
    (h : (w.content s.path).isSome) : ((s.write bytes w).2.content s.path).isSome := by
  unfold write
  split
  · simp
  · exact h

theorem accepted_write {bytes : Bytes} (h : (s.write bytes w).1.good = true) :
    (s.write bytes w).1.accepted (s.write bytes w).2 = s.accepted w ++ bytes ∧
      (s.accepted w ++ bytes).length < fileSizeLimit := by
  obtain ⟨hgood, hopen, -, hfits⟩ := (write_good s bytes w).mp h
  refine ⟨?_, hfits⟩
  simp [write, hgood, hopen, accepted]

theorem close_touches (s : OFStream) (w : World) : w.OnlyTouches s.path (s.close w).2 := by
  unfold close
  split
  · exact (World.OnlyTouches.tick s.path w).trans (World.OnlyTouches.store s.path _ _)
  · exact World.OnlyTouches.refl s.path w

@[simp] theorem close_isOpen (s : OFStream) (w : World) : (s.close w).1.isOpen = false := by
  unfold close
  split
  · rfl
  · rename_i hs
    simpa using hs

@[simp] theorem close_path (s : OFStream) (w : World) : (s.close w).1.path = s.path := by
  unfold close
  split <;> rfl

theorem close_isSome (s : OFStream) (w : World) (h : (w.content s.path).isSome) :
    ((s.close w).2.content s.path).isSome := by
  unfold close
  split
  · simp
  · exact h

theorem close_good_iff (s : OFStream) (w : World) (hopen : s.isOpen = true) :
    (s.close w).1.good = true ↔ s.good = true ∧ (w.script.onClose w.calls).ok = true := by
  simp [close, hopen]

/-- A close that leaves the stream good has stored everything the stream accepted. -/
theorem close_good (h : (s.close w).1.good = true) :
    s.good = true ∧ (s.close w).2.content s.path = some (s.accepted w) := by
  unfold close at h ⊢
  by_cases hs : s.isOpen = true
  · rw [if_pos hs] at h ⊢
    obtain ⟨hgood, hok⟩ := Bool.and_eq_true_iff.mp h
    exact ⟨hgood, by simp [hok, accepted]⟩
  · rw [if_neg hs] at h
    cases h

theorem destroy_touches (s : OFStream) (w : World) : w.OnlyTouches s.path (s.destroy w) := by
  unfold destroy
  split
  · exact (World.OnlyTouches.tick s.path w).trans (World.OnlyTouches.store s.path _ _)
  · exact World.OnlyTouches.refl s.path w

theorem destroy_isSome (s : OFStream) (w : World) (h : (w.content s.path).isSome) :
    ((s.destroy w).content s.path).isSome := by
  unfold destroy
  split
  · simp
  · exact h

end OFStream

/-! ## The helpers of the bridge -/

abbrev BridgeM := EStateM Error World

def returned {α : Type} (r : Except Error α) (w : World) : EStateM.Result Error World α :=
  match r with
  | .ok a => .ok a w
  | .error e => .error e w

/-- One `std::ifstream` opened by name: `f` is given the content of the file, if there is one. -/
def opened {α : Type} (path : Path) (f : Option Bytes → Except Error α) : BridgeM α := fun w ↦
  returned (f (w.content path)) w

def fileExists (w : World) (path : Path) : Bool := (w.content path).isSome

/-- What `FileExists` guards: the error every reader throws for a missing input. -/
def requireFile (path : Path) (file : Option Bytes) : Except Error Unit :=
  if file.isSome then .ok ()
  else .error ⟨"openzl_bridge: input file not found: " ++ path⟩

def readFile (path : Path) : Option Bytes → Except Error Bytes
  | some bytes => .ok bytes
  | none => .error ⟨"openzl_bridge: could not open file for reading: " ++ path⟩

def writeFile (path : Path) (contents : Bytes) : BridgeM Unit := fun w ↦
  let (f, w) := OFStream.openTrunc path w
  if !f.good then
    .error ⟨"openzl_bridge: could not open file for writing: " ++ path⟩ w
  else
    let (f, w) := f.write contents w
    if !f.good then
      .error ⟨"openzl_bridge: error writing file: " ++ path⟩ (f.destroy w)
    else
      .ok () (f.destroy w)

theorem opened_eq_ok_iff {α : Type} {path : Path} {f : Option Bytes → Except Error α} {w w' : World}
    {a : α} : opened path f w = .ok a w' ↔ f (w.content path) = .ok a ∧ w' = w := by
  unfold opened returned
  cases f (w.content path) with
  | ok b => simp [eq_comm]
  | error e => simp

theorem readFile_eq_ok_iff {path : Path} {file : Option Bytes} {bytes : Bytes} :
    readFile path file = .ok bytes ↔ file = some bytes := by
  cases file with
  | none => exact iff_of_false nofun nofun
  | some content => simp [readFile]

/-- The program changes nothing, however it ends. -/
def ReadsOnly {α : Type} (x : BridgeM α) : Prop :=
  ∀ w, ExceptionState.stateAfter x w = w

namespace ReadsOnly

variable {α β : Type}

theorem opened (path : Path) (f : Option Bytes → Except Error α) :
    ReadsOnly (DuckdbOpenzl.opened path f) := by
  intro w
  unfold ExceptionState.stateAfter DuckdbOpenzl.opened returned
  cases f (w.content path) <;> rfl

theorem pure (a : α) : ReadsOnly (pure a : BridgeM α) := fun _ ↦ rfl

theorem throw (e : Error) : ReadsOnly (throw e : BridgeM α) := fun _ ↦ rfl

theorem ofExcept (r : Except Error α) : ReadsOnly (MonadExcept.ofExcept r : BridgeM α) := by
  intro w
  cases r <;> rfl

theorem bind {x : BridgeM α} {f : α → BridgeM β} (hx : ReadsOnly x) (hf : ∀ a, ReadsOnly (f a)) :
    ReadsOnly (x >>= f) := by
  intro w
  have hxw := hx w
  rcases ExceptionState.stateAfter_bind x f w with ⟨e, t, hrun, hafter⟩ | ⟨a, t, hrun, hafter⟩
  · rw [ExceptionState.stateAfter_of_error hrun] at hxw
    rw [hafter, hxw]
  · rw [ExceptionState.stateAfter_of_ok hrun] at hxw
    rw [hafter, hf a t, hxw]

theorem eq_of_ok {x : BridgeM α} (h : ReadsOnly x) {w w' : World} {a : α} (hx : x w = .ok a w') :
    w' = w :=
  (ExceptionState.stateAfter_of_ok hx).symm.trans (h w)

theorem eq_of_error {x : BridgeM α} (h : ReadsOnly x) {w w' : World} {e : Error}
    (hx : x w = .error e w') : w' = w :=
  (ExceptionState.stateAfter_of_error hx).symm.trans (h w)

end ReadsOnly

def IoScript.KeepsFlushes (io : IoScript) : Prop := ∀ k, (io.onDestroy k).ok = true

/-- No stream destructor loses the bytes it flushes. -/
def World.KeepsFlushes (w : World) : Prop := ∀ k, (w.script.onDestroy k).ok = true

theorem writeFile_touches {path : Path} {contents : Bytes} {w w' : World}
    (h : writeFile path contents w = .ok () w' ∨ ∃ e, writeFile path contents w = .error e w') :
    w.OnlyTouches path w' := by
  have hopen := OFStream.openTrunc_touches path w
  have hwrite := OFStream.write_touches (OFStream.openTrunc path w).1 contents
    (OFStream.openTrunc path w).2
  have hdestroy := OFStream.destroy_touches
    ((OFStream.openTrunc path w).1.write contents (OFStream.openTrunc path w).2).1
    ((OFStream.openTrunc path w).1.write contents (OFStream.openTrunc path w).2).2
  simp only [OFStream.openTrunc_path, OFStream.write_path] at hwrite hdestroy
  have hall := (hopen.trans hwrite).trans hdestroy
  unfold writeFile at h
  dsimp only at h
  split at h
  · rcases h with h | ⟨e, h⟩
    · cases h
    · cases h
      exact hopen
  · split at h
    · rcases h with h | ⟨e, h⟩
      · cases h
      · cases h
        exact hall
    · rcases h with h | ⟨e, h⟩
      · cases h
        exact hall
      · cases h

theorem openTrunc_eq_of_ok (path : Path) {w : World} (h : w.script.onOpen w.calls = true) :
    OFStream.openTrunc path w = ({ path := path, isOpen := true }, w.tick.put path []) := by
  simp [OFStream.openTrunc, h]

theorem openTrunc_eq_of_fail (path : Path) {w : World} (h : w.script.onOpen w.calls = false) :
    OFStream.openTrunc path w = ({ path := path, good := false }, w.tick) := by
  simp [OFStream.openTrunc, h]

/-- Once the file is open, `WriteFile` returns exactly when its one write succeeds, and
leaves a file behind in any case. -/
theorem writeFile_of_open (path : Path) (contents : Bytes) {w : World}
    (h : w.script.onOpen w.calls = true) :
    ∃ w', (w'.files path).isSome ∧ w.calls < w'.calls ∧
      (writeFile path contents w = .ok () w' ↔
        (w.script.onWrite (w.calls + 1)).ok = true ∧ contents.length < fileSizeLimit) ∧
      (writeFile path contents w = .ok () w' ∨ ∃ e, writeFile path contents w = .error e w') := by
  have hgood := OFStream.write_good ({ path := path, isOpen := true } : OFStream) contents
    (w.tick.put path [])
  have haccepted : ({ path := path, isOpen := true } : OFStream).accepted (w.tick.put path []) =
      [] := by
    simp [OFStream.accepted]
  have hwritten := OFStream.write_isSome ({ path := path, isOpen := true } : OFStream) contents
    (w.tick.put path []) (by simp)
  have hpresent := OFStream.destroy_isSome
    (({ path := path, isOpen := true } : OFStream).write contents (w.tick.put path [])).1
    (({ path := path, isOpen := true } : OFStream).write contents (w.tick.put path [])).2
    (by rw [OFStream.write_path]; exact hwritten)
  have hcalls := ((OFStream.write_touches ({ path := path, isOpen := true } : OFStream) contents
    (w.tick.put path [])).calls).trans (OFStream.destroy_touches
    (({ path := path, isOpen := true } : OFStream).write contents (w.tick.put path [])).1
    (({ path := path, isOpen := true } : OFStream).write contents (w.tick.put path [])).2).calls
  rw [haccepted] at hgood
  rw [OFStream.write_path] at hpresent
  refine ⟨_, by simpa [World.content] using hpresent, hcalls, ?_⟩
  unfold writeFile
  rw [openTrunc_eq_of_ok path h]
  dsimp only
  by_cases hw : (({ path := path, isOpen := true } : OFStream).write contents
      (w.tick.put path [])).1.good = true
  · have hconds := hgood.mp hw
    simp only [hw, Bool.not_true, Bool.false_eq_true, if_false, true_iff, true_or, and_true]
    exact ⟨hconds.2.2.1, by simpa using hconds.2.2.2⟩
  · have hconds : ¬ ((w.script.onWrite (w.calls + 1)).ok = true ∧
        contents.length < fileSizeLimit) := by
      rintro ⟨hok, hsize⟩
      exact hw (hgood.mpr ⟨rfl, rfl, hok, by simpa using hsize⟩)
    simp only [hw, Bool.not_true, Bool.false_eq_true, if_false, Bool.not_false, if_true,
      reduceCtorEq, false_iff, false_or]
    exact ⟨hconds, _, rfl⟩

/-- How many bytes of a `WriteFile` begun in this world are in the file before the destructor of
its stream, and how many more after it. -/
def World.storedByWriteFile (w : World) : ℕ :=
  (w.script.onWrite (w.calls + 1)).stored + (w.script.onDestroy (w.calls + 2)).stored

/-- The destructor of a `WriteFile` begun in this world brings the rest of `contents` into the
file. -/
def World.FlushKept (w : World) (contents : Bytes) : Prop :=
  (w.script.onDestroy (w.calls + 2)).ok = true ∨ contents.length ≤ w.storedByWriteFile

/-- A `WriteFile` that returns has left its bytes up to those its destructor lost. -/
theorem writeFile_stored {path : Path} {contents : Bytes} {w w' : World}
    (h : writeFile path contents w = .ok () w') :
    w'.content path = some (if (w.script.onDestroy (w.calls + 2)).ok then contents
      else contents.take w.storedByWriteFile) := by
  have hwritten : (w.tick.put path []).tick.content path = some [] := by simp
  unfold writeFile at h
  dsimp only at h
  split at h
  · cases h
  · rename_i hgood
    split at h
    · cases h
    · rename_i hwrite
      simp only [Bool.not_eq_true', Bool.not_eq_false] at hgood hwrite
      have hopen : w.script.onOpen w.calls = true := by
        by_contra hfail
        rw [openTrunc_eq_of_fail path (by simpa using hfail)] at hgood
        cases hgood
      rw [openTrunc_eq_of_ok path hopen] at hwrite h
      obtain ⟨-, -, -, hfits⟩ := (OFStream.write_good _ _ _).mp hwrite
      simp only [OFStream.accepted, World.content_put_self, Option.getD_some, List.nil_append]
        at hfits
      cases h
      simp only [OFStream.write, OFStream.accepted, OFStream.destroy, World.content_put_self,
        Option.getD_some, List.nil_append, hfits, decide_true, if_true, Bool.and_self,
        World.content_store_self, World.content_tick, World.storedByWriteFile]
      simp only [World.tick, World.put, World.store]
      by_cases hflush : (w.script.onDestroy (w.calls + 2)).ok = true
      · simp [hflush]
      · simp [hflush, List.take_add]

theorem writeFile_complete_iff {path : Path} {contents : Bytes} {w w' : World}
    (h : writeFile path contents w = .ok () w') :
    w'.content path = some contents ↔ w.FlushKept contents := by
  rw [writeFile_stored h, Option.some.injEq, World.FlushKept]
  split
  · rename_i hok
    exact iff_of_true rfl (.inl hok)
  · rename_i hok
    rw [List.take_eq_self_iff contents]
    exact ⟨.inr, fun hkept ↦ hkept.resolve_left hok⟩

/-- A `WriteFile` that returns has left exactly its bytes, if the flush of its stream's
destructor was not lost. -/
theorem writeFile_ok {path : Path} {contents : Bytes} {w w' : World} (hkeep : w.KeepsFlushes)
    (h : writeFile path contents w = .ok () w') : w'.content path = some contents :=
  (writeFile_complete_iff h).mpr (.inl (hkeep _))

/-- A disk on which every call succeeds and every write reaches the file at once. -/
def World.empty : World :=
  ⟨fun _ ↦ none, 0, ⟨fun _ ↦ true, fun _ ↦ ⟨true, 0⟩, fun _ ↦ ⟨true, 0⟩, fun _ ↦ ⟨true, 0⟩,
    fun _ ↦ true⟩, 0⟩

end DuckdbOpenzl
