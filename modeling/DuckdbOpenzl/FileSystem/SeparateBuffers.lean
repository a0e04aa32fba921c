import DuckdbOpenzl.FileSystem.BufferFileSystem

/-!
# One string for each path

Two paths of the registry never share a string, so what is done to one path
leaves the others alone.
-/

set_option autoImplicit false

namespace DuckdbOpenzl

namespace OpenzlBufferFileSystem

/-- Two paths never share a string, and no path has a string that is not made yet. -/
structure Separate (fs : OpenzlBufferFileSystem) : Prop where
  unique : ∀ p q id, fs.buffers p = some id → fs.buffers q = some id → p = q
  allocated : ∀ p id, fs.buffers p = some id → id < fs.allocated

variable {fs fs' : OpenzlBufferFileSystem} {path p : Path} {id : ℕ} {bytes : Bytes}

/-! ## What an open does -/

theorem openFile_self (fs : OpenzlBufferFileSystem) (path : Path) :
    (fs.openFile path).2.buffers path = some (fs.openFile path).1.buffer := by
  cases h : fs.buffers path with
  | none =>
      rw [openFile_of_none h]
      exact Function.update_self ..
  | some id =>
      rw [openFile_of_some h]
      exact h

theorem openFile_other (hne : p ≠ path) : (fs.openFile path).2.buffers p = fs.buffers p := by
  cases h : fs.buffers path with
  | none =>
      rw [openFile_of_none h]
      exact Function.update_of_ne hne ..
  | some id => rw [openFile_of_some h]

theorem openFile_handle (fs : OpenzlBufferFileSystem) (path : Path) :
    (fs.openFile path).1.path = path ∧ (fs.openFile path).1.position = 0 ∧
      (fs.openFile path).2.counter = fs.counter := by
  cases h : fs.buffers path with
  | none =>
      rw [openFile_of_none h]
      exact ⟨rfl, rfl, rfl⟩
  | some id =>
      rw [openFile_of_some h]
      exact ⟨rfl, rfl, rfl⟩

/-- A new string is made, so no string that a path has is touched. -/
theorem Separate.openFile_strings (hfs : fs.Separate) (path : Path) (hp : fs.buffers p = some id) :
    (fs.openFile path).2.strings id = fs.strings id := by
  cases h : fs.buffers path with
  | none =>
      rw [openFile_of_none h]
      exact Function.update_of_ne (hfs.allocated p id hp).ne ..
  | some id => rw [openFile_of_some h]

theorem openFile_empty (h : fs.buffers path = none) :
    (fs.openFile path).2.strings (fs.openFile path).1.buffer = [] := by
  rw [openFile_of_none h]
  exact Function.update_self ..

/-! ## Strings stay separate -/

theorem Separate.setString (hfs : fs.Separate) (id : ℕ) (bytes : Bytes) :
    (fs.setString id bytes).Separate :=
  ⟨hfs.unique, hfs.allocated⟩

theorem Separate.openFile (hfs : fs.Separate) (path : Path) : (fs.openFile path).2.Separate := by
  cases h : fs.buffers path with
  | some id =>
      rw [openFile_of_some h]
      exact hfs
  | none =>
      rw [openFile_of_none h]
      -- only `path` has the string that is made
      have hcases : ∀ p id, Function.update fs.buffers path (some fs.allocated) p = some id →
          p = path ∧ id = fs.allocated ∨ fs.buffers p = some id := by
        intro p id hp
        by_cases hne : p = path
        · subst hne
          rw [Function.update_self] at hp
          exact .inl ⟨rfl, (Option.some.inj hp).symm⟩
        · rw [Function.update_of_ne hne] at hp
          exact .inr hp
      constructor
      · intro p q id hp hq
        rcases hcases p id hp with ⟨rfl, hid⟩ | hp' <;> rcases hcases q id hq with ⟨rfl, hid'⟩ | hq'
        · rfl
        · exact absurd (hid ▸ hfs.allocated q id hq') (lt_irrefl _)
        · exact absurd (hid' ▸ hfs.allocated p id hp') (lt_irrefl _)
        · exact hfs.unique p q id hp' hq'
      · intro p id hp
        rcases hcases p id hp with ⟨-, rfl⟩ | hp
        · exact Nat.lt_succ_self _
        · exact (hfs.allocated p id hp).trans (Nat.lt_succ_self _)

theorem takeBuffer_ok (h : fs.takeBuffer path = .ok (bytes, fs')) :
    ∃ id, fs.buffers path = some id ∧ bytes = fs.strings id ∧
      fs' = { fs.setString id [] with buffers := Function.update fs.buffers path none } := by
  cases hid : fs.buffers path with
  | none =>
      rw [takeBuffer, hid] at h
      cases h
  | some id =>
      rw [takeBuffer_of_some hid] at h
      obtain ⟨rfl, rfl⟩ := Prod.mk.inj (Except.ok.inj h)
      exact ⟨id, rfl, rfl, rfl⟩

theorem takeBuffer_of_none (h : fs.buffers path = none) :
    fs.takeBuffer path = .error (noBufferRegistered path) := by
  rw [takeBuffer, h]

theorem Separate.takeBuffer (hfs : fs.Separate) (h : fs.takeBuffer path = .ok (bytes, fs')) :
    fs'.Separate := by
  obtain ⟨id, -, -, rfl⟩ := takeBuffer_ok h
  have hkept : ∀ p id, Function.update fs.buffers path none p = some id →
      fs.buffers p = some id := by
    intro p id hp
    by_cases hne : p = path
    · subst hne
      rw [Function.update_self] at hp
      cases hp
    · rwa [Function.update_of_ne hne] at hp
  exact ⟨fun p q id hp hq ↦ hfs.unique p q id (hkept p id hp) (hkept q id hq),
    fun p id hp ↦ hfs.allocated p id (hkept p id hp)⟩

/-! ## The other paths are as they were -/

/-- What is registered under the path, and its string, are the same. -/
structure Keeps (fs fs' : OpenzlBufferFileSystem) (p : Path) : Prop where
  buffers : fs'.buffers p = fs.buffers p
  strings : ∀ id, fs.buffers p = some id → fs'.strings id = fs.strings id

theorem Separate.openFile_keeps (hfs : fs.Separate) (hne : p ≠ path) :
    fs.Keeps (fs.openFile path).2 p :=
  ⟨openFile_other hne, fun _ hid ↦ hfs.openFile_strings path hid⟩

theorem Separate.setString_keeps (hfs : fs.Separate) (hid : fs.buffers path = some id)
    (hne : p ≠ path) (bytes : Bytes) : fs.Keeps (fs.setString id bytes) p := by
  refine ⟨rfl, fun other hother ↦ Function.update_of_ne ?_ ..⟩
  rintro rfl
  exact hne (hfs.unique p path _ hother hid)

theorem Separate.takeBuffer_keeps (hfs : fs.Separate) (h : fs.takeBuffer path = .ok (bytes, fs'))
    (hne : p ≠ path) : fs.Keeps fs' p := by
  obtain ⟨id, hid, -, rfl⟩ := takeBuffer_ok h
  exact ⟨Function.update_of_ne hne .., (hfs.setString_keeps hid hne []).strings⟩

/-! ## What is held at each path -/

def contents (fs : OpenzlBufferFileSystem) (path : Path) : Option Bytes :=
  (fs.buffers path).map fs.strings

theorem Keeps.contents (h : fs.Keeps fs' p) : fs'.contents p = fs.contents p := by
  unfold OpenzlBufferFileSystem.contents
  rw [h.buffers]
  cases hid : fs.buffers p with
  | none => rfl
  | some id => exact congrArg some (h.strings id hid)

theorem contents_of_takeBuffer_error {e : Exception} (h : fs.takeBuffer path = .error e) :
    fs.contents path = none := by
  cases hid : fs.buffers path with
  | none => rw [OpenzlBufferFileSystem.contents, hid, Option.map_none]
  | some id =>
      rw [takeBuffer_of_some hid] at h
      cases h

/-- What changes one path and keeps the others is an update of what is held. -/
theorem contents_eq_update {content : Option Bytes} (hself : fs'.contents path = content)
    (hkeeps : ∀ p ≠ path, fs.Keeps fs' p) :
    fs'.contents = Function.update fs.contents path content := by
  funext p
  by_cases hne : p = path
  · rw [hne, Function.update_self, hself]
  · rw [Function.update_of_ne hne, (hkeeps p hne).contents]

theorem Separate.contents_setString (hfs : fs.Separate) (hid : fs.buffers path = some id)
    (bytes : Bytes) :
    (fs.setString id bytes).contents = Function.update fs.contents path (some bytes) := by
  refine contents_eq_update ?_ fun p hne ↦ hfs.setString_keeps hid hne bytes
  change (fs.buffers path).map (Function.update fs.strings id bytes) = some bytes
  rw [hid, Option.map_some, Function.update_self]

theorem Separate.contents_openFile (hfs : fs.Separate) (h : fs.buffers path = none) :
    (fs.openFile path).2.contents = Function.update fs.contents path (some []) := by
  refine contents_eq_update ?_ fun p hne ↦ hfs.openFile_keeps hne
  rw [OpenzlBufferFileSystem.contents, openFile_self, Option.map_some, openFile_empty h]

theorem Separate.contents_takeBuffer (hfs : fs.Separate)
    (h : fs.takeBuffer path = .ok (bytes, fs')) :
    fs.contents path = some bytes ∧ fs'.contents = Function.update fs.contents path none := by
  obtain ⟨id, hid, hbytes, hfs'⟩ := takeBuffer_ok h
  constructor
  · rw [OpenzlBufferFileSystem.contents, hid, Option.map_some, hbytes]
  · refine contents_eq_update ?_ fun p hne ↦ hfs.takeBuffer_keeps h hne
    rw [hfs', OpenzlBufferFileSystem.contents]
    dsimp only
    rw [Function.update_self]
    rfl

end OpenzlBufferFileSystem

end DuckdbOpenzl
