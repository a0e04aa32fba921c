import DuckdbOpenzl.Library.FileContent
import Mathlib.Data.Nat.Notation
import Mathlib.Logic.Function.Basic
import Mathlib.Order.Nat

/-!
# Names and the files behind them

A name leads to a file. A program that has a file open keeps it when the name
is moved or removed, or given to another file. Files have one name at most.
-/

set_option autoImplicit false

namespace NamedFiles

open FileContent

/-- The files that were there at the start, and those created since. -/
inductive FileId (N : Type) where
  | original (name : N)
  | created (n : ℕ)
  deriving DecidableEq

structure Disk (N α : Type) where
  names : N → Option (FileId N)
  contents : FileId N → List α
  created : ℕ

variable {N α : Type} [DecidableEq N] [Inhabited α]

namespace Disk

/-- The disk on which the names lead to these contents. -/
def holding (files : N → Option (List α)) : Disk N α where
  names name := (files name).map fun _ ↦ .original name
  contents
    | .original name => (files name).getD []
    | .created _ => []
  created := 0

def content (d : Disk N α) (name : N) : Option (List α) := (d.names name).map d.contents

/-- Open for writing: the file behind the name is emptied, or a new one is created. -/
def openTrunc (d : Disk N α) (name : N) : FileId N × Disk N α :=
  match d.names name with
  | some file => (file, { d with contents := Function.update d.contents file [] })
  | none =>
      let file := .created d.created
      (file, ⟨Function.update d.names name (some file), Function.update d.contents file [],
        d.created + 1⟩)

def writeAt (d : Disk N α) (file : FileId N) (off : ℕ) (items : List α) : Disk N α :=
  { d with contents :=
      Function.update d.contents file ((Edit.write off items).apply (d.contents file)) }

def rename (d : Disk N α) (source target : N) : Disk N α :=
  { d with names := Function.update (Function.update d.names source none) target (d.names source) }

def remove (d : Disk N α) (name : N) : Disk N α :=
  { d with names := Function.update d.names name none }

omit [DecidableEq N] [Inhabited α] in
@[simp] theorem content_holding (files : N → Option (List α)) (name : N) :
    (holding files).content name = files name := by
  cases h : files name <;> simp [holding, content, h]

omit [DecidableEq N] [Inhabited α] in
theorem content_eq_some_iff {d : Disk N α} {name : N} {items : List α} :
    d.content name = some items ↔ ∃ file, d.names name = some file ∧ d.contents file = items :=
  Option.map_eq_some_iff

/-- Two names never lead to one file, and no file is behind a name before it is created. -/
structure Distinct (d : Disk N α) : Prop where
  unique : ∀ name other file, d.names name = some file → d.names other = some file → name = other
  created : ∀ name n, d.names name = some (.created n) → n < d.created

/-- The file has been there at some time. -/
def Known (d : Disk N α) (file : FileId N) : Prop := ∀ n, file = .created n → n < d.created

variable {d : Disk N α} {name other source target : N} {file : FileId N}

omit [DecidableEq N] [Inhabited α] in
theorem distinct_holding (files : N → Option (List α)) : (holding files).Distinct := by
  constructor
  · intro name other file h h'
    obtain ⟨-, -, rfl⟩ := Option.map_eq_some_iff.mp h
    obtain ⟨-, -, heq⟩ := Option.map_eq_some_iff.mp h'
    exact (FileId.original.inj heq).symm
  · intro name n h
    obtain ⟨-, -, heq⟩ := Option.map_eq_some_iff.mp h
    cases heq

omit [DecidableEq N] [Inhabited α] in
theorem Distinct.known (hd : d.Distinct) (h : d.names name = some file) : d.Known file := by
  rintro n rfl
  exact hd.created name n h

/-! ## Opening -/

omit [Inhabited α] in
theorem openTrunc_of_some (h : d.names name = some file) :
    d.openTrunc name = (file, { d with contents := Function.update d.contents file [] }) := by
  rw [openTrunc, h]

omit [Inhabited α] in
theorem openTrunc_of_none (h : d.names name = none) :
    d.openTrunc name = (.created d.created,
      ⟨Function.update d.names name (some (.created d.created)),
        Function.update d.contents (.created d.created) [], d.created + 1⟩) := by
  rw [openTrunc, h]

omit [Inhabited α] in
@[simp] theorem names_openTrunc_self (d : Disk N α) (name : N) :
    (d.openTrunc name).2.names name = some (d.openTrunc name).1 := by
  cases h : d.names name with
  | none => simp [openTrunc_of_none h]
  | some file => simp [openTrunc_of_some h, h]

omit [Inhabited α] in
theorem names_openTrunc_of_ne (h : other ≠ name) :
    (d.openTrunc name).2.names other = d.names other := by
  cases hname : d.names name with
  | none => simp [openTrunc_of_none hname, h]
  | some file => simp [openTrunc_of_some hname]

omit [Inhabited α] in
@[simp] theorem contents_openTrunc_self (d : Disk N α) (name : N) :
    (d.openTrunc name).2.contents (d.openTrunc name).1 = [] := by
  cases h : d.names name with
  | none => simp [openTrunc_of_none h]
  | some file => simp [openTrunc_of_some h]

omit [Inhabited α] in
theorem contents_openTrunc_of_ne (h : file ≠ (d.openTrunc name).1) :
    (d.openTrunc name).2.contents file = d.contents file := by
  cases hname : d.names name with
  | none =>
      rw [openTrunc_of_none hname] at h ⊢
      exact Function.update_of_ne h ..
  | some opened =>
      rw [openTrunc_of_some hname] at h ⊢
      exact Function.update_of_ne h ..

omit [Inhabited α] in
/-- A known file that is opened was behind the name already. -/
theorem names_of_openTrunc (hd : d.Known (d.openTrunc name).1) :
    d.names name = some (d.openTrunc name).1 := by
  cases h : d.names name with
  | none =>
      rw [openTrunc_of_none h] at hd
      exact absurd (hd _ rfl) (lt_irrefl _)
  | some file => rw [openTrunc_of_some h]

omit [Inhabited α] in
theorem Known.openTrunc (h : d.Known file) (name : N) : (d.openTrunc name).2.Known file := by
  cases hname : d.names name with
  | none =>
      rw [openTrunc_of_none hname]
      exact fun n hn ↦ Nat.lt_succ_of_lt (h n hn)
  | some opened =>
      rw [openTrunc_of_some hname]
      exact h

omit [Inhabited α] in
theorem Distinct.known_openTrunc (hd : d.Distinct) (name : N) :
    (d.openTrunc name).2.Known (d.openTrunc name).1 := by
  cases h : d.names name with
  | none =>
      rw [openTrunc_of_none h]
      rintro n hn
      rw [← FileId.created.inj hn]
      exact Nat.lt_succ_self _
  | some file =>
      rw [openTrunc_of_some h]
      exact hd.known h

omit [Inhabited α] in
theorem Distinct.openTrunc (hd : d.Distinct) (name : N) : (d.openTrunc name).2.Distinct := by
  have hother : ∀ b, b ≠ name → d.names b ≠ some (d.openTrunc name).1 := fun b hne hb ↦
    hne (hd.unique _ _ _ hb (names_of_openTrunc (hd.known hb)))
  constructor
  · intro a b file ha hb
    rcases eq_or_ne a name with rfl | hane <;> rcases eq_or_ne b a with rfl | hbne
    · rfl
    · rw [names_openTrunc_self] at ha
      rw [names_openTrunc_of_ne hbne, ← ha] at hb
      exact absurd hb (hother b hbne)
    · rfl
    · rw [names_openTrunc_of_ne hane] at ha
      rcases eq_or_ne b name with rfl | hb'
      · rw [names_openTrunc_self] at hb
        rw [← hb] at ha
        exact absurd ha (hother a hane)
      · exact hd.unique a b file ha ((names_openTrunc_of_ne hb').symm.trans hb)
  · intro a n ha
    rcases eq_or_ne a name with rfl | hane
    · rw [names_openTrunc_self] at ha
      exact hd.known_openTrunc a n (Option.some.inj ha)
    · rw [names_openTrunc_of_ne hane] at ha
      exact (hd.known ha).openTrunc name n rfl

/-! ## Writing -/

@[simp] theorem contents_writeAt_self (d : Disk N α) (file : FileId N) (off : ℕ) (items : List α) :
    (d.writeAt file off items).contents file = (Edit.write off items).apply (d.contents file) :=
  Function.update_self ..

theorem contents_writeAt_of_ne {written : FileId N} {off : ℕ} {items : List α}
    (h : file ≠ written) :
    (d.writeAt written off items).contents file = d.contents file :=
  Function.update_of_ne h ..

/-! ## Moving and removing -/

omit [Inhabited α] in
@[simp] theorem names_rename_target (d : Disk N α) (source target : N) :
    (d.rename source target).names target = d.names source :=
  Function.update_self ..

omit [Inhabited α] in
theorem names_rename_of_ne (h : other ≠ source) (h' : other ≠ target) :
    (d.rename source target).names other = d.names other := by
  simp [rename, h, h']

omit [Inhabited α] in
theorem names_rename_source (h : source ≠ target) :
    (d.rename source target).names source = none := by
  simp [rename, h]

omit [Inhabited α] in
theorem names_of_rename (h : (d.rename source target).names other = some file) :
    other = target ∧ d.names source = some file ∨ other ≠ source ∧ d.names other = some file := by
  rcases eq_or_ne other target with rfl | hne
  · exact .inl ⟨rfl, (names_rename_target d source other).symm.trans h⟩
  · rcases eq_or_ne other source with rfl | hne'
    · rw [names_rename_source hne] at h
      cases h
    · exact .inr ⟨hne', (names_rename_of_ne hne' hne).symm.trans h⟩

omit [Inhabited α] in
theorem Distinct.rename (hd : d.Distinct) (source target : N) :
    (d.rename source target).Distinct := by
  constructor
  · intro a b file ha' hb'
    rcases names_of_rename ha' with ⟨hat, ha⟩ | ⟨hane, ha⟩ <;>
      rcases names_of_rename hb' with ⟨hbt, hb⟩ | ⟨hbne, hb⟩
    · exact hat.trans hbt.symm
    · exact absurd (hd.unique _ _ _ hb ha) hbne
    · exact absurd (hd.unique _ _ _ ha hb) hane
    · exact hd.unique a b file ha hb
  · intro a n ha'
    rcases names_of_rename ha' with ⟨-, ha⟩ | ⟨-, ha⟩
    · exact hd.created source n ha
    · exact hd.created a n ha

omit [Inhabited α] in
theorem names_of_remove (h : (d.remove name).names other = some file) :
    other ≠ name ∧ d.names other = some file := by
  rcases eq_or_ne other name with rfl | hne
  · cases (Function.update_self ..).symm.trans h
  · exact ⟨hne, (Function.update_of_ne hne ..).symm.trans h⟩

omit [Inhabited α] in
theorem Distinct.remove (hd : d.Distinct) (name : N) : (d.remove name).Distinct :=
  ⟨fun a b file ha hb ↦ hd.unique a b file (names_of_remove ha).2 (names_of_remove hb).2,
    fun a n ha ↦ hd.created a n (names_of_remove ha).2⟩

/-! ## Contents by name -/

theorem content_writeAt_self {off : ℕ} {items before : List α} (hname : d.names name = some file)
    (hbefore : d.contents file = before) :
    (d.writeAt file off items).content name = some ((Edit.write off items).apply before) := by
  rw [content, show (d.writeAt file off items).names name = some file from hname, Option.map_some,
    contents_writeAt_self, hbefore]

theorem content_writeAt_of_ne {off : ℕ} {items : List α} (hother : d.names other ≠ some file) :
    (d.writeAt file off items).content other = d.content other := by
  unfold content
  change (d.names other).map (d.writeAt file off items).contents = _
  cases h : d.names other with
  | none => rfl
  | some f =>
      have hne : f ≠ file := fun heq ↦ hother (h.trans (congrArg some heq))
      rw [Option.map_some, contents_writeAt_of_ne hne, Option.map_some]

end Disk

end NamedFiles
