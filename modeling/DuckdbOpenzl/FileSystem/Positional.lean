import DuckdbOpenzl.FileSystem.BufferFileSystem
import DuckdbOpenzl.FileSystem.Handle
import DuckdbOpenzl.Library.CheckedAccess

/-!
# Positional reads and writes near the end of the offsets

Both file systems compare `location + nr_bytes` with the size of a string and
then copy. The sum is taken modulo `2 ^ 64`; here the copies themselves are
checked, so that a copy beyond the string is seen.
-/

set_option autoImplicit false

namespace DuckdbOpenzl

open FileContent CheckedAccess

/-- A thrown exception of the file systems, or what `std::string::resize` throws. -/
inductive PositionalException where
  | exception (e : Exception)
  | resize

/-- The positional `Read` of both file systems on the string it reads. -/
def positionalRead (pastTheEnd : Exception) (buffer : Bytes) (nrBytes location : ℕ) :
    Checked (Except PositionalException Bytes) := do
  if add64 location nrBytes > buffer.length then
    return .error (.exception pastTheEnd)
  else
    return .ok (← load buffer location nrBytes)

/-- The positional `Write` of both on the string it fills; `grows` says which sizes `resize`
gets the memory for. -/
def positionalWrite (grows : ℕ → Bool) (buffer bytes : Bytes) (location : ℕ) :
    Checked (Except PositionalException Bytes) := do
  let size := add64 location bytes.length
  if size > buffer.length then
    if grows size then
      return .ok (← store (resize buffer size) location bytes)
    else
      return .error .resize
  else
    return .ok (← store buffer location bytes)

namespace OpenzlFileHandle

def readAtChecked (h : OpenzlFileHandle) (nrBytes location : ℕ) :
    Checked (Except PositionalException Bytes) :=
  positionalRead h.pastTheEnd h.bytes nrBytes location

def writeAtChecked (grows : ℕ → Bool) (h : OpenzlFileHandle) (bytes : Bytes) (location : ℕ) :
    Checked (Except PositionalException OpenzlFileHandle) :=
  match h.writeBuffer with
  | none => return .error (.exception h.notOpenedForWriting)
  | some buffer => do
      let written ← positionalWrite grows buffer bytes location
      return written.map fun buffer ↦ { h with writeBuffer := some buffer }

def writeChecked (grows : ℕ → Bool) (h : OpenzlFileHandle) (bytes : Bytes) :
    Checked (Except PositionalException OpenzlFileHandle) := do
  let written ← h.writeAtChecked grows bytes h.position
  return written.map fun h ↦ { h with position := add64 h.position bytes.length }

end OpenzlFileHandle

namespace OpenzlBufferFileSystem

def readAtChecked (fs : OpenzlBufferFileSystem) (h : OpenzlBufferFileHandle)
    (nrBytes location : ℕ) : Checked (Except PositionalException Bytes) :=
  positionalRead (pastTheEnd h) (fs.strings h.buffer) nrBytes location

def writeAtChecked (grows : ℕ → Bool) (fs : OpenzlBufferFileSystem) (h : OpenzlBufferFileHandle)
    (bytes : Bytes) (location : ℕ) :
    Checked (Except PositionalException OpenzlBufferFileSystem) := do
  let written ← positionalWrite grows (fs.strings h.buffer) bytes location
  return written.map (fs.setString h.buffer)

def writeChecked (grows : ℕ → Bool) (fs : OpenzlBufferFileSystem) (h : OpenzlBufferFileHandle)
    (bytes : Bytes) :
    Checked (Except PositionalException (OpenzlBufferFileSystem × OpenzlBufferFileHandle)) := do
  let written ← fs.writeAtChecked grows h bytes h.position
  return written.map fun fs ↦ (fs, { h with position := add64 h.position bytes.length })

end OpenzlBufferFileSystem

/-! ## One call on either file system -/

inductive OpenTarget where
  | archive (h : OpenzlFileHandle)
  | buffer (fs : OpenzlBufferFileSystem) (h : OpenzlBufferFileHandle)

/-- `write` is the sequential call, at the position a `Seek` has just set. -/
inductive Access where
  | readAt (nrBytes location : ℕ)
  | writeAt (bytes : Bytes) (location : ℕ)
  | write (bytes : Bytes) (location : ℕ)

namespace OpenTarget

/-- The string a call copies out of or into. -/
def string : OpenTarget → Bytes
  | .archive h => h.bytes
  | .buffer fs h => fs.strings h.buffer

def writable : OpenTarget → Bool
  | .archive h => h.writeBuffer.isSome
  | .buffer _ _ => true

/-- The bytes a call returns and the state it leaves. -/
def run (grows : ℕ → Bool) :
    OpenTarget → Access → Checked (Except PositionalException (Bytes × OpenTarget))
  | .archive h, .readAt nrBytes location => do
      return (← h.readAtChecked nrBytes location).map fun bytes ↦ (bytes, .archive h)
  | .archive h, .writeAt bytes location => do
      return (← h.writeAtChecked grows bytes location).map fun h ↦ ([], .archive h)
  | .archive h, .write bytes location => do
      return (← (h.seek location).writeChecked grows bytes).map fun h ↦ ([], .archive h)
  | .buffer fs h, .readAt nrBytes location => do
      return (← fs.readAtChecked h nrBytes location).map fun bytes ↦ (bytes, .buffer fs h)
  | .buffer fs h, .writeAt bytes location => do
      return (← fs.writeAtChecked grows h bytes location).map fun fs ↦ ([], .buffer fs h)
  | .buffer fs h, .write bytes location => do
      return (← fs.writeChecked grows (h.seek location) bytes).map fun (fs, h) ↦ ([], .buffer fs h)

end OpenTarget

namespace Access

def location : Access → ℕ
  | .readAt _ location | .writeAt _ location | .write _ location => location

def nrBytes : Access → ℕ
  | .readAt nrBytes _ => nrBytes
  | .writeAt bytes _ | .write bytes _ => bytes.length

/-- The end of the range as a mathematical integer. -/
def stop (a : Access) : ℕ := a.location + a.nrBytes

/-- A successful read returns the whole range, which lies in the string; a successful write
puts its bytes into a string that was made long enough first. -/
def Correct (t t' : OpenTarget) (read : Bytes) : Access → Prop
  | .readAt nrBytes location =>
      location + nrBytes ≤ t.string.length ∧ read = slice t.string location nrBytes
  | .writeAt bytes location | .write bytes location =>
      ∃ grown, t.string <+: grown ∧ location + bytes.length ≤ grown.length ∧
        t'.string = overwrite grown location bytes

/-- The call throws or is correct; in no case does it touch an index outside the string. -/
def StaysInside (grows : ℕ → Bool) (t : OpenTarget) (a : Access) : Prop :=
  (∃ e, t.run grows a = .ok (.error e)) ∨
    ∃ read t', t.run grows a = .ok (.ok (read, t')) ∧ a.Correct t t' read

/-- When the wrapped sum makes the call throw after all: it passes the end of the string that is
read, or asks `resize` for a size it refuses. -/
def Refused (grows : ℕ → Bool) (t : OpenTarget) (a : Access) : Prop :=
  t.string.length < a.stop - 2 ^ 64 ∧
    match a with
    | .readAt _ _ => True
    | .writeAt _ _ | .write _ _ => grows (a.stop - 2 ^ 64) = false

/-- The range ends below `2 ^ 64`, or the call throws for another reason. -/
def Safe (grows : ℕ → Bool) (t : OpenTarget) (a : Access) : Prop :=
  a.stop < 2 ^ 64 ∨ a.Refused grows t ∨
    match a with
    | .readAt _ _ => False
    | .writeAt _ _ | .write _ _ => t.writable = false

end Access

/-! ## The two copies -/

theorem add64_of_wrap {location n : ℕ} (hlocation : location < 2 ^ 64) (hn : n < 2 ^ 63)
    (hwrap : ¬ location + n < 2 ^ 64) : add64 location n = location + n - 2 ^ 64 := by
  unfold add64
  omega

section

variable {grows : ℕ → Bool} {buffer bytes : Bytes} {nrBytes location : ℕ} {e : Exception}

theorem positionalRead_of_lt (h : location + nrBytes < 2 ^ 64) :
    positionalRead e buffer nrBytes location =
      .ok (if location + nrBytes > buffer.length then .error (.exception e)
        else .ok (slice buffer location nrBytes)) := by
  unfold positionalRead
  rw [add64_eq h]
  by_cases hend : location + nrBytes > buffer.length
  · rw [if_pos hend, if_pos hend]
    rfl
  · rw [if_neg hend, if_neg hend, load_of_le (by omega)]
    rfl

theorem positionalRead_of_wrap (hlocation : location < 2 ^ 64) (hn : nrBytes < 2 ^ 63)
    (hbuffer : buffer.length < 2 ^ 63) (h : ¬ location + nrBytes < 2 ^ 64) :
    positionalRead e buffer nrBytes location =
      if location + nrBytes - 2 ^ 64 > buffer.length then .ok (.error (.exception e))
      else .error .outOfBounds := by
  unfold positionalRead
  rw [add64_of_wrap hlocation hn h]
  by_cases hend : location + nrBytes - 2 ^ 64 > buffer.length
  · rw [if_pos hend, if_pos hend]
    rfl
  · rw [if_neg hend, if_neg hend, load_of_lt (by omega)]
    rfl

theorem positionalWrite_of_lt (grows : ℕ → Bool) (buffer : Bytes)
    (h : location + bytes.length < 2 ^ 64) :
    positionalWrite grows buffer bytes location = .ok (.error .resize) ∨
      ∃ grown, buffer <+: grown ∧ location + bytes.length ≤ grown.length ∧
        positionalWrite grows buffer bytes location =
          .ok (.ok (overwrite grown location bytes)) := by
  unfold positionalWrite
  dsimp only
  rw [add64_eq h]
  by_cases hend : location + bytes.length > buffer.length
  · rw [if_pos hend]
    cases hgrows : grows (location + bytes.length) with
    | false => exact .inl (if_neg (by simp))
    | true =>
        refine .inr ⟨resize buffer (location + bytes.length), ?_, ?_, ?_⟩
        · rw [resize, List.take_of_length_le (by omega)]
          exact List.prefix_append _ _
        · rw [length_resize]
        · rw [if_pos rfl, store_of_le (by rw [length_resize])]
          rfl
  · refine .inr ⟨buffer, List.prefix_refl _, by omega, ?_⟩
    rw [if_neg hend, store_of_le (by omega)]
    rfl

theorem positionalWrite_of_wrap (hlocation : location < 2 ^ 64) (hn : bytes.length < 2 ^ 63)
    (hbuffer : buffer.length < 2 ^ 63) (h : ¬ location + bytes.length < 2 ^ 64) :
    positionalWrite grows buffer bytes location =
      if buffer.length < location + bytes.length - 2 ^ 64 ∧
          grows (location + bytes.length - 2 ^ 64) = false then .ok (.error .resize)
      else .error .outOfBounds := by
  unfold positionalWrite
  dsimp only
  rw [add64_of_wrap hlocation hn h]
  by_cases hend : location + bytes.length - 2 ^ 64 > buffer.length
  · rw [if_pos hend]
    cases hgrows : grows (location + bytes.length - 2 ^ 64) with
    | false =>
        rw [if_neg (by simp), if_pos ⟨hend, rfl⟩]
        rfl
    | true =>
        rw [if_pos rfl, if_neg (by simp), store_of_lt (by rw [length_resize]; omega)]
        rfl
  · rw [if_neg hend, if_neg (fun hboth ↦ hend hboth.1), store_of_lt (by omega)]
    rfl

end

/-! ## A checked call that stays inside is the call itself -/

section

variable {nrBytes location : ℕ} {bytes buffer : Bytes}

theorem positionalRead_eq_ok {e : Exception} {r : Except PositionalException Bytes}
    (h : positionalRead e buffer nrBytes location = .ok r) :
    r = if add64 location nrBytes > buffer.length then .error (.exception e)
      else .ok (slice buffer location nrBytes) := by
  unfold positionalRead at h
  split at h
  · rename_i hend
    rw [if_pos hend]
    exact (Except.ok.inj h).symm
  · rename_i hend
    rw [if_neg hend]
    cases hload : load buffer location nrBytes with
    | error fault =>
        rw [hload] at h
        cases h
    | ok copied =>
        rw [hload] at h
        rw [← (load_eq_ok_iff.mp hload).2]
        exact (Except.ok.inj h).symm

theorem positionalWrite_eq_ok {r : Except PositionalException Bytes}
    (h : positionalWrite (fun _ ↦ true) buffer bytes location = .ok r) :
    r = .ok (overwrite (if add64 location bytes.length > buffer.length
      then resize buffer (add64 location bytes.length) else buffer) location bytes) := by
  have hstore : ∀ xs, (do return .ok (← store xs location bytes)) = Except.ok r →
      r = .ok (overwrite xs location bytes) := by
    intro xs hxs
    cases hcopied : store xs location bytes with
    | error fault =>
        rw [hcopied] at hxs
        cases hxs
    | ok copied =>
        rw [hcopied] at hxs
        rw [← store_eq_ok hcopied]
        exact (Except.ok.inj hxs).symm
  unfold positionalWrite at h
  dsimp only at h
  split at h
  · rename_i hend
    rw [if_pos hend]
    exact hstore _ h
  · rename_i hend
    rw [if_neg hend]
    exact hstore _ h

theorem OpenzlFileHandle.readAtChecked_eq_ok {h : OpenzlFileHandle}
    {r : Except PositionalException Bytes} (hr : h.readAtChecked nrBytes location = .ok r) :
    r = (h.readAt nrBytes location).mapError .exception := by
  rw [positionalRead_eq_ok hr, OpenzlFileHandle.readAt]
  split <;> rfl

theorem OpenzlFileHandle.writeAtChecked_eq_ok {h : OpenzlFileHandle}
    {r : Except PositionalException OpenzlFileHandle}
    (hr : h.writeAtChecked (fun _ ↦ true) bytes location = .ok r) :
    r = (h.writeAt bytes location).mapError .exception := by
  revert hr
  unfold OpenzlFileHandle.writeAtChecked OpenzlFileHandle.writeAt
  cases h.writeBuffer with
  | none => exact fun hr ↦ (Except.ok.inj hr).symm
  | some buffer =>
      intro hr
      dsimp only at hr ⊢
      cases hwrite : positionalWrite (fun _ ↦ true) buffer bytes location with
      | error fault =>
          rw [hwrite] at hr
          cases hr
      | ok written =>
          rw [hwrite, positionalWrite_eq_ok hwrite] at hr
          exact (Except.ok.inj hr).symm

theorem OpenzlBufferFileSystem.readAtChecked_eq_ok {fs : OpenzlBufferFileSystem}
    {h : OpenzlBufferFileHandle} {r : Except PositionalException Bytes}
    (hr : fs.readAtChecked h nrBytes location = .ok r) :
    r = (fs.readAt h nrBytes location).mapError .exception := by
  rw [positionalRead_eq_ok hr, OpenzlBufferFileSystem.readAt]
  split <;> rfl

theorem OpenzlBufferFileSystem.writeAtChecked_eq_ok {fs : OpenzlBufferFileSystem}
    {h : OpenzlBufferFileHandle} {r : Except PositionalException OpenzlBufferFileSystem}
    (hr : fs.writeAtChecked (fun _ ↦ true) h bytes location = .ok r) :
    r = .ok (fs.writeAt h bytes location) := by
  unfold OpenzlBufferFileSystem.writeAtChecked at hr
  cases hwrite : positionalWrite (fun _ ↦ true) (fs.strings h.buffer) bytes location with
  | error fault =>
      rw [hwrite] at hr
      cases hr
  | ok written =>
      rw [hwrite, positionalWrite_eq_ok hwrite] at hr
      exact (Except.ok.inj hr).symm

end

/-! ## Both file systems alike -/

section

variable (grows : ℕ → Bool)

def OpenTarget.pastTheEnd : OpenTarget → Exception
  | .archive h => h.pastTheEnd
  | .buffer _ h => OpenzlBufferFileSystem.pastTheEnd h

theorem run_readAt (t : OpenTarget) (nrBytes location : ℕ) :
    t.run grows (.readAt nrBytes location) =
      (positionalRead t.pastTheEnd t.string nrBytes location).map
        (Except.map fun bytes ↦ (bytes, t)) := by
  cases t <;> rfl

/-- The write of a writable target is the one positional write on its string. -/
theorem run_write {t : OpenTarget} (h : t.writable = true) (bytes : Bytes) (location : ℕ)
    {a : Access} (ha : a = .writeAt bytes location ∨ a = .write bytes location) :
    ∃ filled : Bytes → OpenTarget, (∀ b, (filled b).string = b) ∧
      t.run grows a = (positionalWrite grows t.string bytes location).map
        (Except.map fun b ↦ ([], filled b)) := by
  cases t with
  | archive h' =>
      obtain ⟨buffer, hbuffer⟩ := Option.isSome_iff_exists.mp h
      have hstring : (OpenTarget.archive h').string = buffer := by
        simp [OpenTarget.string, OpenzlFileHandle.bytes, hbuffer]
      rw [hstring]
      rcases ha with rfl | rfl
      · refine ⟨fun b ↦ .archive { h' with writeBuffer := some b }, fun b ↦ rfl, ?_⟩
        rw [OpenTarget.run, OpenzlFileHandle.writeAtChecked, hbuffer]
        dsimp only
        rcases positionalWrite grows buffer bytes location with fault | (e | b) <;> rfl
      · refine ⟨fun b ↦ .archive { h'.seek location with
          writeBuffer := some b, position := add64 location bytes.length }, fun b ↦ rfl, ?_⟩
        rw [OpenTarget.run, OpenzlFileHandle.writeChecked, OpenzlFileHandle.writeAtChecked,
          OpenzlFileHandle.seek, hbuffer]
        dsimp only
        rcases positionalWrite grows buffer bytes location with fault | (e | b) <;> rfl
  | buffer fs h' =>
      have hfilled : ∀ b, (fs.setString h'.buffer b).strings h'.buffer = b := fun b ↦
        Function.update_self _ _ _
      rcases ha with rfl | rfl
      · refine ⟨fun b ↦ .buffer (fs.setString h'.buffer b) h', hfilled, ?_⟩
        rw [OpenTarget.run, OpenzlBufferFileSystem.writeAtChecked, OpenTarget.string]
        rcases positionalWrite grows (fs.strings h'.buffer) bytes location with fault | (e | b) <;>
          rfl
      · refine ⟨fun b ↦ .buffer (fs.setString h'.buffer b)
          { h'.seek location with position := add64 location bytes.length }, hfilled, ?_⟩
        rw [OpenTarget.run, OpenzlBufferFileSystem.writeChecked,
          OpenzlBufferFileSystem.writeAtChecked, OpenTarget.string, OpenzlBufferFileHandle.seek]
        dsimp only
        rcases positionalWrite grows (fs.strings h'.buffer) bytes location with fault | (e | b) <;>
          rfl

theorem run_write_of_not_writable {t : OpenTarget} (h : t.writable = false) (bytes : Bytes)
    (location : ℕ) {a : Access} (ha : a = .writeAt bytes location ∨ a = .write bytes location) :
    ∃ e, t.run grows a = .ok (.error e) := by
  cases t with
  | archive h' =>
      have hnone : h'.writeBuffer = none := Option.not_isSome_iff_eq_none.mp (by
        simpa [OpenTarget.writable] using h)
      rcases ha with rfl | rfl
      · refine ⟨.exception h'.notOpenedForWriting, ?_⟩
        rw [OpenTarget.run, OpenzlFileHandle.writeAtChecked, hnone]
        rfl
      · refine ⟨.exception (h'.seek location).notOpenedForWriting, ?_⟩
        rw [OpenTarget.run, OpenzlFileHandle.writeChecked, OpenzlFileHandle.writeAtChecked,
          OpenzlFileHandle.seek, hnone]
        rfl
  | buffer fs h' => cases h

end

namespace Access

variable {grows : ℕ → Bool} {t : OpenTarget}

theorem readAt_staysInside_iff {nrBytes location : ℕ} (hlocation : location < 2 ^ 64)
    (hn : nrBytes < 2 ^ 63) (hstring : t.string.length < 2 ^ 63) :
    StaysInside grows t (.readAt nrBytes location) ↔ Safe grows t (.readAt nrBytes location) := by
  have hrun := run_readAt grows t nrBytes location
  simp only [Safe, Refused, stop, Access.location, Access.nrBytes, and_true, or_false]
  by_cases hwrap : location + nrBytes < 2 ^ 64
  · refine iff_of_true ?_ (.inl hwrap)
    rw [positionalRead_of_lt hwrap] at hrun
    by_cases hend : location + nrBytes > t.string.length
    · rw [if_pos hend] at hrun
      exact .inl ⟨_, hrun⟩
    · rw [if_neg hend] at hrun
      exact .inr ⟨_, _, hrun, by omega, rfl⟩
  · rw [positionalRead_of_wrap hlocation hn hstring hwrap] at hrun
    by_cases hend : location + nrBytes - 2 ^ 64 > t.string.length
    · rw [if_pos hend] at hrun
      exact iff_of_true (.inl ⟨_, hrun⟩) (.inr hend)
    · rw [if_neg hend] at hrun
      refine iff_of_false ?_ (by omega)
      rintro (⟨e, he⟩ | ⟨read, t', hok, -⟩)
      · rw [hrun] at he
        cases he
      · rw [hrun] at hok
        cases hok

theorem write_staysInside_iff {bytes : Bytes} {location : ℕ} {a : Access}
    (ha : a = .writeAt bytes location ∨ a = .write bytes location) (hlocation : location < 2 ^ 64)
    (hn : bytes.length < 2 ^ 63) (hstring : t.string.length < 2 ^ 63) :
    StaysInside grows t a ↔ Safe grows t a := by
  have hsafe : Safe grows t a ↔ location + bytes.length < 2 ^ 64 ∨
      (t.string.length < location + bytes.length - 2 ^ 64 ∧
        grows (location + bytes.length - 2 ^ 64) = false) ∨ t.writable = false := by
    rcases ha with rfl | rfl <;> rfl
  have hcorrect : ∀ t' read, a.Correct t t' read ↔ ∃ grown, t.string <+: grown ∧
      location + bytes.length ≤ grown.length ∧ t'.string = overwrite grown location bytes := by
    rcases ha with rfl | rfl <;> exact fun _ _ ↦ Iff.rfl
  rw [hsafe]
  cases hwritable : t.writable with
  | false =>
      exact iff_of_true (.inl (run_write_of_not_writable grows hwritable bytes location ha))
        (.inr (.inr rfl))
  | true =>
      obtain ⟨filled, hfilled, hrun⟩ := run_write grows hwritable bytes location ha
      by_cases hwrap : location + bytes.length < 2 ^ 64
      · refine iff_of_true ?_ (.inl hwrap)
        rcases positionalWrite_of_lt grows t.string hwrap with
          hthrow | ⟨grown, hprefix, hlength, hwrite⟩
        · rw [hthrow] at hrun
          exact .inl ⟨_, hrun⟩
        · rw [hwrite] at hrun
          exact .inr ⟨_, _, hrun, (hcorrect _ _).mpr ⟨grown, hprefix, hlength, hfilled _⟩⟩
      · rw [positionalWrite_of_wrap hlocation hn hstring hwrap] at hrun
        by_cases hrefused : t.string.length < location + bytes.length - 2 ^ 64 ∧
            grows (location + bytes.length - 2 ^ 64) = false
        · rw [if_pos hrefused] at hrun
          exact iff_of_true (.inl ⟨_, hrun⟩) (.inr (.inl hrefused))
        · rw [if_neg hrefused] at hrun
          refine iff_of_false ?_ (by rintro (h | h | h); exacts [hwrap h, hrefused h, nomatch h])
          rintro (⟨e, he⟩ | ⟨read, t', hok, -⟩)
          · rw [hrun] at he
            cases he
          · rw [hrun] at hok
            cases hok

end Access

/-- A positional call on either file system throws or stays inside its string exactly when its
range ends below `2 ^ 64` or the call throws in spite of the wrapped sum. -/
theorem staysInside_iff_safe (grows : ℕ → Bool) (t : OpenTarget) (a : Access)
    (hlocation : a.location < 2 ^ 64) (hn : a.nrBytes < 2 ^ 63)
    (hstring : t.string.length < 2 ^ 63) : a.StaysInside grows t ↔ a.Safe grows t := by
  cases a with
  | readAt nrBytes location => exact Access.readAt_staysInside_iff hlocation hn hstring
  | writeAt bytes location => exact Access.write_staysInside_iff (.inl rfl) hlocation hn hstring
  | write bytes location => exact Access.write_staysInside_iff (.inr rfl) hlocation hn hstring

/-- Three bytes appended to a buffer of two. -/
theorem staysInside_iff_safe_append : ∃ fs h, (OpenTarget.buffer fs h).string = [1, 2] ∧
    (Access.write [3, 4, 5] 2).StaysInside (fun _ ↦ true) (.buffer fs h) := by
  refine ⟨{ strings := fun _ ↦ [1, 2] }, ⟨"openzl-buffer://0", 0, 0⟩, rfl, ?_⟩
  exact (staysInside_iff_safe (fun _ ↦ true) _ (.write [3, 4, 5] 2) (by decide) (by decide)
    (by decide)).mpr (.inl (by decide))

/-- One byte read at the last offset: the sum is 0, nothing is thrown, and the copy starts far
behind the string. -/
theorem read_outside_at_last_offset : ∃ t : OpenTarget, t.string.length = 4 ∧
    t.run (fun _ ↦ true) (.readAt 1 (2 ^ 64 - 1)) = .error .outOfBounds ∧
      ¬ (Access.readAt 1 (2 ^ 64 - 1)).StaysInside (fun _ ↦ true) t := by
  have hrun : (OpenTarget.archive
      { path := "openzl://a.ozl", data := some ⟨0, [80, 65, 82, 49]⟩ }).run (fun _ ↦ true)
      (.readAt 1 (2 ^ 64 - 1)) = .error .outOfBounds := by
    rw [run_readAt, positionalRead_of_wrap (by decide) (by decide) (by decide) (by decide),
      if_neg (by decide)]
    rfl
  refine ⟨_, rfl, hrun, ?_⟩
  rintro (⟨e, he⟩ | ⟨read, t', hok, -⟩)
  · rw [hrun] at he
    cases he
  · rw [hrun] at hok
    cases hok

end DuckdbOpenzl
