import DuckdbOpenzl.FileSystem.CloseFailures
import DuckdbOpenzl.FileSystem.Positional

/-!
# All calls on one handle

A handle has a string to write, a string to read, or none after `Close` has
let go of it. Reads and the size look at whichever there is without asking;
writes ask for the string they need and never for the `closed` flag.
-/

set_option autoImplicit false

namespace DuckdbOpenzl

open CheckedAccess ExceptionState FileContent

/-! ## One call -/

inductive HandleCall where
  | read (nrBytes : ℤ)
  | readAt (nrBytes : ℤ) (location : ℕ)
  | write (bytes : Bytes)
  | writeAt (bytes : Bytes) (location : ℕ)
  | truncate (newSize : ℤ)
  | seek (location : ℕ)
  | reset
  | getFileSize
  | close
  deriving DecidableEq

/-- How a call ends that neither returns nor throws. -/
inductive CallFault where
  | absentBuffer
  | access (fault : Fault)
  deriving DecidableEq

inductive CallValue where
  | nothing
  | bytes (read : Bytes)
  | size (n : ℕ)
  deriving DecidableEq

/-- What a call returns or throws, and the state it leaves. -/
abbrev CallResult := Except PositionalException CallValue × World × OpenzlFileHandle

namespace OpenzlFileHandle

/-- `Bytes()`, which dereferences `data` when there is no `write_buffer`. -/
def bytesChecked (h : OpenzlFileHandle) : Except CallFault Bytes :=
  match h.writeBuffer with
  | some bytes => .ok bytes
  | none => match h.data with
    | some data => .ok data.bytes
    | none => .error .absentBuffer

/-- `Truncate`; `grows` says which sizes `resize` gets the memory for. -/
def truncateChecked (grows : ℕ → Bool) (h : OpenzlFileHandle) (newSize : ℕ) :
    Except PositionalException OpenzlFileHandle :=
  match h.writeBuffer with
  | none => .error (.exception h.notOpenedForWriting)
  | some buffer =>
      if newSize > buffer.length ∧ grows newSize = false then .error .resize
      else .ok { h with writeBuffer := some (resize buffer newSize) }

theorem bytesChecked_ok {h : OpenzlFileHandle} {b : Bytes} (hb : h.bytesChecked = .ok b) :
    h.bytes = b := by
  unfold bytesChecked at hb
  unfold OpenzlFileHandle.bytes
  cases hbuffer : h.writeBuffer with
  | some buffer =>
      rw [hbuffer] at hb
      exact Except.ok.inj hb
  | none =>
      rw [hbuffer] at hb
      cases hdata : h.data with
      | some data =>
          rw [hdata] at hb
          exact Except.ok.inj hb
      | none =>
          rw [hdata] at hb
          cases hb

/-- There is a string to read. -/
def HasBytes (h : OpenzlFileHandle) : Prop := h.writeBuffer.isSome ∨ h.data.isSome

theorem bytesChecked_eq_ok_iff {h : OpenzlFileHandle} :
    h.bytesChecked = .ok h.bytes ↔ h.HasBytes := by
  unfold bytesChecked OpenzlFileHandle.bytes HasBytes
  cases h.writeBuffer with
  | some buffer => simp
  | none => cases h.data <;> simp

end OpenzlFileHandle

namespace HandleCall

/-- What a checked access leaves: the handle it changed, or the exception. -/
def settle (w : World) (h : OpenzlFileHandle)
    (r : Checked (Except PositionalException OpenzlFileHandle)) : Except CallFault CallResult :=
  match r with
  | .error fault => .error (.access fault)
  | .ok (.ok h') => .ok (.ok .nothing, w, h')
  | .ok (.error e) => .ok (.error e, w, h)

def run (zl : OpenZL) (grows : ℕ → Bool) (c : HandleCall) (s : World × OpenzlFileHandle) :
    Except CallFault CallResult :=
  let (w, h) := s
  match c with
  | .read nrBytes => do
      let _ ← h.bytesChecked
      let (out, h) := h.read (toSize nrBytes)
      return (.ok (.bytes out), w, h)
  | .readAt nrBytes location => do
      let _ ← h.bytesChecked
      let out ← (h.readAtChecked (toSize nrBytes) location).mapError .access
      return (out.map .bytes, w, h)
  | .write bytes => settle w h (h.writeChecked grows bytes)
  | .writeAt bytes location => settle w h (h.writeAtChecked grows bytes location)
  | .truncate newSize => settle w h (.ok (h.truncateChecked grows (toSize newSize)))
  | .seek location => .ok (.ok .nothing, w, h.seek location)
  | .reset => .ok (.ok .nothing, w, h.reset)
  | .getFileSize => do
      let bytes ← h.bytesChecked
      return (.ok (.size bytes.length), w, h)
  | .close =>
      match OpenzlFileHandle.close zl (w, h) with
      | .ok () s => .ok (.ok .nothing, s)
      | .error e s => .ok (.error (.exception e), s)

/-- `Write` and `Truncate`. -/
def edits : HandleCall → Bool
  | .write _ | .writeAt _ _ | .truncate _ => true
  | _ => false

/-- The call moves an archive to the target: a `Close` that returns and had something to write. -/
def replaces (zl : OpenZL) (c : HandleCall) (s : World × OpenzlFileHandle) : Bool :=
  decide (c = .close) && s.2.writeBuffer.isSome && !s.2.closed &&
    returns (OpenzlFileHandle.close zl) s

end HandleCall

/-! ## Which calls are in order -/

/-- The range ends at an offset, or anyhow in the string. -/
def Stays (location n length : ℕ) : Prop := location + n < 2 ^ 64 ∨ location + n ≤ length

/-- The string would have to grow, and `resize` does not get the memory. -/
def Refused (grows : ℕ → Bool) (size length : ℕ) : Prop := length < size ∧ grows size = false

/-- A write that `resize` refuses, or one before `Close` whose range stays inside. -/
def OpenzlFileHandle.WriteCareful (grows : ℕ → Bool) (h : OpenzlFileHandle) (bytes : Bytes)
    (location : ℕ) : Prop :=
  ∀ buffer, h.writeBuffer = some buffer →
    h.closed = false ∧ Stays location bytes.length buffer.length ∨
      Refused grows (add64 location bytes.length) buffer.length

/-- A read finds a string and stays inside it or throws; no edit is tried on the string that a
failed `Close` has left. -/
def HandleCall.Careful (grows : ℕ → Bool) (h : OpenzlFileHandle) : HandleCall → Prop
  | .read _ | .getFileSize => h.HasBytes
  | .readAt nrBytes location => h.HasBytes ∧
      (Stays location (toSize nrBytes) h.bytes.length ∨
        h.bytes.length < add64 location (toSize nrBytes))
  | .write bytes => h.WriteCareful grows bytes h.position
  | .writeAt bytes location => h.WriteCareful grows bytes location
  | .truncate newSize => ∀ buffer, h.writeBuffer = some buffer →
      h.closed = false ∨ Refused grows (toSize newSize) buffer.length
  | .seek _ | .reset | .close => True

section

variable {grows : ℕ → Bool} {buffer bytes : Bytes} {location n : ℕ}

theorem positionalRead_returns_iff (e : Exception) (buffer : Bytes) (location n : ℕ) :
    (∃ r, positionalRead e buffer n location = .ok r) ↔
      Stays location n buffer.length ∨ buffer.length < add64 location n := by
  unfold positionalRead Stays
  by_cases hend : add64 location n > buffer.length
  · rw [if_pos hend]
    exact iff_of_true ⟨_, rfl⟩ (.inr hend)
  · rw [if_neg hend]
    by_cases hinside : location + n ≤ buffer.length
    · rw [load_of_le hinside]
      exact iff_of_true ⟨_, rfl⟩ (.inl (.inr hinside))
    · rw [load_of_lt (by omega)]
      refine iff_of_false (fun ⟨r, hr⟩ ↦ nomatch hr) ?_
      rintro ((hwrap | hinside') | hpast)
      · rw [add64_eq hwrap] at hend
        omega
      · exact hinside hinside'
      · exact hend hpast

/-- A positional write throws if `resize` refuses, stores if the range stays inside, and faults
otherwise. -/
theorem positionalWrite_cases (grows : ℕ → Bool) (buffer bytes : Bytes) (location : ℕ) :
    (Refused grows (add64 location bytes.length) buffer.length ∧
      positionalWrite grows buffer bytes location = .ok (.error .resize)) ∨
    (¬ Refused grows (add64 location bytes.length) buffer.length ∧
      ((Stays location bytes.length buffer.length ∧
          ∃ filled, positionalWrite grows buffer bytes location = .ok (.ok filled)) ∨
        (¬ Stays location bytes.length buffer.length ∧
          ∃ fault, positionalWrite grows buffer bytes location = .error fault))) := by
  unfold positionalWrite Refused Stays
  dsimp only
  by_cases hend : add64 location bytes.length > buffer.length
  · rw [if_pos hend]
    cases hgrows : grows (add64 location bytes.length) with
    | false => exact .inl ⟨⟨hend, rfl⟩, by simp; rfl⟩
    | true =>
        refine .inr ⟨by simp, ?_⟩
        rw [if_pos rfl]
        by_cases hwrap : location + bytes.length < 2 ^ 64
        · refine .inl ⟨.inl hwrap, ?_⟩
          rw [add64_eq hwrap, store_of_le (by rw [length_resize])]
          exact ⟨_, rfl⟩
        · have hsmall : add64 location bytes.length < 2 ^ 64 := Nat.mod_lt _ (by decide)
          refine .inr ⟨by omega, ?_⟩
          rw [store_of_lt (by rw [length_resize]; omega)]
          exact ⟨_, rfl⟩
  · refine .inr ⟨fun h ↦ hend h.1, ?_⟩
    rw [if_neg hend]
    by_cases hinside : location + bytes.length ≤ buffer.length
    · refine .inl ⟨.inr hinside, ?_⟩
      rw [store_of_le hinside]
      exact ⟨_, rfl⟩
    · refine .inr ⟨?_, ?_⟩
      · rintro (hwrap | hinside')
        · rw [add64_eq hwrap] at hend
          omega
        · exact hinside hinside'
      · rw [store_of_lt (by omega)]
        exact ⟨_, rfl⟩

end

/-! ## Any number of calls -/

section

variable (zl : OpenZL) (grows : ℕ → Bool)

/-- Every call returns or throws, and none that edits returns once `Close` was called. -/
def Orderly : Bool → List HandleCall → World × OpenzlFileHandle → Prop
  | _, [], _ => True
  | closeCalled, c :: cs, s => ∃ r t, c.run zl grows s = .ok (r, t) ∧
      (closeCalled = true → c.edits = true → ∃ e, r = .error e) ∧
        Orderly (closeCalled || decide (c = .close)) cs t

/-- Every call is in order where it is made. -/
def AllCareful : List HandleCall → World × OpenzlFileHandle → Prop
  | [], _ => True
  | c :: cs, s => c.Careful grows s.2 ∧
      ∀ r t, c.run zl grows s = .ok (r, t) → AllCareful cs t

/-- How often the calls replace the target. -/
def replacements : List HandleCall → World × OpenzlFileHandle → ℕ
  | [], _ => 0
  | c :: cs, s => (c.replaces zl s).toNat +
      match c.run zl grows s with
      | .ok (_, t) => replacements cs t
      | .error _ => 0

end

/-! ## One call in a run -/

variable {zl : OpenZL} {grows : ℕ → Bool} {closeCalled : Bool} {h : OpenzlFileHandle} {w : World}
  {c : HandleCall} {s t : World × OpenzlFileHandle}
  {r : Except PositionalException CallValue}

/-- What the handle says of whether `Close` has been called on it: a write handle has its flag
set, and a read handle has nothing to write. -/
structure CloseKnown (closeCalled : Bool) (h : OpenzlFileHandle) : Prop where
  called : closeCalled = true → h.writeBuffer = none ∨ h.closed = true
  known : h.closed = true → closeCalled = true

/-- The call returns or throws, and throws if it edits after `Close`. -/
def CallOrderly (zl : OpenZL) (grows : ℕ → Bool) (closeCalled : Bool) (c : HandleCall)
    (s : World × OpenzlFileHandle) : Prop :=
  ∃ r t, c.run zl grows s = .ok (r, t) ∧ (closeCalled = true → c.edits = true → ∃ e, r = .error e)

/-- The three ends of an edit: refused, stored, or outside the string. -/
theorem settle_orderly_iff {refused inside : Bytes → Prop}
    {checked : Checked (Except PositionalException OpenzlFileHandle)}
    (hknown : CloseKnown closeCalled h)
    (hnone : h.writeBuffer = none → ∃ e, checked = .ok (.error e))
    (hsome : ∀ buffer, h.writeBuffer = some buffer →
      refused buffer ∧ (∃ e, checked = .ok (.error e)) ∨
        ¬ refused buffer ∧ (inside buffer ∧ (∃ h', checked = .ok (.ok h')) ∨
          ¬ inside buffer ∧ ∃ fault, checked = .error fault)) :
    (∃ r t, HandleCall.settle w h checked = .ok (r, t) ∧
        (closeCalled = true → ∃ e, r = .error e)) ↔
      ∀ buffer, h.writeBuffer = some buffer → h.closed = false ∧ inside buffer ∨
        refused buffer := by
  cases hbuffer : h.writeBuffer with
  | none =>
      obtain ⟨e, rfl⟩ := hnone hbuffer
      exact iff_of_true ⟨_, _, rfl, fun _ ↦ ⟨e, rfl⟩⟩ nofun
  | some buffer =>
      have hclosed : closeCalled = true ↔ h.closed = true :=
        ⟨fun hcalled ↦ (hknown.called hcalled).resolve_left (by rw [hbuffer]; exact nofun),
          hknown.known⟩
      rcases hsome buffer hbuffer with ⟨hrefused, e, rfl⟩ |
        ⟨hnot, ⟨hinside, h', rfl⟩ | ⟨houtside, fault, rfl⟩⟩
      · refine iff_of_true ⟨_, _, rfl, fun _ ↦ ⟨e, rfl⟩⟩ fun b hb ↦ .inr ?_
        obtain rfl := Option.some.inj hb
        exact hrefused
      · constructor
        · rintro ⟨r, t, hrun, hthrows⟩ b hb
          obtain rfl := Option.some.inj hb
          obtain ⟨rfl, -⟩ := Prod.mk.inj (Except.ok.inj hrun)
          refine .inl ⟨Bool.eq_false_of_not_eq_true fun hyes ↦ ?_, hinside⟩
          obtain ⟨e, he⟩ := hthrows (hclosed.mpr hyes)
          cases he
        · intro hcareful
          refine ⟨_, _, rfl, fun hcalled ↦ ?_⟩
          rcases hcareful buffer rfl with ⟨hopen, -⟩ | hrefused
          · rw [hclosed.mp hcalled] at hopen
            cases hopen
          · exact absurd hrefused hnot
      · refine iff_of_false ?_ fun hcareful ↦ ?_
        · rintro ⟨r, t, hrun, -⟩
          cases hrun
        · rcases hcareful buffer rfl with ⟨-, hinside⟩ | hrefused
          · exact houtside hinside
          · exact hnot hrefused

theorem writeAt_orderly_iff (hknown : CloseKnown closeCalled h) (w : World) (bytes : Bytes)
    (location : ℕ) :
    (∃ r t, HandleCall.settle w h (h.writeAtChecked grows bytes location) = .ok (r, t) ∧
        (closeCalled = true → ∃ e, r = .error e)) ↔ h.WriteCareful grows bytes location := by
  apply settle_orderly_iff hknown
  · intro hnone
    exact ⟨.exception h.notOpenedForWriting, by rw [OpenzlFileHandle.writeAtChecked, hnone]; rfl⟩
  · intro buffer hbuffer
    rw [OpenzlFileHandle.writeAtChecked, hbuffer]
    dsimp only
    rcases positionalWrite_cases grows buffer bytes location with ⟨hrefused, hw⟩ |
      ⟨hnot, ⟨hinside, filled, hw⟩ | ⟨houtside, fault, hw⟩⟩
    · exact .inl ⟨hrefused, .resize, by rw [hw]; rfl⟩
    · exact .inr ⟨hnot, .inl ⟨hinside, _, by rw [hw]; rfl⟩⟩
    · exact .inr ⟨hnot, .inr ⟨houtside, fault, by rw [hw]; rfl⟩⟩

/-- The sequential write is the one at the handle's position, and moves it. -/
theorem settle_write (w : World) (h : OpenzlFileHandle) (bytes : Bytes) (value : Prop) :
    (∃ r t, HandleCall.settle w h (h.writeChecked grows bytes) = .ok (r, t) ∧
        (value → ∃ e, r = .error e)) ↔
      ∃ r t, HandleCall.settle w h (h.writeAtChecked grows bytes h.position) = .ok (r, t) ∧
        (value → ∃ e, r = .error e) := by
  unfold OpenzlFileHandle.writeChecked
  rcases h.writeAtChecked grows bytes h.position with fault | (e | h')
  · rfl
  · rfl
  · constructor
    · rintro ⟨r, t, hrun, hthrows⟩
      obtain ⟨rfl, -⟩ := Prod.mk.inj (Except.ok.inj hrun)
      exact ⟨_, _, rfl, hthrows⟩
    · rintro ⟨r, t, hrun, hthrows⟩
      obtain ⟨rfl, -⟩ := Prod.mk.inj (Except.ok.inj hrun)
      exact ⟨_, _, rfl, hthrows⟩

theorem truncate_orderly_iff (hknown : CloseKnown closeCalled h) (w : World) (newSize : ℕ) :
    (∃ r t, HandleCall.settle w h (.ok (h.truncateChecked grows newSize)) = .ok (r, t) ∧
        (closeCalled = true → ∃ e, r = .error e)) ↔
      ∀ buffer, h.writeBuffer = some buffer →
        h.closed = false ∨ Refused grows newSize buffer.length := by
  have hiff : (∃ r t, HandleCall.settle w h (.ok (h.truncateChecked grows newSize)) = .ok (r, t) ∧
      (closeCalled = true → ∃ e, r = .error e)) ↔ ∀ buffer, h.writeBuffer = some buffer →
        h.closed = false ∧ True ∨ Refused grows newSize buffer.length := by
    refine settle_orderly_iff hknown ?_ ?_
    · intro hnone
      exact ⟨.exception h.notOpenedForWriting, by rw [OpenzlFileHandle.truncateChecked, hnone]⟩
    · intro buffer hbuffer
      rw [OpenzlFileHandle.truncateChecked, hbuffer]
      by_cases hrefused : Refused grows newSize buffer.length
      · exact .inl ⟨hrefused, .resize, congrArg Except.ok (if_pos hrefused)⟩
      · exact .inr ⟨hrefused, .inl ⟨trivial, _, congrArg Except.ok (if_neg hrefused)⟩⟩
  simpa only [and_true] using hiff

/-- A call that looks at `Bytes()` first. -/
theorem bytesChecked_bind_ok_iff {α : Type} {f : Bytes → Except CallFault α}
    (h : OpenzlFileHandle) :
    (∃ a, (h.bytesChecked >>= f) = .ok a) ↔ h.HasBytes ∧ ∃ a, f h.bytes = .ok a := by
  rw [← OpenzlFileHandle.bytesChecked_eq_ok_iff]
  simp only [except_bind_eq_ok_iff]
  constructor
  · rintro ⟨a, b, hb, hf⟩
    obtain rfl := OpenzlFileHandle.bytesChecked_ok hb
    exact ⟨hb, a, hf⟩
  · rintro ⟨hb, a, hf⟩
    exact ⟨a, _, hb, hf⟩

theorem callOrderly_of_not_edits (hedits : c.edits = false) :
    CallOrderly zl grows closeCalled c s ↔ ∃ a, c.run zl grows s = .ok a := by
  unfold CallOrderly
  constructor
  · rintro ⟨r, t, hrun, -⟩
    exact ⟨_, hrun⟩
  · rintro ⟨⟨r, t⟩, hrun⟩
    refine ⟨r, t, hrun, fun _ hyes ↦ ?_⟩
    rw [hedits] at hyes
    cases hyes

theorem run_close_ends (zl : OpenZL) (grows : ℕ → Bool) (s : World × OpenzlFileHandle) :
    ∃ a, HandleCall.close.run zl grows s = .ok a := by
  obtain ⟨w, h⟩ := s
  unfold HandleCall.run
  dsimp only
  cases OpenzlFileHandle.close zl (w, h) with
  | ok u t => exact ⟨_, rfl⟩
  | error e t => exact ⟨_, rfl⟩

/-- A call is orderly exactly when it is in order. -/
theorem callOrderly_iff (hknown : CloseKnown closeCalled s.2) :
    CallOrderly zl grows closeCalled c s ↔ c.Careful grows s.2 := by
  obtain ⟨w, h⟩ := s
  cases c with
  | read nrBytes =>
      rw [callOrderly_of_not_edits rfl]
      exact (bytesChecked_bind_ok_iff h).trans (and_iff_left ⟨_, rfl⟩)
  | readAt nrBytes location =>
      rw [callOrderly_of_not_edits rfl]
      refine (bytesChecked_bind_ok_iff h).trans (and_congr_right fun _ ↦ ?_)
      rw [← positionalRead_returns_iff h.pastTheEnd]
      simp only [except_bind_eq_ok_iff, mapError_eq_ok_iff]
      constructor
      · rintro ⟨a, r, hr, -⟩
        exact ⟨r, hr⟩
      · rintro ⟨r, hr⟩
        exact ⟨_, r, hr, rfl⟩
  | write bytes =>
      simp only [CallOrderly, HandleCall.run, HandleCall.edits, forall_const]
      exact (settle_write w h bytes _).trans (writeAt_orderly_iff hknown w bytes h.position)
  | writeAt bytes location =>
      simp only [CallOrderly, HandleCall.run, HandleCall.edits, forall_const]
      exact writeAt_orderly_iff hknown w bytes location
  | truncate newSize =>
      simp only [CallOrderly, HandleCall.run, HandleCall.edits, forall_const]
      exact truncate_orderly_iff hknown w _
  | seek location => exact iff_of_true ⟨_, _, rfl, fun _ ↦ nofun⟩ trivial
  | reset => exact iff_of_true ⟨_, _, rfl, fun _ ↦ nofun⟩ trivial
  | getFileSize =>
      rw [callOrderly_of_not_edits rfl]
      exact (bytesChecked_bind_ok_iff h).trans (and_iff_left ⟨_, rfl⟩)
  | close =>
      rw [callOrderly_of_not_edits rfl]
      exact iff_of_true (run_close_ends zl grows (w, h)) trivial

/-! ## What a call leaves -/

/-- An edit of the handle leaves everything but the string and the position. -/
theorem settle_keeps {checked : Checked (Except PositionalException OpenzlFileHandle)}
    (hchecked : ∀ h', checked = .ok (.ok h') → h'.closed = h.closed ∧ h'.realPath = h.realPath ∧
      (h.writeBuffer = none → h'.writeBuffer = none))
    (hrun : HandleCall.settle w h checked = .ok (r, t)) :
    t.1 = w ∧ t.2.closed = h.closed ∧ t.2.realPath = h.realPath ∧
      (h.writeBuffer = none → t.2.writeBuffer = none) := by
  rcases checked with fault | (e | h')
  · cases hrun
  · obtain ⟨-, rfl⟩ := Prod.mk.inj (Except.ok.inj hrun)
    exact ⟨rfl, rfl, rfl, id⟩
  · obtain ⟨-, rfl⟩ := Prod.mk.inj (Except.ok.inj hrun)
    exact ⟨rfl, hchecked h' rfl⟩

theorem writeAtChecked_keeps {bytes : Bytes} {location : ℕ} {h' : OpenzlFileHandle}
    (hw : h.writeAtChecked grows bytes location = .ok (.ok h')) :
    h'.closed = h.closed ∧ h'.realPath = h.realPath ∧
      (h.writeBuffer = none → h'.writeBuffer = none) := by
  unfold OpenzlFileHandle.writeAtChecked at hw
  cases hbuffer : h.writeBuffer with
  | none =>
      rw [hbuffer] at hw
      cases hw
  | some buffer =>
      rw [hbuffer] at hw
      dsimp only at hw
      rcases hwrite : positionalWrite grows buffer bytes location with fault | (e | filled)
      · rw [hwrite] at hw
        cases hw
      · rw [hwrite] at hw
        cases hw
      · rw [hwrite] at hw
        obtain rfl := Except.ok.inj (Except.ok.inj hw)
        exact ⟨rfl, rfl, nofun⟩

theorem writeChecked_keeps {bytes : Bytes} {h' : OpenzlFileHandle}
    (hw : h.writeChecked grows bytes = .ok (.ok h')) :
    h'.closed = h.closed ∧ h'.realPath = h.realPath ∧
      (h.writeBuffer = none → h'.writeBuffer = none) := by
  unfold OpenzlFileHandle.writeChecked at hw
  rcases hwrite : h.writeAtChecked grows bytes h.position with fault | (e | h₁)
  · rw [hwrite] at hw
    cases hw
  · rw [hwrite] at hw
    cases hw
  · rw [hwrite] at hw
    obtain rfl := Except.ok.inj (Except.ok.inj hw)
    obtain ⟨hclosed, hreal, hbuffer⟩ := writeAtChecked_keeps hwrite
    exact ⟨hclosed, hreal, hbuffer⟩

theorem truncateChecked_keeps {newSize : ℕ} {h' : OpenzlFileHandle}
    (hw : h.truncateChecked grows newSize = .ok h') :
    h'.closed = h.closed ∧ h'.realPath = h.realPath ∧
      (h.writeBuffer = none → h'.writeBuffer = none) := by
  unfold OpenzlFileHandle.truncateChecked at hw
  cases hbuffer : h.writeBuffer with
  | none =>
      rw [hbuffer] at hw
      cases hw
  | some buffer =>
      rw [hbuffer] at hw
      dsimp only at hw
      split_ifs at hw
      obtain rfl := Except.ok.inj hw
      exact ⟨rfl, rfl, nofun⟩

theorem read_keeps (h : OpenzlFileHandle) (nrBytes : ℕ) :
    (h.read nrBytes).2.closed = h.closed ∧ (h.read nrBytes).2.realPath = h.realPath ∧
      (h.read nrBytes).2.writeBuffer = h.writeBuffer := by
  unfold OpenzlFileHandle.read
  dsimp only
  split_ifs <;> exact ⟨rfl, rfl, rfl⟩

/-- No call but `Close` touches the files, the flag, or a handle that has nothing to write. -/
theorem run_keeps (hclose : c ≠ .close) (hrun : c.run zl grows s = .ok (r, t)) :
    t.1 = s.1 ∧ t.2.closed = s.2.closed ∧ t.2.realPath = s.2.realPath ∧
      (s.2.writeBuffer = none → t.2.writeBuffer = none) := by
  obtain ⟨w, h⟩ := s
  cases c with
  | read nrBytes =>
      obtain ⟨b, -, hrest⟩ := except_bind_eq_ok_iff.mp hrun
      obtain ⟨-, rfl⟩ := Prod.mk.inj (Except.ok.inj hrest)
      obtain ⟨hclosed, hreal, hbuffer⟩ := read_keeps h (toSize nrBytes)
      exact ⟨rfl, hclosed, hreal, hbuffer.trans⟩
  | readAt nrBytes location =>
      obtain ⟨b, -, hrest⟩ := except_bind_eq_ok_iff.mp hrun
      obtain ⟨out, -, hrest⟩ := except_bind_eq_ok_iff.mp hrest
      obtain ⟨-, rfl⟩ := Prod.mk.inj (Except.ok.inj hrest)
      exact ⟨rfl, rfl, rfl, id⟩
  | write bytes => exact settle_keeps (fun _ ↦ writeChecked_keeps) hrun
  | writeAt bytes location => exact settle_keeps (fun _ ↦ writeAtChecked_keeps) hrun
  | truncate newSize =>
      exact settle_keeps (fun h' h ↦ truncateChecked_keeps (Except.ok.inj h)) hrun
  | seek location =>
      obtain ⟨-, rfl⟩ := Prod.mk.inj (Except.ok.inj hrun)
      exact ⟨rfl, rfl, rfl, id⟩
  | reset =>
      obtain ⟨-, rfl⟩ := Prod.mk.inj (Except.ok.inj hrun)
      exact ⟨rfl, rfl, rfl, id⟩
  | getFileSize =>
      obtain ⟨b, -, hrest⟩ := except_bind_eq_ok_iff.mp hrun
      obtain ⟨-, rfl⟩ := Prod.mk.inj (Except.ok.inj hrest)
      exact ⟨rfl, rfl, rfl, id⟩
  | close => exact absurd rfl hclose

theorem run_close_state (hrun : HandleCall.close.run zl grows s = .ok (r, t)) :
    t = stateAfter (OpenzlFileHandle.close zl) s := by
  obtain ⟨w, h⟩ := s
  unfold HandleCall.run at hrun
  dsimp only at hrun
  unfold stateAfter
  cases hclose : OpenzlFileHandle.close zl (w, h) with
  | ok u t' =>
      rw [hclose] at hrun
      exact (Prod.mk.inj (Except.ok.inj hrun)).2.symm
  | error e t' =>
      rw [hclose] at hrun
      exact (Prod.mk.inj (Except.ok.inj hrun)).2.symm

theorem CloseKnown.run (hknown : CloseKnown closeCalled s.2)
    (hrun : c.run zl grows s = .ok (r, t)) :
    CloseKnown (closeCalled || decide (c = .close)) t.2 := by
  by_cases hclose : c = .close
  · subst hclose
    obtain rfl := run_close_state hrun
    exact ⟨fun _ ↦ close_closes zl s.1 s.2, fun _ ↦ by simp⟩
  · obtain ⟨-, hclosed, -, hbuffer⟩ := run_keeps hclose hrun
    simp only [hclose, decide_false, Bool.or_false]
    refine ⟨fun hcalled ↦ ?_, fun h ↦ hknown.known (hclosed ▸ h)⟩
    rw [hclosed]
    exact (hknown.called hcalled).imp_left hbuffer

/-! ## Replacing the target -/

/-- A handle that has nothing more to write replaces nothing. -/
def Finished (h : OpenzlFileHandle) : Prop := h.writeBuffer = none ∨ h.closed = true

theorem replaces_of_finished (hfinished : Finished s.2) : c.replaces zl s = false := by
  unfold HandleCall.replaces
  rcases hfinished with hnone | hclosed
  · rw [hnone]
    simp
  · rw [hclosed]
    simp

theorem finished_run (hfinished : Finished s.2) (hrun : c.run zl grows s = .ok (r, t)) :
    Finished t.2 := by
  by_cases hclose : c = .close
  · subst hclose
    obtain rfl := run_close_state hrun
    exact close_closes zl s.1 s.2
  · obtain ⟨-, hclosed, -, hbuffer⟩ := run_keeps hclose hrun
    unfold Finished
    rw [hclosed]
    exact hfinished.imp_left hbuffer

theorem finished_of_replaces (hreplaces : c.replaces zl s = true)
    (hrun : c.run zl grows s = .ok (r, t)) : Finished t.2 := by
  simp only [HandleCall.replaces, Bool.and_eq_true, decide_eq_true_eq] at hreplaces
  obtain ⟨⟨⟨rfl, -⟩, -⟩, -⟩ := hreplaces
  obtain rfl := run_close_state hrun
  exact close_closes zl s.1 s.2

/-- Every other call leaves the file at the target alone. -/
theorem target_of_not_replaces (hreplaces : c.replaces zl s = false)
    (hrun : c.run zl grows s = .ok (r, t)) : t.1.files s.2.realPath = s.1.files s.2.realPath := by
  by_cases hclose : c = .close
  · subst hclose
    obtain rfl := run_close_state hrun
    obtain ⟨w, h⟩ := s
    by_cases hfinished : Finished h
    · rw [stateAfter_of_ok (close_again w hfinished)]
    · obtain ⟨hsome, hopen⟩ := not_or.mp hfinished
      obtain ⟨buffer, hbuffer⟩ := Option.ne_none_iff_exists'.mp hsome
      have hopen := Bool.eq_false_of_not_eq_true hopen
      have hthrows : returns (OpenzlFileHandle.close zl) (w, h) = false := by
        simpa [HandleCall.replaces, hbuffer, hopen] using hreplaces
      cases hrun' : OpenzlFileHandle.close zl (w, h) with
      | ok u s' =>
          rw [returns, hrun'] at hthrows
          cases hthrows
      | error e s' =>
          rw [stateAfter_of_error hrun']
          exact close_error_target hbuffer hopen hrun'
  · rw [(run_keeps hclose hrun).1]

theorem replacements_of_finished (cs : List HandleCall) (hfinished : Finished s.2) :
    replacements zl grows cs s = 0 := by
  induction cs generalizing s with
  | nil => rfl
  | cons c cs ih =>
      rw [replacements, replaces_of_finished hfinished]
      cases hrun : c.run zl grows s with
      | ok a => simp [ih (finished_run hfinished hrun)]
      | error fault => rfl

theorem replacements_le_one (cs : List HandleCall) (s : World × OpenzlFileHandle) :
    replacements zl grows cs s ≤ 1 := by
  induction cs generalizing s with
  | nil => exact Nat.zero_le 1
  | cons c cs ih =>
      rw [replacements]
      cases hrun : c.run zl grows s with
      | error fault => exact Bool.toNat_le _
      | ok a =>
          obtain ⟨r, t⟩ := a
          cases hreplaces : c.replaces zl s with
          | false => simpa using ih t
          | true => simp [replacements_of_finished cs (finished_of_replaces hreplaces hrun)]

/-! ## Whole runs -/

theorem orderly_iff_allCareful (cs : List HandleCall) (hknown : CloseKnown closeCalled s.2) :
    Orderly zl grows closeCalled cs s ↔ AllCareful zl grows cs s := by
  induction cs generalizing closeCalled s with
  | nil => rfl
  | cons c cs ih =>
      have hcall : CallOrderly zl grows closeCalled c s ↔ c.Careful grows s.2 :=
        callOrderly_iff hknown
      rw [AllCareful, ← hcall, Orderly]
      constructor
      · rintro ⟨r, t, hrun, hthrows, hrest⟩
        refine ⟨⟨r, t, hrun, hthrows⟩, fun r' t' hrun' ↦ ?_⟩
        obtain ⟨rfl, rfl⟩ := Prod.mk.inj (Except.ok.inj (hrun.symm.trans hrun'))
        exact (ih (hknown.run hrun)).mp hrest
      · rintro ⟨⟨r, t, hrun, hthrows⟩, hrest⟩
        exact ⟨r, t, hrun, hthrows, (ih (hknown.run hrun)).mpr (hrest r t hrun)⟩

theorem openFile_closeKnown {path : String} {flags : FileOpenFlags} {o : OpenerSettings}
    {s₀ s₁ : World × ArchiveCache} (hopen : openFile zl path flags o s₀ = .ok h s₁) :
    CloseKnown false h := by
  refine ⟨nofun, fun hclosed ↦ ?_⟩
  unfold openFile at hopen
  split_ifs at hopen
  · cases hwrite : openForWriting path flags o with
    | error e =>
        rw [hwrite] at hopen
        cases hopen
    | ok h' =>
        rw [hwrite] at hopen
        obtain ⟨rfl, -⟩ := EStateM.Result.ok.inj hopen
        obtain ⟨-, -, -, hfalse, -, -⟩ := openForWriting_ok hwrite
        exact hfalse.symm.trans hclosed
  · obtain ⟨w, cache⟩ := s₀
    unfold openForReading at hopen
    dsimp only at hopen
    split at hopen
    · obtain ⟨rfl, -⟩ := EStateM.Result.ok.inj hopen
      cases hclosed
    · split at hopen
      · cases hopen
      · obtain ⟨rfl, -⟩ := EStateM.Result.ok.inj hopen
        cases hclosed

/-- Of every run of calls on a handle that `OpenFile` returned: each returns or throws, none uses an
absent string or edits after `Close`, and the target is replaced at most once, exactly if every
call is in order where it is made. -/
theorem calls_orderly_iff {path : String} {flags : FileOpenFlags} {o : OpenerSettings}
    {s₀ s₁ : World × ArchiveCache} (hopen : openFile zl path flags o s₀ = .ok h s₁)
    (grows : ℕ → Bool) (w : World) (calls : List HandleCall) :
    (Orderly zl grows false calls (w, h) ∧ replacements zl grows calls (w, h) ≤ 1) ↔
      AllCareful zl grows calls (w, h) :=
  (and_iff_left (replacements_le_one calls (w, h))).trans
    (orderly_iff_allCareful calls (openFile_closeKnown hopen))

/-- Writing, reading back and closing twice. -/
theorem calls_orderly_write_close_twice : ∃ h s₁,
    openFile .stored "openzl://a.ozl" .write {} (World.empty, fun _ ↦ {}) = .ok h s₁ ∧
      Orderly .stored (fun _ ↦ true) false [.write [9], .readAt 1 0, .getFileSize, .close, .close]
        (World.empty, h) := by
  have hopen : openFile .stored "openzl://a.ozl" .write {} (World.empty, fun _ ↦ {}) = .ok
      { path := "openzl://a.ozl", writeBuffer := some [], realPath := "a.ozl" }
      (World.empty, fun _ ↦ {}) := rfl
  refine ⟨_, _, hopen, ((calls_orderly_iff hopen (fun _ ↦ true) World.empty _).mpr ?_).1⟩
  have hwrite : HandleCall.run .stored (fun _ ↦ true) (.write [9]) (World.empty,
      { path := "openzl://a.ozl", writeBuffer := some [], realPath := "a.ozl" }) =
      .ok (.ok .nothing, World.empty, { path := "openzl://a.ozl", writeBuffer := some [9]
                                        position := 1, realPath := "a.ozl" }) := rfl
  have hread : HandleCall.run .stored (fun _ ↦ true) (.readAt 1 0) (World.empty,
      { path := "openzl://a.ozl", writeBuffer := some [9], position := 1, realPath := "a.ozl" }) =
      .ok (.ok (.bytes [9]), World.empty, { path := "openzl://a.ozl", writeBuffer := some [9]
                                            position := 1, realPath := "a.ozl" }) := rfl
  have hsize : HandleCall.run .stored (fun _ ↦ true) .getFileSize (World.empty,
      { path := "openzl://a.ozl", writeBuffer := some [9], position := 1, realPath := "a.ozl" }) =
      .ok (.ok (.size 1), World.empty, { path := "openzl://a.ozl", writeBuffer := some [9]
                                         position := 1, realPath := "a.ozl" }) := rfl
  refine ⟨fun buffer hbuffer ↦ .inl ⟨rfl, .inl (by decide)⟩, fun r t hrun ↦ ?_⟩
  obtain ⟨-, rfl⟩ := Prod.mk.inj (Except.ok.inj (hwrite.symm.trans hrun))
  refine ⟨⟨.inl rfl, .inl (.inl (by decide))⟩, fun r t hrun ↦ ?_⟩
  obtain ⟨-, rfl⟩ := Prod.mk.inj (Except.ok.inj (hread.symm.trans hrun))
  refine ⟨.inl rfl, fun r t hrun ↦ ?_⟩
  obtain ⟨-, rfl⟩ := Prod.mk.inj (Except.ok.inj (hsize.symm.trans hrun))
  exact ⟨trivial, fun r t _ ↦ ⟨trivial, fun r t _ ↦ trivial⟩⟩

/-- A disk on which no file can be opened for writing. -/
def noOpen : World :=
  ⟨fun _ ↦ none, 0, ⟨fun _ ↦ false, fun _ ↦ ⟨true, 0⟩, fun _ ↦ ⟨true, 0⟩, fun _ ↦ ⟨true, 0⟩,
    fun _ ↦ true⟩, 0⟩

/-- The size of a file that was closed looks at a string that is gone; after a `Close` that threw
a write is accepted. -/
theorem not_orderly_after_close : ∃ h s₁,
    openFile .stored "openzl://a.ozl" .write {} (World.empty, fun _ ↦ {}) = .ok h s₁ ∧
      ¬ Orderly .stored (fun _ ↦ true) false [.close, .getFileSize] (World.empty, h) ∧
        ¬ Orderly .stored (fun _ ↦ true) false [.close, .write [9]] (noOpen, h) := by
  generalize hh : ({ path := "openzl://a.ozl", writeBuffer := some [], realPath := "a.ozl" } :
    OpenzlFileHandle) = h
  have hopen : openFile .stored "openzl://a.ozl" .write {} (World.empty, fun _ ↦ {}) = .ok h
      (World.empty, fun _ ↦ {}) := by
    rw [← hh]
    rfl
  have hknown := openFile_closeKnown hopen
  refine ⟨h, _, hopen, ?_, ?_⟩
  · have hgone :
        (stateAfter (OpenzlFileHandle.close .stored) (World.empty, h)).2.writeBuffer = none ∧
        (stateAfter (OpenzlFileHandle.close .stored) (World.empty, h)).2.data = none := by
      rw [← hh]
      decide +kernel
    rw [orderly_iff_allCareful _ hknown]
    rintro ⟨-, hrest⟩
    obtain ⟨⟨r, t⟩, hrun⟩ := run_close_ends .stored (fun _ ↦ true) (World.empty, h)
    obtain ⟨hbytes, -⟩ := hrest r t hrun
    rw [run_close_state hrun] at hbytes
    rcases hbytes with hbuffer | hdata
    · rw [hgone.1] at hbuffer
      cases hbuffer
    · rw [hgone.2] at hdata
      cases hdata
  · have hkept : (stateAfter (OpenzlFileHandle.close .stored) (noOpen, h)).2.writeBuffer = some [] ∧
        (stateAfter (OpenzlFileHandle.close .stored) (noOpen, h)).2.closed = true := by
      rw [← hh]
      decide +kernel
    rw [orderly_iff_allCareful _ hknown]
    rintro ⟨-, hrest⟩
    obtain ⟨⟨r, t⟩, hrun⟩ := run_close_ends .stored (fun _ ↦ true) (noOpen, h)
    obtain ⟨hcareful, -⟩ := hrest r t hrun
    rw [run_close_state hrun] at hcareful
    rcases hcareful [] hkept.1 with ⟨hopen', -⟩ | ⟨-, hgrows⟩
    · rw [hkept.2] at hopen'
      cases hopen'
    · cases hgrows

end DuckdbOpenzl
