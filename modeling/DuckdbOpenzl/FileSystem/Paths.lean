import DuckdbOpenzl.Bridge.FileIo
import DuckdbOpenzl.Library.ListSearch

/-!
# Archive paths and chunk paths

`openzl://<archive>` names a whole archive and `openzl://<archive>#chunk=N` one
chunk of it. The suffix is searched for from the end of the path and is one
only if it ends in 1 to 15 digits, so an archive's own name may contain the
marker.
-/

set_option autoImplicit false

namespace DuckdbOpenzl

open ListSearch

def scheme : String := "openzl://"

def schemeLen : ℕ := 9

def bufferScheme : String := "openzl-buffer://"

def chunkMarker : String := "#chunk="

/-- `StripScheme`, called on paths that `CanHandleFile` accepts. -/
def stripScheme (fpath : String) : Path := String.ofList (fpath.toList.drop schemeLen)

def canHandleFile (fpath : String) : Bool := fpath.toList.take schemeLen == scheme.toList

/-- The digits of `find_first_not_of("0123456789")`. -/
def isChunkDigits (digits : List Char) : Bool :=
  !digits.isEmpty && decide (digits.length ≤ 15) && digits.all Char.isDigit

def splitChunkSuffix (realPath : Path) : Option (Path × ℕ) :=
  match rfind chunkMarker.toList realPath.toList with
  | none => none
  | some pos =>
      let digits := realPath.toList.drop (pos + chunkMarker.toList.length)
      if isChunkDigits digits then
        some (String.ofList (realPath.toList.take pos), Nat.ofDigitChars 10 digits 0)
      else none

def chunkPath (path : String) (i : ℕ) : String := path ++ "#chunk=" ++ toString i

/-! ## Schemes -/

@[simp] theorem stripScheme_scheme (p : Path) : stripScheme ("openzl://" ++ p) = p := by
  simp [stripScheme, schemeLen]

theorem chunkPath_scheme (p : Path) (i : ℕ) :
    chunkPath ("openzl://" ++ p) i = "openzl://" ++ chunkPath p i := by
  simp [chunkPath, String.append_assoc]

theorem toList_chunkPath (p : Path) (i : ℕ) :
    (chunkPath p i).toList = p.toList ++ (chunkMarker.toList ++ (toString i).toList) := by
  simp [chunkPath, chunkMarker]

/-! ## The suffix -/

theorem isChunkDigits_iff {digits : List Char} : isChunkDigits digits = true ↔
    1 ≤ digits.length ∧ digits.length ≤ 15 ∧ ∀ c ∈ digits, c.isDigit = true := by
  simp only [isChunkDigits, Bool.and_eq_true, Bool.not_eq_true', decide_eq_true_eq,
    List.all_eq_true, and_assoc, List.isEmpty_eq_false_iff, ← List.length_pos_iff]
  rfl

theorem rfind_chunkMarker {p digits : List Char} (h : ∀ c ∈ digits, c.isDigit = true) :
    rfind chunkMarker.toList (p ++ (chunkMarker.toList ++ digits)) = some p.length := by
  have hmarker : chunkMarker.toList = '#' :: "chunk=".toList := by decide
  have hhash : '#' ∉ digits := fun hmem ↦ absurd (h _ hmem) (by decide)
  rw [hmarker]
  exact rfind_of_last (by decide) hhash

/-- A path has a chunk suffix exactly when it ends in the marker and 1 to 15 digits. -/
theorem splitChunkSuffix_eq_some_iff {realPath archive : Path} {chunk : ℕ} :
    splitChunkSuffix realPath = some (archive, chunk) ↔
      ∃ digits, realPath.toList = archive.toList ++ (chunkMarker.toList ++ digits) ∧
        isChunkDigits digits = true ∧ Nat.ofDigitChars 10 digits 0 = chunk := by
  constructor
  · intro h
    unfold splitChunkSuffix at h
    split at h
    · cases h
    · rename_i pos hpos
      dsimp only at h
      split at h
      · rename_i hdigits
        obtain ⟨rfl, rfl⟩ := Prod.mk.inj (Option.some.inj h)
        exact ⟨_, by rw [String.toList_ofList]; exact eq_of_rfind hpos, hdigits, rfl⟩
      · cases h
  · rintro ⟨digits, hpath, hdigits, rfl⟩
    have hpos := rfind_chunkMarker (p := archive.toList) (isChunkDigits_iff.mp hdigits).2.2
    have hdrop : (archive.toList ++ (chunkMarker.toList ++ digits)).drop
        (archive.toList.length + chunkMarker.toList.length) = digits := by
      rw [← List.append_assoc, ← List.length_append, List.drop_left]
    have htake : (archive.toList ++ (chunkMarker.toList ++ digits)).take archive.toList.length =
        archive.toList := List.take_left
    unfold splitChunkSuffix
    rw [hpath, hpos]
    dsimp only
    rw [hdrop, if_pos hdigits, htake, String.ofList_toList]

theorem splitChunkSuffix_eq_none_iff {p : Path} :
    splitChunkSuffix p = none ↔ ∀ archive digits : String,
      isChunkDigits digits.toList = true → p ≠ archive ++ "#chunk=" ++ digits := by
  constructor
  · rintro h archive digits hdigits rfl
    have hsome : splitChunkSuffix (archive ++ "#chunk=" ++ digits) =
        some (archive, Nat.ofDigitChars 10 digits.toList 0) :=
      splitChunkSuffix_eq_some_iff.mpr ⟨digits.toList, by simp [chunkMarker], hdigits, rfl⟩
    rw [h] at hsome
    cases hsome
  · intro h
    cases hsplit : splitChunkSuffix p with
    | none => rfl
    | some r =>
        obtain ⟨digits, hpath, hdigits, -⟩ := splitChunkSuffix_eq_some_iff.mp
          (show splitChunkSuffix p = some (r.1, r.2) from hsplit)
        refine absurd ?_ (h r.1 (String.ofList digits) (by simpa using hdigits))
        rw [← String.toList_inj, hpath]
        simp [chunkMarker]

theorem isChunkDigits_toString {i : ℕ} (h : i < 10 ^ 15) :
    isChunkDigits (toString i).toList = true := by
  have hlist : (toString i).toList = Nat.toDigits 10 i := Nat.toList_repr
  rw [isChunkDigits_iff, hlist]
  refine ⟨?_, (Nat.length_toDigits_le_iff (by decide) (by decide)).mpr h, ?_⟩
  · exact Nat.length_toDigits_pos
  · intro c hc
    exact Nat.isDigit_of_mem_toDigits (b := 10) (by decide) (by decide) hc

/-- A chunk path leads back to its archive and index, whatever the archive is called. -/
theorem splitChunkSuffix_chunkPath (p : Path) {i : ℕ} (h : i < 10 ^ 15) :
    splitChunkSuffix (chunkPath p i) = some (p, i) := by
  refine splitChunkSuffix_eq_some_iff.mpr
    ⟨(toString i).toList, toList_chunkPath p i, isChunkDigits_toString h, ?_⟩
  rw [show (toString i).toList = Nat.toDigits 10 i from Nat.toList_repr]
  exact Nat.ofDigitChars_ten_toDigits

end DuckdbOpenzl
