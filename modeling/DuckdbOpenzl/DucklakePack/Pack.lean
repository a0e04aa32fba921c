import Mathlib.Logic.Function.Basic
import DuckdbOpenzl.DucklakePack.DataFiles
import DuckdbOpenzl.Library.LittleEndian

/-!
# Packing

Every submitted file is packed by a call of `pack_one`, and the calls run in any
order and at the same time. The main loop takes their results one at a time: it
repoints the catalog row and removes the source file. Any step can fail or be
the last one of a run.
-/

set_option autoImplicit false

namespace DuckdbOpenzl

namespace DucklakePack

/-- How a call of `pack_one` ends. -/
inductive Outcome where
  | raised
  | skipped
  | mismatch (a b : ℕ × ℕ)
  | packed (res : PackResult)

/-- How far the packing of a file has got. -/
inductive Worker where
  | submitted
  | selected (ids : List (String × ℤ))
  | copying (columns : List ColumnIds) (beside : Bool)
  | copied
  | hashed (a : ℕ × ℕ)
  | mismatched (a b : ℕ × ℕ)
  | verified
  | decompressed (logical footer : ℕ)
  | finished (outcome : Outcome)
  | reported
  | repointed

/-- Where a call may raise with nothing written. -/
def Worker.MayRaise : Worker → Prop
  | .submitted | .selected _ | .copied | .hashed _ | .mismatched _ _ | .verified
  | .decompressed _ _ => True
  | .copying _ _ | .finished _ | .reported | .repointed => False

inductive Main where
  | waiting
  | removing (f : ListedFile)
  | stopped

structure PackState (ρ : Type) where
  catalog : Catalog
  disk : Disk ρ
  workers : ℕ → Worker
  main : Main

def ListedFile.source (cwd : String) (f : ListedFile) : String := location cwd f.path

def ListedFile.archive (cwd : String) (f : ListedFile) : String := fixedPath cwd (zlName f.path)

/-- `tmp_` before the last component. -/
def tmpSibling (place : String) : String :=
  String.ofList (place.toList.rdropWhile (· != '/') ++ "tmp_".toList ++
    place.toList.rtakeWhile (· != '/'))

/-- Where `COPY` writes. A file that is there already is replaced at the end, by one beside it. -/
def ListedFile.output (cwd : String) (f : ListedFile) (beside : Bool) : String :=
  if beside then tmpSibling (f.archive cwd) else f.archive cwd

/-- The four bytes before the last four, `int.from_bytes(h.read(4), "little")`. -/
def footerSize (image : List UInt8) : ℕ :=
  LittleEndian.decode ((image.drop (image.length - 8)).take 4)

variable {ρ : Type}

/-- What a `COPY` that is under way or has failed leaves: nothing, a part, or an archive. -/
def Unfinished (left : Option (Stored ρ)) : Prop := ∀ p, left ≠ some (.parquet p)

section Steps

variable (cwd : String) (hash : ρ → ℕ → ℕ)

/-- One step of `pack_one` on `f`. -/
inductive PackOneStep (f : ListedFile) : Disk ρ → Worker → Disk ρ → Worker → Prop where
  | skip {disk : Disk ρ} {p : ParquetFile ρ} (source : disk (f.source cwd) = some (.parquet p))
      (ids : fieldIds p = none) :
      PackOneStep f disk .submitted disk (.finished .skipped)
  | select {disk : Disk ρ} {p : ParquetFile ρ} {ids : List (String × ℤ)}
      (source : disk (f.source cwd) = some (.parquet p)) (fieldIds : fieldIds p = some ids) :
      PackOneStep f disk .submitted disk (.selected ids)
  | copy {disk : Disk ρ} {p : ParquetFile ρ} {ids : List (String × ℤ)} {beside : Bool}
      (onDisk : isLocal f.path = true) (source : disk (f.source cwd) = some (.parquet p))
      (accepted : FieldIdsAccepted ids p) (existing : (disk (f.archive cwd)).isSome = beside)
      (left : Option (Stored ρ)) (unfinished : Unfinished left) :
      PackOneStep f disk (.selected ids) (Function.update disk (f.output cwd beside) left)
        (.copying (copiedColumns ids p) beside)
  | copied {disk : Disk ρ} {columns : List ColumnIds} {beside : Bool} (stored : Stored ρ)
      (written : stored.WrittenWith columns) :
      PackOneStep f disk (.copying columns beside)
        (Function.update (Function.update disk (f.output cwd beside) none) (f.archive cwd)
          (some stored)) .copied
  | copyFailed {disk : Disk ρ} {columns : List ColumnIds} {beside : Bool}
      (left : Option (Stored ρ)) (unfinished : Unfinished left) :
      PackOneStep f disk (.copying columns beside)
        (Function.update disk (f.output cwd beside) left) (.finished .raised)
  | hashSource {disk : Disk ρ} {p : ParquetFile ρ}
      (source : disk (f.source cwd) = some (.parquet p)) :
      PackOneStep f disk .copied disk (.hashed (fingerprint hash p.rows))
  | verify {disk : Disk ρ} {a : Archive ρ} (archive : disk (f.archive cwd) = some (.archive a)) :
      PackOneStep f disk (.hashed (fingerprint hash a.whole.rows)) disk .verified
  | mismatch {disk : Disk ρ} {a : Archive ρ} {b : ℕ × ℕ}
      (archive : disk (f.archive cwd) = some (.archive a))
      (differ : b ≠ fingerprint hash a.whole.rows) :
      PackOneStep f disk (.hashed b) disk (.mismatched b (fingerprint hash a.whole.rows))
  | removeArchive {disk : Disk ρ} {a b : ℕ × ℕ} (archive : disk (f.archive cwd) ≠ none) :
      PackOneStep f disk (.mismatched a b) (Function.update disk (f.archive cwd) none)
        (.finished (.mismatch a b))
  | decompress {disk : Disk ρ} {a : Archive ρ}
      (archive : disk (f.archive cwd) = some (.archive a)) (long : 8 ≤ a.image.length) :
      PackOneStep f disk .verified disk (.decompressed a.image.length (footerSize a.image))
  | size {disk : Disk ρ} {logical footer : ℕ} (archive : disk (f.archive cwd) ≠ none)
      (physical : ℕ) :
      PackOneStep f disk (.decompressed logical footer) disk
        (.finished (.packed ⟨zlName f.path, logical, footer, physical⟩))
  | raise {disk : Disk ρ} {w : Worker} (mayRaise : w.MayRaise) :
      PackOneStep f disk w disk (.finished .raised)

variable (files : List ListedFile)

/-- A step of a call of `pack_one` or of the main loop. -/
inductive PackStep : PackState ρ → PackState ρ → Prop where
  | packOne {s : PackState ρ} {f : ListedFile} {disk : Disk ρ} {w : Worker} (file : f ∈ files)
      (step : PackOneStep cwd hash f s.disk (s.workers f.id) disk w) :
      PackStep s { s with disk := disk, workers := Function.update s.workers f.id w }
  | report {s : PackState ρ} {f : ListedFile} {outcome : Outcome} (file : f ∈ files)
      (main : s.main = .waiting) (worker : s.workers f.id = .finished outcome)
      (unpacked : ∀ res, outcome ≠ .packed res) :
      PackStep s { s with workers := Function.update s.workers f.id .reported }
  | repoint {s : PackState ρ} {f : ListedFile} {res : PackResult} (file : f ∈ files)
      (main : s.main = .waiting) (worker : s.workers f.id = .finished (.packed res)) :
      PackStep s
        { s with
          catalog := s.catalog.repoint f.id res
          workers := Function.update s.workers f.id .repointed
          main := .removing f }
  | repointFailed {s : PackState ρ} {f : ListedFile} {res : PackResult} (file : f ∈ files)
      (main : s.main = .waiting) (worker : s.workers f.id = .finished (.packed res)) :
      PackStep s
        { s with workers := Function.update s.workers f.id .reported, main := .stopped }
  | remove {s : PackState ρ} {f : ListedFile} (main : s.main = .removing f)
      (onDisk : isLocal f.path = true) (source : s.disk (f.source cwd) ≠ none) :
      PackStep s
        { s with disk := Function.update s.disk (f.source cwd) none, main := .waiting }
  -- an exception of the main loop leaves the pool running
  | removeFailed {s : PackState ρ} {f : ListedFile} (main : s.main = .removing f) :
      PackStep s { s with main := .stopped }

end Steps

def PackState.start (catalog : Catalog) (disk : Disk ρ) : PackState ρ where
  catalog := catalog
  disk := disk
  workers := fun _ ↦ .submitted
  main := .waiting

/-- What a read of the row's file returns. -/
def PackState.yields (cwd : String) (s : PackState ρ) (row : DataFileRow) : Option (Content ρ) :=
  (s.catalog.named cwd row).bind (readParquet cwd s.disk)

/-- No row is lost or new, and each that named a readable file names one with the same content. -/
def PackState.Intact (cwd : String) (before after : PackState ρ) : Prop :=
  List.Forall₂ (fun row row' ↦ row'.dataFileId = row.dataFileId ∧
      ∀ content, before.yields cwd row = some content → after.yields cwd row' = some content)
    before.catalog.dataFiles after.catalog.dataFiles

end DucklakePack

end DuckdbOpenzl
