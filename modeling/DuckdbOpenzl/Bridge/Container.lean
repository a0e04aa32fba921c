import DuckdbOpenzl.Bridge.OpenZL
import DuckdbOpenzl.Library.LittleEndian

/-!
# The multi-chunk container

`"OZLCHNK1" | frame 0 | frame 1 | ... | (offset u64, length u64) per chunk |
chunk count u64 | "OZLCHNK1"`, all integers little-endian. The reader
finds the index from the end of the file; each stage of a read is a function of
the content one `std::ifstream` sees, because every stage opens the file again.
-/

set_option autoImplicit false

namespace DuckdbOpenzl

open FileContent

def kContainerMagic : Bytes :=
  ['O', 'Z', 'L', 'C', 'H', 'N', 'K', '1'].map fun c ↦ UInt8.ofNat c.toNat

def kMagicLen : ℕ := 8

def putLE64 (v : ℕ) : Bytes :=
  (List.range 8).map fun i ↦ UInt8.ofNat ((v >>> (8 * i)) &&& 0xff)

def getLE64 (p : Bytes) : ℕ :=
  (List.range 8).foldl (fun v i ↦ v ||| (p.getD i 0).toNat <<< (8 * i)) 0

structure ChunkRange where
  offset : ℕ
  length : ℕ
  deriving DecidableEq, Repr

/-! ## Reading -/

/-- The index entry `i`. -/
def chunkRangeAt (index : Bytes) (i : ℕ) : ChunkRange :=
  ⟨getLE64 (index.drop (16 * i)), getLE64 (index.drop (16 * i + 8))⟩

def chunkOutOfRange (indexStart : ℕ) (r : ChunkRange) : Bool :=
  r.offset < kMagicLen || r.offset > indexStart || r.length > sub64 indexStart r.offset

/-- The loop over the index: the ranges pushed after `count` iterations. -/
def readRanges (path : Path) (index : Bytes) (indexStart : ℕ) :
    ℕ → Except Error (List ChunkRange)
  | 0 => .ok []
  | i + 1 => do
      let out ← readRanges path index indexStart i
      let r := chunkRangeAt index i
      if chunkOutOfRange indexStart r then
        throw ⟨"openzl_bridge: corrupt chunked archive (chunk out of range): " ++ path⟩
      return out ++ [r]

/-- `ReadContainerIndex` on the content it opened; `none` is its `false`. -/
def containerIndex (path : Path) : Option Bytes → Except Error (Option (List ChunkRange))
  | none => .error ⟨"openzl_bridge: could not open archive: " ++ path⟩
  | some file =>
      let size := file.length
      if size < kMagicLen + 16 then .ok none
      else if slice file 0 kMagicLen ≠ kContainerMagic then .ok none
      else
        let tail := slice file (sub64 size 16) 16
        if slice tail 8 kMagicLen ≠ kContainerMagic then
          .error ⟨"openzl_bridge: corrupt chunked archive (missing trailer): " ++ path⟩
        else
          let count := getLE64 tail
          if count = 0 ∨ count > sub64 (sub64 size kMagicLen) 16 / 16 then
            .error ⟨"openzl_bridge: corrupt chunked archive (bad chunk count): " ++ path⟩
          else
            let indexBytes := mul64 count 16
            let indexStart := sub64 (sub64 size 16) indexBytes
            if indexStart + indexBytes > size then
              .error ⟨"openzl_bridge: corrupt chunked archive (unreadable index): " ++ path⟩
            else
              (readRanges path (slice file indexStart indexBytes) indexStart count).map some

def readContainerIndex (path : Path) : BridgeM (Option (List ChunkRange)) :=
  opened path (containerIndex path)

def chunkCount (path : Path) : BridgeM ℕ := do
  opened path (requireFile path)
  let ranges ← readContainerIndex path
  return match ranges with
    | some out => out.length
    | none => 1

/-- The index lookup of `DecompressChunkToBuffer`. -/
def chunkRange (path : Path) (index : ℕ) (file : Option Bytes) : Except Error ChunkRange := do
  match ← containerIndex path file with
  | none => throw ⟨"openzl_bridge: not a chunked archive: " ++ path⟩
  | some ranges =>
      match ranges[index]? with
      | none => throw ⟨"openzl_bridge: chunk " ++ toString index ++ " out of range (archive has " ++
          toString ranges.length ++ ") : " ++ path⟩
      | some r => return r

/-- The second open of `DecompressChunkToBuffer`, which seeks to the frame. -/
def readFrame (path : Path) (index : ℕ) (r : ChunkRange) (file : Option Bytes) :
    Except Error Bytes :=
  match file with
  | some bytes =>
      if r.length = 0 ∨ r.offset + r.length ≤ bytes.length then .ok (slice bytes r.offset r.length)
      else .error ⟨"openzl_bridge: error reading chunk " ++ toString index ++ " of " ++ path⟩
  | none => .error ⟨"openzl_bridge: error reading chunk " ++ toString index ++ " of " ++ path⟩

def decodeChunk (zl : OpenZL) (path : Path) (index : ℕ) (frame : Bytes) : Except Error Bytes :=
  match zl.decompressSerial frame with
  | .ok bytes => .ok bytes
  | .error what => .error ⟨"openzl_bridge: decompress failed for chunk " ++ toString index ++
      " of " ++ path ++ ": " ++ what⟩

def decompressChunkToBuffer (zl : OpenZL) (path : Path) (index : ℕ) : BridgeM Bytes := do
  opened path (requireFile path)
  let r ← opened path (chunkRange path index)
  opened path fun file ↦ do
    let frame ← readFrame path index r file
    decodeChunk zl path index frame

/-- The container test of `DecompressToBuffer`. -/
def requirePlain (path : Path) (file : Option Bytes) : Except Error Unit := do
  match ← containerIndex path file with
  | none => return ()
  | some ranges => throw ⟨"openzl_bridge: " ++ path ++ " is a chunked archive (" ++
      toString ranges.length ++ " independent parquet chunks), which can't be a single parquet " ++
      "file. Read it with read_openzl(), or write it out with COPY (SELECT * FROM " ++
      "read_openzl('...')) TO 'out.parquet'."⟩

def decodeFile (zl : OpenZL) (path : Path) (input : Bytes) : Except Error Bytes :=
  match zl.decompressSerial input with
  | .ok bytes => .ok bytes
  | .error what => .error ⟨"openzl_bridge: decompress failed for " ++ path ++ ": " ++ what⟩

def decompressToBuffer (zl : OpenZL) (path : Path) : BridgeM Bytes := do
  opened path (requireFile path)
  opened path (requirePlain path)
  opened path fun file ↦ do
    let input ← readFile path file
    decodeFile zl path input

def decompress (zl : OpenZL) (inputPath outputPath : Path) : BridgeM Unit := do
  let bytes ← decompressToBuffer zl inputPath
  writeFile outputPath bytes

/-! ## What the writer lays out -/

/-- The ranges of frames stored one after the other from `pos` on. -/
def rangesFrom (pos : ℕ) : List Bytes → List ChunkRange
  | [] => []
  | f :: fs => ⟨pos, f.length⟩ :: rangesFrom (pos + f.length) fs

def encodeIndex (ranges : List ChunkRange) : Bytes :=
  ranges.flatMap fun r ↦ putLE64 r.offset ++ putLE64 r.length

def containerBytes (frames : List Bytes) : Bytes :=
  kContainerMagic ++ frames.flatten ++
    (encodeIndex (rangesFrom kMagicLen frames) ++ (putLE64 frames.length ++ kContainerMagic))

/-- The file of a finished archive: a lone frame as it is, more in a container. -/
def archiveBytes : List Bytes → Bytes
  | [f] => f
  | frames => containerBytes frames

end DuckdbOpenzl
