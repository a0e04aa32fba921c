import DuckdbOpenzl.Bridge.FileIo

/-!
# The OpenZL library

The part of OpenZL the bridge calls. Its source is not part of the
repository, so it is a parameter; `OpenZL.Lawful` collects what the bridge
relies on.
-/

set_option autoImplicit false

namespace DuckdbOpenzl

/-- The compressor handed to a compression context. -/
inductive Compressor where
  | parquet (chunkBytes : ℤ)
  | serial
  | trained (serialized : Bytes)
  deriving DecidableEq, Repr

/-- Everything a compression context is given before `compressSerial`. -/
structure CCtx where
  compressor : Compressor
  formatVersion : ℤ
  compressionLevel : ℤ
  permissive : Bool
  deriving DecidableEq, Repr

/-- The error of a failing call is the text its exception carries. -/
structure OpenZL where
  minFormatVersion : ℤ
  maxFormatVersion : ℤ
  chunkVersionMin : ℤ
  innerGraphValid : Bool
  graphValid : Bool
  compressSerial : CCtx → Bytes → Except String Bytes
  decompressSerial : Bytes → Except String Bytes

end DuckdbOpenzl
