import Mathlib.Data.Finset.Image
import Mathlib.Data.Finset.Union
import DuckLake.Lib.Bytes
import DuckLake.Common.Util

/-!
# Deletion vectors

A set of row positions as a blob of type `deletion-vector-v1`: a length, magic bytes, one roaring
bitmap of low bits for every value of the high 32 bits, and a checksum. The roaring library is a
parameter; `FromBlob` bounds what the library may look at by the length that the blob declares.
-/

namespace DuckLake

/-! ## The libraries below -/

/-- Roaring bitmaps in the portable format, and the hash map that holds them. A call of the library
is given what is left of the buffer and the number of bytes it may look at; it looks at bytes from
the front and reads outside the buffer when it needs more of them than there are. -/
class RoaringLibrary where
  /-- `Roaring::write`, in the portable format. -/
  write : Finset UInt32 → List UInt8
  /-- `roaring_bitmap_portable_deserialize_size`: zero when there is no valid bitmap within
  `maxBytes`. -/
  deserializeSize : List UInt8 → (maxBytes : Nat) → Reading Exception Nat
  /-- `Roaring::readSafe`. -/
  readSafe : List UInt8 → (maxBytes : Nat) → Reading Exception (Finset UInt32)
  /-- The number of elements up to which the hash map can be reserved. -/
  maxBuckets : Nat
  /-- The order in which the hash map is iterated. -/
  iterationOrder : Finset UInt32 → List UInt32
  safe_deserializeSize {data : List UInt8} {maxBytes : Nat} :
    maxBytes ≤ data.length → (deserializeSize data maxBytes).Safe
  safe_readSafe {data : List UInt8} {maxBytes : Nat} :
    maxBytes ≤ data.length → (readSafe data maxBytes).Safe
  deserializeSize_write {bitmap : Finset UInt32} {data : List UInt8} {maxBytes : Nat} :
    (write bitmap).length ≤ maxBytes →
      deserializeSize (write bitmap ++ data) maxBytes = .ok (write bitmap).length
  deserializeSize_truncated {bitmap : Finset UInt32} {data : List UInt8} {maxBytes : Nat} :
    maxBytes < (write bitmap).length → deserializeSize (write bitmap ++ data) maxBytes = .ok 0
  readSafe_write {bitmap : Finset UInt32} {data : List UInt8} :
    readSafe (write bitmap ++ data) (write bitmap).length = .ok bitmap
  readSafe_zero {data : List UInt8} : ∃ e, readSafe data 0 = .error (.exception e)
  le_maxBuckets : 2 ^ 32 ≤ maxBuckets
  nodup_iterationOrder (keys : Finset UInt32) : (iterationOrder keys).Nodup
  mem_iterationOrder {keys : Finset UInt32} {key : UInt32} : key ∈ iterationOrder keys ↔ key ∈ keys

/-! ## The checksum -/

namespace CRC32

def shift (c : UInt32) : UInt32 :=
  if c &&& 1 = 1 then (0xEDB88320 : UInt32) ^^^ (c >>> 1) else c >>> 1

/-- An entry of the table. -/
def tableEntry (i : UInt32) : UInt32 :=
  shift (shift (shift (shift (shift (shift (shift (shift i)))))))

def update (crc : UInt32) (data : List UInt8) : UInt32 :=
  data.foldl (fun crc b => tableEntry ((crc ^^^ b.toUInt32) &&& 0xFF) ^^^ (crc >>> 8)) crc

def value (data : List UInt8) : UInt32 := update 0xFFFFFFFF data ^^^ 0xFFFFFFFF

end CRC32

/-! ## Writing -/

namespace DuckLakeDeletionVectorData

def deletionVectorMagic : List UInt8 := [0xD1, 0xD3, 0x39, 0x64]

/-- The high 32 bits of a position; the source keeps them in an `int32_t`. -/
def highBits (position : UInt64) : UInt32 := (position >>> 32).toUInt32

def lowBits (position : UInt64) : UInt32 := position.toUInt32

/-- `(high << 32) | low`. The bits that the sign extension of `high` adds are shifted out. -/
def position (high low : UInt32) : UInt64 := high.toUInt64 <<< 32 ||| low.toUInt64

abbrev Bitmaps := List (UInt32 × Finset UInt32)

def checksum (data : List UInt8) : List UInt8 := Bytes.toBigEndian 4 (CRC32.value data).toNat

section ToBlob

variable [RoaringLibrary] (positions : Finset UInt64)

/-- The bitmap of the positions with the given high bits. -/
def bitmapOf (key : UInt32) : Finset UInt32 :=
  (positions.filter fun p => highBits p = key).image lowBits

def bitmaps : Bitmaps :=
  (RoaringLibrary.iterationOrder (positions.image highBits)).map fun key =>
    (key, bitmapOf positions key)

def writeBitmap (entry : UInt32 × Finset UInt32) : List UInt8 :=
  Bytes.toLittleEndian 4 entry.1.toNat ++ RoaringLibrary.write entry.2

/-- The part of the blob that the checksum is taken of. -/
def vector : List UInt8 :=
  deletionVectorMagic ++ Bytes.toLittleEndian 8 (bitmaps positions).length ++
    (bitmaps positions).flatMap writeBitmap

/-- `ToBlob`. The length is cast to 32 bits. -/
def toBlob : List UInt8 :=
  Bytes.toBigEndian 4 (vector positions).length ++
    (vector positions ++ checksum (vector positions))

end ToBlob

/-! ## Reading -/

/-- Where `FromBlob` stands: the length that is left by the declaration of the blob, the length of
the blob that is left, and the bytes up to the end of the buffer that the blob lies in. -/
structure BlobCursor where
  vectorSize : Nat
  left : Nat
  data : List UInt8

/-- The cursor `n` bytes on. -/
def BlobCursor.advance (c : BlobCursor) (n : Nat) : BlobCursor :=
  ⟨c.vectorSize - n, c.left - n, c.data.drop n⟩

def invalidInput (message : Text) : Exception := ⟨.invalidInput, message⟩

abbrev BlobReading := Reading Exception

open Reading

def readVectorSize (buffer : List UInt8) (blobLength : Nat) : BlobReading BlobCursor := do
  reject (blobLength < 12) (invalidInput ("Blob is too small (length of " ++
    Text.ofNat blobLength ++ " bytes) to be a deletion-vector-v1"))
  let size ← load 4 buffer
  reject (blobLength ≤ 4)
    (invalidInput "Deletion vector blob truncated after vector_size field")
  pure ⟨Bytes.ofBigEndian size, blobLength - 4, buffer.drop 4⟩

def readMagic (c : BlobCursor) : BlobReading BlobCursor := do
  let magic ← load 4 c.data
  reject (c.vectorSize < 4) (invalidInput "Deletion vector vector_size too small for magic bytes")
  reject (c.left ≤ 4) (invalidInput "Deletion vector blob truncated after magic bytes")
  reject (magic ≠ deletionVectorMagic)
    (invalidInput "Magic bytes mismatch, deletion vector is corrupt!")
  pure (c.advance 4)

/-- The number of bitmaps, which is read before it is known that the blob goes so far. -/
def readBitmapCount (c : BlobCursor) : BlobReading (Nat × BlobCursor) := do
  reject (c.vectorSize < 8) (invalidInput "Deletion vector vector_size too small for bitmap count")
  let count ← load 8 c.data
  reject (c.left ≤ 8) (invalidInput "Deletion vector blob truncated after bitmap count")
  reject (2 ^ 63 ≤ Bytes.ofLittleEndian count)
    (invalidInput ("Deletion vector has negative bitmap count: -" ++
      Text.ofNat (2 ^ 64 - Bytes.ofLittleEndian count)))
  pure (Bytes.ofLittleEndian count, c.advance 8)

variable [RoaringLibrary]

def readKey (i : Nat) (c : BlobCursor) : BlobReading (UInt32 × BlobCursor) := do
  reject (c.vectorSize < 4) (invalidInput
    ("Deletion vector vector_size too small for bitmap key at index " ++ Text.ofNat i))
  let key ← load 4 c.data
  reject (c.left ≤ 4)
    (invalidInput ("Deletion vector blob truncated at bitmap key " ++ Text.ofNat i))
  pure (UInt32.ofNat (Bytes.ofLittleEndian key), c.advance 4)

def readBitmap (i : Nat) (c : BlobCursor) : BlobReading (Finset UInt32 × BlobCursor) := do
  let size ← RoaringLibrary.deserializeSize c.data c.vectorSize
  reject (c.vectorSize < size)
    (invalidInput ("Deletion vector bitmap " ++ Text.ofNat i ++ " exceeds remaining data"))
  let bitmap ← RoaringLibrary.readSafe c.data size
  reject (c.left ≤ size)
    (invalidInput ("Deletion vector blob truncated after bitmap " ++ Text.ofNat i))
  pure (bitmap, c.advance size)

/-- `unordered_map::emplace`: the first bitmap of a key stays. -/
def emplace (bitmaps : Bitmaps) (key : UInt32) (bitmap : Finset UInt32) : Bitmaps :=
  if bitmaps.any (·.1 = key) then bitmaps else bitmaps ++ [(key, bitmap)]

/-- The loop over the bitmaps that are left, from the `i`-th on. -/
def readBitmaps : Nat → Nat → BlobCursor → Bitmaps → BlobReading (Bitmaps × BlobCursor)
  | 0, _, c, bitmaps => pure (bitmaps, c)
  | n + 1, i, c, bitmaps => do
      let (key, c) ← readKey i c
      let (bitmap, c) ← readBitmap i c
      readBitmaps n (i + 1) c (emplace bitmaps key bitmap)

def checkChecksum (checksummed : List UInt8) (c : BlobCursor) : BlobReading Unit := do
  reject (c.left < 4) (invalidInput "Deletion vector blob truncated before checksum")
  let stored ← load 4 c.data
  reject (c.left ≠ 4) (invalidInput ("Deletion vector blob has " ++
    Text.ofNat (c.left - 4) ++ " unexpected trailing bytes"))
  reject ((CRC32.value checksummed).toNat ≠ Bytes.ofBigEndian stored)
    (invalidInput ("Stored checksum (" ++ Text.ofNat (Bytes.ofBigEndian stored) ++
      ") does not match computed checksum (" ++ Text.ofNat (CRC32.value checksummed).toNat ++
      "), the DeletionVector is corrupted"))

/-- `FromBlob`: the blob is the first `blobLength` bytes of what is left of the buffer. -/
def fromBlob (buffer : List UInt8) (blobLength : Nat) : BlobReading Bitmaps := do
  let c ← readVectorSize buffer blobLength
  let c ← readMagic c
  let (count, c) ← readBitmapCount c
  reject (RoaringLibrary.maxBuckets < count) ⟨.internal, "unordered_map::reserve"⟩
  let (bitmaps, c) ← readBitmaps count 0 c []
  checkChecksum ((buffer.drop 4).take (blobLength - 4 - c.left)) c
  pure bitmaps

/-- `ToSet`. -/
def toSet (bitmaps : Bitmaps) : Finset UInt64 :=
  bitmaps.foldr (fun entry out => entry.2.image (position entry.1) ∪ out) ∅

end DuckLakeDeletionVectorData

end DuckLake
