import Mathlib.Data.Finset.Card
import DuckLake.Storage.DeletionVector

/-!
# Deletion vectors in a Puffin container

Several deletion vectors of one data file are written back to back into a container, whose footer
lists them as a JSON document. A single one is written without a container. The JSON library is a
parameter.
-/

namespace DuckLake

/-! ## Documents -/

/-- An integer of a document has 64 bits; it is unsigned unless it is negative. -/
structure JsonInt where
  value : Int
  lower : -2 ^ 63 ≤ value
  upper : value < 2 ^ 64

namespace JsonInt

/-- `yyjson_get_sint`: the 64 bits as a signed integer. -/
def getSint (n : JsonInt) : Int := if n.value < 2 ^ 63 then n.value else n.value - 2 ^ 64

def ofNat (n : Nat) : JsonInt := ⟨(n % 2 ^ 64 : Nat), by omega, by omega⟩

def minusOne : JsonInt := ⟨-1, by decide, by decide⟩

end JsonInt

/-- `other` stands for the literals and for the numbers that are no integers. -/
inductive JsonValue where
  | str (value : Text)
  | int (value : JsonInt)
  | arr (values : List JsonValue)
  | obj (fields : List (Text × JsonValue))
  | other

/-- `yyjson_obj_get`. -/
def JsonValue.get? (key : Text) : JsonValue → Option JsonValue
  | .obj fields => fields.lookup key
  | _ => none

class JsonLibrary where
  /-- `yyjson_mut_write`. -/
  write : JsonValue → List UInt8
  /-- `yyjson_read`. -/
  read : List UInt8 → Option JsonValue
  read_write (document : JsonValue) : read (write document) = some document

/-- `strtoull` in base ten: the value, and what is left of the string. -/
def strtoull (t : Text) : Nat × Text :=
  let unspaced := t.dropWhile fun c => c ∈ [' ', '\t', '\n', '\x0b', '\x0c', '\r']
  let unsigned := if unspaced.head? = some '-' ∨ unspaced.head? = some '+' then unspaced.tail
    else unspaced
  let digits := unsigned.takeWhile Char.isDigit
  let value := Nat.ofDigitChars 10 digits 0
  if digits = [] then (0, t)
  else if 2 ^ 64 ≤ value then (2 ^ 64 - 1, unsigned.dropWhile Char.isDigit)
  else if unspaced.head? = some '-' then
    ((2 ^ 64 - value) % 2 ^ 64, unsigned.dropWhile Char.isDigit)
  else (value, unsigned.dropWhile Char.isDigit)

namespace DuckLakePuffin

open Reading DuckLakeDeletionVectorData

/-! ## Writing -/

/-- A snapshot id that an `optional_idx` can hold. -/
abbrev SnapshotIndex := {n : Nat // n < 2 ^ 64 - 1}

structure BlobInput where
  snapshotId : Option SnapshotIndex
  positions : Finset UInt64

structure PuffinBlob where
  snapshotId : Option SnapshotIndex
  offset : Nat
  length : Nat

structure PuffinWriteResult where
  fileData : List UInt8
  fileSizeBytes : Nat
  footerSize : Nat
  deleteCount : Nat

def puffinMagic : List UInt8 := [0x50, 0x46, 0x41, 0x31]

def puffinFooterTailSize : Nat := 12

def puffinFooterStructSize : Nat := 16

def puffinMinFileSize : Nat := 20

def deletionVectorBlobType : Text := "deletion-vector-v1"

def ducklakeSnapshotProperty : Text := "ducklake-snapshot-id"

section Write

variable [RoaringLibrary] [JsonLibrary]

/-- Blobs written back to back. -/
def appendBlobs : List UInt8 → List BlobInput → List UInt8 × List PuffinBlob
  | fileData, [] => (fileData, [])
  | fileData, blob :: blobs =>
      let blobData := toBlob blob.positions
      let rest := appendBlobs (fileData ++ blobData) blobs
      (rest.1, ⟨blob.snapshotId, fileData.length, blobData.length⟩ :: rest.2)

omit [RoaringLibrary] [JsonLibrary] in
def snapshotProperty (snapshotId : Option SnapshotIndex) : List (Text × JsonValue) :=
  match snapshotId with
  | some snapshotId => [(ducklakeSnapshotProperty, .str (Text.ofNat snapshotId))]
  | none => []

omit [RoaringLibrary] [JsonLibrary] in
def blobProperties (dataFilePath : Text) (input : BlobInput) : List (Text × JsonValue) :=
  [(("referenced-data-file" : Text), .str (cString dataFilePath)),
    ("cardinality", .str (Text.ofNat input.positions.card))] ++ snapshotProperty input.snapshotId

omit [RoaringLibrary] [JsonLibrary] in
def blobMetadata (dataFilePath : Text) (input : BlobInput) (info : PuffinBlob) : JsonValue :=
  .obj [("type", .str deletionVectorBlobType), ("fields", .arr []),
    ("snapshot-id", .int JsonInt.minusOne), ("sequence-number", .int JsonInt.minusOne),
    ("offset", .int (JsonInt.ofNat info.offset)), ("length", .int (JsonInt.ofNat info.length)),
    ("properties", .obj (blobProperties dataFilePath input))]

def footerPayload (dataFilePath : Text) (blobs : List BlobInput) (infos : List PuffinBlob) :
    List UInt8 :=
  JsonLibrary.write (.obj [("blobs", .arr (List.zipWith (blobMetadata dataFilePath) blobs infos)),
    ("properties", .obj [("created-by", .str "ducklake")])])

/-- The footer; the length of its payload has to fit into 32 bits. -/
def footer (payload : List UInt8) : Except Exception (List UInt8) :=
  if 2 ^ 32 ≤ payload.length then
    .error ⟨.internal, "Information loss on integer cast: value " ++ Text.ofNat payload.length ++
      " outside of target range [0, 4294967295]"⟩
  else .ok (puffinMagic ++ payload ++ Bytes.toLittleEndian 4 payload.length ++
    Bytes.toLittleEndian 4 0 ++ puffinMagic)

def writeContainer (dataFilePath : Text) (blobs : List BlobInput) :
    Except Exception PuffinWriteResult := do
  let appended := appendBlobs puffinMagic blobs
  let payload := footerPayload dataFilePath blobs appended.2
  let tail ← footer payload
  let fileData := appended.1 ++ tail
  pure ⟨fileData, fileData.length, payload.length + puffinFooterStructSize,
    (blobs.map (·.positions.card)).foldr max 0⟩

/-- `DuckLakePuffinWriter::Write`: a single deletion vector is written as a bare blob. A
`std::vector` holds fewer than `2 ^ 63` bytes. -/
def write (dataFilePath : Text) (blobs : List BlobInput) :
    Except Exception PuffinWriteResult := do
  let result ← match blobs with
    | [blob] => pure ⟨toBlob blob.positions, (toBlob blob.positions).length, 0,
        blob.positions.card⟩
    | blobs => writeContainer dataFilePath blobs
  if 2 ^ 63 ≤ result.fileData.length then .error ⟨.internal, "vector::_M_range_insert"⟩
  else pure result

end Write

/-! ## Reading -/

def corrupt (path : Text) (what : Text) : Exception :=
  invalidInput ("Puffin file \"" ++ path ++ "\" is corrupt - " ++ what)

/-- An `optional_idx` does not hold the greatest 64-bit value. -/
def toSnapshotIndex (n : Nat) : BlobReading SnapshotIndex :=
  if h : n < 2 ^ 64 - 1 then .ok ⟨n, h⟩
  else .error (.exception
    ⟨.internal, "optional_idx cannot be initialized with an invalid index"⟩)

def parseSnapshotProperty (value path : Text) : BlobReading SnapshotIndex := do
  let parsed := strtoull value
  reject (value = [] || parsed.2 ≠ []) (corrupt path ("invalid " ++ ducklakeSnapshotProperty ++
    " property \"" ++ value ++ "\""))
  toSnapshotIndex parsed.1

/-- A bare deletion vector is a length followed by the magic of deletion vectors. -/
def isBareDeletionVector (file : List UInt8) : BlobReading Bool :=
  if file.length < 8 then pure false
  else do
    let magic ← loadAt 4 4 file
    pure (magic = deletionVectorMagic)

def isContainer (file : List UInt8) : BlobReading Bool :=
  if file.length < puffinMinFileSize then pure false
  else do
    let magic ← loadAt 0 4 file
    pure (magic = puffinMagic)

/-- Where the payload of the footer begins. -/
def validateFooter (file : List UInt8) (path : Text) : BlobReading Int := do
  let size : Int := file.length
  let trailing ← loadAt (size - 4) 4 file
  reject (trailing ≠ puffinMagic) (corrupt path "trailing magic mismatch")
  let flags ← loadAt (size - 8) 4 file
  reject (Bytes.ofLittleEndian flags % 2 = 1) (invalidInput
    ("Puffin file \"" ++ path ++ "\" has a compressed footer, which is not supported"))
  reject (Bytes.ofLittleEndian flags ≠ 0)
    (invalidInput ("Puffin file \"" ++ path ++ "\" has unsupported footer flags"))
  let payloadSize ← loadAt (size - puffinFooterTailSize) 4 file
  reject ((Bytes.ofLittleEndian payloadSize : Int) > size - puffinMinFileSize)
    (corrupt path "footer payload size out of range")
  let payloadStart := size - puffinFooterTailSize - Bytes.ofLittleEndian payloadSize
  let magic ← loadAt (payloadStart - 4) 4 file
  reject (magic ≠ puffinMagic) (corrupt path "footer magic mismatch")
  pure payloadStart

def getStr : Option JsonValue → Option Text
  | some (.str value) => some value
  | _ => none

def getInt : Option JsonValue → Option Int
  | some (.int value) => some value.getSint
  | _ => none

def parseSnapshot (blob : JsonValue) (path : Text) : BlobReading (Option SnapshotIndex) :=
  match getStr ((blob.get? "properties").bind (JsonValue.get? ducklakeSnapshotProperty)) with
  | some value => do
      let snapshotId ← parseSnapshotProperty value path
      pure (some snapshotId)
  | none => pure none

def parseBlobRange (rawOffset rawLength blobSectionEnd : Int) (path : Text) :
    BlobReading (Nat × Nat) := do
  reject (rawOffset < 0 || rawLength < 0) (corrupt path "blob offset/length out of range")
  reject (rawOffset < 4 || rawLength > blobSectionEnd || rawOffset > blobSectionEnd - rawLength)
    (corrupt path "blob offset/length out of range")
  pure (rawOffset.toNat, rawLength.toNat)

/-- The metadata of a blob, unless the blob is of another type. -/
def tryParseBlobMetadata (blobSectionEnd : Int) (path : Text) (blob : JsonValue) :
    BlobReading (Option PuffinBlob) :=
  match getStr (blob.get? "type") with
  | none => .error (.exception (corrupt path "blob without a type"))
  | some type =>
      if type ≠ deletionVectorBlobType then pure none
      else match getInt (blob.get? "offset"), getInt (blob.get? "length") with
        | some rawOffset, some rawLength => do
            let range ← parseBlobRange rawOffset rawLength blobSectionEnd path
            let snapshotId ← parseSnapshot blob path
            pure (some ⟨snapshotId, range.1, range.2⟩)
        | _, _ => .error (.exception (corrupt path "blob without offset/length"))

def parseBlobs (blobSectionEnd : Int) (path : Text) : List JsonValue → BlobReading (List PuffinBlob)
  | [] => pure []
  | blob :: blobs => do
      let parsed ← tryParseBlobMetadata blobSectionEnd path blob
      let rest ← parseBlobs blobSectionEnd path blobs
      pure (parsed.toList ++ rest)

variable [JsonLibrary]

def parseFileMetadata (payload : List UInt8) (blobSectionEnd : Int) (path : Text) :
    BlobReading (List PuffinBlob) :=
  match JsonLibrary.read payload with
  | none => .error (.exception (corrupt path "failed to parse footer payload"))
  | some root =>
      match root.get? "blobs" with
      | some (.arr blobs) => parseBlobs blobSectionEnd path blobs
      | _ => .error (.exception (corrupt path "footer has no \"blobs\" list"))

def parseContainer (file : List UInt8) (path : Text) : BlobReading (List PuffinBlob) := do
  let payloadStart ← validateFooter file path
  let payloadSize := file.length - puffinFooterTailSize - payloadStart
  let payload ← loadAt payloadStart payloadSize.toNat file
  parseFileMetadata payload (payloadStart - 4) path

omit [JsonLibrary] in
/-- A single blob that spans the whole file. -/
def parseBare (file : List UInt8) (path : Text) : BlobReading (List PuffinBlob) := do
  let bare ← isBareDeletionVector file
  reject (!bare)
    (invalidInput ("File \"" ++ path ++ "\" is not a valid deletion vector - magic mismatch"))
  pure [⟨none, 0, file.length⟩]

/-- `DuckLakePuffinReader::ParseFooter`. -/
def parseFooter (file : List UInt8) (path : Text) : BlobReading (List PuffinBlob) := do
  let container ← isContainer file
  if container then parseContainer file path else parseBare file path

omit [JsonLibrary] in
/-- `DecodeBlob`. -/
def decodeBlob [RoaringLibrary] (file : List UInt8) (blob : PuffinBlob) : BlobReading Bitmaps :=
  fromBlob (file.drop blob.offset) blob.length

omit [JsonLibrary] in
/-- The sets that blobs of a file hold. -/
def decodeBlobs [RoaringLibrary] (file : List UInt8) :
    List PuffinBlob → BlobReading (List (Finset UInt64))
  | [] => pure []
  | blob :: blobs => do
      let bitmaps ← decodeBlob file blob
      let rest ← decodeBlobs file blobs
      pure (toSet bitmaps :: rest)

/-- The sets that a file holds. -/
def readFile [RoaringLibrary] (file : List UInt8) (path : Text) :
    BlobReading (List (Finset UInt64)) := do
  let blobs ← parseFooter file path
  decodeBlobs file blobs

end DuckLakePuffin

end DuckLake
