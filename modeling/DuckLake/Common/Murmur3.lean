import DuckLake.Common.Stats

/-!
# The hash of a bucket

`murmur3_32`, on a sequence of bytes and on a value of the engine. Signed integers of every width
are widened to 64 bits first, and floating point numbers to double precision, so that a value keeps
its hash when its column is widened within these families.
-/

namespace DuckLake

/-! ## Hashing bytes -/

namespace DuckLakeMurmur3

def rotateLeft (x r : UInt32) : UInt32 := x <<< r ||| x >>> (32 - r)

/-- `k1 *= c1; k1 = rotl(k1, 15); k1 *= c2`. -/
def mixKey (k1 : UInt32) : UInt32 := rotateLeft (k1 * 0xcc9e2d51) 15 * 0x1b873593

def mixBlock (h1 k1 : UInt32) : UInt32 := rotateLeft (h1 ^^^ mixKey k1) 13 * 5 + 0xe6546b64

/-- Four bytes, copied into a number of a little-endian machine. -/
def littleEndian (b0 b1 b2 b3 : UInt8) : UInt32 :=
  b0.toUInt32 ||| b1.toUInt32 <<< 8 ||| b2.toUInt32 <<< 16 ||| b3.toUInt32 <<< 24

/-- The body: whole blocks of four bytes, and at most three more. -/
def body (h1 : UInt32) : List UInt8 → UInt32
  | b0 :: b1 :: b2 :: b3 :: data => body (mixBlock h1 (littleEndian b0 b1 b2 b3)) data
  | [b0, b1, b2] => h1 ^^^ mixKey (littleEndian b0 b1 b2 0)
  | [b0, b1] => h1 ^^^ mixKey (littleEndian b0 b1 0 0)
  | [b0] => h1 ^^^ mixKey (littleEndian b0 0 0 0)
  | [] => h1

def fmix32 (h1 : UInt32) : UInt32 :=
  let h1 := (h1 ^^^ h1 >>> 16) * 0x85ebca6b
  let h1 := (h1 ^^^ h1 >>> 13) * 0xc2b2ae35
  h1 ^^^ h1 >>> 16

def hash (data : List UInt8) (seed : UInt32 := 0) : Int32 :=
  (fmix32 (body seed data ^^^ UInt32.ofNat data.length)).toInt32

/-- The eight bytes of a number in the memory of a little-endian machine. -/
def bytes64 (n : UInt64) : List UInt8 :=
  [n.toUInt8, (n >>> 8).toUInt8, (n >>> 16).toUInt8, (n >>> 24).toUInt8,
    (n >>> 32).toUInt8, (n >>> 40).toUInt8, (n >>> 48).toUInt8, (n >>> 56).toUInt8]

/-- `HashValue<int64_t>`. -/
def hashValue (n : UInt64) : Int32 := hash (bytes64 n)

example : hashValue 34 = 2017239379 := by decide

end DuckLakeMurmur3

/-! ## Hashing values -/

/-- A value, by the physical type in which a vector holds it. A floating point number is given by
the bits of the double precision number it is widened to. -/
inductive PhysicalValue where
  | bool (b : Bool)
  | int8 (n : Int8)
  | int16 (n : Int16)
  | int32 (n : Int32)
  | int64 (n : Int64)
  | float (bits : UInt64)
  | double (bits : UInt64)
  | varchar (bytes : List UInt8)
  /-- Every other type, as the bytes of the string of the value. -/
  | other (string : List UInt8)
deriving DecidableEq, Repr

/-- The bits of minus zero. -/
def negativeZero : UInt64 := 0x8000000000000000

def normalizeZero (bits : UInt64) : UInt64 := if bits = negativeZero then 0 else bits

namespace PhysicalValue

/-- The bytes that are hashed. -/
def hashedBytes : PhysicalValue → List UInt8
  | bool b => DuckLakeMurmur3.bytes64 (if b then 1 else 0)
  | int8 n => DuckLakeMurmur3.bytes64 n.toInt64.toUInt64
  | int16 n => DuckLakeMurmur3.bytes64 n.toInt64.toUInt64
  | int32 n => DuckLakeMurmur3.bytes64 n.toInt64.toUInt64
  | int64 n => DuckLakeMurmur3.bytes64 n.toUInt64
  | float bits => DuckLakeMurmur3.bytes64 (normalizeZero bits)
  | double bits => DuckLakeMurmur3.bytes64 (normalizeZero bits)
  | varchar bytes => bytes
  | other string => string

/-- `Murmur3ScalarFunction`, on a value that is not null. -/
def murmur3 (v : PhysicalValue) : Int32 := DuckLakeMurmur3.hash v.hashedBytes

/-- The number that a value of a signed integer type, or a boolean, is hashed as. -/
def signed? : PhysicalValue → Option Int64
  | bool b => some (if b then 1 else 0)
  | int8 n => some n.toInt64
  | int16 n => some n.toInt64
  | int32 n => some n.toInt64
  | int64 n => some n
  | _ => none

/-- The hash of a boolean or a signed integer does not depend on the width of its type. -/
theorem murmur3_of_signed? {v : PhysicalValue} {n : Int64} (h : v.signed? = some n) :
    v.murmur3 = DuckLakeMurmur3.hashValue n.toUInt64 := by
  cases v with
  | bool b =>
    obtain rfl := Option.some.inj h
    cases b <;> rfl
  | int8 | int16 | int32 | int64 =>
    obtain rfl := Option.some.inj h
    rfl
  | float | double | varchar | other => cases h

end PhysicalValue

end DuckLake
