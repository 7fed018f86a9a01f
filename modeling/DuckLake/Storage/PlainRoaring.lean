import Mathlib.Algebra.Order.BigOperators.Group.List
import Mathlib.Data.Finset.Dedup
import DuckLake.Storage.DeletionVectorBounds
import DuckLake.Storage.DeletionVectorRoundTrip

/-!
# A plain format of bitmaps

The laws of the roaring library hold of a format that writes the number of the elements and the
elements. In it a blob that declares more than it has is read past its end.
-/

namespace DuckLake

namespace PlainRoaring

open Reading DuckLakeDeletionVectorData

noncomputable def write (bitmap : Finset UInt32) : List UInt8 :=
  Bytes.toLittleEndian 8 bitmap.card ++
    bitmap.toList.flatMap fun low => Bytes.toLittleEndian 4 low.toNat

def elements : Nat → List UInt8 → List UInt32
  | 0, _ => []
  | n + 1, data => UInt32.ofNat (Bytes.ofLittleEndian (data.take 4)) :: elements n (data.drop 4)

/-- The number of bytes that a bitmap declares to take. -/
def readSize (data : List UInt8) : Reading Exception Nat := do
  let count ← load 8 data
  pure (8 + 4 * Bytes.ofLittleEndian count)

def deserializeSize (data : List UInt8) (maxBytes : Nat) : Reading Exception Nat :=
  if maxBytes < 8 then pure 0
  else do
    let size ← readSize data
    if maxBytes < size then pure 0
    else do
      let _ ← load size data
      pure size

def readSafe (data : List UInt8) (maxBytes : Nat) : Reading Exception (Finset UInt32) := do
  reject (maxBytes < 8) (invalidInput "failed alloc while reading")
  let size ← readSize data
  reject (maxBytes < size) (invalidInput "failed alloc while reading")
  let bytes ← load size data
  pure (elements ((size - 8) / 4) (bytes.drop 8)).toFinset

theorem elements_flatMap {lows : List UInt32} {data : List UInt8} :
    elements lows.length ((lows.flatMap fun low => Bytes.toLittleEndian 4 low.toNat) ++ data) =
      lows := by
  induction lows with
  | nil => rfl
  | cons low lows ih =>
    have hlt : low.toNat < 256 ^ 4 := low.toNat_lt
    rw [List.flatMap_cons, List.append_assoc, List.length_cons, elements,
      List.take_left' (Bytes.length_toLittleEndian 4 _),
      List.drop_left' (Bytes.length_toLittleEndian 4 _), ih, Bytes.ofLittleEndian_toLittleEndian,
      Nat.mod_eq_of_lt hlt, UInt32.ofNat_toNat]

theorem length_flatMap {lows : List UInt32} :
    (lows.flatMap fun low => Bytes.toLittleEndian 4 low.toNat).length = 4 * lows.length := by
  induction lows with
  | nil => rfl
  | cons low lows ih =>
    rw [List.flatMap_cons, List.length_append, ih, Bytes.length_toLittleEndian, List.length_cons]
    omega

variable {bitmap : Finset UInt32} {data : List UInt8} {maxBytes : Nat}

theorem length_write : (write bitmap).length = 8 + 4 * bitmap.card := by
  rw [write, List.length_append, length_flatMap, Bytes.length_toLittleEndian,
    Finset.length_toList]

theorem readSize_write : readSize (write bitmap ++ data) = .ok (write bitmap).length := by
  have hcard : bitmap.card ≤ 2 ^ 32 := by
    rw [← Finset.length_toList]
    exact length_le_of_nodup bitmap.nodup_toList
  have hvalue : Bytes.ofLittleEndian (Bytes.toLittleEndian 8 bitmap.card) = bitmap.card := by
    rw [Bytes.ofLittleEndian_toLittleEndian, Nat.mod_eq_of_lt (by omega)]
  rw [length_write, readSize, write, List.append_assoc,
    load_append (Bytes.length_toLittleEndian 8 _)]
  simp only [bind, Except.bind, hvalue]
  rfl

theorem safe_deserializeSize (h : maxBytes ≤ data.length) :
    (deserializeSize data maxBytes).Safe := by
  rw [deserializeSize]
  split
  next => exact safe_pure
  next h8 =>
    refine safe_bind.2 ⟨safe_load_bind.2 ⟨by omega, safe_pure⟩, fun size _ => ?_⟩
    split
    next => exact safe_pure
    next hsize => exact safe_load_bind.2 ⟨by omega, safe_pure⟩

theorem safe_readSafe (h : maxBytes ≤ data.length) : (readSafe data maxBytes).Safe := by
  rw [readSafe, safe_reject_bind, decide_eq_false_iff_not]
  intro h8
  refine safe_bind.2 ⟨safe_load_bind.2 ⟨by omega, safe_pure⟩, fun size _ => ?_⟩
  rw [safe_reject_bind, decide_eq_false_iff_not]
  intro hsize
  exact safe_load_bind.2 ⟨by omega, safe_pure⟩

theorem deserializeSize_write (h : (write bitmap).length ≤ maxBytes) :
    deserializeSize (write bitmap ++ data) maxBytes = .ok (write bitmap).length := by
  have h8 : ¬ maxBytes < 8 := by
    rw [length_write] at h
    omega
  rw [deserializeSize, if_neg h8, readSize_write]
  simp only [bind, Except.bind]
  rw [if_neg (Nat.not_lt.2 h), load_append rfl]
  rfl

theorem deserializeSize_truncated (h : maxBytes < (write bitmap).length) :
    deserializeSize (write bitmap ++ data) maxBytes = .ok 0 := by
  rw [deserializeSize]
  split
  next => rfl
  next =>
    rw [readSize_write]
    simp only [bind, Except.bind]
    rw [if_pos h]
    rfl

theorem readSafe_write :
    readSafe (write bitmap ++ data) (write bitmap).length = .ok bitmap := by
  have h8 : ¬ (write bitmap).length < 8 := by
    rw [length_write]
    omega
  have hcount : ((write bitmap).length - 8) / 4 = bitmap.toList.length := by
    rw [length_write, Finset.length_toList]
    omega
  have hdrop : (write bitmap).drop 8 =
      (bitmap.toList.flatMap fun low => Bytes.toLittleEndian 4 low.toNat) ++ [] := by
    rw [write, List.drop_left' (Bytes.length_toLittleEndian 8 _), List.append_nil]
  rw [readSafe, decide_eq_false h8, reject_false, readSize_write]
  simp only [bind, Except.bind, lt_self_iff_false, decide_false, reject_false]
  rw [load_append rfl]
  simp only [hcount, hdrop, elements_flatMap, Finset.toList_toFinset]
  rfl

/-- The library with the plain format. -/
noncomputable abbrev library : RoaringLibrary where
  write := write
  deserializeSize := deserializeSize
  readSafe := readSafe
  maxBuckets := 2 ^ 32
  iterationOrder := Finset.toList
  safe_deserializeSize := safe_deserializeSize
  safe_readSafe := safe_readSafe
  deserializeSize_write := deserializeSize_write
  deserializeSize_truncated := deserializeSize_truncated
  readSafe_write := readSafe_write
  readSafe_zero := ⟨_, rfl⟩
  le_maxBuckets := le_rfl
  nodup_iterationOrder := Finset.nodup_toList
  mem_iterationOrder := Finset.mem_toList

/-- A vector grows with the positions. -/
theorem length_vector_le (positions : Finset UInt64) :
    (@vector library positions).length ≤
      12 + positions.card * (12 + 4 * positions.card) := by
  have hentry : ∀ entry ∈ @bitmaps library positions,
      (@writeBitmap library entry).length ≤ 12 + 4 * positions.card := by
    intro entry hentry
    obtain ⟨key, -, rfl⟩ := List.mem_map.1 hentry
    have hcard : (bitmapOf positions key).card ≤ positions.card :=
      Finset.card_image_le.trans (Finset.card_filter_le _ _)
    have hwrite : (@RoaringLibrary.write library (bitmapOf positions key)).length =
        8 + 4 * (bitmapOf positions key).card := length_write
    rw [@length_writeBitmap library, hwrite]
    omega
  have hcount : (@bitmaps library positions).length ≤ positions.card := by
    rw [← List.length_map (·.1), @keys_bitmaps library]
    exact (Finset.length_toList _).trans_le Finset.card_image_le
  have hsum := List.sum_le_card_nsmul
    ((@bitmaps library positions).map fun entry => (@writeBitmap library entry).length)
    (12 + 4 * positions.card) (List.forall_mem_map.2 hentry)
  rw [@length_vector library, List.length_flatMap]
  refine Nat.add_le_add_left (hsum.trans ?_) 12
  rw [List.length_map]
  exact Nat.mul_le_mul_right _ hcount

/-- A blob of twelve bytes that declares a length of twelve: the number of bitmaps is read from
four bytes of the blob and four bytes behind it. -/
theorem overread : ¬ (@fromBlob library
    [0, 0, 0, 12, 0xD1, 0xD3, 0x39, 0x64, 0, 0, 0, 0] 12).Safe := by
  rw [@safe_fromBlob library _ _ (by decide)]
  rintro (hheader | hfields)
  · exact absurd hheader (by rw [HeaderRejected]; decide)
  · exact absurd hfields.1 (by decide)

end PlainRoaring

end DuckLake
