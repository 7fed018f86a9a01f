import Mathlib.Data.Finset.Card
import Mathlib.Data.List.Flatten
import DuckLake.Lib.Guard
import DuckLake.Storage.DeletionVector

/-!
# Deletion vectors are read back

A blob is read back as the set it was written from exactly when its length fits into the 32 bits
that the blob has for it.
-/

namespace DuckLake

namespace DuckLakeDeletionVectorData

/-! ## Positions -/

theorem toNat_position (high low : UInt32) :
    (position high low).toNat = 2 ^ 32 * high.toNat + low.toNat := by
  have hhigh : high.toNat < 2 ^ 32 := high.toNat_lt
  have hlow : low.toNat < 2 ^ 32 := low.toNat_lt
  have hor := Nat.two_pow_add_eq_or_of_lt (i := 32) hlow high.toNat
  have hshift : (high.toUInt64 <<< 32).toNat = 2 ^ 32 * high.toNat := by
    rw [UInt64.toNat_shiftLeft, Nat.shiftLeft_eq]
    simp only [UInt32.toNat_toUInt64, UInt64.reduceToNat, Nat.reduceMod]
    omega
  rw [position, UInt64.toNat_or, hshift, UInt32.toNat_toUInt64, hor]

theorem toNat_highBits (p : UInt64) : (highBits p).toNat = p.toNat / 2 ^ 32 := by
  have hp : p.toNat < 2 ^ 64 := p.toNat_lt
  rw [highBits, UInt64.toNat_toUInt32, UInt64.toNat_shiftRight, Nat.shiftRight_eq_div_pow]
  simp only [UInt64.reduceToNat, Nat.reduceMod]
  omega

theorem toNat_lowBits (p : UInt64) : (lowBits p).toNat = p.toNat % 2 ^ 32 := by
  rw [lowBits, UInt64.toNat_toUInt32]

theorem position_bits (p : UInt64) : position (highBits p) (lowBits p) = p := by
  apply UInt64.toNat_inj.1
  rw [toNat_position, toNat_highBits, toNat_lowBits, Nat.div_add_mod]

theorem mem_toSet {bitmaps : Bitmaps} {p : UInt64} :
    p ∈ toSet bitmaps ↔ ∃ entry ∈ bitmaps, ∃ low ∈ entry.2, position entry.1 low = p := by
  induction bitmaps with
  | nil => simp [toSet]
  | cons entry entries ih =>
    rw [toSet, List.foldr_cons, Finset.mem_union, Finset.mem_image, List.exists_mem_cons_iff]
    exact or_congr_right ih

/-! ## Keys -/

open Reading

theorem advance_append {n v left : Nat} {bytes data : List UInt8} (h : bytes.length = n) :
    BlobCursor.advance ⟨v, left, bytes ++ data⟩ n = ⟨v - n, left - n, data⟩ := by
  rw [BlobCursor.advance, List.drop_left' h]

theorem readKey_write {i v left : Nat} {key : UInt32} {data : List UInt8} (hv : 4 ≤ v)
    (hleft : 4 < left) : readKey i ⟨v, left, Bytes.toLittleEndian 4 key.toNat ++ data⟩ =
      .ok (key, ⟨v - 4, left - 4, data⟩) := by
  have hlt : key.toNat < 256 ^ 4 := key.toNat_lt
  have hkey : UInt32.ofNat (Bytes.ofLittleEndian (Bytes.toLittleEndian 4 key.toNat)) = key := by
    rw [Bytes.ofLittleEndian_toLittleEndian, Nat.mod_eq_of_lt hlt, UInt32.ofNat_toNat]
  simp [readKey, reject, load_append, advance_append, hkey, Nat.not_lt.2 hv, Nat.not_le.2 hleft,
    bind, Except.bind, pure, Except.pure]

theorem readKey_truncated {i v left : Nat} {data : List UInt8} (hv : v < 4) :
    ∃ e, readKey i ⟨v, left, data⟩ = .error (.exception e) := by
  simp [readKey, reject, hv, bind, Except.bind]

theorem emplace_new {entries : Bitmaps} {key : UInt32} {bitmap : Finset UInt32}
    (h : key ∉ entries.map (·.1)) : emplace entries key bitmap = entries ++ [(key, bitmap)] := by
  rw [emplace, if_neg]
  intro hany
  obtain ⟨entry, hentry, hkey⟩ := List.any_eq_true.1 hany
  exact h (List.mem_map.2 ⟨entry, hentry, of_decide_eq_true hkey⟩)

section Written

variable [RoaringLibrary] {positions : Finset UInt64}

/-- The bitmaps hold the positions they are made from. -/
theorem toSet_bitmaps : toSet (bitmaps positions) = positions := by
  ext p
  rw [mem_toSet]
  constructor
  · rintro ⟨entry, hentry, low, hlow, rfl⟩
    obtain ⟨key, -, rfl⟩ := List.mem_map.1 hentry
    obtain ⟨q, hq, rfl⟩ := Finset.mem_image.1 hlow
    obtain ⟨hmem, rfl⟩ := Finset.mem_filter.1 hq
    rwa [position_bits]
  · intro hp
    have hkey : highBits p ∈ RoaringLibrary.iterationOrder (positions.image highBits) :=
      RoaringLibrary.mem_iterationOrder.2 (Finset.mem_image_of_mem _ hp)
    refine ⟨_, List.mem_map.2 ⟨highBits p, hkey, rfl⟩, lowBits p, ?_, position_bits p⟩
    exact Finset.mem_image_of_mem _ (Finset.mem_filter.2 ⟨hp, rfl⟩)

theorem keys_bitmaps :
    (bitmaps positions).map (·.1) = RoaringLibrary.iterationOrder (positions.image highBits) := by
  rw [bitmaps, List.map_map]
  exact List.map_id _

theorem nodup_keys_bitmaps : ((bitmaps positions).map (·.1)).Nodup := by
  rw [keys_bitmaps]
  exact RoaringLibrary.nodup_iterationOrder _

/-! ## Reading what was written -/

theorem readBitmap_write {i v left : Nat} {bitmap : Finset UInt32} {data : List UInt8}
    (hv : (RoaringLibrary.write bitmap).length ≤ v)
    (hleft : (RoaringLibrary.write bitmap).length < left) :
    readBitmap i ⟨v, left, RoaringLibrary.write bitmap ++ data⟩ =
      .ok (bitmap, ⟨v - (RoaringLibrary.write bitmap).length,
        left - (RoaringLibrary.write bitmap).length, data⟩) := by
  simp only [readBitmap, RoaringLibrary.deserializeSize_write hv]
  simp [reject, RoaringLibrary.readSafe_write, advance_append, Nat.not_lt.2 hv,
    Nat.not_le.2 hleft, bind, Except.bind, pure, Except.pure]

/-- A bitmap that the declared length leaves no room for is not read. -/
theorem readBitmap_truncated {i v left : Nat} {bitmap : Finset UInt32} {data : List UInt8}
    (hv : v < (RoaringLibrary.write bitmap).length) :
    ∃ e, readBitmap i ⟨v, left, RoaringLibrary.write bitmap ++ data⟩ =
      .error (.exception e) := by
  obtain ⟨e, he⟩ : ∃ e, RoaringLibrary.readSafe (RoaringLibrary.write bitmap ++ data) 0 =
      .error (.exception e) := RoaringLibrary.readSafe_zero
  refine ⟨e, ?_⟩
  simp only [readBitmap, RoaringLibrary.deserializeSize_truncated hv]
  simp [reject, he, bind, Except.bind]

theorem length_writeBitmap {entry : UInt32 × Finset UInt32} :
    (writeBitmap entry).length = 4 + (RoaringLibrary.write entry.2).length := by
  simp [writeBitmap]

/-- The loop reads the bitmaps that were written, when the declared length has room for them. -/
theorem readBitmaps_write {entries acc : Bitmaps} {i v left : Nat} {data : List UInt8}
    (hkeys : ((acc ++ entries).map (·.1)).Nodup) (hv : (entries.flatMap writeBitmap).length ≤ v)
    (hleft : (entries.flatMap writeBitmap).length < left) :
    readBitmaps entries.length i ⟨v, left, entries.flatMap writeBitmap ++ data⟩ acc =
      .ok (acc ++ entries, ⟨v - (entries.flatMap writeBitmap).length,
        left - (entries.flatMap writeBitmap).length, data⟩) := by
  induction entries generalizing i v left acc with
  | nil => simp [readBitmaps, pure, Except.pure]
  | cons entry entries ih =>
    rw [List.flatMap_cons, List.length_append, length_writeBitmap] at hv hleft
    have hkey : readKey i ⟨v, left, Bytes.toLittleEndian 4 entry.1.toNat ++
          (RoaringLibrary.write entry.2 ++ (entries.flatMap writeBitmap ++ data))⟩ = .ok (entry.1,
        ⟨v - 4, left - 4, RoaringLibrary.write entry.2 ++
          (entries.flatMap writeBitmap ++ data)⟩) := readKey_write (by omega) (by omega)
    have hbitmap : readBitmap i ⟨v - 4, left - 4, RoaringLibrary.write entry.2 ++
          (entries.flatMap writeBitmap ++ data)⟩ = .ok (entry.2,
        ⟨v - 4 - (RoaringLibrary.write entry.2).length,
          left - 4 - (RoaringLibrary.write entry.2).length,
          entries.flatMap writeBitmap ++ data⟩) := readBitmap_write (by omega) (by omega)
    have hnew : entry.1 ∉ acc.map (·.1) := by
      rw [List.map_append, List.map_cons] at hkeys
      exact fun hmem => (List.nodup_append.1 hkeys).2.2 _ hmem _ (by simp) rfl
    have hkeys' : ((acc ++ [(entry.1, entry.2)] ++ entries).map (·.1)).Nodup := by
      simpa using hkeys
    rw [List.flatMap_cons, writeBitmap, List.append_assoc, List.append_assoc, List.length_cons,
      readBitmaps, hkey]
    simp only [bind, Except.bind, hbitmap, emplace_new hnew]
    rw [ih hkeys' (by omega) (by omega), List.append_assoc]
    simp only [List.singleton_append, List.length_append, Bytes.length_toLittleEndian]
    congr 3 <;> omega

/-- When the declared length is too small, the loop throws. -/
theorem readBitmaps_truncated {entries acc : Bitmaps} {i v left : Nat} {data : List UInt8}
    (hv : v < (entries.flatMap writeBitmap).length)
    (hleft : (entries.flatMap writeBitmap).length < left) :
    ∃ e, readBitmaps entries.length i ⟨v, left, entries.flatMap writeBitmap ++ data⟩ acc =
      .error (.exception e) := by
  induction entries generalizing i v left acc with
  | nil => simp at hv
  | cons entry entries ih =>
    rw [List.flatMap_cons, List.length_append, length_writeBitmap] at hv hleft
    rw [List.flatMap_cons, writeBitmap, List.append_assoc, List.append_assoc, List.length_cons,
      readBitmaps]
    by_cases hkeyFits : 4 ≤ v
    · rw [readKey_write hkeyFits (by omega)]
      by_cases hfits : (RoaringLibrary.write entry.2).length ≤ v - 4
      · simp only [bind, Except.bind]
        rw [readBitmap_write hfits (by omega)]
        exact ih (by omega) (by omega)
      · obtain ⟨e, he⟩ : ∃ e, readBitmap i ⟨v - 4, left - 4, RoaringLibrary.write entry.2 ++
            (entries.flatMap writeBitmap ++ data)⟩ = .error (.exception e) :=
          readBitmap_truncated (Nat.not_le.1 hfits)
        exact ⟨e, by simp [bind, Except.bind, he]⟩
    · obtain ⟨e, he⟩ : ∃ e, readKey i ⟨v, left, Bytes.toLittleEndian 4 entry.1.toNat ++
            (RoaringLibrary.write entry.2 ++ (entries.flatMap writeBitmap ++ data))⟩ =
          .error (.exception e) := readKey_truncated (Nat.not_le.1 hkeyFits)
      exact ⟨e, by simp [bind, Except.bind, he]⟩

omit [RoaringLibrary] in
theorem length_le_of_nodup {keys : List UInt32} (h : keys.Nodup) : keys.length ≤ 2 ^ 32 := by
  have hnodup : (keys.map UInt32.toNat).Nodup := h.map fun _ _ h => UInt32.toNat_inj.1 h
  have hsub : (keys.map UInt32.toNat).toFinset ⊆ Finset.range (2 ^ 32) := fun n hn => by
    obtain ⟨key, -, rfl⟩ := List.mem_map.1 (List.mem_toFinset.1 hn)
    exact Finset.mem_range.2 key.toNat_lt
  have hcard := Finset.card_le_card hsub
  rw [List.toFinset_card_of_nodup hnodup, Finset.card_range] at hcard
  rwa [List.length_map] at hcard

theorem length_bitmaps_le : (bitmaps positions).length ≤ 2 ^ 32 := by
  have hle : ((bitmaps positions).map (·.1)).length ≤ 2 ^ 32 :=
    length_le_of_nodup nodup_keys_bitmaps
  rwa [List.length_map] at hle

theorem length_vector :
    (vector positions).length = 12 + ((bitmaps positions).flatMap writeBitmap).length := by
  simp [vector, deletionVectorMagic]
  omega

theorem length_toBlob : (toBlob positions).length = (vector positions).length + 8 := by
  simp [toBlob, checksum]
  omega

/-- The parts of a written blob, in a buffer that goes on behind it. -/
theorem toBlob_append {data : List UInt8} : toBlob positions ++ data =
    Bytes.toBigEndian 4 (vector positions).length ++ (deletionVectorMagic ++
      (Bytes.toLittleEndian 8 (bitmaps positions).length ++
        ((bitmaps positions).flatMap writeBitmap ++ (checksum (vector positions) ++ data)))) := by
  simp only [toBlob, vector, List.append_assoc]

theorem take_toBlob {data : List UInt8} :
    ((toBlob positions ++ data).drop 4).take (vector positions).length = vector positions := by
  rw [toBlob, List.append_assoc, List.drop_left' (Bytes.length_toBigEndian 4 _),
    List.append_assoc, List.take_left' rfl]

omit [RoaringLibrary] in
theorem readVectorSize_write {n blobLength : Nat} {data : List UInt8} (h : 12 ≤ blobLength) :
    readVectorSize (Bytes.toBigEndian 4 n ++ data) blobLength =
      .ok ⟨n % 2 ^ 32, blobLength - 4, data⟩ := by
  have hdrop : (Bytes.toBigEndian 4 n ++ data).drop 4 = data :=
    List.drop_left' (Bytes.length_toBigEndian 4 n)
  have h4 : ¬ blobLength ≤ 4 := by omega
  simp [readVectorSize, reject, load_append, hdrop, Nat.not_lt.2 h, h4,
    Bytes.ofBigEndian_toBigEndian, bind, Except.bind, pure, Except.pure]

omit [RoaringLibrary] in
theorem readMagic_write {v left : Nat} {data : List UInt8} (hv : 4 ≤ v) (hleft : 4 < left) :
    readMagic ⟨v, left, deletionVectorMagic ++ data⟩ = .ok ⟨v - 4, left - 4, data⟩ := by
  have hload : (load 4 (deletionVectorMagic ++ data) : BlobReading _) = .ok deletionVectorMagic :=
    load_append rfl
  have hadvance : BlobCursor.advance ⟨v, left, deletionVectorMagic ++ data⟩ 4 =
      ⟨v - 4, left - 4, data⟩ := advance_append rfl
  simp [readMagic, hload, hadvance, reject, Nat.not_lt.2 hv, Nat.not_le.2 hleft, bind,
    Except.bind, pure, Except.pure]

omit [RoaringLibrary] in
theorem readMagic_truncated {v left : Nat} {data : List UInt8} (hv : v < 4) :
    ∃ e, readMagic ⟨v, left, deletionVectorMagic ++ data⟩ = .error (.exception e) := by
  have hload : (load 4 (deletionVectorMagic ++ data) : BlobReading _) = .ok deletionVectorMagic :=
    load_append rfl
  simp [readMagic, hload, reject, hv, bind, Except.bind]

omit [RoaringLibrary] in
theorem readBitmapCount_write {v left n : Nat} {data : List UInt8} (hv : 8 ≤ v)
    (hleft : 8 < left) (hn : n ≤ 2 ^ 32) :
    readBitmapCount ⟨v, left, Bytes.toLittleEndian 8 n ++ data⟩ =
      .ok (n, ⟨v - 8, left - 8, data⟩) := by
  have hvalue : Bytes.ofLittleEndian (Bytes.toLittleEndian 8 n) = n := by
    rw [Bytes.ofLittleEndian_toLittleEndian, Nat.mod_eq_of_lt (by omega)]
  have hn' : ¬ 9223372036854775808 ≤ n := by omega
  simp [readBitmapCount, load_append, advance_append, hvalue, reject, Nat.not_lt.2 hv,
    Nat.not_le.2 hleft, hn', bind, Except.bind, pure, Except.pure]

omit [RoaringLibrary] in
theorem readBitmapCount_truncated {v left : Nat} {data : List UInt8} (hv : v < 8) :
    ∃ e, readBitmapCount ⟨v, left, data⟩ = .error (.exception e) := by
  simp [readBitmapCount, reject, hv, bind, Except.bind]

omit [RoaringLibrary] in
theorem checkChecksum_write {v : Nat} {checksummed data : List UInt8} :
    checkChecksum checksummed ⟨v, 4, checksum checksummed ++ data⟩ = .ok () := by
  have hload : (load 4 (checksum checksummed ++ data) : BlobReading _) =
      .ok (checksum checksummed) := load_append (Bytes.length_toBigEndian 4 _)
  have hlt : (CRC32.value checksummed).toNat < 256 ^ 4 := (CRC32.value checksummed).toNat_lt
  have hvalue : Bytes.ofBigEndian (checksum checksummed) = (CRC32.value checksummed).toNat := by
    rw [checksum, Bytes.ofBigEndian_toBigEndian, Nat.mod_eq_of_lt hlt]
  simp [checkChecksum, hload, hvalue, reject, bind, Except.bind]

/-- What `FromBlob` does with a written blob once it has read the number of bitmaps. -/
theorem fromBlob_toBlob_of_le {v : Nat} {data : List UInt8}
    (hv : (vector positions).length % 2 ^ 32 = v) (hle : 12 ≤ v) :
    fromBlob (toBlob positions ++ data) (toBlob positions).length =
      (readBitmaps (bitmaps positions).length 0 ⟨v - 12, (vector positions).length - 8,
        (bitmaps positions).flatMap writeBitmap ++ (checksum (vector positions) ++ data)⟩ []) >>=
      fun r => checkChecksum (((toBlob positions ++ data).drop 4).take
          ((toBlob positions).length - 4 - r.2.left)) r.2 >>= fun _ => pure r.1 := by
  have hlength : (vector positions).length =
      12 + ((bitmaps positions).flatMap writeBitmap).length := length_vector
  have hsize : readVectorSize (toBlob positions ++ data) (toBlob positions).length =
      .ok ⟨v, (vector positions).length + 4, deletionVectorMagic ++
        (Bytes.toLittleEndian 8 (bitmaps positions).length ++
          ((bitmaps positions).flatMap writeBitmap ++
            (checksum (vector positions) ++ data)))⟩ := by
    rw [toBlob_append, readVectorSize_write (by rw [length_toBlob]; omega), hv, length_toBlob]
    rfl
  have hcount : readBitmapCount ⟨v - 4, (vector positions).length,
        Bytes.toLittleEndian 8 (bitmaps positions).length ++
          ((bitmaps positions).flatMap writeBitmap ++ (checksum (vector positions) ++ data))⟩ =
      .ok ((bitmaps positions).length, ⟨v - 4 - 8, (vector positions).length - 8,
        (bitmaps positions).flatMap writeBitmap ++ (checksum (vector positions) ++ data)⟩) :=
    readBitmapCount_write (by omega) (by omega) length_bitmaps_le
  have hbuckets : ¬ RoaringLibrary.maxBuckets < (bitmaps positions).length :=
    Nat.not_lt.2 (length_bitmaps_le.trans RoaringLibrary.le_maxBuckets)
  rw [fromBlob, hsize]
  simp only [bind, Except.bind]
  rw [readMagic_write (by omega) (by omega)]
  simp only [Nat.add_sub_cancel, hcount, reject, decide_eq_false hbuckets, Nat.sub_sub v]
  rfl

/-- A blob whose length fits into 32 bits is read back. -/
theorem fromBlob_toBlob {data : List UInt8} (h : (vector positions).length < 2 ^ 32) :
    fromBlob (toBlob positions ++ data) (toBlob positions).length = .ok (bitmaps positions) := by
  have hlength : (vector positions).length =
      12 + ((bitmaps positions).flatMap writeBitmap).length := length_vector
  have hbitmaps : readBitmaps (bitmaps positions).length 0 ⟨(vector positions).length - 12,
        (vector positions).length - 8, (bitmaps positions).flatMap writeBitmap ++
          (checksum (vector positions) ++ data)⟩ [] =
      .ok (bitmaps positions, ⟨(vector positions).length - 12 -
        ((bitmaps positions).flatMap writeBitmap).length, (vector positions).length - 8 -
        ((bitmaps positions).flatMap writeBitmap).length, checksum (vector positions) ++ data⟩) :=
    readBitmaps_write (by simpa using nodup_keys_bitmaps) (by omega) (by omega)
  have hleft : (vector positions).length - 8 -
      ((bitmaps positions).flatMap writeBitmap).length = 4 := by omega
  have hchecked : (toBlob positions).length - 4 - 4 = (vector positions).length := by
    rw [length_toBlob]
    omega
  rw [fromBlob_toBlob_of_le (Nat.mod_eq_of_lt h) (by omega), hbitmaps, hleft]
  simp only [bind, Except.bind, hchecked, take_toBlob, checkChecksum_write]
  rfl

/-- The header of a written blob is rejected when the declared length does not reach its end. -/
theorem fromBlob_toBlob_of_lt {v : Nat} {data : List UInt8}
    (hv : (vector positions).length % 2 ^ 32 = v) (hlt : v < 12) :
    ∃ e, fromBlob (toBlob positions ++ data) (toBlob positions).length =
      .error (.exception e) := by
  have hlength : (vector positions).length =
      12 + ((bitmaps positions).flatMap writeBitmap).length := length_vector
  rw [fromBlob, toBlob_append, readVectorSize_write (by rw [length_toBlob]; omega), hv]
  simp only [bind, Except.bind]
  by_cases hmagic : 4 ≤ v
  · obtain ⟨e, he⟩ : ∃ e, readBitmapCount ⟨v - 4, (toBlob positions).length - 4 - 4,
        Bytes.toLittleEndian 8 (bitmaps positions).length ++
          ((bitmaps positions).flatMap writeBitmap ++ (checksum (vector positions) ++ data))⟩ =
        .error (.exception e) := readBitmapCount_truncated (by omega)
    rw [readMagic_write hmagic (by rw [length_toBlob]; omega)]
    exact ⟨e, by simp [he]⟩
  · obtain ⟨e, he⟩ : ∃ e, readMagic ⟨v, (toBlob positions).length - 4, deletionVectorMagic ++
        (Bytes.toLittleEndian 8 (bitmaps positions).length ++
          ((bitmaps positions).flatMap writeBitmap ++ (checksum (vector positions) ++ data)))⟩ =
        .error (.exception e) := readMagic_truncated (Nat.not_le.1 hmagic)
    exact ⟨e, by simp [he]⟩

/-- A longer one is rejected. -/
theorem fromBlob_toBlob_truncated {data : List UInt8} (h : 2 ^ 32 ≤ (vector positions).length) :
    ∃ e, fromBlob (toBlob positions ++ data) (toBlob positions).length =
      .error (.exception e) := by
  have hlength : (vector positions).length =
      12 + ((bitmaps positions).flatMap writeBitmap).length := length_vector
  obtain ⟨v, hv⟩ : ∃ v, (vector positions).length % 2 ^ 32 = v := ⟨_, rfl⟩
  have hlt : v < 2 ^ 32 := hv ▸ Nat.mod_lt _ (by decide)
  by_cases hle : 12 ≤ v
  · obtain ⟨e, he⟩ : ∃ e, readBitmaps (bitmaps positions).length 0 ⟨v - 12,
        (vector positions).length - 8, (bitmaps positions).flatMap writeBitmap ++
          (checksum (vector positions) ++ data)⟩ [] = .error (.exception e) :=
      readBitmaps_truncated (by omega) (by omega)
    rw [fromBlob_toBlob_of_le hv hle, he]
    exact ⟨e, rfl⟩
  · exact fromBlob_toBlob_of_lt hv (Nat.not_le.1 hle)

/-- What is written is read back exactly when its length fits into 32 bits. -/
theorem roundTrip_iff {data : List UInt8} :
    (∃ bs, fromBlob (toBlob positions ++ data) (toBlob positions).length = .ok bs ∧
      toSet bs = positions) ↔ (vector positions).length < 2 ^ 32 := by
  constructor
  · rintro ⟨bs, hbs, -⟩
    by_contra hlarge
    obtain ⟨e, he⟩ : ∃ e, fromBlob (toBlob positions ++ data) (toBlob positions).length =
      .error (.exception e) := fromBlob_toBlob_truncated (Nat.not_lt.1 hlarge)
    rw [he] at hbs
    cases hbs
  · exact fun h => ⟨_, fromBlob_toBlob h, toSet_bitmaps⟩

end Written

end DuckLakeDeletionVectorData

end DuckLake
