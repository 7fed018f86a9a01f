import DuckLake.Storage.DeletionVector

/-!
# What the reader of deletion vectors looks at

The reader bounds the fields of a blob by the length that the blob declares, which it does not
compare with the length that the blob has.
-/

namespace DuckLake

namespace DuckLakeDeletionVectorData

open Reading

variable [RoaringLibrary]

/-- The keys and bitmaps at the cursor lie inside the buffer, as far as the declared length makes
the reader go. -/
def BitmapsInside : Nat → BlobCursor → Prop
  | 0, _ => True
  | n + 1, ⟨v, left, data⟩ => v < 4 ∨ 4 ≤ data.length ∧ (left ≤ 4 ∨
      (RoaringLibrary.deserializeSize (data.drop 4) (v - 4)).Safe ∧
        ∀ size, RoaringLibrary.deserializeSize (data.drop 4) (v - 4) = .ok size → size ≤ v - 4 →
          (RoaringLibrary.readSafe (data.drop 4) size).Safe ∧
            ∀ bitmap, RoaringLibrary.readSafe (data.drop 4) size = .ok bitmap →
              size < left - 4 →
                BitmapsInside n ⟨v - 4 - size, left - 4 - size, (data.drop 4).drop size⟩)

/-- The declared length of a blob. -/
def declaredSize (buffer : List UInt8) : Nat := Bytes.ofBigEndian (buffer.take 4)

/-- The header of the blob is rejected before the number of bitmaps is read. -/
def HeaderRejected (buffer : List UInt8) (blobLength : Nat) : Prop :=
  blobLength < 12 ∨ declaredSize buffer < 12 ∨ (buffer.drop 4).take 4 ≠ deletionVectorMagic

def bitmapCount (buffer : List UInt8) : Nat := Bytes.ofLittleEndian ((buffer.drop 8).take 8)

/-- The fields of the blob lie inside the buffer, as far as the declared length makes the reader
go. -/
def FieldsInside (buffer : List UInt8) (blobLength : Nat) : Prop :=
  HeaderRejected buffer blobLength ∨ 16 ≤ buffer.length ∧ (blobLength ≤ 16 ∨
    2 ^ 63 ≤ bitmapCount buffer ∨ RoaringLibrary.maxBuckets < bitmapCount buffer ∨
      BitmapsInside (bitmapCount buffer)
        ⟨declaredSize buffer - 12, blobLength - 16, buffer.drop 16⟩)

/-! ## The bitmaps -/

omit [RoaringLibrary] in
theorem safe_readKey {i : Nat} {c : BlobCursor} :
    (readKey i c).Safe ↔ c.vectorSize < 4 ∨ 4 ≤ c.data.length := by
  rw [readKey, safe_reject_bind, safe_load_bind, safe_reject_bind, decide_eq_false_iff_not]
  simp only [safe_pure, implies_true, and_true]
  exact Decidable.or_iff_not_imp_left.symm

omit [RoaringLibrary] in
theorem readKey_eq_ok {i : Nat} {c c' : BlobCursor} {key : UInt32} :
    readKey i c = .ok (key, c') ↔ 4 ≤ c.vectorSize ∧ 4 ≤ c.data.length ∧ 4 < c.left ∧
      key = UInt32.ofNat (Bytes.ofLittleEndian (c.data.take 4)) ∧ c' = c.advance 4 := by
  rw [readKey, reject_bind_eq_ok, load_bind_eq_ok, reject_bind_eq_ok, decide_eq_false_iff_not,
    decide_eq_false_iff_not, Nat.not_lt, Nat.not_le]
  simp only [pure, Except.pure, Except.ok.injEq, Prod.mk.injEq, eq_comm]

theorem safe_readBitmap {i : Nat} {c : BlobCursor} :
    (readBitmap i c).Safe ↔ (RoaringLibrary.deserializeSize c.data c.vectorSize).Safe ∧
      ∀ size, RoaringLibrary.deserializeSize c.data c.vectorSize = .ok size → size ≤ c.vectorSize →
        (RoaringLibrary.readSafe c.data size).Safe := by
  rw [readBitmap, safe_bind]
  simp only [safe_bind, safe_reject, safe_pure, implies_true, and_true, true_and, reject_eq_ok,
    decide_eq_false_iff_not, Nat.not_lt]
  exact and_congr_right fun _ => forall₂_congr fun _ _ =>
    ⟨fun h hsize => h () hsize, fun h _ hsize => h hsize⟩

theorem readBitmap_eq_ok {i : Nat} {c c' : BlobCursor} {bitmap : Finset UInt32} :
    readBitmap i c = .ok (bitmap, c') ↔ ∃ size,
      RoaringLibrary.deserializeSize c.data c.vectorSize = .ok size ∧ size ≤ c.vectorSize ∧
        RoaringLibrary.readSafe c.data size = .ok bitmap ∧ size < c.left ∧
          c' = c.advance size := by
  rw [readBitmap, bind_eq_ok]
  refine exists_congr fun size => and_congr_right fun _ => ?_
  rw [reject_bind_eq_ok, decide_eq_false_iff_not, Nat.not_lt, bind_eq_ok]
  refine and_congr_right fun _ => ?_
  simp only [reject_bind_eq_ok, decide_eq_false_iff_not, Nat.not_le, pure, Except.pure,
    Except.ok.injEq, Prod.mk.injEq]
  constructor
  · rintro ⟨_, hread, hleft, rfl, rfl⟩
    exact ⟨hread, hleft, rfl⟩
  · rintro ⟨hread, hleft, rfl⟩
    exact ⟨_, hread, hleft, rfl, rfl⟩

/-- The loop looks at the key and the bitmap at the cursor, and goes on behind them. -/
theorem safe_readBitmaps {n i : Nat} {c : BlobCursor} {bitmaps : Bitmaps} :
    (readBitmaps n i c bitmaps).Safe ↔ BitmapsInside n c := by
  induction n generalizing i c bitmaps with
  | zero => simp [readBitmaps, BitmapsInside]
  | succ n ih =>
    obtain ⟨v, left, data⟩ := c
    rw [readBitmaps, BitmapsInside, safe_bind, safe_readKey]
    constructor
    · rintro ⟨hkey, hrest⟩
      refine or_iff_not_imp_left.2 fun hv => ⟨hkey.resolve_left hv, ?_⟩
      refine or_iff_not_imp_left.2 fun hleft => ?_
      have hread := hrest _ (readKey_eq_ok.2
        ⟨Nat.not_lt.1 hv, hkey.resolve_left hv, Nat.not_le.1 hleft, rfl, rfl⟩)
      rw [safe_bind, safe_readBitmap] at hread
      refine ⟨hread.1.1, fun size hsize hle => ⟨hread.1.2 size hsize hle, ?_⟩⟩
      intro bitmap hbitmap hlt
      exact ih.1 (hread.2 _ (readBitmap_eq_ok.2 ⟨size, hsize, hle, hbitmap, hlt, rfl⟩))
    · intro h
      refine ⟨h.imp_right And.left, fun ⟨key, c'⟩ hkey => ?_⟩
      obtain ⟨hv, -, hleft, -, rfl⟩ := readKey_eq_ok.1 hkey
      obtain ⟨hsafe, hrest⟩ :=
        (h.resolve_left (Nat.not_lt.2 hv)).2.resolve_left (Nat.not_le.2 hleft)
      refine safe_bind.2 ⟨safe_readBitmap.2 ⟨hsafe, fun size hsize hle => (hrest size hsize hle).1⟩,
        fun ⟨bitmap, c''⟩ hbitmap => ?_⟩
      obtain ⟨size, hsize, hle, hread, hlt, rfl⟩ := readBitmap_eq_ok.1 hbitmap
      exact ih.2 ((hrest size hsize hle).2 bitmap hread hlt)

/-! ## The blob -/

/-- The blob lies inside the buffer. -/
def BlobCursor.Within (c : BlobCursor) : Prop := c.left ≤ c.data.length

omit [RoaringLibrary] in
theorem BlobCursor.Within.advance {c : BlobCursor} {n : Nat} (h : c.Within) :
    (c.advance n).Within := by
  rw [Within, BlobCursor.advance, List.length_drop]
  exact Nat.sub_le_sub_right h n

theorem within_readBitmaps {n i : Nat} {c c' : BlobCursor} {bitmaps bitmaps' : Bitmaps}
    (hc : c.Within) (h : readBitmaps n i c bitmaps = .ok (bitmaps', c')) : c'.Within := by
  induction n generalizing i c bitmaps with
  | zero =>
    cases h
    exact hc
  | succ n ih =>
    rw [readBitmaps] at h
    obtain ⟨⟨key, c₁⟩, hkey, h⟩ := bind_eq_ok.1 h
    obtain ⟨⟨bitmap, c₂⟩, hbitmap, h⟩ := bind_eq_ok.1 h
    obtain ⟨-, -, -, -, rfl⟩ := readKey_eq_ok.1 hkey
    obtain ⟨size, -, -, -, -, rfl⟩ := readBitmap_eq_ok.1 hbitmap
    exact ih hc.advance.advance h

omit [RoaringLibrary] in
theorem safe_checkChecksum {checksummed : List UInt8} {c : BlobCursor} (hc : c.Within) :
    (checkChecksum checksummed c).Safe := by
  rw [checkChecksum, safe_reject_bind, decide_eq_false_iff_not, Nat.not_lt]
  intro h
  rw [safe_load_bind, safe_reject_bind]
  exact ⟨h.trans hc, fun _ => safe_reject⟩

omit [RoaringLibrary] in
theorem safe_readVectorSize {buffer : List UInt8} {blobLength : Nat}
    (h : blobLength ≤ buffer.length) : (readVectorSize buffer blobLength).Safe := by
  rw [readVectorSize, safe_reject_bind, decide_eq_false_iff_not]
  intro hlength
  rw [safe_load_bind, safe_reject_bind]
  exact ⟨by omega, fun _ => safe_pure⟩

omit [RoaringLibrary] in
theorem readVectorSize_eq_ok {buffer : List UInt8} {blobLength : Nat} {c : BlobCursor}
    (h : blobLength ≤ buffer.length) :
    readVectorSize buffer blobLength = .ok c ↔
      12 ≤ blobLength ∧ c = ⟨declaredSize buffer, blobLength - 4, buffer.drop 4⟩ := by
  rw [readVectorSize, reject_bind_eq_ok, load_bind_eq_ok, reject_bind_eq_ok,
    decide_eq_false_iff_not, decide_eq_false_iff_not, Nat.not_lt, Nat.not_le]
  simp only [pure, Except.pure, Except.ok.injEq]
  constructor
  · rintro ⟨hlength, -, -, rfl⟩
    exact ⟨hlength, rfl⟩
  · rintro ⟨hlength, rfl⟩
    exact ⟨hlength, by omega, by omega, rfl⟩

omit [RoaringLibrary] in
theorem safe_readMagic {c : BlobCursor} : (readMagic c).Safe ↔ 4 ≤ c.data.length := by
  rw [readMagic, safe_load_bind]
  simp only [safe_bind, safe_reject, safe_pure, implies_true, and_true]

omit [RoaringLibrary] in
theorem readMagic_eq_ok {c c' : BlobCursor} :
    readMagic c = .ok c' ↔ (4 ≤ c.data.length ∧ 4 ≤ c.vectorSize ∧ 4 < c.left ∧
      c.data.take 4 = deletionVectorMagic) ∧ c' = c.advance 4 := by
  rw [readMagic, load_bind_eq_ok, reject_bind_eq_ok, reject_bind_eq_ok, reject_bind_eq_ok,
    decide_eq_false_iff_not, decide_eq_false_iff_not, decide_eq_false_iff_not, Nat.not_lt,
    Nat.not_le, Decidable.not_not]
  simp only [pure, Except.pure, Except.ok.injEq, eq_comm, and_assoc]

omit [RoaringLibrary] in
theorem safe_readBitmapCount {c : BlobCursor} :
    (readBitmapCount c).Safe ↔ c.vectorSize < 8 ∨ 8 ≤ c.data.length := by
  rw [readBitmapCount, safe_reject_bind, safe_load_bind, decide_eq_false_iff_not]
  simp only [safe_bind, safe_reject, safe_pure, implies_true, and_true]
  exact Decidable.or_iff_not_imp_left.symm

omit [RoaringLibrary] in
theorem readBitmapCount_eq_ok {c : BlobCursor} {r : Nat × BlobCursor} :
    readBitmapCount c = .ok r ↔ (8 ≤ c.vectorSize ∧ 8 ≤ c.data.length ∧ 8 < c.left ∧
      Bytes.ofLittleEndian (c.data.take 8) < 2 ^ 63) ∧
        r = (Bytes.ofLittleEndian (c.data.take 8), c.advance 8) := by
  rw [readBitmapCount, reject_bind_eq_ok, load_bind_eq_ok, reject_bind_eq_ok, reject_bind_eq_ok,
    decide_eq_false_iff_not, decide_eq_false_iff_not, decide_eq_false_iff_not, Nat.not_lt,
    Nat.not_le, Nat.not_le]
  simp only [pure, Except.pure, Except.ok.injEq, eq_comm, and_assoc]

/-- What follows the number of bitmaps. -/
theorem safe_readRest {count : Nat} {c : BlobCursor} {checksummed : BlobCursor → List UInt8}
    (hc : c.Within) :
    ((do
      reject (RoaringLibrary.maxBuckets < count) ⟨.internal, "unordered_map::reserve"⟩
      let (bitmaps, c) ← readBitmaps count 0 c []
      checkChecksum (checksummed c) c
      pure bitmaps) : BlobReading Bitmaps).Safe ↔
      RoaringLibrary.maxBuckets < count ∨ BitmapsInside count c := by
  rw [safe_reject_bind, decide_eq_false_iff_not, safe_bind, safe_readBitmaps,
    and_iff_left fun r hr => ?_]
  · exact Decidable.or_iff_not_imp_left.symm
  · exact safe_bind.2 ⟨safe_checkChecksum (within_readBitmaps hc hr), fun _ _ => safe_pure⟩

/-- `FromBlob` stays within the buffer exactly when the fields of the blob lie within it. -/
theorem safe_fromBlob {buffer : List UInt8} {blobLength : Nat} (h : blobLength ≤ buffer.length) :
    (fromBlob buffer blobLength).Safe ↔ FieldsInside buffer blobLength := by
  have hwithin : BlobCursor.Within
      ⟨declaredSize buffer - 12, blobLength - 16, buffer.drop 16⟩ := by
    rw [BlobCursor.Within, List.length_drop]
    exact Nat.sub_le_sub_right h 16
  have hrest := @safe_readRest _ (bitmapCount buffer) _
    (fun c => (buffer.drop 4).take (blobLength - 4 - c.left)) hwithin
  rw [fromBlob, safe_bind_of_eq_ok_iff fun _ => readVectorSize_eq_ok h,
    safe_bind_of_eq_ok_iff fun _ => readMagic_eq_ok,
    safe_bind_of_eq_ok_iff fun _ => readBitmapCount_eq_ok, safe_readMagic, safe_readBitmapCount]
  simp only [safe_readVectorSize h, true_and, BlobCursor.advance, Nat.sub_sub, List.drop_drop,
    Nat.reduceAdd]
  rw [show Bytes.ofLittleEndian ((buffer.drop 8).take 8) = bitmapCount buffer from rfl]
  simp only [Nat.sub_sub] at hrest
  rw [hrest, List.length_drop, List.length_drop, FieldsInside, HeaderRejected]
  generalize BitmapsInside (bitmapCount buffer) _ = inside
  by_cases hheader : blobLength < 12 ∨ declaredSize buffer < 12 ∨
      (buffer.drop 4).take 4 ≠ deletionVectorMagic
  · grind
  · grind

/-! ## Blobs that hold what they declare -/

theorem bitmapsInside_of_le {n v left : Nat} {data : List UInt8} (h : v ≤ data.length) :
    BitmapsInside n ⟨v, left, data⟩ := by
  induction n generalizing v left data with
  | zero => trivial
  | succ n ih =>
    rw [BitmapsInside]
    refine or_iff_not_imp_left.2 fun hv => ⟨by omega, .inr ⟨?_, fun size _ hle => ⟨?_, ?_⟩⟩⟩
    · apply RoaringLibrary.safe_deserializeSize
      rw [List.length_drop]
      omega
    · apply RoaringLibrary.safe_readSafe
      rw [List.length_drop]
      omega
    · intro _ _ _
      apply ih
      rw [List.length_drop, List.length_drop]
      omega

/-- The declared length only has to be compared with the length of the buffer. -/
theorem fieldsInside_of_declaredSize_le {buffer : List UInt8} {blobLength : Nat}
    (h : declaredSize buffer + 4 ≤ buffer.length) : FieldsInside buffer blobLength := by
  by_cases hheader : HeaderRejected buffer blobLength
  · exact .inl hheader
  · have hdeclared : 12 ≤ declaredSize buffer :=
      Nat.not_lt.1 fun hlt => hheader (.inr (.inl hlt))
    refine .inr ⟨by omega, .inr (.inr (.inr (bitmapsInside_of_le ?_)))⟩
    rw [List.length_drop]
    omega

end DuckLakeDeletionVectorData

end DuckLake
