import DuckLake.Storage.Puffin
import DuckLake.Storage.DeletionVectorBounds

/-!
# What the reader of Puffin files looks at

Every offset into a Puffin file is checked before it is used: the footer is read within the file,
and the blobs that it lists lie within the file.
-/

namespace DuckLake

namespace DuckLakePuffin

open Reading DuckLakeDeletionVectorData

variable {file : List UInt8} {path : Text}

/-! ## The footer -/

theorem safe_isContainer : (isContainer file).Safe := by
  rw [isContainer]
  split
  next => exact safe_pure
  next h =>
    refine safe_bind.2 ⟨safe_loadAt.2 ⟨le_rfl, ?_⟩, fun _ _ => safe_pure⟩
    rw [puffinMinFileSize] at h
    omega

theorem isContainer_eq_ok {container : Bool} :
    isContainer file = .ok container ↔
      container = decide (20 ≤ file.length ∧ file.take 4 = puffinMagic) := by
  rw [isContainer]
  split
  next h =>
    rw [puffinMinFileSize] at h
    simp [pure, Except.pure, Nat.not_le.2 h, eq_comm]
  next h =>
    rw [puffinMinFileSize] at h
    rw [loadAt_bind_eq_ok]
    simp only [pure, Except.pure, Except.ok.injEq, Int.toNat_zero, List.drop_zero, Nat.not_lt.1 h,
      true_and, le_refl]
    exact ⟨fun h => h.2.symm, fun h => ⟨by omega, h.symm⟩⟩

theorem safe_isBareDeletionVector : (isBareDeletionVector file).Safe := by
  rw [isBareDeletionVector]
  split
  next => exact safe_pure
  next h => exact safe_bind.2 ⟨safe_loadAt.2 ⟨by omega, by omega⟩, fun _ _ => safe_pure⟩

/-- The size of the payload is compared with the size of the file before it is subtracted. -/
theorem safe_validateFooter (h : 20 ≤ file.length) : (validateFooter file path).Safe := by
  rw [validateFooter, safe_loadAt_bind, safe_reject_bind]
  refine ⟨by omega, fun _ => ?_⟩
  rw [safe_loadAt_bind, safe_reject_bind]
  refine ⟨by omega, fun _ => ?_⟩
  rw [safe_reject_bind]
  intro _
  rw [safe_loadAt_bind, safe_reject_bind, decide_eq_false_iff_not, puffinFooterTailSize,
    puffinMinFileSize]
  refine ⟨by omega, fun hsize => ?_⟩
  rw [safe_loadAt_bind, safe_reject_bind]
  exact ⟨by omega, fun _ => safe_pure⟩

theorem validateFooter_within {payloadStart : Int}
    (hok : validateFooter file path = .ok payloadStart) :
    8 ≤ payloadStart ∧ payloadStart + 12 ≤ file.length := by
  simp only [validateFooter, loadAt_bind_eq_ok, reject_bind_eq_ok, decide_eq_false_iff_not, pure,
    Except.pure, Except.ok.injEq] at hok
  simp only [puffinFooterTailSize, puffinMinFileSize] at hok
  omega

/-! ## The blobs -/

theorem safe_toSnapshotIndex {n : Nat} : (toSnapshotIndex n).Safe := by
  rw [toSnapshotIndex]
  split <;> simp

theorem safe_parseSnapshotProperty {value : Text} : (parseSnapshotProperty value path).Safe := by
  rw [parseSnapshotProperty, safe_reject_bind]
  exact fun _ => safe_toSnapshotIndex

theorem safe_parseSnapshot {blob : JsonValue} : (parseSnapshot blob path).Safe := by
  rw [parseSnapshot]
  split
  next => exact safe_bind.2 ⟨safe_parseSnapshotProperty, fun _ _ => safe_pure⟩
  next => exact safe_pure

theorem safe_parseBlobRange {rawOffset rawLength blobSectionEnd : Int} :
    (parseBlobRange rawOffset rawLength blobSectionEnd path).Safe := by
  simp only [parseBlobRange, safe_reject_bind, safe_pure, implies_true]

theorem parseBlobRange_within {rawOffset rawLength blobSectionEnd : Int} {range : Nat × Nat}
    (h : parseBlobRange rawOffset rawLength blobSectionEnd path = .ok range) :
    4 ≤ range.1 ∧ (range.1 + range.2 : Int) ≤ blobSectionEnd := by
  simp only [parseBlobRange, reject_bind_eq_ok, Bool.or_eq_false_iff, decide_eq_false_iff_not, pure,
    Except.pure, Except.ok.injEq] at h
  obtain ⟨⟨hoffset, hlength⟩, hrange, rfl⟩ := h
  omega

theorem safe_tryParseBlobMetadata {blobSectionEnd : Int} {blob : JsonValue} :
    (tryParseBlobMetadata blobSectionEnd path blob).Safe := by
  rw [tryParseBlobMetadata]
  split
  next => exact safe_exception
  next =>
    split
    next => exact safe_pure
    next =>
      split
      next =>
        refine safe_bind.2 ⟨safe_parseBlobRange, fun _ _ => ?_⟩
        exact safe_bind.2 ⟨safe_parseSnapshot, fun _ _ => safe_pure⟩
      next => exact safe_exception

theorem tryParseBlobMetadata_within {blobSectionEnd : Int} {blob : JsonValue} {parsed : PuffinBlob}
    (h : tryParseBlobMetadata blobSectionEnd path blob = .ok (some parsed)) :
    (parsed.offset + parsed.length : Int) ≤ blobSectionEnd := by
  rw [tryParseBlobMetadata] at h
  split at h
  next => cases h
  next =>
    split at h
    next => cases h
    next =>
      split at h
      next =>
        obtain ⟨range, hrange, h⟩ := bind_eq_ok.1 h
        obtain ⟨snapshotId, -, h⟩ := bind_eq_ok.1 h
        cases h
        exact (parseBlobRange_within hrange).2
      next => cases h

theorem safe_parseBlobs {blobSectionEnd : Int} {blobs : List JsonValue} :
    (parseBlobs blobSectionEnd path blobs).Safe := by
  induction blobs with
  | nil => exact safe_pure
  | cons blob blobs ih =>
    rw [parseBlobs]
    refine safe_bind.2 ⟨safe_tryParseBlobMetadata, fun _ _ => ?_⟩
    exact safe_bind.2 ⟨ih, fun _ _ => safe_pure⟩

/-- Every blob that is listed lies before the footer. -/
theorem parseBlobs_within {blobSectionEnd : Int} {blobs : List JsonValue} {parsed : List PuffinBlob}
    (h : parseBlobs blobSectionEnd path blobs = .ok parsed) {blob : PuffinBlob}
    (hblob : blob ∈ parsed) : (blob.offset + blob.length : Int) ≤ blobSectionEnd := by
  induction blobs generalizing parsed with
  | nil =>
    cases h
    cases hblob
  | cons document documents ih =>
    rw [parseBlobs] at h
    obtain ⟨first, hfirst, h⟩ := bind_eq_ok.1 h
    obtain ⟨rest, hrest, h⟩ := bind_eq_ok.1 h
    cases h
    rcases List.mem_append.1 hblob with hmem | hmem
    · obtain rfl := Option.mem_toList.1 hmem
      exact tryParseBlobMetadata_within hfirst
    · exact ih hrest hmem

/-! ## The file -/

variable [JsonLibrary]

theorem safe_parseFileMetadata {payload : List UInt8} {blobSectionEnd : Int} :
    (parseFileMetadata payload blobSectionEnd path).Safe := by
  rw [parseFileMetadata]
  split
  next => exact safe_exception
  next =>
    split
    next => exact safe_parseBlobs
    next => exact safe_exception

theorem parseFileMetadata_within {payload : List UInt8} {blobSectionEnd : Int}
    {parsed : List PuffinBlob} (h : parseFileMetadata payload blobSectionEnd path = .ok parsed)
    {blob : PuffinBlob} (hblob : blob ∈ parsed) :
    (blob.offset + blob.length : Int) ≤ blobSectionEnd := by
  rw [parseFileMetadata] at h
  split at h
  next => cases h
  next =>
    split at h
    next => exact parseBlobs_within h hblob
    next => cases h

theorem safe_parseContainer (h : 20 ≤ file.length) : (parseContainer file path).Safe := by
  refine safe_bind.2 ⟨safe_validateFooter h, fun payloadStart hstart => ?_⟩
  obtain ⟨hlower, hupper⟩ := validateFooter_within hstart
  rw [safe_loadAt_bind, puffinFooterTailSize]
  exact ⟨by omega, safe_parseFileMetadata⟩

omit [JsonLibrary] in
theorem safe_parseBare : (parseBare file path).Safe := by
  refine safe_bind.2 ⟨safe_isBareDeletionVector, fun _ _ => ?_⟩
  rw [safe_reject_bind]
  exact fun _ => safe_pure

/-- The footer of a file is read within the file, whatever the file holds. -/
theorem safe_parseFooter : (parseFooter file path).Safe := by
  refine safe_bind.2 ⟨safe_isContainer, fun container hcontainer => ?_⟩
  split
  next h =>
    rw [isContainer_eq_ok.1 hcontainer, decide_eq_true_eq] at h
    exact safe_parseContainer h.1
  next => exact safe_parseBare

/-- The blobs of a file lie within the file. -/
theorem parseFooter_within {blobs : List PuffinBlob} (h : parseFooter file path = .ok blobs)
    {blob : PuffinBlob} (hblob : blob ∈ blobs) : blob.offset + blob.length ≤ file.length := by
  obtain ⟨container, -, h⟩ := bind_eq_ok.1 h
  split at h
  next =>
    obtain ⟨payloadStart, hstart, h⟩ := bind_eq_ok.1 h
    have hbounds := validateFooter_within hstart
    have hwithin := parseFileMetadata_within (loadAt_bind_eq_ok.1 h).2 hblob
    omega
  next =>
    obtain ⟨bare, -, h⟩ := bind_eq_ok.1 h
    obtain ⟨-, h⟩ := reject_bind_eq_ok.1 h
    cases h
    rw [List.mem_singleton.1 hblob]
    exact (Nat.zero_add _).le

/-- A blob that a file lists is decoded within the file exactly when its fields lie within it. -/
theorem safe_decodeBlob [RoaringLibrary] {blobs : List PuffinBlob}
    (h : parseFooter file path = .ok blobs) {blob : PuffinBlob} (hblob : blob ∈ blobs) :
    (decodeBlob file blob).Safe ↔ FieldsInside (file.drop blob.offset) blob.length := by
  have hwithin := parseFooter_within h hblob
  apply safe_fromBlob
  rw [List.length_drop]
  omega

end DuckLakePuffin

end DuckLake
