import DuckLake.Storage.PuffinBounds
import DuckLake.Storage.DeletionVectorRoundTrip

/-!
# Puffin files are read back

A container is read back as the deletion vectors it was written from when its lengths fit into the
fields it has for them. A single deletion vector is read back unless its declared length is taken
for the magic of a container.
-/

namespace DuckLake

/-- What is printed of a number is read as the number. -/
theorem strtoull_ofNat {n : Nat} (h : n < 2 ^ 64) : strtoull (Text.ofNat n) = (n, []) := by
  have hdigit : ∀ c ∈ Text.ofNat n, c.isDigit = true := fun c hc => Text.isDigit_of_mem_ofNat hc
  obtain ⟨c, cs, hcs⟩ := List.exists_cons_of_ne_nil (Text.ofNat_ne_nil n)
  have hc : c.isDigit = true := hdigit c (hcs ▸ List.mem_cons_self)
  have hspace : (Text.ofNat n).dropWhile (fun c => c ∈ [' ', '\t', '\n', '\x0b', '\x0c', '\r']) =
      Text.ofNat n := by
    rw [hcs, List.dropWhile_cons_of_neg]
    intro hmem
    simp only [List.mem_cons, List.not_mem_nil, or_false, decide_eq_true_eq] at hmem
    rcases hmem with rfl | rfl | rfl | rfl | rfl | rfl <;> exact absurd hc (by decide)
  have hminus : (Text.ofNat n).head? ≠ some '-' := by
    rw [hcs]
    rintro ⟨⟩
    exact absurd hc (by decide)
  have hplus : (Text.ofNat n).head? ≠ some '+' := by
    rw [hcs]
    rintro ⟨⟩
    exact absurd hc (by decide)
  have hvalue : Nat.ofDigitChars 10 (Text.ofNat n) 0 = n := Nat.ofDigitChars_ten_toDigits
  simp only [strtoull, hspace, hminus, hplus, or_self, if_false, List.takeWhile_eq_self_iff.2 hdigit,
    List.dropWhile_eq_nil_iff.2 hdigit, hvalue, Text.ofNat_ne_nil, Nat.not_le.2 h]

theorem JsonInt.getSint_ofNat {n : Nat} (h : n < 2 ^ 63) : (JsonInt.ofNat n).getSint = n := by
  have hmod : n % 2 ^ 64 = n := Nat.mod_eq_of_lt (by omega)
  rw [JsonInt.getSint, JsonInt.ofNat]
  simp only [hmod]
  rw [if_pos (by omega)]

namespace DuckLakePuffin

open Reading DuckLakeDeletionVectorData

variable {path dataFilePath : Text}

/-! ## The metadata of a blob -/

theorem toSnapshotIndex_val {snapshotId : SnapshotIndex} :
    toSnapshotIndex snapshotId.1 = .ok snapshotId := by
  rw [toSnapshotIndex, dif_pos snapshotId.2]

theorem parseSnapshotProperty_write {snapshotId : SnapshotIndex} :
    parseSnapshotProperty (Text.ofNat snapshotId.1) path = .ok snapshotId := by
  have hlt : snapshotId.1 < 2 ^ 64 := snapshotId.2.trans_le (Nat.sub_le _ _)
  rw [parseSnapshotProperty, strtoull_ofNat hlt, reject_bind_eq_ok]
  exact ⟨by simp [Text.ofNat_ne_nil], toSnapshotIndex_val⟩

section Metadata

variable {input : BlobInput} {info : PuffinBlob}

theorem get?_type : (blobMetadata dataFilePath input info).get? "type" =
    some (.str deletionVectorBlobType) := rfl

theorem get?_offset : (blobMetadata dataFilePath input info).get? "offset" =
    some (.int (JsonInt.ofNat info.offset)) := by
  simp [blobMetadata, JsonValue.get?, List.lookup_cons]

theorem get?_length : (blobMetadata dataFilePath input info).get? "length" =
    some (.int (JsonInt.ofNat info.length)) := by
  simp [blobMetadata, JsonValue.get?, List.lookup_cons]

theorem get?_properties : (blobMetadata dataFilePath input info).get? "properties" =
    some (.obj (blobProperties dataFilePath input)) := by
  simp [blobMetadata, JsonValue.get?, List.lookup_cons]

theorem getStr_lookup_snapshotProperty (snapshotId : Option SnapshotIndex) :
    getStr ((snapshotProperty snapshotId).lookup ducklakeSnapshotProperty) =
      snapshotId.map fun n => Text.ofNat n.1 := by
  cases snapshotId with
  | none => rfl
  | some snapshotId =>
    rw [snapshotProperty, List.lookup_cons_self]
    rfl

theorem getStr_get?_blobProperties :
    getStr ((some (JsonValue.obj (blobProperties dataFilePath input))).bind
      (JsonValue.get? ducklakeSnapshotProperty)) = input.snapshotId.map fun n => Text.ofNat n.1 := by
  rw [← getStr_lookup_snapshotProperty, Option.bind_some, JsonValue.get?, blobProperties,
    List.cons_append, List.cons_append, List.nil_append]
  simp only [List.lookup_cons]
  rfl

theorem parseSnapshot_write :
    parseSnapshot (blobMetadata dataFilePath input info) path = .ok input.snapshotId := by
  rw [parseSnapshot, get?_properties, getStr_get?_blobProperties]
  cases input.snapshotId with
  | none => rfl
  | some snapshotId =>
    simp only [Option.map_some, parseSnapshotProperty_write]
    rfl

theorem parseBlobRange_write {offset length : Nat} {blobSectionEnd : Int} (hoffset : 4 ≤ offset)
    (hend : (offset + length : Int) ≤ blobSectionEnd) :
    parseBlobRange offset length blobSectionEnd path = .ok (offset, length) := by
  simp only [parseBlobRange, reject_bind_eq_ok, Bool.or_eq_false_iff, decide_eq_false_iff_not]
  exact ⟨⟨by omega, by omega⟩, ⟨⟨by omega, by omega⟩, by omega⟩, rfl⟩

/-- The metadata that is written of a blob is read back, when the blob lies where it says. -/
theorem tryParseBlobMetadata_write {blobSectionEnd : Nat} (hid : info.snapshotId = input.snapshotId)
    (hoffset : 4 ≤ info.offset) (hend : info.offset + info.length ≤ blobSectionEnd)
    (hsize : blobSectionEnd < 2 ^ 63) :
    tryParseBlobMetadata blobSectionEnd path (blobMetadata dataFilePath input info) =
      .ok (some info) := by
  have hrange : parseBlobRange info.offset info.length blobSectionEnd path =
      .ok (info.offset, info.length) := parseBlobRange_write hoffset (by omega)
  rw [tryParseBlobMetadata, get?_type, get?_offset, get?_length]
  simp only [getStr, getInt, ne_eq, not_true_eq_false, if_false,
    JsonInt.getSint_ofNat (show info.offset < 2 ^ 63 by omega),
    JsonInt.getSint_ofNat (show info.length < 2 ^ 63 by omega), hrange, parseSnapshot_write,
    bind, Except.bind, ← hid]
  rfl

end Metadata

/-! ## The container -/

section Container

variable [RoaringLibrary]

/-- A blob lies in the file where its metadata says. -/
structure WrittenAt (file : List UInt8) (input : BlobInput) (info : PuffinBlob) : Prop where
  snapshotId : info.snapshotId = input.snapshotId
  offset : 4 ≤ info.offset
  within : info.offset + info.length ≤ file.length
  length : info.length = (toBlob input.positions).length
  data : ∃ after, file.drop info.offset = toBlob input.positions ++ after

theorem WrittenAt.append {file after : List UInt8} {input : BlobInput} {info : PuffinBlob}
    (h : WrittenAt file input info) : WrittenAt (file ++ after) input info where
  snapshotId := h.snapshotId
  offset := h.offset
  within := by
    rw [List.length_append]
    exact h.within.trans (Nat.le_add_right _ _)
  length := h.length
  data := by
    obtain ⟨rest, hrest⟩ := h.data
    refine ⟨rest ++ after, ?_⟩
    rw [List.drop_append_of_le_length (by have := h.within; omega), hrest, List.append_assoc]

theorem appendBlobs_fst {fileData : List UInt8} {blobs : List BlobInput} :
    (appendBlobs fileData blobs).1 = fileData ++ blobs.flatMap fun b => toBlob b.positions := by
  induction blobs generalizing fileData with
  | nil => rw [appendBlobs, List.flatMap_nil, List.append_nil]
  | cons blob blobs ih => rw [appendBlobs, ih, List.flatMap_cons, List.append_assoc]

theorem appendBlobs_writtenAt {fileData : List UInt8} {blobs : List BlobInput}
    (h : 4 ≤ fileData.length) :
    List.Forall₂ (WrittenAt (appendBlobs fileData blobs).1) blobs
      (appendBlobs fileData blobs).2 := by
  induction blobs generalizing fileData with
  | nil => exact .nil
  | cons blob blobs ih =>
    have hblob : WrittenAt (fileData ++ toBlob blob.positions) blob
        ⟨blob.snapshotId, fileData.length, (toBlob blob.positions).length⟩ :=
      ⟨rfl, h, List.length_append.ge, rfl, [], by rw [List.drop_left' rfl, List.append_nil]⟩
    have hlength : 4 ≤ (fileData ++ toBlob blob.positions).length := by
      rw [List.length_append]
      omega
    refine .cons ?_ (ih hlength)
    rw [appendBlobs_fst, List.flatMap_cons, ← List.append_assoc]
    exact hblob.append

/-- The list of blobs is read back. -/
theorem parseBlobs_write {file : List UInt8} {blobs : List BlobInput} {infos : List PuffinBlob}
    (h : List.Forall₂ (WrittenAt file) blobs infos) (hsize : file.length < 2 ^ 63) :
    parseBlobs file.length path (List.zipWith (blobMetadata dataFilePath) blobs infos) =
      .ok infos := by
  induction h with
  | nil => rfl
  | cons hwritten _ ih =>
    rw [List.zipWith_cons_cons, parseBlobs, ih,
      tryParseBlobMetadata_write hwritten.snapshotId hwritten.offset hwritten.within hsize]
    rfl

theorem decodeBlobs_write {file : List UInt8} {blobs : List BlobInput} {infos : List PuffinBlob}
    (h : List.Forall₂ (WrittenAt file) blobs infos) :
    decodeBlobs file infos = .ok (blobs.map (·.positions)) ↔
      ∀ blob ∈ blobs, (vector blob.positions).length < 2 ^ 32 := by
  induction h with
  | nil => simp [decodeBlobs, pure, Except.pure]
  | @cons input info inputs infos hwritten _ ih =>
    obtain ⟨after, hafter⟩ := hwritten.data
    have hround : (∃ bs, decodeBlob file info = .ok bs ∧ toSet bs = input.positions) ↔
        (vector input.positions).length < 2 ^ 32 := by
      rw [decodeBlob, hafter, hwritten.length]
      exact roundTrip_iff
    rw [List.forall_mem_cons, ← ih, ← hround, List.map_cons, decodeBlobs]
    simp only [bind_eq_ok, pure, Except.pure, Except.ok.injEq, List.cons.injEq]
    constructor
    · rintro ⟨bs, hbs, rest, hrest, hset, rfl⟩
      exact ⟨⟨bs, hbs, hset⟩, hrest⟩
    · rintro ⟨⟨bs, hbs, hset⟩, hrest⟩
      exact ⟨bs, hbs, _, hrest, hset, rfl⟩

end Container

/-- The parts of a file with a footer. -/
def withFooter (body payload : List UInt8) : List UInt8 :=
  body ++ (puffinMagic ++ (payload ++ (Bytes.toLittleEndian 4 payload.length ++
    (Bytes.toLittleEndian 4 0 ++ puffinMagic))))

theorem length_withFooter {body payload : List UInt8} :
    (withFooter body payload).length = body.length + payload.length + 16 := by
  simp [withFooter, puffinMagic]
  omega

theorem footer_eq_ok {payload tail : List UInt8} :
    footer payload = .ok tail ↔ payload.length < 2 ^ 32 ∧ ∀ body,
      body ++ tail = withFooter body payload := by
  rw [footer]
  split
  next h => exact ⟨nofun, fun hlt => absurd hlt.1 (Nat.not_lt.2 h)⟩
  next h =>
    simp only [Except.ok.injEq, Nat.not_le.1 h, true_and, withFooter, List.append_assoc]
    exact ⟨fun h body => h ▸ rfl, fun h => (h []).symm⟩

section Footer

variable {body payload : List UInt8}

theorem load_trailing : loadAt ((withFooter body payload).length - 4) 4 (withFooter body payload) =
    (.ok puffinMagic : BlobReading _) := by
  have hparts : withFooter body payload = (body ++ puffinMagic ++ payload ++
      Bytes.toLittleEndian 4 payload.length ++ Bytes.toLittleEndian 4 0) ++
        (puffinMagic ++ []) := by simp [withFooter]
  rw [length_withFooter, hparts]
  refine loadAt_append ?_ rfl
  simp [puffinMagic]
  omega

theorem load_flags : loadAt ((withFooter body payload).length - 8) 4 (withFooter body payload) =
    (.ok (Bytes.toLittleEndian 4 0) : BlobReading _) := by
  have hparts : withFooter body payload = (body ++ puffinMagic ++ payload ++
      Bytes.toLittleEndian 4 payload.length) ++ (Bytes.toLittleEndian 4 0 ++ puffinMagic) := by
    simp [withFooter]
  rw [length_withFooter, hparts]
  refine loadAt_append ?_ rfl
  simp [puffinMagic]
  omega

theorem load_payloadSize :
    loadAt ((withFooter body payload).length - puffinFooterTailSize) 4 (withFooter body payload) =
      (.ok (Bytes.toLittleEndian 4 payload.length) : BlobReading _) := by
  have hparts : withFooter body payload = (body ++ puffinMagic ++ payload) ++
      (Bytes.toLittleEndian 4 payload.length ++ (Bytes.toLittleEndian 4 0 ++ puffinMagic)) := by
    simp [withFooter]
  rw [length_withFooter, hparts]
  refine loadAt_append ?_ (Bytes.length_toLittleEndian 4 _)
  simp [puffinMagic, puffinFooterTailSize]
  omega

/-- The footer is found where it was written. -/
theorem validateFooter_write (hbody : 4 ≤ body.length) (hpayload : payload.length < 2 ^ 32) :
    validateFooter (withFooter body payload) path = .ok ((body.length : Int) + 4) := by
  have hsize : (withFooter body payload).length = body.length + payload.length + 16 :=
    length_withFooter
  have hleading : loadAt (body.length : Int) 4 (withFooter body payload) =
      (.ok puffinMagic : BlobReading _) := loadAt_append rfl rfl
  have hvalue : Bytes.ofLittleEndian (Bytes.toLittleEndian 4 payload.length) = payload.length := by
    rw [Bytes.ofLittleEndian_toLittleEndian]
    exact Nat.mod_eq_of_lt hpayload
  have hzero : Bytes.ofLittleEndian (Bytes.toLittleEndian 4 0) = 0 := by decide
  have hstart : ((withFooter body payload).length : Int) - puffinFooterTailSize -
      (payload.length : Nat) = body.length + 4 := by
    rw [hsize, puffinFooterTailSize]
    omega
  have hfits : ¬ ((payload.length : Int) > (withFooter body payload).length -
      puffinMinFileSize) := by
    rw [hsize, puffinMinFileSize]
    omega
  simp only [validateFooter, load_trailing, load_flags, load_payloadSize, hvalue, hzero, hstart,
    decide_eq_false hfits, add_sub_cancel_right, hleading, bind, Except.bind, reject]
  rfl

end Footer

/-! ## Writing and reading a file -/

variable [RoaringLibrary] [JsonLibrary]

/-- The file that a container is written to. -/
def containerFile (dataFilePath : Text) (blobs : List BlobInput) : List UInt8 :=
  withFooter (appendBlobs puffinMagic blobs).1
    (footerPayload dataFilePath blobs (appendBlobs puffinMagic blobs).2)

/-- The lengths fit into the fields that the container has for them. -/
structure ContainerFits (dataFilePath : Text) (blobs : List BlobInput) : Prop where
  payload : (footerPayload dataFilePath blobs (appendBlobs puffinMagic blobs).2).length < 2 ^ 32
  file : (containerFile dataFilePath blobs).length < 2 ^ 63
  vectors : ∀ blob ∈ blobs, (vector blob.positions).length < 2 ^ 32

theorem parseFileMetadata_write {blobs : List BlobInput} {infos : List PuffinBlob}
    {body : List UInt8} (h : List.Forall₂ (WrittenAt body) blobs infos)
    (hsize : body.length < 2 ^ 63) :
    parseFileMetadata (footerPayload dataFilePath blobs infos) body.length path = .ok infos := by
  rw [parseFileMetadata, footerPayload, JsonLibrary.read_write]
  exact parseBlobs_write h hsize

omit [JsonLibrary] in
theorem four_le_length_body {blobs : List BlobInput} :
    4 ≤ (appendBlobs puffinMagic blobs).1.length := by
  rw [appendBlobs_fst, List.length_append]
  exact Nat.le_add_right 4 _

theorem isContainer_containerFile {blobs : List BlobInput} :
    isContainer (containerFile dataFilePath blobs) = .ok true := by
  refine isContainer_eq_ok.2 (decide_eq_true ⟨?_, ?_⟩).symm
  · rw [containerFile, length_withFooter]
    have hbody : 4 ≤ (appendBlobs puffinMagic blobs).1.length := four_le_length_body
    omega
  · rw [containerFile, withFooter, List.take_append_of_le_length four_le_length_body,
      appendBlobs_fst]
    rfl

omit [RoaringLibrary] in
theorem parseContainer_write {body payload : List UInt8} (hbody : 4 ≤ body.length)
    (hpayload : payload.length < 2 ^ 32) :
    parseContainer (withFooter body payload) path =
      parseFileMetadata payload body.length path := by
  have hparts : withFooter body payload = (body ++ puffinMagic) ++ (payload ++
      (Bytes.toLittleEndian 4 payload.length ++ (Bytes.toLittleEndian 4 0 ++ puffinMagic))) := by
    simp [withFooter]
  have hsize : (((withFooter body payload).length : Int) - puffinFooterTailSize -
      (body.length + 4)).toNat = payload.length := by
    rw [length_withFooter, puffinFooterTailSize]
    omega
  have hload : (loadAt ((body.length : Int) + 4) payload.length (withFooter body payload) :
      BlobReading _) = .ok payload := by
    rw [hparts]
    exact loadAt_append (by simp [puffinMagic]) rfl
  rw [parseContainer, validateFooter_write hbody hpayload]
  simp only [bind, Except.bind, hsize, hload, add_sub_cancel_right]

/-- The footer of a container lists the blobs that were written. -/
theorem parseFooter_write {blobs : List BlobInput}
    (hpayload : (footerPayload dataFilePath blobs (appendBlobs puffinMagic blobs).2).length <
      2 ^ 32)
    (hfile : (containerFile dataFilePath blobs).length < 2 ^ 63) :
    parseFooter (containerFile dataFilePath blobs) path =
      .ok (appendBlobs puffinMagic blobs).2 := by
  have hmagic : 4 ≤ puffinMagic.length := le_rfl
  rw [parseFooter, isContainer_containerFile]
  rw [containerFile, length_withFooter] at hfile
  simp only [bind, Except.bind, if_true]
  rw [containerFile, parseContainer_write four_le_length_body hpayload]
  exact parseFileMetadata_write (appendBlobs_writtenAt hmagic) (by omega)

/-- The property: the file is written, and read back as the sets it was written from. -/
def RoundTrips (dataFilePath path : Text) (blobs : List BlobInput) : Prop :=
  ∃ result, write dataFilePath blobs = .ok result ∧
    readFile result.fileData path = .ok (blobs.map (·.positions))

theorem write_eq_writeContainer {blobs : List BlobInput} (h : blobs.length ≠ 1) :
    write dataFilePath blobs = writeContainer dataFilePath blobs >>= fun result =>
      if 2 ^ 63 ≤ result.fileData.length then .error ⟨.internal, "vector::_M_range_insert"⟩
      else pure result :=
  match blobs with
  | [] => rfl
  | [_] => absurd rfl h
  | _ :: _ :: _ => rfl

/-- A container is written when its payload and the file are not too long. -/
theorem exists_write_container {blobs : List BlobInput} (h : blobs.length ≠ 1)
    {p : List UInt8 → Prop} :
    (∃ result, write dataFilePath blobs = .ok result ∧ p result.fileData) ↔
      (footerPayload dataFilePath blobs (appendBlobs puffinMagic blobs).2).length < 2 ^ 32 ∧
        (containerFile dataFilePath blobs).length < 2 ^ 63 ∧
          p (containerFile dataFilePath blobs) := by
  rw [write_eq_writeContainer h, writeContainer]
  simp only
  cases hfooter : footer (footerPayload dataFilePath blobs (appendBlobs puffinMagic blobs).2) with
  | error e =>
    have hlarge : ¬ (footerPayload dataFilePath blobs (appendBlobs puffinMagic blobs).2).length <
        2 ^ 32 := fun hlt => by
      rw [footer, if_neg (Nat.not_le.2 hlt)] at hfooter
      cases hfooter
    exact ⟨fun ⟨_, hwrite, _⟩ => (nomatch hwrite), fun hfits => absurd hfits.1 hlarge⟩
  | ok tail =>
    obtain ⟨hpayload, htail⟩ := footer_eq_ok.1 hfooter
    simp only [bind, Except.bind, pure, Except.pure, htail, hpayload, true_and]
    rw [show withFooter (appendBlobs puffinMagic blobs).1 (footerPayload dataFilePath blobs
      (appendBlobs puffinMagic blobs).2) = containerFile dataFilePath blobs from rfl]
    by_cases hfile : 2 ^ 63 ≤ (containerFile dataFilePath blobs).length
    · rw [if_pos hfile]
      exact ⟨fun ⟨_, hwrite, _⟩ => (nomatch hwrite),
        fun hfits => absurd hfits.1 (Nat.not_lt.2 hfile)⟩
    · rw [if_neg hfile]
      constructor
      · rintro ⟨result, hresult, hp⟩
        cases hresult
        exact ⟨Nat.not_le.1 hfile, hp⟩
      · rintro ⟨-, hp⟩
        exact ⟨_, rfl, hp⟩

/-- A container is read back as it was written exactly when everything fits. -/
theorem roundTrips_container {blobs : List BlobInput} (h : blobs.length ≠ 1) :
    RoundTrips dataFilePath path blobs ↔ ContainerFits dataFilePath blobs := by
  have hmagic : 4 ≤ puffinMagic.length := le_rfl
  have hwritten : List.Forall₂ (WrittenAt (containerFile dataFilePath blobs)) blobs
      (appendBlobs puffinMagic blobs).2 :=
    (appendBlobs_writtenAt hmagic).imp fun _ _ h => h.append
  refine (exists_write_container (p := fun file =>
    readFile file path = .ok (blobs.map (·.positions))) h).trans ?_
  constructor
  · rintro ⟨hpayload, hfile, hread⟩
    rw [readFile, parseFooter_write hpayload hfile] at hread
    exact ⟨hpayload, hfile, (decodeBlobs_write hwritten).1 hread⟩
  · rintro ⟨hpayload, hfile, hvectors⟩
    refine ⟨hpayload, hfile, ?_⟩
    rw [readFile, parseFooter_write hpayload hfile]
    exact (decodeBlobs_write hwritten).2 hvectors

/-! ## A single deletion vector -/

section Single

variable {positions : Finset UInt64}

omit [JsonLibrary] in
theorem isContainer_toBlob : isContainer (toBlob positions) =
    .ok (decide ((toBlob positions).take 4 = puffinMagic)) := by
  have hlength : 20 ≤ (toBlob positions).length := by
    rw [length_toBlob, length_vector]
    omega
  refine isContainer_eq_ok.2 (decide_eq_decide.2 ?_)
  exact ⟨fun h => ⟨hlength, h⟩, fun h => h.2⟩

omit [JsonLibrary] in
theorem parseBare_toBlob :
    parseBare (toBlob positions) path = .ok [⟨none, 0, (toBlob positions).length⟩] := by
  have hlength : ¬ (toBlob positions).length < 8 := by
    rw [length_toBlob]
    omega
  have hmagic : (loadAt 4 4 (toBlob positions) : BlobReading _) = .ok deletionVectorMagic := by
    rw [← List.append_nil (toBlob positions), toBlob_append]
    exact loadAt_append (by simp) rfl
  rw [parseBare, isBareDeletionVector, if_neg hlength, hmagic]
  rfl

/-- A bare blob that is taken for a container has no trailing magic. -/
theorem parseContainer_toBlob (h : checksum (vector positions) ≠ puffinMagic) :
    ∃ e, parseContainer (toBlob positions) path = .error (.exception e) := by
  have hparts : toBlob positions = (Bytes.toBigEndian 4 (vector positions).length ++
      vector positions) ++ (checksum (vector positions) ++ []) := by
    simp [toBlob]
  have hload : (loadAt ((toBlob positions).length - 4) 4 (toBlob positions) : BlobReading _) =
      .ok (checksum (vector positions)) := by
    rw [length_toBlob, hparts]
    refine loadAt_append ?_ (Bytes.length_toBigEndian 4 _)
    rw [List.length_append, Bytes.length_toBigEndian]
    omega
  simp only [parseContainer, validateFooter, hload, reject, ne_eq, h, not_false_eq_true,
    decide_true, if_true, bind, Except.bind]
  exact ⟨_, rfl⟩

theorem readFile_toBlob (h : (toBlob positions).take 4 ≠ puffinMagic) :
    readFile (toBlob positions) path = .ok [positions] ↔
      (vector positions).length < 2 ^ 32 := by
  have hround : (∃ bs, fromBlob (toBlob positions ++ []) (toBlob positions).length = .ok bs ∧
      toSet bs = positions) ↔ (vector positions).length < 2 ^ 32 := roundTrip_iff
  rw [List.append_nil] at hround
  rw [← hround, readFile, parseFooter, isContainer_toBlob, decide_eq_false h]
  simp only [bind_eq_ok, pure, Except.pure, Except.ok.injEq, exists_eq_left', parseBare_toBlob,
    decodeBlobs, decodeBlob, List.drop_zero, List.cons.injEq, and_true, Bool.false_eq_true, if_false]

theorem exists_write_single {snapshotId : Option SnapshotIndex} {p : List UInt8 → Prop} :
    (∃ result, write dataFilePath [⟨snapshotId, positions⟩] = .ok result ∧ p result.fileData) ↔
      (toBlob positions).length < 2 ^ 63 ∧ p (toBlob positions) := by
  simp only [write, bind, Except.bind, pure, Except.pure]
  by_cases hfile : 2 ^ 63 ≤ (toBlob positions).length
  · rw [if_pos hfile]
    exact ⟨fun ⟨_, hwrite, _⟩ => (nomatch hwrite),
      fun hfits => absurd hfits.1 (Nat.not_lt.2 hfile)⟩
  · rw [if_neg hfile]
    constructor
    · rintro ⟨result, hresult, hp⟩
      cases hresult
      exact ⟨Nat.not_le.1 hfile, hp⟩
    · rintro ⟨-, hp⟩
      exact ⟨_, rfl, hp⟩

/-- A single deletion vector is read back when it does not look like a container and its length
fits into 32 bits. -/
theorem roundTrips_single (h : (toBlob positions).take 4 ≠ puffinMagic)
    (hlength : (vector positions).length < 2 ^ 32) (snapshotId : Option SnapshotIndex) :
    RoundTrips dataFilePath path [⟨snapshotId, positions⟩] := by
  refine (exists_write_single (p := fun file => readFile file path = .ok [positions])).2
    ⟨?_, (readFile_toBlob h).2 hlength⟩
  rw [length_toBlob]
  omega

/-- Otherwise it is not, unless its checksum is the magic of a container as well. -/
theorem fits_of_roundTrips_single (hchecksum : checksum (vector positions) ≠ puffinMagic)
    {snapshotId : Option SnapshotIndex}
    (h : RoundTrips dataFilePath path [⟨snapshotId, positions⟩]) :
    (toBlob positions).take 4 ≠ puffinMagic ∧ (vector positions).length < 2 ^ 32 := by
  have hread : readFile (toBlob positions) path = .ok [positions] :=
    ((exists_write_single (p := fun file => readFile file path = .ok [positions])).1 h).2
  by_cases hmagic : (toBlob positions).take 4 = puffinMagic
  · obtain ⟨e, he⟩ : ∃ e, parseContainer (toBlob positions) path = .error (.exception e) :=
      parseContainer_toBlob hchecksum
    rw [readFile, parseFooter, isContainer_toBlob, decide_eq_true hmagic] at hread
    simp only [bind, Except.bind, if_true, he] at hread
    cases hread
  · exact ⟨hmagic, (readFile_toBlob hmagic).1 hread⟩

end Single

/-- Deletion vectors are read back, as blobs and as files, exactly when the lengths fit into the
fields that hold them and a bare blob does not look like a container. Files are read within their
bounds, and blobs exactly when their fields lie within them. -/
theorem deletionVectors_iff :
    (∀ positions : Finset UInt64, (∃ bitmaps, fromBlob (toBlob positions)
        (toBlob positions).length = .ok bitmaps ∧ toSet bitmaps = positions) ↔
      (vector positions).length < 2 ^ 32) ∧
    (∀ dataFilePath path blobs, blobs.length ≠ 1 →
      (RoundTrips dataFilePath path blobs ↔ ContainerFits dataFilePath blobs)) ∧
    (∀ dataFilePath path snapshotId, ∀ positions : Finset UInt64,
      ((toBlob positions).take 4 ≠ puffinMagic ∧ (vector positions).length < 2 ^ 32 →
        RoundTrips dataFilePath path [⟨snapshotId, positions⟩]) ∧
      (checksum (vector positions) ≠ puffinMagic →
        RoundTrips dataFilePath path [⟨snapshotId, positions⟩] →
          (toBlob positions).take 4 ≠ puffinMagic ∧ (vector positions).length < 2 ^ 32)) ∧
    (∀ blob : List UInt8, (fromBlob blob blob.length).Safe ↔ FieldsInside blob blob.length) ∧
    ∀ file path, (parseFooter file path).Safe ∧ ∀ blobs, parseFooter file path = .ok blobs →
      ∀ blob ∈ blobs, blob.offset + blob.length ≤ file.length ∧
        ((decodeBlob file blob).Safe ↔ FieldsInside (file.drop blob.offset) blob.length) := by
  refine ⟨fun positions => ?_, fun _ _ _ h => roundTrips_container h,
    fun _ _ snapshotId _ => ⟨fun h => roundTrips_single h.1 h.2 snapshotId,
      fun hchecksum h => fits_of_roundTrips_single hchecksum h⟩,
    fun _ => safe_fromBlob le_rfl, fun _ _ => ⟨safe_parseFooter, fun _ h _ hblob =>
      ⟨parseFooter_within h hblob, safe_decodeBlob h hblob⟩⟩⟩
  have hround : (∃ bs, fromBlob (toBlob positions ++ []) (toBlob positions).length = .ok bs ∧
      toSet bs = positions) ↔ (vector positions).length < 2 ^ 32 := roundTrip_iff
  rwa [List.append_nil] at hround

end DuckLakePuffin

end DuckLake
