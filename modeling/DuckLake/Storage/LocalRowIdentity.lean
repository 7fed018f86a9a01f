import DuckLake.Storage.LocalInlinedData

/-!
# Identity of transaction-local rows

A row of the inlined data of a transaction is either new or the new version of a committed row,
whose row id it has. `TrackedTable` keeps along which committed row each row is a version of, and
`KeepsIdentity` says that the row ids agree with it.
-/

namespace DuckLake

/-! ## Scanned and written row ids -/

namespace DuckLakeInlinedData

variable {data : DuckLakeInlinedData}

/-- Every row with the row id that a scan returns for it and the one that it has or gets. -/
def scannedRows (data : DuckLakeInlinedData) : List (Nat × Text × Int) :=
  (List.range data.rows.length).map fun position =>
    (data.getRowId position, data.rows.getD position [], data.getOutputRowId position)

/-- Exactly the rows with a deleted row id are gone, the others keep values and row ids. -/
theorem zip_deleteRows (newDeletes : OrdSet Nat) :
    (data.deleteRows newDeletes).rows.zip (data.deleteRows newDeletes).outputRowIds =
      (data.scannedRows.filter (·.1 ∉ newDeletes)).map (·.2) := by
  rw [outputRowIds_deleteRows, scannedRows, List.filter_map, List.map_map]
  exact List.zip_map'

theorem getOutputRowId_mem {position : Nat} (h : position < data.rows.length) :
    data.getOutputRowId position ∈ data.outputRowIds :=
  List.mem_map_of_mem (List.mem_range.2 h)

theorem columnRowId_eq (hcomplete : data.Complete) (hnonneg : ∀ id ∈ data.outputRowIds, 0 ≤ id)
    {position : Nat} (h : position < data.rows.length) :
    data.columnRowId position = data.getRowId position := by
  unfold columnRowId getRowId
  split
  · next hpreserved =>
    have hne : data.rowIds ≠ [] := by simpa [hasPreservedRowIds] using hpreserved
    rw [outputRowIds_of_preserved hcomplete hne] at hnonneg
    have hlt : position < data.rowIds.length := by
      rwa [hcomplete.resolve_left hne]
    have hmem : data.rowIds.getD position 0 ∈ data.rowIds := by
      rw [List.getD_eq_getElem?_getD, List.getElem?_eq_getElem hlt]
      exact List.getElem_mem hlt
    exact (Int.toNat_of_nonneg (hnonneg _ hmem)).symm
  · rfl

theorem getRowId_of_preserved (h : data.rowIds ≠ []) (position : Nat) :
    data.getRowId position = (data.getOutputRowId position).toNat := by
  simp [getRowId, getOutputRowId, hasPreservedRowIds, h]

/-- The scanned row ids are distinct exactly if the written ones are. -/
theorem nodup_getRowId_iff (hnonneg : ∀ id ∈ data.outputRowIds, 0 ≤ id) :
    ((List.range data.rows.length).map data.getRowId).Nodup ↔ data.outputRowIds.Nodup := by
  by_cases hempty : data.rowIds = []
  · have hscanned : (List.range data.rows.length).map data.getRowId =
        List.range data.rows.length := by
      refine (List.map_congr_left fun position _ => ?_).trans (List.map_id _)
      simp [getRowId, hasPreservedRowIds, hempty]
    rw [hscanned, outputRowIds_of_positions hempty]
    refine iff_of_true List.nodup_range (List.nodup_range.map fun a b hab => ?_)
    have hab' : transactionLocalRowIdStart + (a : Int) = transactionLocalRowIdStart + b := hab
    omega
  · have hscanned : (List.range data.rows.length).map data.getRowId =
        data.outputRowIds.map Int.toNat := by
      rw [outputRowIds, List.map_map]
      exact List.map_congr_left fun position _ => getRowId_of_preserved hempty position
    rw [hscanned]
    refine ⟨fun h => h.of_map, fun h => h.map_on fun a ha b hb hab => ?_⟩
    have hposa := hnonneg a ha
    have hposb := hnonneg b hb
    omega

theorem getRowId_injOn (h : ((List.range data.rows.length).map data.getRowId).Nodup)
    {p q : Nat} (hp : p < data.rows.length) (hq : q < data.rows.length)
    (heq : data.getRowId p = data.getRowId q) : p = q :=
  List.inj_on_of_nodup_map h (List.mem_range.2 hp) (List.mem_range.2 hq) heq

end DuckLakeInlinedData

/-! ## What is written at the commit -/

/-- The committed row that a row with this id is a version of. -/
def originOf (rowId : Int) : Option Nat :=
  if isTransactionLocalRowId rowId then none else some rowId.toNat

/-- The versions of committed rows keep their row ids, the other rows get the ids from `rowIdStart`
on. -/
structure Emits (rowIdStart : Nat) (origins : List (Option Nat)) (ids : List Int) : Prop where
  length : ids.length = origins.length
  original : ∀ e ∈ origins.zip ids, ∀ rowId, e.1 = some rowId → e.2 = rowId
  fresh : ((origins.zip ids).filter (·.1.isNone)).map (·.2) =
    (List.range' rowIdStart (origins.countP Option.isNone)).map Int.ofNat

theorem emits_emitRowIds (rowIdStart : Nat) {ids : List Int} (hnonneg : ∀ id ∈ ids, 0 ≤ id) :
    Emits rowIdStart (ids.map originOf) (emitRowIds rowIdStart (ids.map some)) := by
  induction ids generalizing rowIdStart with
  | nil => exact ⟨rfl, nofun, rfl⟩
  | cons id ids ih =>
    have hid := hnonneg id List.mem_cons_self
    have hrest := fun start => ih start fun i hi => hnonneg i (List.mem_cons_of_mem _ hi)
    cases hlocal : isTransactionLocalRowId id with
    | true =>
      obtain ⟨hlength, horiginal, hfresh⟩ := hrest (rowIdStart + 1)
      have horigin : originOf id = none := by rw [originOf, if_pos hlocal]
      rw [List.map_cons, List.map_cons, emitRowIds, if_pos hlocal, horigin]
      refine ⟨congrArg Nat.succ hlength, ?_, ?_⟩
      · rintro e he rowId hrow
        rcases List.mem_cons.1 he with rfl | he
        · cases hrow
        · exact horiginal e he rowId hrow
      · rw [List.zip_cons_cons, List.filter_cons_of_pos rfl, List.map_cons, hfresh,
          List.countP_cons_of_pos rfl, List.range'_succ, List.map_cons]
        rfl
    | false =>
      obtain ⟨hlength, horiginal, hfresh⟩ := hrest rowIdStart
      have hne : ¬ isTransactionLocalRowId id = true := by simp [hlocal]
      have horigin : originOf id = some id.toNat := by rw [originOf, if_neg hne]
      rw [List.map_cons, List.map_cons, emitRowIds, if_neg hne, horigin]
      refine ⟨congrArg Nat.succ hlength, ?_, ?_⟩
      · rintro e he rowId hrow
        rcases List.mem_cons.1 he with rfl | he
        · cases hrow
          exact (Int.toNat_of_nonneg hid).symm
        · exact horiginal e he rowId hrow
      · rw [List.zip_cons_cons, List.filter_cons_of_neg (by simp), hfresh,
          List.countP_cons_of_neg (by simp)]

theorem emitRowIds_preserved (rowIdStart : Nat) {data : DuckLakeInlinedData}
    (hcomplete : data.Complete) :
    emitRowIds rowIdStart data.preserved = emitRowIds rowIdStart (data.outputRowIds.map some) := by
  rw [← inlinedRowIds_eq true rowIdStart hcomplete, inlinedRowIds, if_pos rfl,
    inlinedDataInsert_eq_emitRowIds]
  rfl

/-! ## Tables with the origins of their rows -/

/-- A table, and for each of its inlined rows the committed row that it is a version of. -/
structure TrackedTable where
  table : TransactionTable
  origins : List (Option Nat)

section Track

variable [RowCast]

namespace TransactionTable

open DuckLakeInlinedData

/-- The positions of the rows that an update leaves. -/
def leftPositions (table : TransactionTable) (old : List UpdatedRow) : List Nat :=
  (List.range table.data.rows.length).filter fun position => UpdatedRow.inlined position ∉ old

/-- What becomes of the origins: deleted rows lose theirs, new rows have none, and the new version
of a row is a version of what the row was a version of. -/
def trackOrigins (table : TransactionTable) (origins : List (Option Nat)) :
    LocalStatement → List (Option Nat)
  | .insert _ rows => origins ++ rows.map fun _ => none
  | .delete newDeletes =>
    (table.data.keptPositions newDeletes).map fun position => origins.getD position none
  | .update _ rows =>
    (table.leftPositions (rows.map Prod.fst)).map (fun position => origins.getD position none) ++
      (rows.map Prod.fst).map fun
        | .outside rowId => originOf rowId
        | .inlined position => origins.getD position none
  | .outside _ _ => origins

/-- The row ids that an update brings along are distinct, and no row that it leaves has or gets one
of them. -/
def Safe (table : TransactionTable) : LocalStatement → Prop
  | .update _ rows =>
    ((rows.map Prod.fst).map table.rowId).Nodup ∧
      ∀ position ∈ table.leftPositions (rows.map Prod.fst),
        table.data.getOutputRowId position ∉ (rows.map Prod.fst).map table.rowId
  | _ => True

end TransactionTable

namespace TrackedTable

open DuckLakeInlinedData

def step (s : TrackedTable) (statement : LocalStatement) : Option TrackedTable :=
  (s.table.step statement).map fun table => ⟨table, s.table.trackOrigins s.origins statement⟩

/-- Scans return distinct row ids, a delete removes exactly the rows that a scan returned with a
deleted row id, and at the commit the new version of a committed row has the row id of that row,
while the other rows get fresh ones. -/
structure KeepsIdentity (s : TrackedTable) : Prop where
  scanned : ∀ position < s.table.data.rows.length,
    s.table.data.columnRowId position = s.table.data.getRowId position
  distinct : ((List.range s.table.data.rows.length).map s.table.data.getRowId).Nodup
  deletes : ∀ newDeletes, (s.table.data.deleteRows newDeletes).rows.zip
    (s.table.data.deleteRows newDeletes).outputRowIds =
      (s.table.data.scannedRows.filter (·.1 ∉ newDeletes)).map (·.2)
  emitted : ∀ needsEncoding rowIdStart,
    Emits rowIdStart s.origins (inlinedRowIds needsEncoding rowIdStart s.table.data)

/-- The invariant, of the row ids that the rows have or get. -/
structure Consistent (s : TrackedTable) : Prop where
  complete : s.table.data.Complete
  nonneg : ∀ id ∈ s.table.data.outputRowIds, 0 ≤ id
  origins_eq : s.origins = s.table.data.outputRowIds.map originOf
  distinct : s.table.data.outputRowIds.Nodup

omit [RowCast] in
theorem Consistent.keepsIdentity {s : TrackedTable} (h : s.Consistent) : s.KeepsIdentity where
  scanned _ hposition := columnRowId_eq h.complete h.nonneg hposition
  distinct := (nodup_getRowId_iff h.nonneg).2 h.distinct
  deletes := zip_deleteRows
  emitted needsEncoding rowIdStart := by
    rw [inlinedRowIds_eq needsEncoding rowIdStart h.complete, emitRowIds_preserved _ h.complete,
      h.origins_eq]
    exact emits_emitRowIds rowIdStart h.nonneg

omit [RowCast] in
theorem consistent_init (rowIds : List Nat) (fileRowCount : Nat) :
    Consistent ⟨⟨rowIds, fileRowCount, none⟩, []⟩ where
  complete := .inl rfl
  nonneg := nofun
  origins_eq := rfl
  distinct := List.nodup_nil

/-! ### Steps -/

variable {s s' : TrackedTable}

theorem step_eq_some {statement : LocalStatement} (h : s.step statement = some s') :
    s.table.step statement = some s'.table ∧
      s'.origins = s.table.trackOrigins s.origins statement := by
  obtain ⟨table, htable, rfl⟩ := Option.map_eq_some_iff.1 h
  exact ⟨htable, rfl⟩

omit [RowCast] in
theorem Consistent.getD_origins (hs : s.Consistent) {position : Nat}
    (h : position < s.table.data.rows.length) :
    s.origins.getD position none = originOf (s.table.data.getOutputRowId position) := by
  rw [hs.origins_eq, outputRowIds, List.map_map, List.getD_eq_getElem?_getD, List.getElem?_map,
    List.getElem?_range h]
  rfl

omit [RowCast] in
/-- The origins of rows that stay are those of their row ids. -/
theorem Consistent.map_getD_origins (hs : s.Consistent) (p : Nat → Bool) :
    ((List.range s.table.data.rows.length).filter p).map (fun i => s.origins.getD i none) =
      (((List.range s.table.data.rows.length).filter p).map s.table.data.getOutputRowId).map
        originOf := by
  rw [List.map_map]
  refine List.map_congr_left fun position hposition => hs.getD_origins ?_
  exact List.mem_range.1 (List.mem_of_mem_filter hposition)

omit [RowCast] in
theorem originOf_local {rowId : Int} (h : transactionLocalRowIdStart ≤ rowId) :
    originOf rowId = none := by
  have hlocal : isTransactionLocalRowId rowId = true := decide_eq_true h
  rw [originOf, if_pos hlocal]

theorem consistent_insert {types rows : List Text} (hs : s.Consistent)
    (h : s.step (.insert types rows) = some s') : s'.Consistent := by
  obtain ⟨htable, horigins⟩ := step_eq_some h
  obtain ⟨hcomplete, nextId, hnext, hlt, hids⟩ :=
    TransactionTable.appendInlinedData_fresh htable hs.complete rfl
  have hstart : 0 ≤ transactionLocalRowIdStart := by decide
  refine ⟨hcomplete, ?_, ?_, ?_⟩
  · rw [hids]
    refine List.forall_mem_append.2 ⟨hs.nonneg, fun id hid => ?_⟩
    obtain ⟨i, -, rfl⟩ := List.mem_map.1 hid
    omega
  · rw [horigins, hids, List.map_append, ← hs.origins_eq, List.map_map]
    refine congrArg (s.origins ++ ·) ?_
    refine List.ext_getElem (by simp) fun i h₁ h₂ => ?_
    have hlocal : transactionLocalRowIdStart ≤ nextId + (i : Int) := by omega
    simp [originOf_local hlocal]
  · rw [hids]
    refine List.nodup_append.2 ⟨hs.distinct, List.nodup_range.map fun a b hab => ?_, ?_⟩
    · have hab' : nextId + (a : Int) = nextId + b := hab
      omega
    · rintro a ha b hb rfl
      obtain ⟨i, -, hi⟩ := List.mem_map.1 hb
      have hbound := hlt a ha
      omega

theorem consistent_delete {newDeletes : OrdSet Nat} (hs : s.Consistent)
    (h : s.step (.delete newDeletes) = some s') : s'.Consistent := by
  obtain ⟨htable, horigins⟩ := step_eq_some h
  have hdata := TransactionTable.deleteFromLocalInlinedData_data htable
  have hsub := @sublist_outputRowIds_deleteRows s.table.data newDeletes
  refine ⟨hdata ▸ complete_deleteRows newDeletes, ?_, ?_, ?_⟩
  · rw [hdata]
    exact fun id hid => hs.nonneg id (hsub.subset hid)
  · rw [horigins, hdata, outputRowIds_deleteRows]
    exact hs.map_getD_origins _
  · rw [hdata]
    exact hs.distinct.sublist hsub

theorem consistent_outside {rowIds : List Nat} {fileRowCount : Nat} (hs : s.Consistent)
    (h : s.step (.outside rowIds fileRowCount) = some s') : s'.Consistent := by
  cases h
  exact ⟨hs.complete, hs.nonneg, hs.origins_eq, hs.distinct⟩

end TrackedTable

/-! ### Updates -/

namespace TransactionTable

open DuckLakeInlinedData TrackedTable

variable {table table' deleted : TransactionTable} {old : List UpdatedRow}

omit [RowCast] in
theorem mem_inlinedPositions {position : Nat} :
    position ∈ inlinedPositions old ↔ UpdatedRow.inlined position ∈ old := by
  constructor
  · intro h
    obtain ⟨row, hrow, heq⟩ := List.mem_filterMap.1 h
    cases row with
    | outside => cases heq
    | inlined => cases heq; exact hrow
  · intro h
    exact List.mem_filterMap.2 ⟨_, h, rfl⟩

omit [RowCast] in
/-- The rows that an update replaces are deleted by their scanned row ids, which deletes no others. -/
theorem deleteUpdated_rowIds (h : table.deleteUpdated old = some deleted)
    (hcomplete : table.data.Complete)
    (hdistinct : ((List.range table.data.rows.length).map table.data.getRowId).Nodup)
    (hhas : ∀ row ∈ old, table.Has row) :
    deleted.data.Complete ∧ deleted.data.outputRowIds =
      (table.leftPositions old).map table.data.getOutputRowId := by
  unfold deleteUpdated at h
  split at h
  · next hnone =>
    cases h
    have hleft : table.leftPositions old = List.range table.data.rows.length := by
      refine List.filter_eq_self.2 fun position _ => decide_eq_true fun hmem => ?_
      have hposition := mem_inlinedPositions.2 hmem
      rw [hnone] at hposition
      cases hposition
    rw [hleft]
    exact ⟨hcomplete, rfl⟩
  · next hsome =>
    rw [deleteFromLocalInlinedData_data h, outputRowIds_deleteRows]
    refine ⟨complete_deleteRows _, congrArg _ (List.filter_congr fun position hposition => ?_)⟩
    have hlt := List.mem_range.1 hposition
    rw [decide_eq_decide, OrdSet.mem_ofList, not_iff_not, List.mem_map]
    constructor
    · rintro ⟨other, hother, heq⟩
      have hmem := mem_inlinedPositions.1 hother
      exact getRowId_injOn hdistinct (hhas _ hmem) hlt heq ▸ hmem
    · intro hmem
      exact ⟨position, mem_inlinedPositions.2 hmem, rfl⟩

theorem step_update {types : List Text} {rows : List (UpdatedRow × Text)}
    (h : table.step (.update types rows) = some table') :
    (∀ row ∈ rows.map Prod.fst, table.Has row) ∧
      ∃ deleted, table.deleteUpdated (rows.map Prod.fst) = some deleted ∧
        (rows.map Prod.fst = [] ∧ table' = deleted ∨ rows.map Prod.fst ≠ [] ∧
          (deleted.removeOutside (rows.map Prod.fst)).appendInlinedData
            (table.updatedData types rows) = some table') := by
  rw [step] at h
  split at h
  · next hvalid =>
    obtain ⟨deleted, hdeleted, happend⟩ := Option.bind_eq_some_iff.1 h
    refine ⟨hvalid.2, deleted, hdeleted, ?_⟩
    split at happend
    · next hempty =>
      cases happend
      exact .inl ⟨hempty, rfl⟩
    · next hne => exact .inr ⟨hne, happend⟩
  · cases h

theorem nodup_of_step_update {types : List Text} {rows : List (UpdatedRow × Text)}
    (h : table.step (.update types rows) = some table') : (rows.map Prod.fst).Nodup := by
  rw [step] at h
  split at h
  · next hvalid => exact hvalid.1
  · cases h

/-- After an update the new rows stand behind the rows that are left, with the row ids that they
bring along. -/
theorem update_rowIds {types : List Text} {rows : List (UpdatedRow × Text)}
    (h : table.step (.update types rows) = some table') (hcomplete : table.data.Complete)
    (hdistinct : ((List.range table.data.rows.length).map table.data.getRowId).Nodup) :
    table'.data.Complete ∧ table'.data.outputRowIds =
      (table.leftPositions (rows.map Prod.fst)).map table.data.getOutputRowId ++
        (rows.map Prod.fst).map table.rowId := by
  obtain ⟨hhas, deleted, hdeleted, hcases⟩ := step_update h
  obtain ⟨hcompleteDeleted, hids⟩ := deleteUpdated_rowIds hdeleted hcomplete hdistinct hhas
  rcases hcases with ⟨hempty, rfl⟩ | ⟨hne, happend⟩
  · rw [hempty, List.map_nil, List.append_nil, ← hempty]
    exact ⟨hcompleteDeleted, hids⟩
  · rw [← hids]
    refine appendInlinedData_preserved happend hcompleteDeleted (.inr ?_) ?_
    · simp [updatedData]
    · simpa [updatedData] using hne

omit [RowCast] in
theorem rowId_nonneg (hcomplete : table.data.Complete)
    (hnonneg : ∀ id ∈ table.data.outputRowIds, 0 ≤ id) {row : UpdatedRow} (h : table.Has row) :
    0 ≤ table.rowId row := by
  have hstart : 0 ≤ transactionLocalRowIdStart := by decide
  cases row with
  | outside rowId => exact Int.natCast_nonneg rowId
  | inlined position =>
    have hcolumn := columnRowId_eq hcomplete hnonneg h
    simp only [rowId, hcolumn, rowIdStart]
    split <;> omega

omit [RowCast] in
/-- The row id that a new version brings along tells what the old row was a version of. -/
theorem originOf_rowId_inlined (position : Nat) :
    originOf (table.rowId (.inlined position)) = originOf (table.data.getOutputRowId position) := by
  have hposition : (0 : Int) ≤ position := Int.natCast_nonneg position
  have hcount : (0 : Int) ≤ table.fileRowCount := Int.natCast_nonneg _
  by_cases hempty : table.data.rowIds = []
  · have hpreserved : table.data.hasPreservedRowIds = false := by simp [hasPreservedRowIds, hempty]
    rw [getOutputRowId_of_position hempty, originOf_local, originOf_local]
    · omega
    · simp only [rowId, rowIdStart, columnRowId, hpreserved, Bool.false_eq_true, if_false]
      omega
  · have hpreserved : table.data.hasPreservedRowIds = true := by simp [hasPreservedRowIds, hempty]
    simp [rowId, rowIdStart, columnRowId, hpreserved, getOutputRowId, hempty]

end TransactionTable

namespace TrackedTable

open DuckLakeInlinedData

variable {s s' : TrackedTable} {types : List Text} {rows : List (UpdatedRow × Text)}

/-- An update keeps the row ids distinct exactly if it is safe. -/
theorem nodup_update_iff (hs : s.Consistent) (h : s.step (.update types rows) = some s') :
    s'.table.data.outputRowIds.Nodup ↔ s.table.Safe (.update types rows) := by
  obtain ⟨htable, -⟩ := step_eq_some h
  have hids := (TransactionTable.update_rowIds htable hs.complete hs.keepsIdentity.distinct).2
  have hleft : ((s.table.leftPositions (rows.map Prod.fst)).map
      s.table.data.getOutputRowId).Nodup :=
    hs.distinct.sublist (List.filter_sublist.map _)
  rw [hids, List.nodup_append, and_iff_right hleft]
  refine and_congr_right fun _ => ⟨?_, ?_⟩
  · intro hdisjoint position hposition hmem
    exact hdisjoint _ (List.mem_map_of_mem hposition) _ hmem rfl
  · rintro hsafe a ha b hb rfl
    obtain ⟨position, hposition, rfl⟩ := List.mem_map.1 ha
    exact hsafe position hposition hb

/-- Whether or not an update is safe, it keeps everything but the distinctness of the row ids. -/
theorem update_origins (hs : s.Consistent) (h : s.step (.update types rows) = some s') :
    s'.table.data.Complete ∧ (∀ id ∈ s'.table.data.outputRowIds, 0 ≤ id) ∧
      s'.origins = s'.table.data.outputRowIds.map originOf := by
  obtain ⟨htable, horigins⟩ := step_eq_some h
  obtain ⟨hhas, -⟩ := TransactionTable.step_update htable
  obtain ⟨hcomplete, hids⟩ :=
    TransactionTable.update_rowIds htable hs.complete hs.keepsIdentity.distinct
  refine ⟨hcomplete, ?_, ?_⟩
  · rw [hids]
    refine List.forall_mem_append.2 ⟨fun id hid => ?_, fun id hid => ?_⟩
    · exact hs.nonneg id ((List.filter_sublist.map _).subset hid)
    · obtain ⟨row, hrow, rfl⟩ := List.mem_map.1 hid
      exact TransactionTable.rowId_nonneg hs.complete hs.nonneg (hhas row hrow)
  · have hleft : (s.table.leftPositions (rows.map Prod.fst)).map
        (fun position => s.origins.getD position none) =
        ((s.table.leftPositions (rows.map Prod.fst)).map s.table.data.getOutputRowId).map
          originOf := hs.map_getD_origins _
    rw [horigins, hids, List.map_append, TransactionTable.trackOrigins, hleft,
      List.append_cancel_left_eq, List.map_map (g := originOf)]
    refine List.map_congr_left fun row hrow => ?_
    cases row with
    | outside rowId => rfl
    | inlined position =>
      have hlt : position < s.table.data.rows.length := hhas _ hrow
      exact (hs.getD_origins hlt).trans
        (TransactionTable.originOf_rowId_inlined position).symm

theorem consistent_step_iff {statement : LocalStatement} (hs : s.Consistent)
    (h : s.step statement = some s') : s'.Consistent ↔ s.table.Safe statement := by
  cases statement with
  | insert => exact iff_of_true (consistent_insert hs h) trivial
  | delete => exact iff_of_true (consistent_delete hs h) trivial
  | outside => exact iff_of_true (consistent_outside hs h) trivial
  | update types rows =>
    obtain ⟨hcomplete, hnonneg, horigins⟩ := update_origins hs h
    rw [← nodup_update_iff hs h]
    exact ⟨fun h => h.distinct, fun hdistinct => ⟨hcomplete, hnonneg, horigins, hdistinct⟩⟩

/-- A statement keeps the identity of the rows exactly if it is safe. -/
theorem keepsIdentity_step_iff {statement : LocalStatement} (hs : s.Consistent)
    (h : s.step statement = some s') : s'.KeepsIdentity ↔ s.table.Safe statement := by
  rw [← consistent_step_iff hs h]
  refine ⟨fun hidentity => ?_, Consistent.keepsIdentity⟩
  cases statement with
  | insert => exact consistent_insert hs h
  | delete => exact consistent_delete hs h
  | outside => exact consistent_outside hs h
  | update types rows =>
    obtain ⟨hcomplete, hnonneg, horigins⟩ := update_origins hs h
    exact ⟨hcomplete, hnonneg, horigins, (nodup_getRowId_iff hnonneg).1 hidentity.distinct⟩

/-- What the table is before the first statement. -/
def init (rowIds : List Nat) (fileRowCount : Nat) : TrackedTable :=
  ⟨⟨rowIds, fileRowCount, none⟩, []⟩

theorem consistent_of_reaches {rowIds : List Nat} {fileRowCount : Nat}
    (h : Reaches step (fun s => s.table.Safe) (init rowIds fileRowCount) s) : s.Consistent :=
  h.invariant (consistent_init rowIds fileRowCount)
    fun _ _ _ hs hsafe hstep => (consistent_step_iff hs hstep).2 hsafe

end TrackedTable

end Track

end DuckLake
