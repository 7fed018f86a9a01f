import DuckLake.Lib.Guard
import DuckLake.Lib.OrdSet
import DuckLake.Lib.Runs
import DuckLake.Storage.RowIds

/-!
# Transaction-local inlined data

The rows that a transaction has inserted or updated inline, before they are committed. They are
known by their positions until some of them bring a row id along; from then on every row has one,
and those that were inserted get one that is local to the transaction.
-/

namespace DuckLake

/-- How the engine casts a row from some types to others. Types are kept in their printed form. -/
class RowCast where
  castRow : List Text → List Text → Text → Except Exception Text

namespace DuckLakeInlinedData

def hasPreservedRowIds (data : DuckLakeInlinedData) : Bool := !data.rowIds.isEmpty

def getRowId (data : DuckLakeInlinedData) (position : Nat) : Nat :=
  if data.hasPreservedRowIds then (data.rowIds.getD position 0).toNat else position

/-- `COLUMN_ROW_ID` of a scan. -/
def columnRowId (data : DuckLakeInlinedData) (fileRowNumber : Nat) : Int :=
  if data.hasPreservedRowIds then data.rowIds.getD fileRowNumber 0 else fileRowNumber

/-- The id after those that are local to the transaction; other ids do not count. -/
def nextLocalRowId (rowIds : List Int) : Int :=
  match rowIds.max? with
  | some maxId =>
    if transactionLocalRowIdStart ≤ maxId then maxId + 1 else transactionLocalRowIdStart
  | none => transactionLocalRowIdStart

/-- `MergeRowIds`, when the rows of `newData` are the last of `count` rows. -/
def mergeRowIds (rowIds : List Int) (count : Nat) (newData : DuckLakeInlinedData)
    (newDataCount : Nat) : List Int :=
  if !newData.hasPreservedRowIds && rowIds.isEmpty then rowIds
  else
    let existing := if rowIds.isEmpty then
        (List.range (count - newDataCount)).map fun i : Nat => transactionLocalRowIdStart + (i : Int)
      else rowIds
    if newData.hasPreservedRowIds then existing ++ newData.rowIds
    else existing ++ (List.range newDataCount).map fun i : Nat => nextLocalRowId existing + (i : Int)

/-- The positions of the rows that are not deleted. -/
def keptPositions (data : DuckLakeInlinedData) (newDeletes : OrdSet Nat) : List Nat :=
  (List.range data.rows.length).filter fun position => data.getRowId position ∉ newDeletes

/-- `DeleteFromLocalInlinedData`. -/
def deleteRows (data : DuckLakeInlinedData) (newDeletes : OrdSet Nat) : DuckLakeInlinedData :=
  { data with
    rows := (data.keptPositions newDeletes).map fun position => data.rows.getD position []
    rowIds := (data.keptPositions newDeletes).map data.getOutputRowId }

/-- The row ids that the rows have or get. -/
def outputRowIds (data : DuckLakeInlinedData) : List Int :=
  (List.range data.rows.length).map data.getOutputRowId

variable {data newData : DuckLakeInlinedData}

theorem length_outputRowIds : data.outputRowIds.length = data.rows.length := by
  simp [outputRowIds]

theorem outputRowIds_of_positions (h : data.rowIds = []) :
    data.outputRowIds =
      (List.range data.rows.length).map fun i : Nat => transactionLocalRowIdStart + (i : Int) := by
  refine List.map_congr_left fun position _ => ?_
  simp [getOutputRowId, h]

theorem outputRowIds_of_preserved (hcomplete : data.Complete) (h : data.rowIds ≠ []) :
    data.outputRowIds = data.rowIds := by
  have hlength := hcomplete.resolve_left h
  refine List.ext_getElem (by simp [outputRowIds, hlength]) fun i h₁ h₂ => ?_
  simp [outputRowIds, getOutputRowId, h, h₂]

theorem getOutputRowId_of_position (h : data.rowIds = []) (position : Nat) :
    data.getOutputRowId position = transactionLocalRowIdStart + position := by
  simp [getOutputRowId, h]

theorem le_nextLocalRowId (rowIds : List Int) :
    transactionLocalRowIdStart ≤ nextLocalRowId rowIds := by
  unfold nextLocalRowId
  split
  · split
    · omega
    · exact le_rfl
  · exact le_rfl

theorem lt_nextLocalRowId {rowIds : List Int} {id : Int} (h : id ∈ rowIds) :
    id < nextLocalRowId rowIds := by
  unfold nextLocalRowId
  split
  · next maxId hmax =>
    have hle : id ≤ maxId := (List.max?_eq_some_iff.1 hmax).2 id h
    split <;> omega
  · next hnone =>
    rw [List.max?_eq_none_iff] at hnone
    rw [hnone] at h
    cases h

theorem complete_deleteRows (newDeletes : OrdSet Nat) : (data.deleteRows newDeletes).Complete :=
  .inr (by simp [deleteRows])

theorem outputRowIds_deleteRows (newDeletes : OrdSet Nat) :
    (data.deleteRows newDeletes).outputRowIds =
      (data.keptPositions newDeletes).map data.getOutputRowId := by
  by_cases hkept : data.keptPositions newDeletes = []
  · simp [outputRowIds, deleteRows, hkept]
  · rw [outputRowIds_of_preserved (complete_deleteRows newDeletes) (by simp [deleteRows, hkept])]
    rfl

theorem sublist_outputRowIds_deleteRows (newDeletes : OrdSet Nat) :
    (data.deleteRows newDeletes).outputRowIds.Sublist data.outputRowIds := by
  rw [outputRowIds_deleteRows]
  exact List.filter_sublist.map _

/-- The rows of an append, after the rows that were there. -/
def appendRows (data : DuckLakeInlinedData) (rows : List Text) (newData : DuckLakeInlinedData) :
    DuckLakeInlinedData :=
  { data with
    rows := rows ++ newData.rows
    rowIds := mergeRowIds data.rowIds (rows ++ newData.rows).length newData newData.rows.length }

theorem mergeRowIds_preserved {rowIds : List Int} {rows : List Text}
    (h : newData.rowIds ≠ []) :
    mergeRowIds rowIds (rows ++ newData.rows).length newData newData.rows.length =
      (if rowIds = [] then (List.range rows.length).map fun i : Nat =>
        transactionLocalRowIdStart + (i : Int) else rowIds) ++ newData.rowIds := by
  have hpreserved : newData.hasPreservedRowIds = true := by simp [hasPreservedRowIds, h]
  simp [mergeRowIds, hpreserved]

/-- Row ids that are brought along stand after those of the rows that were there. -/
theorem outputRowIds_appendRows {rows : List Text} (hcomplete : data.Complete)
    (hrows : rows.length = data.rows.length) (hnew : newData.Complete) (h : newData.rowIds ≠ []) :
    (data.appendRows rows newData).Complete ∧
      (data.appendRows rows newData).outputRowIds = data.outputRowIds ++ newData.rowIds := by
  have hids : (data.appendRows rows newData).rowIds = data.outputRowIds ++ newData.rowIds := by
    rw [appendRows, mergeRowIds_preserved h]
    split
    · next hempty => rw [outputRowIds_of_positions hempty, hrows]
    · next hne => rw [outputRowIds_of_preserved hcomplete hne]
  have hcomplete' : (data.appendRows rows newData).Complete := by
    right
    rw [hids, List.length_append, length_outputRowIds, hnew.resolve_left h, ← hrows,
      ← List.length_append]
    rfl
  refine ⟨hcomplete', ?_⟩
  rw [outputRowIds_of_preserved hcomplete' (by simp [hids, h]), hids]

/-- Rows without row ids get ids that are local to the transaction, above those that are there. -/
theorem outputRowIds_appendRows_fresh {rows : List Text} (hcomplete : data.Complete)
    (hrows : rows.length = data.rows.length) (h : newData.rowIds = []) :
    (data.appendRows rows newData).Complete ∧ ∃ nextId : Int, transactionLocalRowIdStart ≤ nextId ∧
      (∀ id ∈ data.outputRowIds, id < nextId) ∧
      (data.appendRows rows newData).outputRowIds = data.outputRowIds ++
        (List.range newData.rows.length).map fun i : Nat => nextId + (i : Int) := by
  have hnew : newData.hasPreservedRowIds = false := by simp [hasPreservedRowIds, h]
  by_cases hempty : data.rowIds = []
  · have hids : (data.appendRows rows newData).rowIds = [] := by
      simp [appendRows, mergeRowIds, hnew, hempty]
    have hlength : (data.appendRows rows newData).rows.length =
        data.rows.length + newData.rows.length := by
      simp [appendRows, hrows]
    refine ⟨.inl hids, transactionLocalRowIdStart + data.rows.length, by omega, ?_, ?_⟩
    · intro id hid
      rw [outputRowIds_of_positions hempty] at hid
      obtain ⟨i, hi, rfl⟩ := List.mem_map.1 hid
      have hlt := List.mem_range.1 hi
      omega
    · rw [outputRowIds_of_positions hids, outputRowIds_of_positions hempty, hlength, List.range_add,
        List.map_append, List.map_map]
      refine congrArg _ (List.map_congr_left fun i _ => ?_)
      simp [Int.add_assoc]
  · have hids : (data.appendRows rows newData).rowIds = data.rowIds ++
        (List.range newData.rows.length).map fun i : Nat =>
          nextLocalRowId data.rowIds + (i : Int) := by
      simp [appendRows, mergeRowIds, hnew, hempty]
    have hlength := hcomplete.resolve_left hempty
    have hcomplete' : (data.appendRows rows newData).Complete := by
      right
      rw [hids]
      simp [appendRows, hlength, hrows]
    refine ⟨hcomplete', nextLocalRowId data.rowIds, le_nextLocalRowId _, ?_, ?_⟩
    · rw [outputRowIds_of_preserved hcomplete hempty]
      exact fun id => lt_nextLocalRowId
    · rw [outputRowIds_of_preserved hcomplete' (by simp [hids, hempty]), hids,
        outputRowIds_of_preserved hcomplete hempty]

end DuckLakeInlinedData

/-! ## The table within the transaction -/

/-- Inlined data with the types of its rows. -/
structure LocalInlinedData where
  types : List Text
  data : DuckLakeInlinedData
deriving DecidableEq

/-- A table as a transaction sees it: the row ids of the rows that are not inlined data of the
transaction, the number of rows in the data files of the transaction, and its inlined data. -/
structure TransactionTable where
  rowIds : List Nat
  fileRowCount : Nat
  inlined : Option LocalInlinedData

/-- A row that an `UPDATE` replaces. -/
inductive UpdatedRow where
  | outside (rowId : Nat)
  | inlined (position : Nat)
deriving DecidableEq

/-- The statements of a transaction, as far as they concern the table. `outside` stands for
everything that leaves the inlined data of the transaction alone. -/
inductive LocalStatement where
  | insert (types : List Text) (rows : List Text)
  | delete (newDeletes : OrdSet Nat)
  | update (types : List Text) (rows : List (UpdatedRow × Text))
  | outside (rowIds : List Nat) (fileRowCount : Nat)

section Append

variable [RowCast]

open RowCast

/-- The rows that are there, at the types of the new rows. -/
def LocalInlinedData.castRows (existing : LocalInlinedData) (newTypes : List Text) :
    Except Exception (List Text) :=
  if existing.types = newTypes then .ok existing.data.rows
  else existing.data.rows.mapM (castRow existing.types newTypes)

/-- `AppendInlinedData`, without the statistics. -/
def LocalInlinedData.append (existing newData : LocalInlinedData) :
    Except Exception LocalInlinedData :=
  (existing.castRows newData.types).map fun rows =>
    ⟨newData.types, existing.data.appendRows rows newData.data⟩

theorem LocalInlinedData.append_ok {existing newData appended : LocalInlinedData}
    (h : existing.append newData = .ok appended) :
    ∃ rows : List Text, rows.length = existing.data.rows.length ∧
      appended.data = existing.data.appendRows rows newData.data := by
  cases hrows : existing.castRows newData.types with
  | error e =>
    rw [LocalInlinedData.append, hrows] at h
    cases h
  | ok rows =>
    rw [LocalInlinedData.append, hrows] at h
    cases h
    refine ⟨rows, ?_, rfl⟩
    rw [LocalInlinedData.castRows] at hrows
    split at hrows
    · rw [Except.ok.inj hrows]
    · exact (mapM_eq_ok_iff.1 hrows).length_eq.symm

namespace TransactionTable

open DuckLakeInlinedData

def data (table : TransactionTable) : DuckLakeInlinedData :=
  table.inlined.elim { rows := [] } (·.data)

/-- `GetTransactionLocalRowIdStart`: preserved row ids are absolute. -/
def rowIdStart (table : TransactionTable) : Int :=
  if table.data.hasPreservedRowIds then 0 else transactionLocalRowIdStart + table.fileRowCount

/-- The row id that a scan returns for a row; for an inlined row it is computed from its ordinal. -/
def rowId (table : TransactionTable) : UpdatedRow → Int
  | .outside rowId => rowId
  | .inlined position => table.rowIdStart + table.data.columnRowId position

/-- The row is there. -/
def Has (table : TransactionTable) : UpdatedRow → Prop
  | .outside rowId => rowId ∈ table.rowIds
  | .inlined position => position < table.data.rows.length

instance (table : TransactionTable) : DecidablePred table.Has
  | .outside _ => inferInstanceAs (Decidable (_ ∈ _))
  | .inlined _ => inferInstanceAs (Decidable (_ < _))

def appendInlinedData (table : TransactionTable) (newData : LocalInlinedData) :
    Option TransactionTable :=
  match table.inlined with
  | none => some { table with inlined := some newData }
  | some existing =>
    match existing.append newData with
    | .error _ => none
    | .ok appended => some { table with inlined := some appended }

def deleteFromLocalInlinedData (table : TransactionTable) (newDeletes : OrdSet Nat) :
    Option TransactionTable :=
  table.inlined.map fun existing =>
    { table with inlined := some { existing with data := existing.data.deleteRows newDeletes } }

/-- The inlined rows among the rows of an update. -/
def inlinedPositions (rows : List UpdatedRow) : List Nat :=
  rows.filterMap fun
    | .outside _ => none
    | .inlined position => some position

/-- The rows of an update are deleted first, from a set of the ids that a scan returned for them. -/
def deleteUpdated (table : TransactionTable) (rows : List UpdatedRow) : Option TransactionTable :=
  if inlinedPositions rows = [] then some table
  else table.deleteFromLocalInlinedData
    (OrdSet.ofList ((inlinedPositions rows).map table.data.getRowId))

def removeOutside (table : TransactionTable) (rows : List UpdatedRow) : TransactionTable :=
  { table with rowIds := table.rowIds.filter fun rowId => UpdatedRow.outside rowId ∉ rows }

/-- The new rows of an update bring the row ids of the old ones along. -/
def updatedData (table : TransactionTable) (types : List Text) (rows : List (UpdatedRow × Text)) :
    LocalInlinedData :=
  ⟨types, { rows := rows.map Prod.snd, rowIds := (rows.map Prod.fst).map table.rowId }⟩

/-- One statement; an update replaces a row once. -/
def step (table : TransactionTable) : LocalStatement → Option TransactionTable
  | .insert types rows => table.appendInlinedData ⟨types, { rows := rows }⟩
  | .delete newDeletes => table.deleteFromLocalInlinedData newDeletes
  | .update types rows =>
    let old := rows.map Prod.fst
    if old.Nodup ∧ ∀ row ∈ old, table.Has row then
      (table.deleteUpdated old).bind fun deleted =>
        if old = [] then some deleted
        else (deleted.removeOutside old).appendInlinedData (table.updatedData types rows)
    else none
  | .outside rowIds fileRowCount =>
    some { table with rowIds := rowIds, fileRowCount := fileRowCount }

/-! ### What a statement does to the row ids -/

variable {table table' : TransactionTable} {newData : LocalInlinedData}

/-- The new rows are the first ones, or they stand after the rows that were there. -/
theorem appendInlinedData_cases (h : table.appendInlinedData newData = some table') :
    (table.data.outputRowIds = [] ∧ table'.data = newData.data) ∨
      ∃ rows : List Text, rows.length = table.data.rows.length ∧
        table'.data = table.data.appendRows rows newData.data := by
  unfold appendInlinedData at h
  split at h
  · next hnone =>
    cases h
    exact .inl ⟨by simp [data, hnone, outputRowIds], rfl⟩
  · next existing hexisting =>
    split at h
    · cases h
    · next appended happended =>
      cases h
      obtain ⟨rows, hrows, hdata⟩ := LocalInlinedData.append_ok happended
      have hexistingData : table.data = existing.data := by simp [data, hexisting]
      rw [hexistingData]
      exact .inr ⟨rows, hrows, hdata⟩

theorem appendInlinedData_preserved (h : table.appendInlinedData newData = some table')
    (hcomplete : table.data.Complete) (hnew : newData.data.Complete)
    (hids : newData.data.rowIds ≠ []) :
    table'.data.Complete ∧
      table'.data.outputRowIds = table.data.outputRowIds ++ newData.data.rowIds := by
  rcases appendInlinedData_cases h with ⟨hempty, hdata⟩ | ⟨rows, hrows, hdata⟩
  · rw [hdata, hempty, List.nil_append]
    exact ⟨hnew, outputRowIds_of_preserved hnew hids⟩
  · rw [hdata]
    exact outputRowIds_appendRows hcomplete hrows hnew hids

theorem appendInlinedData_fresh (h : table.appendInlinedData newData = some table')
    (hcomplete : table.data.Complete) (hids : newData.data.rowIds = []) :
    table'.data.Complete ∧ ∃ nextId : Int, transactionLocalRowIdStart ≤ nextId ∧
      (∀ id ∈ table.data.outputRowIds, id < nextId) ∧
      table'.data.outputRowIds = table.data.outputRowIds ++
        (List.range newData.data.rows.length).map fun i : Nat => nextId + (i : Int) := by
  rcases appendInlinedData_cases h with ⟨hempty, hdata⟩ | ⟨rows, hrows, hdata⟩
  · refine ⟨hdata ▸ .inl hids, _, le_rfl, by simp [hempty], ?_⟩
    rw [hdata, hempty]
    exact outputRowIds_of_positions hids
  · rw [hdata]
    exact outputRowIds_appendRows_fresh hcomplete hrows hids

omit [RowCast] in
theorem deleteFromLocalInlinedData_data {newDeletes : OrdSet Nat}
    (h : table.deleteFromLocalInlinedData newDeletes = some table') :
    table'.data = table.data.deleteRows newDeletes := by
  obtain ⟨existing, hexisting, rfl⟩ := Option.map_eq_some_iff.1 h
  simp [data, hexisting]

end TransactionTable

end Append

end DuckLake
