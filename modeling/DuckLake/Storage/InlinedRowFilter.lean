import DuckLake.Storage.DeleteFilter
import DuckLake.Storage.LocalRowIdentity

/-!
# Deletes from committed inlined rows

The rows of an inlined data table are deleted by their row ids. A scan turns the row ids into
ordinals, by walking along the deleted row ids while it reads the rows, and filters by ordinal.
-/

namespace DuckLake

/-! ## From row ids to ordinals -/

/-- The ordinals of the deleted rows, when the rows from `ordinalPosition` on are left to be read and
`deletedRowIds` are the deleted row ids that were not met yet. -/
def deletedOrdinals : List Nat → Nat → List Nat → List Nat
  | deletedRowId :: deletedRowIds, ordinalPosition, rowId :: rowIds =>
    if deletedRowId = rowId then
      ordinalPosition :: deletedOrdinals deletedRowIds (ordinalPosition + 1) rowIds
    else deletedOrdinals (deletedRowId :: deletedRowIds) (ordinalPosition + 1) rowIds
  | _, _, _ => []

theorem deletedOrdinals_nil (ordinal : Nat) (rowIds : List Nat) :
    deletedOrdinals [] ordinal rowIds = [] := by
  rw [deletedOrdinals]
  exact nofun

theorem deletedOrdinals_bounds {deleted : List Nat} {ordinal : Nat} {rowIds : List Nat} {p : Nat}
    (h : p ∈ deletedOrdinals deleted ordinal rowIds) :
    ordinal ≤ p ∧ p < ordinal + rowIds.length := by
  induction rowIds generalizing deleted ordinal with
  | nil => cases deleted <;> cases h
  | cons rowId rowIds ih =>
    cases deleted with
    | nil =>
      rw [deletedOrdinals_nil] at h
      cases h
    | cons d deleted =>
      rw [deletedOrdinals] at h
      rw [List.length_cons]
      split at h
      · rcases List.mem_cons.1 h with rfl | h
        · omega
        · have hbounds := ih h
          omega
      · have hbounds := ih h
        omega

theorem pairwise_deletedOrdinals (deleted : List Nat) (ordinal : Nat) (rowIds : List Nat) :
    (deletedOrdinals deleted ordinal rowIds).Pairwise (· < ·) := by
  induction rowIds generalizing deleted ordinal with
  | nil => cases deleted <;> exact .nil
  | cons rowId rowIds ih =>
    cases deleted with
    | nil =>
      rw [deletedOrdinals_nil]
      exact .nil
    | cons d deleted =>
      rw [deletedOrdinals]
      split
      · exact .cons (fun p hp => (deletedOrdinals_bounds hp).1) (ih _ _)
      · exact ih _ _

/-- The walk meets exactly the rows with a deleted row id if and only if these come in the order of
the deleted row ids, without a gap. -/
theorem mem_deletedOrdinals_iff {P : Nat → Bool} {deleted : List Nat} (ordinal : Nat)
    {rowIds : List Nat} (hdeleted : ∀ d ∈ deleted, P d = true) :
    (∀ p (h : p < rowIds.length),
      ordinal + p ∈ deletedOrdinals deleted ordinal rowIds ↔ P rowIds[p] = true) ↔
      rowIds.filter P <+: deleted := by
  induction rowIds generalizing deleted ordinal with
  | nil => simp
  | cons rowId rowIds ih =>
    -- the first row, and the rows after it
    have hsplit : ∀ Q : ∀ p, p < (rowId :: rowIds).length → Prop, (∀ p h, Q p h) ↔
        Q 0 (Nat.succ_pos _) ∧ ∀ p (h : p < rowIds.length), Q (p + 1) (Nat.succ_lt_succ h) :=
      fun Q => ⟨fun h => ⟨h 0 _, fun p _ => h (p + 1) _⟩, fun ⟨hzero, hsucc⟩ p h => by
        cases p with
        | zero => exact hzero
        | succ p => exact hsucc p (Nat.lt_of_succ_lt_succ h)⟩
    rw [hsplit]
    cases deleted with
    | nil =>
      have hrest := @ih [] (ordinal + 1) (fun _ h => nomatch h)
      simp only [deletedOrdinals_nil, List.not_mem_nil, false_iff, List.prefix_nil] at hrest ⊢
      rw [List.filter_cons]
      cases hP : P rowId <;> simp [hP, ← hrest]
    | cons d deleted =>
      have hd := hdeleted d List.mem_cons_self
      have hshift : ∀ p, ordinal + (p + 1) = ordinal + 1 + p := fun p => by omega
      by_cases heq : d = rowId
      · subst heq
        have hrest := @ih deleted (ordinal + 1)
          fun e he => hdeleted e (List.mem_cons_of_mem _ he)
        have hwalk : deletedOrdinals (d :: deleted) ordinal (d :: rowIds) =
            ordinal :: deletedOrdinals deleted (ordinal + 1) rowIds := by
          rw [deletedOrdinals, if_pos rfl]
        have hnext : ∀ p, ordinal + (p + 1) ∈ deletedOrdinals (d :: deleted) ordinal (d :: rowIds) ↔
            ordinal + 1 + p ∈ deletedOrdinals deleted (ordinal + 1) rowIds := fun p => by
          rw [hwalk, List.mem_cons, hshift]
          exact ⟨fun h => h.resolve_left (by omega), .inr⟩
        rw [List.filter_cons_of_pos hd, List.cons_prefix_cons, and_iff_right rfl, ← hrest]
        refine (and_iff_right ?_).trans (forall₂_congr fun p h => iff_congr (hnext p) Iff.rfl)
        rw [hwalk]
        exact iff_of_true List.mem_cons_self hd
      · have hrest := ih (ordinal + 1) hdeleted
        have hwalk : deletedOrdinals (d :: deleted) ordinal (rowId :: rowIds) =
            deletedOrdinals (d :: deleted) (ordinal + 1) rowIds := by
          rw [deletedOrdinals, if_neg heq]
        have hfirst : ordinal ∉ deletedOrdinals (d :: deleted) (ordinal + 1) rowIds := fun h => by
          have hbounds := deletedOrdinals_bounds h
          omega
        have hnext : ∀ p, ordinal + (p + 1) ∈ deletedOrdinals (d :: deleted) ordinal
            (rowId :: rowIds) ↔ ordinal + 1 + p ∈
              deletedOrdinals (d :: deleted) (ordinal + 1) rowIds := fun p => by
          rw [hwalk, hshift p]
        cases hP : P rowId with
        | true =>
          have hprefix : ¬ rowId :: rowIds.filter P <+: d :: deleted := fun h =>
            heq (List.cons_prefix_cons.1 h).1.symm
          rw [List.filter_cons_of_pos hP]
          refine iff_of_false (fun ⟨hzero, _⟩ => hfirst ?_) hprefix
          rw [← hwalk]
          exact hzero.2 hP
        | false =>
          rw [List.filter_cons_of_neg (by simp [hP]), ← hrest]
          refine (and_iff_right ?_).trans (forall₂_congr fun p h => iff_congr (hnext p) Iff.rfl)
          rw [hwalk]
          exact iff_of_false hfirst (by simp [hP])

/-! ## The scan -/

/-- `TryInitializeScan`: the deletes of the transaction are read as row ids, and replaced by the
ordinals of the rows with these ids. -/
def inlinedScanFilter (deletes : OrdSet Nat) (rowIds : List Nat) : Option DuckLakeDeleteFilter :=
  (DuckLakeDeleteFilter.initializeInlined {} deletes).map fun f =>
    { f with deleteData :=
      { f.deleteData with deletedRows := deletedOrdinals f.deleteData.deletedRows 0 rowIds } }

theorem initializeInlined_empty (deletes : OrdSet Nat) :
    DuckLakeDeleteFilter.initializeInlined {} deletes =
      some { deleteData := ⟨deletes.elems, []⟩ } := by
  have hsorted : deletes.elems.Pairwise (· ≤ ·) := deletes.sorted.imp Nat.le_of_lt
  have hmerge : DuckLakeDeleteFilter.inplaceMerge ([] ++ deletes.elems)
      (DuckLakeDeleteFilter.midIdx []) = some deletes.elems := by
    have hmid : DuckLakeDeleteFilter.midIdx [] = 0 := by decide
    rw [hmid, DuckLakeDeleteFilter.inplaceMerge, if_pos ⟨le_rfl, by simp, by simp, by simpa⟩]
    simp
  simp only [DuckLakeDeleteFilter.initializeInlined, List.isEmpty_nil, if_true, hmerge]
  rfl

/-- The chunks of the scan keep exactly the rows whose row id is not deleted. -/
def HidesDeletedRows (deletes : OrdSet Nat) (rowIds : List Nat) : Prop :=
  ∃ f, inlinedScanFilter deletes rowIds = some f ∧
    ∀ start count, start + count ≤ rowIds.length →
      (f.filter start count).rows =
        (List.range count).filter fun i => rowIds.getD (start + i) 0 ∉ deletes

/-- A filter by strictly increasing ordinals. -/
theorem rows_filter_ordinals {ordinals : List Nat} (h : ordinals.Pairwise (· < ·))
    (start count : Nat) :
    (DuckLakeDeleteFilter.filter { deleteData := ⟨ordinals, []⟩ } start count).rows =
      (List.range count).filter fun i => start + i ∉ ordinals := by
  set data : DuckLakeDeleteData := ⟨ordinals, []⟩ with hdata
  have hincreasing : data.Increasing := ⟨h, .inl rfl⟩
  have hfst : data.entries.map Prod.fst = ordinals :=
    DuckLakeDeleteData.map_fst_entries hincreasing.paired
  have hentries : data.entries.Pairwise fun a b => a.1 ≤ b.1 := by
    rw [← List.pairwise_map (f := Prod.fst), hfst]
    exact h.imp Nat.le_of_lt
  have hcount : ∀ p, (data.entries.map Prod.fst).count p ≤ 1 := fun p => by
    rw [hfst]
    exact List.nodup_iff_count_le_one.1 (h.imp Nat.ne_of_lt) p
  rw [DuckLakeDeleteFilter.rows_filter]
  refine List.filter_congr fun i _ => ?_
  rw [Bool.eq_iff_iff, Bool.not_eq_true', ← Bool.not_eq_true,
    any_beforeRepeat_dropWhile Prod.fst _ hentries (Nat.le_add_right start i),
    DuckLakeDeleteData.find?_entries hincreasing, and_iff_right fun p _ _ => hcount p]
  simp [DuckLakeDeleteData.hides, hdata]

/-- The rows are hidden by their ordinals exactly if the deleted row ids among those that are read
are the first of the deleted row ids, in their order. -/
theorem hidesDeletedRows_iff (deletes : OrdSet Nat) (rowIds : List Nat) :
    HidesDeletedRows deletes rowIds ↔ rowIds.filter (· ∈ deletes) <+: deletes.elems := by
  have hwalk := @mem_deletedOrdinals_iff (fun rowId => decide (rowId ∈ deletes)) deletes.elems 0
    rowIds fun d hd => decide_eq_true hd
  rw [← hwalk]
  have hfilter : inlinedScanFilter deletes rowIds =
      some { deleteData := ⟨deletedOrdinals deletes.elems 0 rowIds, []⟩ } := by
    rw [inlinedScanFilter, initializeInlined_empty]
    rfl
  have hrows := rows_filter_ordinals (pairwise_deletedOrdinals deletes.elems 0 rowIds)
  have hget : ∀ p (h : p < rowIds.length), rowIds.getD p 0 = rowIds[p] := fun p h => by
    rw [List.getD_eq_getElem?_getD, List.getElem?_eq_getElem h]
    rfl
  constructor
  · rintro ⟨f, hf, hscan⟩ p hp
    obtain rfl := Option.some.inj (hf.symm.trans hfilter)
    have hone := hscan p 1 hp
    rw [hrows, DuckLakeDeleteFilter.filter_eq_filter_iff] at hone
    have hp' := hone 0 (by simp)
    rw [Nat.add_zero, hget p hp, decide_eq_decide, not_iff_not] at hp'
    rw [Nat.zero_add, hp', decide_eq_true_eq]
  · intro hordinals
    refine ⟨_, hfilter, fun start count hcount => ?_⟩
    rw [hrows]
    refine List.filter_congr fun i hi => ?_
    have hlt : start + i < rowIds.length := by
      have hi := List.mem_range.1 hi
      omega
    have hp := hordinals (start + i) hlt
    rw [Nat.zero_add, decide_eq_true_eq] at hp
    rw [hget _ hlt, decide_eq_decide, hp]

/-- A scan that reads the rows in the order of their row ids, all deleted ones among them, hides
exactly these. -/
theorem hidesDeletedRows_of_subset {deletes : OrdSet Nat} {rowIds : List Nat}
    (hsorted : rowIds.Pairwise (· < ·)) (hsubset : ∀ rowId ∈ deletes, rowId ∈ rowIds) :
    HidesDeletedRows deletes rowIds := by
  rw [hidesDeletedRows_iff]
  have heq : rowIds.filter (· ∈ deletes) = deletes.elems := by
    refine (hsorted.sublist List.filter_sublist).eq_of_mem_iff deletes.sorted fun rowId => ?_
    rw [List.mem_filter, decide_eq_true_eq]
    exact ⟨fun h => h.2, fun h => ⟨hsubset rowId h, h⟩⟩
  rw [heq]

/-! ## Rows of a transaction -/

namespace TrackedTable

open DuckLakeInlinedData

section Identity

variable [RowCast]

/-- The inlined rows of a transaction keep their identity as long as its updates are safe, and an
update that is not safe breaks it. The deletes from committed inlined rows hide exactly their rows
if these are read in the order of the deletes, without a gap. -/
theorem identity_kept :
    (∀ rowIds fileRowCount s, Reaches step (fun s => s.table.Safe) (init rowIds fileRowCount) s →
      s.KeepsIdentity ∧ ∀ statement s', s.step statement = some s' →
        (s'.KeepsIdentity ↔ s.table.Safe statement)) ∧
    ∀ deletes rowIds, HidesDeletedRows deletes rowIds ↔
      rowIds.filter (· ∈ deletes) <+: deletes.elems := by
  refine ⟨fun rowIds fileRowCount s h => ?_, hidesDeletedRows_iff⟩
  have hs := consistent_of_reaches h
  exact ⟨hs.keepsIdentity, fun statement s' hstep => keepsIdentity_step_iff hs hstep⟩

/-- Without data files of its own, and when no row outside has the row id of an inlined row, every
update of a transaction is safe. -/
theorem safe_of_noLocalFiles {s s' : TrackedTable} {statement : LocalStatement} (hs : s.Consistent)
    (hstep : s.step statement = some s') (hfiles : s.table.fileRowCount = 0)
    (houtside : ∀ rowId ∈ s.table.rowIds, (rowId : Int) ∉ s.table.data.outputRowIds) :
    s.table.Safe statement := by
  cases statement with
  | insert => trivial
  | delete => trivial
  | outside => trivial
  | update types rows =>
    obtain ⟨htable, -⟩ := step_eq_some hstep
    obtain ⟨hhas, -⟩ := TransactionTable.step_update htable
    have hinlined : ∀ position, s.table.rowId (.inlined position) =
        s.table.data.getOutputRowId position := fun position => by
      by_cases hempty : s.table.data.rowIds = [] <;>
        simp [TransactionTable.rowId, TransactionTable.rowIdStart, columnRowId, hasPreservedRowIds,
          getOutputRowId, hempty, hfiles]
    have hposition : ∀ p < s.table.data.rows.length, ∀ q < s.table.data.rows.length,
        s.table.data.getOutputRowId p = s.table.data.getOutputRowId q → p = q :=
      fun p hp q hq => List.inj_on_of_nodup_map hs.distinct (List.mem_range.2 hp)
        (List.mem_range.2 hq)
    have hne : ∀ rowId ∈ s.table.rowIds, ∀ position < s.table.data.rows.length,
        (rowId : Int) ≠ s.table.data.getOutputRowId position :=
      fun rowId hrow position hlt heq => houtside rowId hrow (heq ▸ getOutputRowId_mem hlt)
    constructor
    · refine (TransactionTable.nodup_of_step_update htable).map_on fun row hrow row' hrow' heq => ?_
      have hrowHas := hhas row hrow
      have hrowHas' := hhas row' hrow'
      cases row with
      | outside rowId =>
        cases row' with
        | outside rowId' => rw [Int.ofNat_inj.1 heq]
        | inlined position =>
          rw [hinlined] at heq
          exact absurd heq (hne rowId hrowHas position hrowHas')
      | inlined position =>
        rw [hinlined] at heq
        cases row' with
        | outside rowId =>
          exact absurd heq.symm (hne rowId hrowHas' position hrowHas)
        | inlined position' =>
          rw [hinlined] at heq
          rw [hposition _ hrowHas _ hrowHas' heq]
    · intro position hleft hmem
      obtain ⟨hlt, hnot⟩ := List.mem_filter.1 hleft
      obtain ⟨row, hrow, heq⟩ := List.mem_map.1 hmem
      have hrowHas := hhas row hrow
      cases row with
      | outside rowId =>
        exact hne rowId hrowHas position (List.mem_range.1 hlt) heq
      | inlined position' =>
        rw [hinlined] at heq
        rw [hposition _ hrowHas _ (List.mem_range.1 hlt) heq] at hrow
        exact of_decide_eq_true hnot hrow

end Identity

/-- Rows are not cast. -/
@[reducible] def castNothing : RowCast where
  castRow _ _ row := .ok row

/-- A data file of two rows and one inlined row; an update moves the first row of the file to the
inlined rows, under the row id that the other inlined row gets. -/
def collidingStatements : List LocalStatement :=
  [.outside [1000000000000000000, 1000000000000000001] 2, .insert ["INTEGER"] ["3"],
    .update ["INTEGER"] [(.outside 1000000000000000000, "10")]]

theorem not_keepsIdentity : ¬ ∀ (_ : RowCast) rowIds fileRowCount s,
    Reaches step (fun _ _ => True) (init rowIds fileRowCount) s → s.KeepsIdentity := by
  intro h
  let _ := castNothing
  have hrun : ∃ s, collidingStatements.foldlM step (init [] 0) = some s ∧
      s.table.data.rowIds = [1000000000000000000, 1000000000000000000] ∧
      s.table.data.rows.length = 2 := ⟨_, rfl, by decide, by decide⟩
  obtain ⟨s, hs, hids, hlength⟩ := hrun
  have hidentity := h castNothing [] 0 s (Reaches.of_foldlM hs)
  have hsame : s.table.data.getRowId 0 = s.table.data.getRowId 1 := by
    simp [getRowId, hasPreservedRowIds, hids]
  have hposition : ∀ p < 2, p < s.table.data.rows.length := fun p hp => by rwa [hlength]
  exact absurd (getRowId_injOn hidentity.distinct (hposition 0 (by decide))
    (hposition 1 (by decide)) hsame) (by decide)

end TrackedTable

end DuckLake
