import Mathlib.Algebra.Order.Ring.Nat
import DuckLake.Common.Util
import DuckLake.Lib.Guard
import DuckLake.Lib.RoseTree

/-!
# The columns of a Parquet file

The schema of a file is listed in preorder, each entry with its number of children. The loop that
rebuilds the tree keeps a stack of the counts that are left and one of the open columns, of which the
first is longer only until the last child of the root begins. `SchemaLoop.after` is the state after
the entries of a forest.
-/

namespace DuckLake

open RoseTree

/-! ## The loop -/

structure ParquetColumnInfo where
  name : Text
  type : Text
  convertedType : Text
  scale : Option Idx
  precision : Option Idx
  fieldId : Option Idx
  logicalType : Text
deriving DecidableEq

/-- A row of `parquet_schema`. -/
structure SchemaEntry where
  column : ParquetColumnInfo
  numChildren : Option Int64

/-- `child_count` -/
def SchemaEntry.childCount (e : SchemaEntry) : Idx :=
  match e.numChildren with
  | none => 0
  | some n => n.toUInt64

/-- `ParquetColumn` without its children. A column with children has no id (`INVALID_INDEX`). -/
structure ParquetColumnData where
  info : ParquetColumnInfo
  columnId : Option ℕ

abbrev ParquetColumn := RoseTree ParquetColumnData

/-- The variables of the loop. A pointer to a column is its place among the columns of the file. The
last elements of the two stacks come first here. -/
structure SchemaLoop where
  sawRoot : Bool := false
  childCounts : List Idx := []
  nextColumnId : ℕ := 0
  columnStack : List (List ℕ) := []
  columns : List ParquetColumn := []
  columnIdMap : List (ℕ × List ℕ) := []

namespace SchemaLoop

/-- The column that the next one is a child of, or the file. -/
def parent (s : SchemaLoop) : List ℕ := s.columnStack.head?.getD []

/-- `column_ptr` -/
def place (s : SchemaLoop) : List ℕ := s.parent ++ [(childrenAt s.columns s.parent).length]

def addColumn (s : SchemaLoop) (e : SchemaEntry) : SchemaLoop :=
  if e.childCount = 0 then
    { s with
      nextColumnId := s.nextColumnId + 1
      columns := attach s.columns s.parent (.node ⟨e.column, some s.nextColumnId⟩ [])
      -- the first entry of an id counts, as with `emplace`
      columnIdMap := s.columnIdMap ++ [(s.nextColumnId, s.place)] }
  else { s with columns := attach s.columns s.parent (.node ⟨e.column, none⟩ []) }

/-- `child_counts.back()--`, and the end of the column whose last child this was. -/
def countDown (s : SchemaLoop) : SchemaLoop :=
  match s.childCounts with
  | [] => s
  | count :: counts =>
    if count - 1 = 0 then { s with childCounts := counts, columnStack := s.columnStack.tail }
    else { s with childCounts := (count - 1) :: counts }

def openColumn (s : SchemaLoop) (place : List ℕ) (childCount : Idx) : SchemaLoop :=
  if 0 < childCount then
    { s with
      columnStack := place :: s.columnStack
      childCounts := childCount :: s.childCounts }
  else s

def unalignedException : Exception :=
  ⟨.invalidInput, "child_counts provided by parquet_schema are unaligned"⟩

/-- The body of the loop. -/
def step (s : SchemaLoop) (e : SchemaEntry) : Except Exception SchemaLoop :=
  if s.sawRoot then
    if s.childCounts.isEmpty then .error unalignedException
    else .ok ((s.addColumn e).countDown.openColumn s.place e.childCount)
  else .ok { s with sawRoot := true, childCounts := e.childCount :: s.childCounts }

end SchemaLoop

def loadSchema (entries : List SchemaEntry) : Except Exception SchemaLoop :=
  entries.foldlM SchemaLoop.step {}

/-! ## The forest that the entries describe -/

/-- The entry, as an element of a preorder listing. -/
def SchemaEntry.item (e : SchemaEntry) : ParquetColumnInfo × ℕ := (e.column, e.childCount.toNat)

mutual

def leafCount : RoseTree ParquetColumnInfo → ℕ
  | .node _ ts => if ts.isEmpty then 1 else leafCountAll ts

def leafCountAll : List (RoseTree ParquetColumnInfo) → ℕ
  | [] => 0
  | t :: ts => leafCount t + leafCountAll ts

end

mutual

/-- The columns of a tree, its leaves numbered in their order. -/
def numbered (next : ℕ) : RoseTree ParquetColumnInfo → ParquetColumn
  | .node info ts =>
    .node ⟨info, if ts.isEmpty then some next else none⟩ (numberedAll next ts)

def numberedAll (next : ℕ) : List (RoseTree ParquetColumnInfo) → List ParquetColumn
  | [] => []
  | t :: ts => numbered next t :: numberedAll (next + leafCount t) ts

end

mutual

/-- The places of the leaves, with their numbers. -/
def leafPlaces (place : List ℕ) (next : ℕ) : RoseTree ParquetColumnInfo → List (ℕ × List ℕ)
  | .node _ ts => if ts.isEmpty then [(next, place)] else leafPlacesAll place 0 next ts

def leafPlacesAll (parent : List ℕ) (i next : ℕ) :
    List (RoseTree ParquetColumnInfo) → List (ℕ × List ℕ)
  | [] => []
  | t :: ts =>
    leafPlaces (parent ++ [i]) next t ++ leafPlacesAll parent (i + 1) (next + leafCount t) ts

end

namespace SchemaLoop

/-- The state after the entries of a forest, where `k` children of the parent are left before
them. -/
def after (s : SchemaLoop) (k : ℕ) (counts : List Idx) (ts : List (RoseTree ParquetColumnInfo)) :
    SchemaLoop where
  sawRoot := s.sawRoot
  childCounts := if ts.length = k then counts else UInt64.ofNat (k - ts.length) :: counts
  nextColumnId := s.nextColumnId + leafCountAll ts
  columnStack := if ts.length = k then s.columnStack.tail else s.columnStack
  columns := attachAll s.columns s.parent (numberedAll s.nextColumnId ts)
  columnIdMap := s.columnIdMap ++
    leafPlacesAll s.parent (childrenAt s.columns s.parent).length s.nextColumnId ts

theorem ofNat_eq_zero {k : ℕ} (hk : k < 2 ^ 64) : UInt64.ofNat k = 0 ↔ k = 0 := by
  rw [← UInt64.toNat_inj, UInt64.toNat_ofNat_of_lt' hk]
  rfl

theorem ofNat_sub_one {k : ℕ} (hk : 0 < k) : UInt64.ofNat k - 1 = UInt64.ofNat (k - 1) :=
  (UInt64.ofNat_sub hk).symm

theorem after_nil {s : SchemaLoop} {k : ℕ} {counts : List Idx} (hk : 0 < k)
    (hcounts : s.childCounts = UInt64.ofNat k :: counts) : s.after k counts [] = s := by
  have hne : ¬ 0 = k := Nat.ne_of_lt hk
  simp [after, hne, leafCountAll, numberedAll, leafPlacesAll, attachAll, ← hcounts]

theorem after_cons {s : SchemaLoop} {k : ℕ} {counts : List Idx} (hk : 1 < k)
    (hplace : HasPlace s.columns s.parent) (t : RoseTree ParquetColumnInfo)
    (ts : List (RoseTree ParquetColumnInfo)) :
    (s.after k counts [t]).after (k - 1) counts ts = s.after k counts (t :: ts) := by
  have hne : ¬ 1 = k := Nat.ne_of_lt hk
  have hlength : ts.length = k - 1 ↔ ts.length + 1 = k := by omega
  have hsub : k - 1 - ts.length = k - (ts.length + 1) := by omega
  have hparent : (s.after k counts [t]).parent = s.parent := by simp [after, parent, hne]
  have hchildren : (childrenAt (s.after k counts [t]).columns s.parent).length =
      (childrenAt s.columns s.parent).length + 1 := by
    simp [after, numberedAll, attachAll, childrenAt_attach hplace]
  rw [after, hparent, hchildren]
  simp only [after, hne, hlength, hsub, List.length_cons, List.length_nil, leafCountAll,
    numberedAll, leafPlacesAll, Nat.add_zero, List.append_nil, List.append_assoc, if_false,
    Nat.zero_add, Nat.add_assoc]
  rfl

/-- The state after the entry of a column, apart from what is open. -/
theorem step_eq {s : SchemaLoop} {k : ℕ} {counts : List Idx} (hroot : s.sawRoot = true)
    (hcounts : s.childCounts = UInt64.ofNat k :: counts) (hk : 0 < k) (hk' : k < 2 ^ 64)
    (e : SchemaEntry) :
    s.step e = .ok (openColumn
      { s.addColumn e with
        childCounts := if 1 = k then counts else UInt64.ofNat (k - 1) :: counts
        columnStack := if 1 = k then s.columnStack.tail else s.columnStack }
      s.place e.childCount) := by
  have hadd : (s.addColumn e).childCounts = UInt64.ofNat k :: counts := by
    unfold addColumn
    split <;> exact hcounts
  have hstack : (s.addColumn e).columnStack = s.columnStack := by
    unfold addColumn
    split <;> rfl
  rw [step, if_pos hroot, hcounts]
  simp only [List.isEmpty_cons, Bool.false_eq_true, if_false]
  congr 2
  rw [countDown, hadd]
  simp only [ofNat_sub_one hk, ofNat_eq_zero (Nat.lt_of_le_of_lt (Nat.sub_le k 1) hk'), hstack]
  by_cases h : k = 1
  · subst h
    rfl
  · have h0 : ¬ k - 1 = 0 := by omega
    have h1 : ¬ 1 = k := Ne.symm h
    simp [h0, h1]

/-- The state after the entry of a column with children. -/
def enter (s : SchemaLoop) (k : ℕ) (counts : List Idx) (e : SchemaEntry) : SchemaLoop :=
  { s with
    childCounts := e.childCount :: if 1 = k then counts else UInt64.ofNat (k - 1) :: counts
    columnStack := s.place :: if 1 = k then s.columnStack.tail else s.columnStack
    columns := attach s.columns s.parent (.node ⟨e.column, none⟩ []) }

theorem step_inner {s : SchemaLoop} {k : ℕ} {counts : List Idx} (hroot : s.sawRoot = true)
    (hcounts : s.childCounts = UInt64.ofNat k :: counts) (hk : 0 < k) (hk' : k < 2 ^ 64)
    {e : SchemaEntry} (he : e.childCount ≠ 0) : s.step e = .ok (s.enter k counts e) := by
  rw [step_eq hroot hcounts hk hk', addColumn, if_neg he, openColumn,
    if_pos (UInt64.pos_iff_ne_zero.2 he)]
  rfl

theorem step_leaf {s : SchemaLoop} {k : ℕ} {counts : List Idx} (hroot : s.sawRoot = true)
    (hcounts : s.childCounts = UInt64.ofNat k :: counts) (hk : 0 < k) (hk' : k < 2 ^ 64)
    {e : SchemaEntry} (he : e.childCount = 0) :
    s.step e = .ok (s.after k counts [.node e.column []]) := by
  rw [step_eq hroot hcounts hk hk', addColumn, if_pos he, openColumn, he, if_neg (by decide)]
  simp [after, leafCountAll, leafCount, numberedAll, numbered, leafPlacesAll, leafPlaces, attachAll,
    place]

/-- After the children of a column everything is as after the column. -/
theorem enter_after {s : SchemaLoop} (k : ℕ) (counts : List Idx)
    (hplace : HasPlace s.columns s.parent) (e : SchemaEntry)
    {ts : List (RoseTree ParquetColumnInfo)} (hts : ts ≠ []) :
    (s.enter k counts e).after ts.length
      (if 1 = k then counts else UInt64.ofNat (k - 1) :: counts) ts =
      s.after k counts [.node e.column ts] := by
  have hempty : ts.isEmpty = false := by simpa using hts
  have hparent : (s.enter k counts e).parent = s.place := rfl
  have hchildren : childrenAt (attach s.columns s.parent (.node ⟨e.column, none⟩ [])) s.place = [] :=
    childrenAt_attach_last hplace _
  have hattach := attachAll_last hplace ⟨e.column, none⟩ (numberedAll s.nextColumnId ts)
  rw [after, hparent]
  simp only [enter, hchildren, if_true, after, leafCountAll, leafCount, numberedAll, numbered,
    leafPlacesAll, leafPlaces, hempty, List.length_singleton, List.length_nil, List.tail_cons,
    Bool.false_eq_true, if_false, Nat.add_zero, List.append_nil]
  rw [place, hattach]
  rfl

mutual

/-- The entries of a tree add it to the children of the parent, and leave open what was open. -/
theorem foldlM_tree {s : SchemaLoop} {k : ℕ} {counts : List Idx} {es : List SchemaEntry}
    (hroot : s.sawRoot = true) (hcounts : s.childCounts = UInt64.ofNat k :: counts) (hk : 0 < k)
    (hk' : k < 2 ^ 64) (hplace : HasPlace s.columns s.parent) (t : RoseTree ParquetColumnInfo)
    (hes : es.map SchemaEntry.item = preorder t) :
    es.foldlM step s = .ok (s.after k counts [t]) := by
  cases t with
  | node info ts =>
  rw [preorder] at hes
  obtain ⟨e, es, rfl, hitem, hrest⟩ := List.map_eq_cons_iff.1 hes
  obtain ⟨rfl, hcount⟩ := Prod.mk.inj hitem
  have hchildCount : e.childCount = UInt64.ofNat ts.length := by
    rw [← hcount, UInt64.ofNat_toNat]
  have hlength : ts.length < 2 ^ 64 := hcount ▸ e.childCount.toNat_lt
  rw [List.foldlM_cons]
  by_cases hts : ts = []
  · have hleaf : e.childCount = 0 := by rw [hchildCount, hts]; rfl
    rw [hts, preorderAll, List.map_eq_nil_iff] at hrest
    rw [step_leaf hroot hcounts hk hk' hleaf, hrest, hts]
    rfl
  · have hpos : 0 < ts.length := List.length_pos_iff.2 hts
    have hinner : e.childCount ≠ 0 := by
      rw [hchildCount, Ne, ofNat_eq_zero hlength]
      omega
    rw [step_inner hroot hcounts hk hk' hinner, ← enter_after k counts hplace e hts]
    exact foldlM_forest (s := s.enter k counts e) hroot (congrArg (· :: _) hchildCount) hpos hlength
      (hasPlace_attach_last hplace _) ts le_rfl hrest
termination_by structural t

theorem foldlM_forest {s : SchemaLoop} {k : ℕ} {counts : List Idx} {es : List SchemaEntry}
    (hroot : s.sawRoot = true) (hcounts : s.childCounts = UInt64.ofNat k :: counts) (hk : 0 < k)
    (hk' : k < 2 ^ 64) (hplace : HasPlace s.columns s.parent) (ts : List (RoseTree ParquetColumnInfo))
    (hts : ts.length ≤ k) (hes : es.map SchemaEntry.item = preorderAll ts) :
    es.foldlM step s = .ok (s.after k counts ts) := by
  cases ts with
  | nil =>
    rw [preorderAll, List.map_eq_nil_iff] at hes
    rw [hes, after_nil hk hcounts]
    rfl
  | cons t ts =>
    rw [preorderAll] at hes
    obtain ⟨es₁, es₂, rfl, h₁, h₂⟩ := List.map_eq_append_iff.1 hes
    have ht := foldlM_tree hroot hcounts hk hk' hplace t h₁
    rw [List.foldlM_append, ht]
    by_cases hlast : k = 1
    · subst hlast
      obtain rfl : ts = [] := List.length_eq_zero_iff.1 (by simpa using hts)
      rw [preorderAll, List.map_eq_nil_iff] at h₂
      rw [h₂]
      rfl
    · have hk₁ : 1 < k := by omega
      have hne : ¬ 1 = k := Ne.symm hlast
      have hparent : (s.after k counts [t]).parent = s.parent := by simp [after, parent, hne]
      have hcounts₁ : (s.after k counts [t]).childCounts = UInt64.ofNat (k - 1) :: counts := by
        simp [after, hne]
      have hplace₁ : HasPlace (s.after k counts [t]).columns (s.after k counts [t]).parent := by
        rw [hparent]
        exact hasPlace_attach hplace _ _
      have hts₁ : ts.length ≤ k - 1 := by
        rw [List.length_cons] at hts
        omega
      refine Eq.trans ?_ (congrArg Except.ok (after_cons hk₁ hplace t ts))
      exact foldlM_forest (s := s.after k counts [t]) hroot hcounts₁ (by omega) (by omega) hplace₁
        ts hts₁ h₂
termination_by structural ts

end

end SchemaLoop

/-! ## The columns of a forest -/

mutual

theorem map_numbered (next : ℕ) (t : RoseTree ParquetColumnInfo) :
    map ParquetColumnData.info (numbered next t) = t := by
  cases t with
  | node info ts => rw [numbered, map, mapAll_numberedAll next ts]
termination_by structural t

theorem mapAll_numberedAll (next : ℕ) (ts : List (RoseTree ParquetColumnInfo)) :
    mapAll ParquetColumnData.info (numberedAll next ts) = ts := by
  cases ts with
  | nil => rfl
  | cons t ts => rw [numberedAll, mapAll, map_numbered next t, mapAll_numberedAll _ ts]
termination_by structural ts

end

/-- The ids of the columns in preorder. -/
def columnIds (columns : List ParquetColumn) : List ℕ :=
  (preorderAll columns).filterMap fun entry => entry.1.columnId

mutual

theorem columnIds_numbered (next : ℕ) (t : RoseTree ParquetColumnInfo) :
    (preorder (numbered next t)).filterMap (fun entry => entry.1.columnId) =
      List.range' next (leafCount t) := by
  cases t with
  | node info ts =>
  by_cases hts : ts = []
  · subst hts
    rfl
  · have hempty : ts.isEmpty = false := by simpa using hts
    simp only [numbered, preorder, leafCount, hempty, Bool.false_eq_true, if_false,
      List.filterMap_cons_none]
    exact columnIds_numberedAll next ts
termination_by structural t

theorem columnIds_numberedAll (next : ℕ) (ts : List (RoseTree ParquetColumnInfo)) :
    columnIds (numberedAll next ts) = List.range' next (leafCountAll ts) := by
  cases ts with
  | nil => rfl
  | cons t ts =>
    rw [numberedAll, columnIds, preorderAll, List.filterMap_append, columnIds_numbered next t,
      ← columnIds, columnIds_numberedAll _ ts, leafCountAll, List.range'_append_1]
termination_by structural ts

end

mutual

theorem leafPlaces_fst (place : List ℕ) (next : ℕ) (t : RoseTree ParquetColumnInfo) :
    (leafPlaces place next t).map Prod.fst = List.range' next (leafCount t) := by
  cases t with
  | node info ts =>
  rw [leafPlaces, leafCount]
  split
  · rfl
  · exact leafPlacesAll_fst place 0 next ts
termination_by structural t

theorem leafPlacesAll_fst (parent : List ℕ) (i next : ℕ) (ts : List (RoseTree ParquetColumnInfo)) :
    (leafPlacesAll parent i next ts).map Prod.fst = List.range' next (leafCountAll ts) := by
  cases ts with
  | nil => rfl
  | cons t ts =>
    rw [leafPlacesAll, List.map_append, leafPlaces_fst _ next t, leafPlacesAll_fst parent _ _ ts,
      leafCountAll, List.range'_append_1]
termination_by structural ts

end

/-- The column is a leaf with the id. -/
def IsLeaf (id : ℕ) (column : ParquetColumn) : Prop := ∃ info, column = .node ⟨info, some id⟩ []

mutual

theorem nodeAt_leafPlaces {columns : List ParquetColumn} {place : List ℕ} {next : ℕ}
    (t : RoseTree ParquetColumnInfo) (h : nodeAt columns place = some (numbered next t))
    (hchildren : childrenAt columns place = (numbered next t).children) :
    ∀ entry ∈ leafPlaces place next t, ∃ column, nodeAt columns entry.2 = some column ∧
      IsLeaf entry.1 column := by
  cases t with
  | node info ts =>
  intro entry hentry
  rw [leafPlaces] at hentry
  split at hentry
  next hempty =>
    obtain rfl := List.isEmpty_iff.1 hempty
    obtain rfl := List.mem_singleton.1 hentry
    exact ⟨_, h, info, rfl⟩
  next => exact nodeAt_leafPlacesAll ts (b := []) hchildren rfl entry hentry
termination_by structural t

theorem nodeAt_leafPlacesAll {columns : List ParquetColumn} {parent : List ℕ} {i next : ℕ}
    (ts : List (RoseTree ParquetColumnInfo)) {b : List ParquetColumn}
    (h : childrenAt columns parent = b ++ numberedAll next ts) (hi : b.length = i) :
    ∀ entry ∈ leafPlacesAll parent i next ts, ∃ column, nodeAt columns entry.2 = some column ∧
      IsLeaf entry.1 column := by
  cases ts with
  | nil => exact fun _ hentry => nomatch hentry
  | cons t ts =>
    intro entry hentry
    rw [numberedAll] at h
    have hat : (childrenAt columns parent)[i]? = some (numbered next t) := by
      rw [h, ← hi]
      simp
    rcases List.mem_append.1 hentry with hentry | hentry
    · refine nodeAt_leafPlaces t ?_ ?_ entry hentry
      · rw [nodeAt_append, hat]
      · rw [childrenAt_append, hat]
        rfl
    · exact nodeAt_leafPlacesAll ts (b := b ++ [numbered next t]) (by simp [h])
        (by simp [hi]) entry hentry
termination_by structural ts

end

/-! ## All lists of entries -/

namespace SchemaLoop

def start (root : SchemaEntry) : SchemaLoop :=
  { sawRoot := true, childCounts := [root.childCount] }

theorem loadSchema_cons (root : SchemaEntry) (entries : List SchemaEntry) :
    loadSchema (root :: entries) = entries.foldlM step (start root) := rfl

theorem foldlM_start {root : SchemaEntry} (hroot : root.childCount ≠ 0) {es : List SchemaEntry}
    {ts : List (RoseTree ParquetColumnInfo)} (hts : ts.length = root.childCount.toNat)
    (hes : es.map SchemaEntry.item = preorderAll ts) :
    es.foldlM step (start root) = .ok ((start root).after ts.length [] ts) := by
  have hcounts : (start root).childCounts = [UInt64.ofNat ts.length] := by
    rw [hts, UInt64.ofNat_toNat]
    rfl
  have hpos : 0 < ts.length := by
    rw [hts, Nat.pos_iff_ne_zero]
    exact fun h => hroot (UInt64.toNat_inj.1 h)
  exact foldlM_forest rfl hcounts hpos (hts ▸ root.childCount.toNat_lt) trivial ts le_rfl hes

theorem step_closed {s : SchemaLoop} (hroot : s.sawRoot = true) (hcounts : s.childCounts = [])
    (e : SchemaEntry) :
    s.step e = .error unalignedException := by
  rw [step, if_pos hroot, hcounts]
  rfl

/-- A column that was added keeps its place. -/
theorem label_step {s s' : SchemaLoop} {e : SchemaEntry} (h : s.step e = .ok s') {place : List ℕ}
    {d : ParquetColumnData} (hlabel : (nodeAt s.columns place).map label = some d) :
    (nodeAt s'.columns place).map label = some d := by
  have hadd : ∃ t, (s.addColumn e).columns = attach s.columns s.parent t := by
    unfold addColumn
    split <;> exact ⟨_, rfl⟩
  have hcount (s : SchemaLoop) : s.countDown.columns = s.columns := by
    unfold countDown
    split
    · rfl
    · split <;> rfl
  have hopen (s : SchemaLoop) (p : List ℕ) (n : Idx) : (s.openColumn p n).columns = s.columns := by
    unfold openColumn
    split <;> rfl
  unfold step at h
  split at h
  · split at h
    · cases h
    · obtain rfl := Except.ok.inj h
      obtain ⟨t, ht⟩ := hadd
      rw [hopen, hcount, ht]
      exact label_attach _ _ t hlabel
  · obtain rfl := Except.ok.inj h
    exact hlabel

theorem label_foldlM {s s' : SchemaLoop} {es : List SchemaEntry} (h : es.foldlM step s = .ok s')
    {place : List ℕ} {d : ParquetColumnData}
    (hlabel : (nodeAt s.columns place).map label = some d) :
    (nodeAt s'.columns place).map label = some d := by
  induction es generalizing s with
  | nil =>
    obtain rfl := Except.ok.inj h
    exact hlabel
  | cons e es ih =>
    rw [List.foldlM_cons] at h
    obtain ⟨s₁, hstep, hrest⟩ := bind_eq_ok.1 h
    exact ih hrest (label_step hstep hlabel)

theorem foldlM_throws {root : SchemaEntry} (hroot : root.childCount ≠ 0) {es : List SchemaEntry}
    {ts : List (RoseTree ParquetColumnInfo)} {others : List (ParquetColumnInfo × ℕ)}
    (hts : ts.length = root.childCount.toNat)
    (hes : es.map SchemaEntry.item = preorderAll ts ++ others) (hothers : others ≠ []) :
    ∃ e, es.foldlM step (start root) = .error e := by
  obtain ⟨es₁, es₂, rfl, h₁, h₂⟩ := List.map_eq_append_iff.1 hes
  cases es₂ with
  | nil => exact absurd h₂.symm hothers
  | cons e es₂ =>
    rw [List.foldlM_append, foldlM_start hroot hts h₁]
    have hclosed : ((start root).after ts.length [] ts).childCounts = [] := if_pos rfl
    refine ⟨unalignedException, ?_⟩
    show (e :: es₂).foldlM step ((start root).after ts.length [] ts) = _
    rw [List.foldlM_cons, step_closed rfl hclosed]
    rfl

/-- An entry of a column without children. -/
def leafEntry (info : ParquetColumnInfo) : SchemaEntry := ⟨info, none⟩

/-- Entries that can be completed to the listing of the forest build a part of it. -/
theorem foldlM_part {root : SchemaEntry} (hroot : root.childCount ≠ 0) {es : List SchemaEntry}
    {ts : List (RoseTree ParquetColumnInfo)} {info : ParquetColumnInfo} {m : ℕ}
    (hts : ts.length = root.childCount.toNat)
    (hes : es.map SchemaEntry.item ++ List.replicate m (info, 0) = preorderAll ts) :
    ∃ file, es.foldlM step (start root) = .ok file ∧
      ∀ place d, (nodeAt file.columns place).map label = some d →
        (nodeAt ts place).map label = some d.info := by
  have hall : (es ++ List.replicate m (leafEntry info)).map SchemaEntry.item = preorderAll ts := by
    rw [List.map_append, List.map_replicate, ← hes]
    rfl
  have hrun := foldlM_start hroot hts hall
  rw [List.foldlM_append] at hrun
  obtain ⟨file, hfile, hrest⟩ := bind_eq_ok.1 hrun
  refine ⟨file, hfile, fun place d hd => ?_⟩
  have hlast := label_foldlM hrest hd
  have hcolumns : ((start root).after ts.length [] ts).columns = numberedAll 0 ts :=
    attachAll_nil [] _
  obtain ⟨column, hcolumn, rfl⟩ := Option.map_eq_some_iff.1 hlast
  rw [hcolumns] at hcolumn
  rw [← mapAll_numberedAll 0 ts, nodeAt_mapAll, hcolumn, Option.map_some, Option.map_some, label_map]

theorem forest_or_part (root : SchemaEntry) (es : List SchemaEntry) (info : ParquetColumnInfo) :
    (∃ ts others, ts.length = root.childCount.toNat ∧
      es.map SchemaEntry.item = preorderAll ts ++ others ∧ others ≠ []) ∨
    ∃ ts m, ts.length = root.childCount.toNat ∧
      es.map SchemaEntry.item ++ List.replicate m (info, 0) = preorderAll ts := by
  rcases listing_or_completion info root.childCount.toNat (es.map SchemaEntry.item) with
    ⟨ts, others, h, hts⟩ | ⟨ts, m, h, hts⟩
  · by_cases hothers : others = []
    · exact .inr ⟨ts, 0, hts, by simp [h, hothers]⟩
    · exact .inl ⟨ts, others, hts, h, hothers⟩
  · exact .inr ⟨ts, m, hts, h⟩

/-! ### A root without children -/

/-- The count of the root is below those of the open columns. -/
theorem step_endless {s : SchemaLoop} (hroot : s.sawRoot = true) {tops : List Idx} {b : Idx}
    (hcounts : s.childCounts = tops ++ [b]) (hb : b - 1 ≠ 0) (e : SchemaEntry) :
    ∃ s' tops' b', s.step e = .ok s' ∧ s'.sawRoot = true ∧ s'.childCounts = tops' ++ [b'] ∧
      (tops ≠ [] ∧ b' = b ∨ b' = b - 1) := by
  have hadd : (s.addColumn e).childCounts = tops ++ [b] ∧ (s.addColumn e).sawRoot = true := by
    unfold addColumn
    split <;> exact ⟨hcounts, hroot⟩
  have hcount : ∃ tops' b', (s.addColumn e).countDown.childCounts = tops' ++ [b'] ∧
      (tops ≠ [] ∧ b' = b ∨ b' = b - 1) := by
    unfold countDown
    rw [hadd.1]
    cases tops with
    | nil => exact ⟨[], b - 1, by simp [hb], .inr rfl⟩
    | cons t tops =>
      by_cases ht : t - 1 = 0
      · exact ⟨tops, b, by simp [ht], .inl ⟨List.cons_ne_nil _ _, rfl⟩⟩
      · exact ⟨(t - 1) :: tops, b, by simp [ht], .inl ⟨List.cons_ne_nil _ _, rfl⟩⟩
  have hcountRoot : (s.addColumn e).countDown.sawRoot = true := by
    unfold countDown
    split
    · exact hadd.2
    · split <;> exact hadd.2
  obtain ⟨tops', b', hcounts', hb'⟩ := hcount
  have hopen : ∃ tops'', ((s.addColumn e).countDown.openColumn s.place e.childCount).childCounts =
      tops'' ++ [b'] := by
    unfold openColumn
    split
    · exact ⟨e.childCount :: tops', by simp [hcounts']⟩
    · exact ⟨tops', hcounts'⟩
  obtain ⟨tops'', hopen⟩ := hopen
  refine ⟨_, tops'', b', ?_, ?_, hopen, hb'⟩
  · rw [step, if_pos hroot, hcounts, if_neg (by simp)]
  · unfold openColumn
    split <;> exact hcountRoot

theorem foldlM_endless {s : SchemaLoop} (hroot : s.sawRoot = true) {tops : List Idx} {b : Idx}
    (hcounts : s.childCounts = tops ++ [b]) {es : List SchemaEntry} (hes : es.length < b.toNat) :
    ∃ file, es.foldlM step s = .ok file := by
  induction es generalizing s tops b with
  | nil => exact ⟨s, rfl⟩
  | cons e es ih =>
    rw [List.length_cons] at hes
    have hsub : (b - 1).toNat = b.toNat - 1 := UInt64.toNat_sub_of_le _ _ (by
      rw [UInt64.le_iff_toNat_le]
      show 1 ≤ b.toNat
      omega)
    have hb : b - 1 ≠ 0 := fun h => by
      rw [h] at hsub
      have : 0 = b.toNat - 1 := hsub
      omega
    obtain ⟨s', tops', b', hstep, hroot', hcounts', hb'⟩ := step_endless hroot hcounts hb e
    rw [List.foldlM_cons, hstep]
    refine ih hroot' hcounts' ?_
    rcases hb' with ⟨-, rfl⟩ | rfl
    · omega
    · omega

/-- The count of a root without children wraps at the first entry. -/
theorem foldlM_wrapped {root : SchemaEntry} (hroot : root.childCount = 0) {es : List SchemaEntry}
    (hes : es.length < 2 ^ 64) : ∃ file, es.foldlM step (start root) = .ok file := by
  cases es with
  | nil => exact ⟨_, rfl⟩
  | cons e es =>
    have hcounts : (start root).childCounts = [] ++ [(0 : Idx)] := by
      rw [← hroot]
      rfl
    have hwrap : (0 : Idx) - 1 ≠ 0 := by decide
    obtain ⟨s', tops', b', hstep, hroot', hcounts', hb'⟩ := step_endless rfl hcounts hwrap e
    obtain rfl : b' = 0 - 1 := hb'.resolve_left fun h => h.1 rfl
    rw [List.foldlM_cons, hstep]
    refine foldlM_endless hroot' hcounts' ?_
    rw [List.length_cons] at hes
    exact Nat.lt_sub_of_add_lt hes

end SchemaLoop

/-- The schema of a file. Its length is that of a list in a vector. -/
structure ParquetSchema where
  entries : List SchemaEntry
  length_lt : entries.length < 2 ^ 64

/-- The entries after the root are those of the forest, with as many trees as the root has children,
and then the others. -/
def ParquetSchema.Lists (schema : ParquetSchema) (ts : List (RoseTree ParquetColumnInfo))
    (others : List (ParquetColumnInfo × ℕ)) : Prop :=
  ∃ root entries, schema.entries = root :: entries ∧ ts.length = root.childCount.toNat ∧
    entries.map SchemaEntry.item = preorderAll ts ++ others

/-- What the loop is to do with the entries. -/
structure ParquetSchema.Rebuilt (schema : ParquetSchema) : Prop where
  throws : (∃ e, loadSchema schema.entries = .error e) ↔
    ∃ ts others, schema.Lists ts others ∧ others ≠ []
  forest : ∀ ts, schema.Lists ts [] → ∃ file, loadSchema schema.entries = .ok file ∧
    mapAll ParquetColumnData.info file.columns = ts ∧
    columnIds file.columns = List.range (leafCountAll ts) ∧
    file.columnIdMap.map Prod.fst = List.range (leafCountAll ts) ∧
    ∀ entry ∈ file.columnIdMap, ∃ column, nodeAt file.columns entry.2 = some column ∧
      IsLeaf entry.1 column
  inside : ∀ root entries file, schema.entries = root :: entries →
    loadSchema schema.entries = .ok file → ∃ ts missing, ts.length = root.childCount.toNat ∧
      entries.map SchemaEntry.item ++ missing = preorderAll ts ∧
      ∀ place d, (nodeAt file.columns place).map label = some d →
        (nodeAt ts place).map label = some d.info

open SchemaLoop

theorem rebuilt_of_root {schema : ParquetSchema} {root : SchemaEntry} {entries : List SchemaEntry}
    (h : schema.entries = root :: entries) (hroot : root.childCount ≠ 0) : schema.Rebuilt where
  throws := by
    rw [h, loadSchema_cons]
    constructor
    · rintro ⟨e, he⟩
      rcases forest_or_part root entries root.column with
        ⟨ts, others, hts, hes, hothers⟩ | ⟨ts, m, hts, hes⟩
      · exact ⟨ts, others, ⟨root, entries, h, hts, hes⟩, hothers⟩
      · obtain ⟨file, hfile, -⟩ := foldlM_part hroot hts hes
        rw [hfile] at he
        cases he
    · rintro ⟨ts, others, ⟨root', entries', h', hts, hes⟩, hothers⟩
      obtain ⟨rfl, rfl⟩ := List.cons.inj (h.symm.trans h')
      exact foldlM_throws hroot hts hes hothers
  forest := by
    rintro ts ⟨root', entries', h', hts, hes⟩
    obtain ⟨rfl, rfl⟩ := List.cons.inj (h.symm.trans h')
    rw [List.append_nil] at hes
    have hcolumns : ((start root).after ts.length [] ts).columns = numberedAll 0 ts :=
      attachAll_nil [] _
    refine ⟨_, by rw [h, loadSchema_cons, foldlM_start hroot hts hes], ?_, ?_, ?_, ?_⟩
    · rw [hcolumns, mapAll_numberedAll]
    · rw [hcolumns, columnIds_numberedAll, List.range_eq_range']
    · exact (leafPlacesAll_fst [] 0 0 ts).trans List.range_eq_range'.symm
    · rw [hcolumns]
      exact nodeAt_leafPlacesAll ts (b := []) rfl rfl
  inside := by
    intro root' entries' file h' hfile
    obtain ⟨rfl, rfl⟩ := List.cons.inj (h.symm.trans h')
    rw [h, loadSchema_cons] at hfile
    rcases forest_or_part root entries root.column with
      ⟨ts, others, hts, hes, hothers⟩ | ⟨ts, m, hts, hes⟩
    · obtain ⟨e, he⟩ := foldlM_throws hroot hts hes hothers
      rw [hfile] at he
      cases he
    · obtain ⟨file', hfile', hinside⟩ := foldlM_part hroot hts hes
      obtain rfl := Except.ok.inj (hfile.symm.trans hfile')
      exact ⟨ts, _, hts, hes, hinside⟩

theorem rebuilt_of_root_only {schema : ParquetSchema} {root : SchemaEntry}
    (h : schema.entries = [root]) (hroot : root.childCount = 0) : schema.Rebuilt := by
  have hok : loadSchema schema.entries = .ok (start root) := by rw [h]; rfl
  have hlists {ts others} (hl : schema.Lists ts others) : ts = [] ∧ others = [] := by
    obtain ⟨root', entries', h', hts, hes⟩ := hl
    obtain ⟨rfl, rfl⟩ := List.cons.inj (h.symm.trans h')
    rw [hroot] at hts
    obtain rfl := List.length_eq_zero_iff.1 hts
    exact ⟨rfl, hes.symm⟩
  refine ⟨?_, fun ts hts => ?_, fun root' entries' file h' hfile => ?_⟩
  · refine iff_of_false (fun ⟨_, he⟩ => nomatch hok.symm.trans he) ?_
    rintro ⟨ts, others, hl, hothers⟩
    exact hothers (hlists hl).2
  · obtain ⟨rfl, -⟩ := hlists hts
    exact ⟨start root, hok, rfl, rfl, rfl, fun _ hentry => nomatch hentry⟩
  · obtain ⟨rfl, rfl⟩ := List.cons.inj (h.symm.trans h')
    obtain rfl := Except.ok.inj (hok.symm.trans hfile)
    refine ⟨[], [], by rw [hroot]; rfl, rfl, fun place d hd => ?_⟩
    cases place with
    | nil => cases hd
    | cons i place => cases place <;> cases hd

theorem rebuilt_of_empty {schema : ParquetSchema} (h : schema.entries = []) : schema.Rebuilt := by
  have hno {root entries} (h' : schema.entries = root :: entries) : False :=
    List.cons_ne_nil _ _ (h'.symm.trans h)
  refine ⟨iff_of_false ?_ ?_, fun ts ⟨_, _, h', _⟩ => (hno h').elim,
    fun _ _ _ h' => (hno h').elim⟩
  · rintro ⟨e, he⟩
    rw [h] at he
    cases he
  · rintro ⟨ts, others, ⟨_, _, h', _⟩, _⟩
    exact hno h'

/-- The loop rebuilds the forest from its listing and rejects every entry after it, unless the root
has no children and entries follow: its count then wraps, and they are taken for columns. -/
theorem rebuilt_iff (schema : ParquetSchema) :
    schema.Rebuilt ↔ ∀ root entries, schema.entries = root :: entries →
      root.childCount ≠ 0 ∨ entries = [] := by
  constructor
  · intro hrebuilt root entries h
    rw [or_iff_not_imp_left, not_not]
    intro hroot
    by_contra hentries
    have hothers : entries.map SchemaEntry.item ≠ [] := fun hnil =>
      hentries (List.map_eq_nil_iff.1 hnil)
    obtain ⟨e, he⟩ := hrebuilt.throws.2
      ⟨[], _, ⟨root, entries, h, by rw [hroot]; rfl, rfl⟩, hothers⟩
    have hlength := schema.length_lt
    rw [h, List.length_cons] at hlength
    obtain ⟨file, hfile⟩ := foldlM_wrapped hroot (Nat.lt_of_succ_lt hlength)
    rw [h, loadSchema_cons, hfile] at he
    cases he
  · intro hcond
    cases h : schema.entries with
    | nil => exact rebuilt_of_empty h
    | cons root entries =>
      by_cases hroot : root.childCount = 0
      · obtain rfl := (hcond root entries h).resolve_left (not_not.2 hroot)
        exact rebuilt_of_root_only h hroot
      · exact rebuilt_of_root h hroot

/-- A root without children that is followed by one entry. -/
def unlistedColumn : ParquetSchema where
  entries := [⟨⟨"schema", [], [], none, none, none, []⟩, some 0⟩,
    ⟨⟨"a", "INT32", [], none, none, none, []⟩, none⟩]
  length_lt := by decide

theorem not_rebuilt_unlistedColumn : ¬ unlistedColumn.Rebuilt ∧
    ∃ file, loadSchema unlistedColumn.entries = .ok file ∧ file.columns.length = 1 := by
  have hok : ∃ file, loadSchema unlistedColumn.entries = .ok file ∧ file.columns.length = 1 :=
    ⟨_, rfl, rfl⟩
  refine ⟨fun hrebuilt => ?_, hok⟩
  obtain ⟨e, he⟩ := hrebuilt.throws.2
    ⟨[], _, ⟨_, _, rfl, rfl, rfl⟩, List.cons_ne_nil _ _⟩
  obtain ⟨file, hfile, -⟩ := hok
  rw [hfile] at he
  cases he

end DuckLake
