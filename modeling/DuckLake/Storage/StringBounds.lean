import Mathlib.Data.Char
import Mathlib.Data.List.Lex
import Mathlib.Data.Prod.Lex
import DuckLake.Storage.FilePruning

/-!
# Bounds that are compared as strings

The bounds of a column whose type is neither numeric nor temporal are compared as the strings they
are stored as. This is right for VARCHAR. For another type, such as INTERVAL, a file is only listed
for sure when the strings are ordered like the values; a conjunction of comparisons lists it in no
other case.
-/

namespace DuckLake

section Exact

variable {V : Type} [SQLStrings V] [SQLWriter] {type : LogicalTypeId} {cte : FieldIndex}
  {joined : JoinedStats} {stats : FileColumnStats}

/-- A filter that compares its column with a constant. -/
def ColumnFilterInfo.IsComparison (f : ColumnFilterInfo V) : Prop :=
  ∃ comparisonType c, f.tableFilter = .comparison comparisonType c ∨
    f.tableFilter = .flippedComparison c comparisonType

mutual

/-- A tree without disjunctions whose filters are comparisons. -/
def DuckLakeFilterNode.ComparesAll : DuckLakeFilterNode V → Prop
  | .columnFilter f => f.IsComparison
  | .conjunction isOr children => isOr = false ∧ CompareAll children
  | .matchNone => True

def DuckLakeFilterNode.CompareAll : List (DuckLakeFilterNode V) → Prop
  | [] => True
  | n :: ns => n.ComparesAll ∧ CompareAll ns

end

/-- The filters are a conjunction of comparisons. -/
def FilterPushdownInfo.IsConjunction (info : FilterPushdownInfo V) : Prop :=
  (∀ f ∈ info.columnFilters, f.IsComparison) ∧ DuckLakeFilterNode.CompareAll info.filterTrees

variable (joined) in
/-- There is no condition, or it is true. -/
def IsTrue (condition : StatsSQL V) : Prop :=
  ∀ d, condition = some d → d.eval (SQLCondition.eval joined) = some true

variable {types : FieldIndex → LogicalTypeId}

variable (types joined) in
/-- The condition of a filter is true, whatever statistics are required besides. -/
def ColumnFilterInfo.HoldsOn (f : ColumnFilterInfo V) : Prop :=
  ∃ required, IsTrue joined (generateColumnFilterCondition types f required).1

theorem isConjunction_columnFilter {f : ColumnFilterInfo V}
    {required : List (FieldIndex × ReferencedStats)} {d : Disjunction (SQLCondition V)}
    (h : (generateColumnFilterCondition types f required).1 = some d) : d.IsConjunction :=
  isConjunction_generateColumnFilterCondition
    (show generateColumnFilterCondition types f required =
      (some d, (generateColumnFilterCondition types f required).2) by rw [← h])

variable (joined) in
omit [SQLWriter] in
/-- A conjunct that is glued to a conjunction. -/
theorem isTrue_glueConjunct {result : StatsSQL V} {d : Disjunction (SQLCondition V)}
    (hresult : ∀ r, result = some r → r.IsConjunction) (hd : d.IsConjunction) :
    (glueConjunct false result d).IsConjunction ∧
      (IsTrue joined (some (glueConjunct false result d)) ↔
        IsTrue joined result ∧ IsTrue joined (some d)) := by
  cases result with
  | none => exact ⟨hd, by simp [IsTrue, glueConjunct]⟩
  | some r =>
    refine ⟨(hresult r rfl).glueAnd hd, ?_⟩
    simp [IsTrue, glueConjunct, Disjunction.eval_glueAnd (hresult r rfl) hd]

variable (joined) in
mutual

/-- When the condition of a conjunction is true, that of each of its filters is. -/
theorem holdsOn_of_tree (node : DuckLakeFilterNode V) (hnode : node.ComparesAll) (splice : Bool)
    (required : List (FieldIndex × ReferencedStats)) :
    (∀ d, (generateFilterTreeCondition types node splice required).1 = some d → d.IsConjunction) ∧
      (IsTrue joined (generateFilterTreeCondition types node splice required).1 →
        ∀ f ∈ node.columnFilters, f.HoldsOn joined types) := by
  match node with
  | .matchNone =>
    refine ⟨?_, fun _ f hf => absurd hf List.not_mem_nil⟩
    rintro d ⟨⟩
    exact Disjunction.isConjunction_ofAtom _
  | .columnFilter f =>
    refine ⟨fun d hd => isConjunction_columnFilter hd, fun htrue g hg => ?_⟩
    obtain rfl := List.mem_singleton.1 hg
    exact ⟨required, htrue⟩
  | .conjunction isOr children =>
    obtain ⟨rfl, hchildren⟩ := hnode
    obtain ⟨hconj, htrue⟩ := holdsOn_of_trees children hchildren none required
      (by rintro r ⟨⟩)
    rw [generateFilterTreeCondition]
    split
    · rename_i heq
      rw [heq] at htrue
      exact ⟨by rintro d ⟨⟩, fun h => (htrue h).2⟩
    · rename_i condition _ heq
      rw [heq] at htrue hconj
      refine ⟨?_, fun h => (htrue ?_).2⟩
      · rintro d ⟨⟩
        split
        · exact hconj _ rfl
        · exact Disjunction.isConjunction_paren _
      · rintro d ⟨⟩
        have heval := h _ rfl
        split at heval
        · exact heval
        · rwa [Disjunction.eval_paren] at heval

theorem holdsOn_of_trees (children : List (DuckLakeFilterNode V))
    (hchildren : DuckLakeFilterNode.CompareAll children) (result : StatsSQL V)
    (required : List (FieldIndex × ReferencedStats))
    (hresult : ∀ r, result = some r → r.IsConjunction) :
    (∀ d, (generateTreeConjunction types false result children required).1 = some d →
        d.IsConjunction) ∧
      (IsTrue joined (generateTreeConjunction types false result children required).1 →
        IsTrue joined result ∧
          ∀ f ∈ DuckLakeFilterNode.columnFiltersOf children, f.HoldsOn joined types) := by
  match children with
  | [] => exact ⟨hresult, fun htrue => ⟨htrue, fun f hf => absurd hf List.not_mem_nil⟩⟩
  | child :: children =>
    obtain ⟨hchild, hrest⟩ := hchildren
    obtain ⟨hconj, htrue⟩ := holdsOn_of_tree child hchild (child.isConjunction false) required
    rw [generateTreeConjunction]
    split
    · rename_i heq
      rw [heq] at htrue
      have hnone := htrue (by rintro d ⟨⟩)
      simp only [Bool.false_eq_true, if_false]
      obtain ⟨hconj', htrue'⟩ := holdsOn_of_trees children hrest result _ hresult
      exact ⟨hconj', fun h => ⟨(htrue' h).1, List.forall_mem_append.2 ⟨hnone, (htrue' h).2⟩⟩⟩
    · rename_i condition _ heq
      rw [heq] at htrue hconj
      obtain ⟨hglued, hglue⟩ := isTrue_glueConjunct joined hresult (hconj _ rfl)
      obtain ⟨hconj', htrue'⟩ := holdsOn_of_trees children hrest
        (some (glueConjunct false result condition)) _ (by rintro r ⟨⟩; exact hglued)
      refine ⟨hconj', fun h => ?_⟩
      obtain ⟨hall, hchildren⟩ := htrue' h
      obtain ⟨hresult, hcondition⟩ := hglue.1 hall
      exact ⟨hresult, List.forall_mem_append.2 ⟨htrue hcondition, hchildren⟩⟩

end

omit [SQLStrings V] [SQLWriter] in
mutual

theorem isComparison_of_comparesAll (node : DuckLakeFilterNode V) (h : node.ComparesAll) :
    ∀ f ∈ node.columnFilters, f.IsComparison := by
  match node with
  | .columnFilter f => exact fun g hg => List.mem_singleton.1 hg ▸ h
  | .conjunction _ children => exact isComparison_of_compareAll children h.2
  | .matchNone => exact fun f hf => absurd hf List.not_mem_nil

theorem isComparison_of_compareAll (nodes : List (DuckLakeFilterNode V))
    (h : DuckLakeFilterNode.CompareAll nodes) :
    ∀ f ∈ DuckLakeFilterNode.columnFiltersOf nodes, f.IsComparison := by
  match nodes with
  | [] => exact fun f hf => absurd hf List.not_mem_nil
  | n :: ns =>
    exact List.forall_mem_append.2
      ⟨isComparison_of_comparesAll n h.1, isComparison_of_compareAll ns h.2⟩

end

end Exact

section Example

/-- Numbers and strings; an interval is the number of its days. -/
abbrev NumberOrString := ℕ ×ₗ Text

def NumberOrString.ofNat (n : ℕ) : NumberOrString := toLex (n + 1, [])

/-- The days of an interval such as `2 months`. -/
def intervalDays (t : Text) : Option ℕ :=
  let count := Nat.ofDigitChars 10 (t.takeWhile Char.isDigit) 0
  if [" day".toList, " days".toList].contains (t.dropWhile Char.isDigit) then some count
  else if [" month".toList, " months".toList].contains (t.dropWhile Char.isDigit) then
    some (30 * count)
  else none

@[reducible] def numbersAndStrings : SQLStrings NumberOrString where
  toLinearOrder := inferInstance
  isNan _ := false
  isFinite _ := true
  tryCast type t :=
    if type = .varchar then some (toLex (0, t))
    else if type = .interval then (intervalDays t).map .ofNat
    else if t.all Char.isDigit then some (.ofNat (Nat.ofDigitChars 10 t 0)) else none
  text t := toLex (0, t)
  le_nan h := by cases h
  tryCast_varchar _ := rfl
  text_injective _ _ h := congrArg (fun p : NumberOrString => (ofLex p).2) h

attribute [local instance] numbersAndStrings SQLWriter.reference

end Example

end DuckLake
