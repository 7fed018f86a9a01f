import Mathlib.Data.List.Dedup
import DuckLake.Storage.StringBounds

/-!
# Filter trees

A disjunction over several columns is pushed down as a tree of column filters. What cannot be
expressed is left out of a conjunction and makes a disjunction inexpressible, and the tree is given
up when it gets too big. The tree that is built holds of every row that the expression holds of.
-/

namespace DuckLake

/-! ## Expressions -/

/-- A boolean expression of the engine: a conjunction node, or anything else. -/
inductive ConjunctionTree (E : Type) where
  | conjunction (isOr : Bool) (children : List (ConjunctionTree E))
  | other (e : E)

namespace ConjunctionTree

variable {E : Type}

/-- `CONJUNCTION_OR`. -/
def isOr : ConjunctionTree E → Bool
  | conjunction isOr _ => isOr
  | other _ => false

variable (eval : E → Option Bool)

mutual

def holds : ConjunctionTree E → Option Bool
  | conjunction true children => holdsAny children
  | conjunction false children => holdsAll children
  | other e => eval e

def holdsAny : List (ConjunctionTree E) → Option Bool
  | [] => some false
  | e :: es => Truth.or e.holds (holdsAny es)

def holdsAll : List (ConjunctionTree E) → Option Bool
  | [] => some true
  | e :: es => Truth.and e.holds (holdsAll es)

end

theorem holdsAll_eq_true {eval : E → Option Bool} {es : List (ConjunctionTree E)} :
    holdsAll eval es = some true ↔ ∀ e ∈ es, e.holds eval = some true := by
  induction es with
  | nil => simp [holdsAll]
  | cons e es ih => simp [holdsAll, ih]

end ConjunctionTree

inductive FilterResult where
  | unsatisfiable | success | unsupported
deriving DecidableEq, Repr

/-! ## What the engine and the table provide -/

/-- The filter combiner, after the conjuncts that were added to it, and the column filters that
expressions are rewritten to. The placeholder in a table filter stands for its column. -/
class FilterSources (E V : Type) where
  /-- `LogicalFilter::SplitPredicates`. -/
  splitPredicates : ConjunctionTree E → List (ConjunctionTree E)
  /-- `FilterCombiner::AddFilter`. -/
  addFilter (added : List (ConjunctionTree E)) (conjunct : ConjunctionTree E) : FilterResult
  /-- `FilterCombiner::GenerateTableScanFilters`: columns with the expression of their filter. -/
  generateTableScanFilters (added : List (ConjunctionTree E)) :
    List (Nat × Option (ConjunctionTree E))
  /-- `FilterCombiner::HasFilters`, when the table filters have been generated. -/
  hasFilters (added : List (ConjunctionTree E)) : Bool
  isVirtualColumn : Nat → Bool
  /-- Whether `GetFilterSubject` finds a subject. -/
  hasSubject : ConjunctionTree E → Bool
  /-- The filter on the field that the subject of an expression reads, unless the field does not
  resolve. -/
  subjectFilter (columnId : Nat) (expr : ConjunctionTree E) : Option (ColumnFilterInfo V)
  /-- `GetExpressionFilterNode`. -/
  getExpressionFilter : ConjunctionTree E → Option (ColumnFilterInfo V)

/-! ## Combined filters -/

section Build

variable {E V : Type} [FilterSources E V]

mutual

def getColumnFilterNode (columnId : Nat) : ConjunctionTree E → Option (DuckLakeFilterNode V)
  | .conjunction isOr children =>
    if FilterSources.hasSubject V (.conjunction isOr children) then
      (FilterSources.subjectFilter columnId (.conjunction isOr children)).map .columnFilter
    else if isOr then none
    else match getColumnFilterNodes columnId children with
      | [] => none
      | nodes => some (.conjunction false nodes)
  | .other e =>
    if FilterSources.hasSubject V (.other e) then
      (FilterSources.subjectFilter columnId (.other e)).map .columnFilter
    else none

/-- The loop over the children of an `AND`. -/
def getColumnFilterNodes (columnId : Nat) :
    List (ConjunctionTree E) → List (DuckLakeFilterNode V)
  | [] => []
  | child :: children =>
    match getColumnFilterNode columnId child with
    | none => getColumnFilterNodes columnId children
    | some node => node :: getColumnFilterNodes columnId children

end

def getFilterNode (filter : Nat × Option (ConjunctionTree E)) : Option (DuckLakeFilterNode V) :=
  if FilterSources.isVirtualColumn E V filter.1 then none
  else filter.2.bind (getColumnFilterNode filter.1)

variable (V) in
/-- The loop over the conjuncts. It stops when the combiner finds them unsatisfiable. -/
def addConjuncts (added : List (ConjunctionTree E)) :
    List (ConjunctionTree E) → Option (List (ConjunctionTree E))
  | [] => some added
  | conjunct :: conjuncts =>
    if FilterSources.addFilter V added conjunct = .unsatisfiable then none
    else addConjuncts (added ++ [conjunct]) conjuncts

def combineFilterNode (expr : ConjunctionTree E) : Option (DuckLakeFilterNode V) :=
  match addConjuncts V [] (FilterSources.splitPredicates V expr) with
  | none => some .matchNone
  | some added =>
    let tableFilterSet := FilterSources.generateTableScanFilters V added
    if FilterSources.hasFilters V added || tableFilterSet.isEmpty then none
    else match tableFilterSet.filterMap getFilterNode with
      | [] => none
      | nodes => some (.conjunction false nodes)

/-! ## Budgets -/

mutual

def countFilterTreeLeaves : DuckLakeFilterNode V → Nat
  | .columnFilter _ => 1
  | .conjunction _ children => countLeaves children
  | .matchNone => 0

def countLeaves : List (DuckLakeFilterNode V) → Nat
  | [] => 0
  | node :: nodes => countFilterTreeLeaves node + countLeaves nodes

end

structure FilterTreeState where
  visitedNodes : Nat := 0
  leaves : Nat := 0
  exhausted : Bool := false
deriving DecidableEq, Repr

namespace FilterTreeState

def maxVisitedNodes : Nat := 64

def maxLeaves : Nat := 64

def visitNode (state : FilterTreeState) : Bool × FilterTreeState :=
  if state.exhausted then (false, state)
  else if state.visitedNodes + 1 > maxVisitedNodes then
    (false, { state with visitedNodes := state.visitedNodes + 1, exhausted := true })
  else (true, { state with visitedNodes := state.visitedNodes + 1 })

def addLeaves (state : FilterTreeState) (node : DuckLakeFilterNode V) : Bool × FilterTreeState :=
  if state.exhausted then (false, state)
  else if state.leaves + countFilterTreeLeaves node > maxLeaves then
    (false, { state with leaves := state.leaves + countFilterTreeLeaves node, exhausted := true })
  else (true, { state with leaves := state.leaves + countFilterTreeLeaves node })

/-- `return state.AddLeaves(*node) ? std::move(node) : nullptr`. -/
def withinBudget (state : FilterTreeState) (node : DuckLakeFilterNode V) :
    Option (DuckLakeFilterNode V) × FilterTreeState :=
  match state.addLeaves node with
  | (true, state) => (some node, state)
  | (false, state) => (none, state)

end FilterTreeState

/-! ## Building a tree -/

/-- The end of `BuildFilterTree`, when the expression could not be split up. -/
def buildFallback (expr : ConjunctionTree E) (state : FilterTreeState) :
    Option (DuckLakeFilterNode V) × FilterTreeState :=
  if state.exhausted then (none, state)
  else match if expr.isOr then combineFilterNode expr else none with
    | some node => state.withinBudget node
    | none =>
      match FilterSources.getExpressionFilter expr with
      | some filter => state.withinBudget (.columnFilter filter)
      | none => (none, state)

/-- `BuildFilterTree`, but for the loop over the children of a conjunction. -/
def buildNode (expr : ConjunctionTree E) (state : FilterTreeState)
    (splitUp : FilterTreeState → Option (DuckLakeFilterNode V) × FilterTreeState) :
    Option (DuckLakeFilterNode V) × FilterTreeState :=
  match state.visitNode with
  | (false, state) => (none, state)
  | (true, state) =>
    match if expr.isOr then none else combineFilterNode expr with
    | some node => state.withinBudget node
    | none =>
      match splitUp state with
      | (some node, state) => (some node, state)
      | (none, state) => buildFallback expr state

mutual

def buildFilterTree : ConjunctionTree E → FilterTreeState →
    Option (DuckLakeFilterNode V) × FilterTreeState
  | .conjunction isOr children, state =>
    buildNode (.conjunction isOr children) state (buildChildren isOr [] children)
  | .other e, state => buildNode (.other e) state fun state => (none, state)

/-- The loop over the children, and what is made of the nodes built for them. A branch that cannot
be expressed ends a disjunction, one that matches nothing ends a conjunction. -/
def buildChildren (isOr : Bool) (result : List (DuckLakeFilterNode V)) :
    List (ConjunctionTree E) → FilterTreeState → Option (DuckLakeFilterNode V) × FilterTreeState
  | [], state =>
    if result.isEmpty then (if isOr then some .matchNone else none, state)
    else (some (.conjunction isOr result), state)
  | child :: children, state =>
    match buildFilterTree child state with
    | (none, state) => if isOr then (none, state) else buildChildren isOr result children state
    | (some .matchNone, state) =>
      if isOr then buildChildren isOr result children state else (some .matchNone, state)
    | (some node, state) => buildChildren isOr (result ++ [node]) children state

end

end Build

/-! ## Pushing filters down -/

section Pushdown

variable {E V : Type} [FilterSources E V]

/-- The functions of the engine on the filters of one column and on expressions. -/
class FilterComparison (E V : Type) where
  /-- `LogicalFilter::SplitPredicates`. -/
  splitFilters : List (FilterExpression V) → List (FilterExpression V)
  /-- `Expression::Equals`. -/
  equalFilters : FilterExpression V → FilterExpression V → Bool
  equalExpressions : ConjunctionTree E → ConjunctionTree E → Bool

mutual

def getFilterTreeColumns : DuckLakeFilterNode V → List FieldIndex
  | .columnFilter f => [f.columnFieldIndex]
  | .conjunction _ children => getColumns children
  | .matchNone => []

def getColumns : List (DuckLakeFilterNode V) → List FieldIndex
  | [] => []
  | node :: nodes => getFilterTreeColumns node ++ getColumns nodes

end

variable [FilterComparison E V]

variable (E) in
/-- The loop over the conjuncts of a merged filter. -/
def addDistinct (merged : List (FilterExpression V)) (conjunct : FilterExpression V) :
    List (FilterExpression V) :=
  if merged.any (FilterComparison.equalFilters E · conjunct) then merged
  else merged ++ [conjunct]

variable (E) in
def mergeFilterExpressions (left right : FilterExpression V) : FilterExpression V :=
  match (FilterComparison.splitFilters E [left, right]).foldl (addDistinct E) [] with
  | [filter] => filter
  | merged => .conjunction false merged

variable (E) in
def addColumnFilter (columnFilter : ColumnFilterInfo V) :
    List (ColumnFilterInfo V) → List (ColumnFilterInfo V)
  | [] => [columnFilter]
  | existing :: filters =>
    if existing.columnFieldIndex = columnFilter.columnFieldIndex then
      { existing with tableFilter :=
          mergeFilterExpressions E existing.tableFilter columnFilter.tableFilter } :: filters
    else existing :: addColumnFilter columnFilter filters

variable (E) in
mutual

def addFilterNodeToPushdownInfo (columnFilters : List (ColumnFilterInfo V)) :
    DuckLakeFilterNode V → List (ColumnFilterInfo V)
  | .conjunction false children => addFilterNodes columnFilters children
  | .columnFilter f => addColumnFilter E f columnFilters
  | .conjunction true _ | .matchNone => columnFilters

def addFilterNodes (columnFilters : List (ColumnFilterInfo V)) :
    List (DuckLakeFilterNode V) → List (ColumnFilterInfo V)
  | [] => columnFilters
  | node :: nodes => addFilterNodes (addFilterNodeToPushdownInfo columnFilters node) nodes

end

end Pushdown

/-! ## What holds of a row -/

section Implied

variable {E V : Type} [FilterSources E V] [SQLValues V]

variable (V) in
/-- For the row that the expressions are evaluated on: the combiner's verdict and its table filters
are implied by the conjuncts that were added, and the filter of a field by the expression it comes
from. -/
structure FilterSources.Implied (eval : E → Option Bool) (row : FieldIndex → Option V) :
    Prop where
  splitPredicates : ∀ expr : ConjunctionTree E, expr.holds eval = some true →
    ∀ c ∈ FilterSources.splitPredicates V expr, c.holds eval = some true
  addFilter : ∀ added c, (∀ a ∈ added, ConjunctionTree.holds eval a = some true) →
    c.holds eval = some true → FilterSources.addFilter V added c ≠ .unsatisfiable
  generateTableScanFilters : ∀ added, (∀ a ∈ added, ConjunctionTree.holds eval a = some true) →
    ∀ filter ∈ FilterSources.generateTableScanFilters V added, ∀ expr, filter.2 = some expr →
      expr.holds eval = some true
  subjectFilter : ∀ columnId (expr : ConjunctionTree E) (f : ColumnFilterInfo V),
    expr.holds eval = some true → FilterSources.subjectFilter columnId expr = some f →
      f.tableFilter.holds (row f.columnFieldIndex) = some true
  getExpressionFilter : ∀ (expr : ConjunctionTree E) (f : ColumnFilterInfo V),
    expr.holds eval = some true → FilterSources.getExpressionFilter expr = some f →
      f.tableFilter.holds (row f.columnFieldIndex) = some true

namespace DuckLakeFilterNode

variable {row : FieldIndex → Option V}

theorem holdsAll_eq_true {nodes : List (DuckLakeFilterNode V)} :
    holdsAll row nodes = some true ↔ ∀ node ∈ nodes, node.holds row = some true := by
  induction nodes with
  | nil => simp [holdsAll]
  | cons node nodes ih => simp [holdsAll, ih]

theorem holdsAny_eq_true {nodes : List (DuckLakeFilterNode V)} :
    holdsAny row nodes = some true ↔ ∃ node ∈ nodes, node.holds row = some true := by
  induction nodes with
  | nil => simp [holdsAny]
  | cons node nodes ih => simp [holdsAny, ih]

end DuckLakeFilterNode

variable {eval : E → Option Bool} {row : FieldIndex → Option V}
  (himplied : FilterSources.Implied V eval row)

include himplied

omit himplied in
mutual

theorem holds_getColumnFilterNode (himplied : FilterSources.Implied V eval row) {columnId : Nat}
    (expr : ConjunctionTree E) (h : expr.holds eval = some true) {node : DuckLakeFilterNode V}
    (hnode : getColumnFilterNode columnId expr = some node) : node.holds row = some true := by
  match expr with
  | .other e =>
    rw [getColumnFilterNode] at hnode
    split at hnode
    next =>
      obtain ⟨f, hf, rfl⟩ := Option.map_eq_some_iff.1 hnode
      exact himplied.subjectFilter _ _ _ h hf
    next => cases hnode
  | .conjunction true children =>
    rw [getColumnFilterNode] at hnode
    split at hnode
    next =>
      obtain ⟨f, hf, rfl⟩ := Option.map_eq_some_iff.1 hnode
      exact himplied.subjectFilter _ _ _ h hf
    next => cases hnode
  | .conjunction false children =>
    rw [getColumnFilterNode] at hnode
    split at hnode
    next =>
      obtain ⟨f, hf, rfl⟩ := Option.map_eq_some_iff.1 hnode
      exact himplied.subjectFilter _ _ _ h hf
    next =>
      simp only [Bool.false_eq_true, if_false] at hnode
      have hchildren := holds_getColumnFilterNodes himplied columnId children h
      split at hnode
      next => cases hnode
      next nodes _ =>
        cases hnode
        exact DuckLakeFilterNode.holdsAll_eq_true.2 hchildren

theorem holds_getColumnFilterNodes (himplied : FilterSources.Implied V eval row) (columnId : Nat)
    (children : List (ConjunctionTree E))
    (h : ConjunctionTree.holdsAll eval children = some true) :
    ∀ node ∈ (getColumnFilterNodes columnId children : List (DuckLakeFilterNode V)),
      node.holds row = some true := by
  match children with
  | [] => simp [getColumnFilterNodes]
  | child :: children =>
    obtain ⟨hchild, hchildren⟩ : child.holds eval = some true ∧
        ConjunctionTree.holdsAll eval children = some true := by
      simpa [ConjunctionTree.holdsAll] using h
    have hrest := holds_getColumnFilterNodes himplied columnId children hchildren
    rw [getColumnFilterNodes]
    split
    next => exact hrest
    next node hnode =>
      intro node' hmem
      rcases List.mem_cons.1 hmem with rfl | hmem
      · exact holds_getColumnFilterNode himplied child hchild hnode
      · exact hrest _ hmem

end

theorem holds_getFilterNode {filter : Nat × Option (ConjunctionTree E)}
    (h : ∀ expr, filter.2 = some expr → expr.holds eval = some true)
    {node : DuckLakeFilterNode V} (hnode : getFilterNode filter = some node) :
    node.holds row = some true := by
  unfold getFilterNode at hnode
  split at hnode
  next => cases hnode
  next =>
    obtain ⟨expr, hexpr, hnode⟩ := Option.bind_eq_some_iff.1 hnode
    exact holds_getColumnFilterNode himplied expr (h expr hexpr) hnode

/-- The combiner does not find conjuncts unsatisfiable that a row satisfies. -/
theorem addConjuncts_eq {added conjuncts : List (ConjunctionTree E)}
    (hadded : ∀ a ∈ added, a.holds eval = some true)
    (hconjuncts : ∀ c ∈ conjuncts, c.holds eval = some true) :
    addConjuncts V added conjuncts = some (added ++ conjuncts) := by
  induction conjuncts generalizing added with
  | nil => simp [addConjuncts]
  | cons c conjuncts ih =>
    have hc : c.holds eval = some true := hconjuncts c List.mem_cons_self
    have hadded' : ∀ a ∈ added ++ [c], a.holds eval = some true := by
      intro a ha
      rcases List.mem_append.1 ha with ha | ha
      · exact hadded a ha
      · exact List.mem_singleton.1 ha ▸ hc
    rw [addConjuncts, if_neg (himplied.addFilter added c hadded hc),
      ih hadded' fun c' hc' => hconjuncts c' (List.mem_cons_of_mem _ hc')]
    simp

theorem holds_combineFilterNode {expr : ConjunctionTree E} (h : expr.holds eval = some true)
    {node : DuckLakeFilterNode V} (hnode : combineFilterNode expr = some node) :
    node.holds row = some true := by
  have hconjuncts := himplied.splitPredicates expr h
  have hadd : addConjuncts V [] _ = _ := addConjuncts_eq himplied (by simp) hconjuncts
  simp only [combineFilterNode, hadd, List.nil_append] at hnode
  split at hnode
  next => cases hnode
  next =>
    split at hnode
    next => cases hnode
    next nodes _ =>
      cases hnode
      refine DuckLakeFilterNode.holdsAll_eq_true.2 fun node hmem => ?_
      obtain ⟨filter, hfilter, hnode⟩ := List.mem_filterMap.1 hmem
      exact holds_getFilterNode himplied
        (himplied.generateTableScanFilters _ hconjuncts filter hfilter) hnode

omit himplied [FilterSources E V] [SQLValues V] in
theorem withinBudget_eq_some {state : FilterTreeState} {node node' : DuckLakeFilterNode V}
    (h : (state.withinBudget node).1 = some node') : node' = node := by
  unfold FilterTreeState.withinBudget at h
  split at h
  next => exact (Option.some.inj h).symm
  next => cases h

theorem holds_buildFallback {expr : ConjunctionTree E} (h : expr.holds eval = some true)
    {state : FilterTreeState} {node : DuckLakeFilterNode V}
    (hnode : (buildFallback expr state).1 = some node) : node.holds row = some true := by
  unfold buildFallback at hnode
  split at hnode
  next => cases hnode
  next =>
    split at hnode
    next combined hcombined =>
      rw [withinBudget_eq_some hnode]
      refine holds_combineFilterNode himplied h ?_
      split at hcombined
      · exact hcombined
      · cases hcombined
    next =>
      split at hnode
      next f hf =>
        rw [withinBudget_eq_some hnode]
        exact himplied.getExpressionFilter _ _ h hf
      next => cases hnode

theorem holds_buildNode {expr : ConjunctionTree E} (h : expr.holds eval = some true)
    {splitUp : FilterTreeState → Option (DuckLakeFilterNode V) × FilterTreeState}
    (hsplit : ∀ state node, (splitUp state).1 = some node → node.holds row = some true)
    {state : FilterTreeState} {node : DuckLakeFilterNode V}
    (hnode : (buildNode expr state splitUp).1 = some node) : node.holds row = some true := by
  unfold buildNode at hnode
  split at hnode
  next => cases hnode
  next state' _ =>
    split at hnode
    next combined hcombined =>
      rw [withinBudget_eq_some hnode]
      refine holds_combineFilterNode himplied h ?_
      split at hcombined
      · cases hcombined
      · exact hcombined
    next =>
      split at hnode
      next node' state'' hnode' =>
        cases hnode
        exact hsplit state' _ (by rw [hnode'])
      next => exact holds_buildFallback himplied h hnode

omit himplied in
mutual

/-- The tree holds of every row that the expression holds of. -/
theorem holds_buildFilterTree (himplied : FilterSources.Implied V eval row)
    (expr : ConjunctionTree E) (h : expr.holds eval = some true)
    {state : FilterTreeState} {node : DuckLakeFilterNode V}
    (hnode : (buildFilterTree expr state).1 = some node) : node.holds row = some true := by
  match expr with
  | .other e => exact holds_buildNode himplied h (by simp) hnode
  | .conjunction true children =>
    refine holds_buildNode himplied h (fun state node hnode => ?_) hnode
    exact holds_buildDisjunction himplied children (.inr h) hnode
  | .conjunction false children =>
    refine holds_buildNode himplied h (fun state node hnode => ?_) hnode
    exact holds_buildConjunction himplied children (by simp) h hnode

/-- One of the branches holds: a branch that is dropped matches nothing. -/
theorem holds_buildDisjunction (himplied : FilterSources.Implied V eval row)
    (children : List (ConjunctionTree E))
    {result : List (DuckLakeFilterNode V)}
    (h : DuckLakeFilterNode.holdsAny row result = some true ∨
      ConjunctionTree.holdsAny eval children = some true)
    {state : FilterTreeState} {node : DuckLakeFilterNode V}
    (hnode : (buildChildren true result children state).1 = some node) :
    node.holds row = some true := by
  match children with
  | [] =>
    have hresult : DuckLakeFilterNode.holdsAny row result = some true := by
      simpa [ConjunctionTree.holdsAny] using h
    rw [buildChildren] at hnode
    split at hnode
    next hempty =>
      obtain rfl := List.isEmpty_iff.1 hempty
      simp [DuckLakeFilterNode.holdsAny] at hresult
    next =>
      cases hnode
      exact hresult
  | child :: children =>
    have hcases : DuckLakeFilterNode.holdsAny row result = some true ∨
        child.holds eval = some true ∨ ConjunctionTree.holdsAny eval children = some true := by
      simpa [ConjunctionTree.holdsAny] using h
    rw [buildChildren] at hnode
    split at hnode
    next => cases hnode
    next state' heq =>
      -- no row satisfies a branch that matches nothing
      have hchild : child.holds eval ≠ some true := by
        intro hchild
        have hnone : (buildFilterTree child state).1 = some (.matchNone : DuckLakeFilterNode V) := by
          rw [heq]
        simpa [DuckLakeFilterNode.holds] using holds_buildFilterTree himplied child hchild hnone
      exact holds_buildDisjunction himplied children
        (hcases.imp_right fun h => h.resolve_left hchild) hnode
    next node' state' _ heq =>
      refine holds_buildDisjunction himplied children ?_ hnode
      rcases hcases with hresult | hchild | hchildren
      · left
        obtain ⟨n, hn, hholds⟩ := DuckLakeFilterNode.holdsAny_eq_true.1 hresult
        exact DuckLakeFilterNode.holdsAny_eq_true.2 ⟨n, List.mem_append_left _ hn, hholds⟩
      · left
        have hnode' : (buildFilterTree child state).1 = some node' := by rw [heq]
        exact DuckLakeFilterNode.holdsAny_eq_true.2
          ⟨node', by simp, holds_buildFilterTree himplied child hchild hnode'⟩
      · exact .inr hchildren

/-- All conjuncts hold, also those that are left out. -/
theorem holds_buildConjunction (himplied : FilterSources.Implied V eval row)
    (children : List (ConjunctionTree E))
    {result : List (DuckLakeFilterNode V)}
    (hresult : ∀ node ∈ result, node.holds row = some true)
    (h : ConjunctionTree.holdsAll eval children = some true)
    {state : FilterTreeState} {node : DuckLakeFilterNode V}
    (hnode : (buildChildren false result children state).1 = some node) :
    node.holds row = some true := by
  match children with
  | [] =>
    rw [buildChildren] at hnode
    split at hnode
    next => cases hnode
    next =>
      cases hnode
      exact DuckLakeFilterNode.holdsAll_eq_true.2 hresult
  | child :: children =>
    obtain ⟨hchild, hchildren⟩ : child.holds eval = some true ∧
        ConjunctionTree.holdsAll eval children = some true := by
      simpa [ConjunctionTree.holdsAll] using h
    rw [buildChildren] at hnode
    split at hnode
    next => exact holds_buildConjunction himplied children hresult hchildren hnode
    next state' heq =>
      cases hnode
      have hnone : (buildFilterTree child state).1 = some (.matchNone : DuckLakeFilterNode V) := by
        rw [heq]
      exact holds_buildFilterTree himplied child hchild hnone
    next node' state' _ heq =>
      refine holds_buildConjunction himplied children (fun n hn => ?_) hchildren hnode
      rcases List.mem_append.1 hn with hn | hn
      · exact hresult n hn
      · have hnode' : (buildFilterTree child state).1 = some node' := by rw [heq]
        rw [List.mem_singleton.1 hn]
        exact holds_buildFilterTree himplied child hchild hnode'

end

end Implied

/-! ## Files with a matching row -/

section Merging

variable {E V : Type} [FilterComparison E V] [SQLValues V] {row : FieldIndex → Option V}

variable (E V) in
/-- Splitting filters up loses none that fails. -/
structure FilterComparison.Implied : Prop where
  splitFilters : ∀ (x : Option V) (filters : List (FilterExpression V)),
    (∀ f ∈ filters, f.holds x = some true) →
      ∀ f ∈ FilterComparison.splitFilters E filters, f.holds x = some true

omit [FilterComparison E V] in
theorem FilterExpression.holdsAll_eq_true {x : Option V} {filters : List (FilterExpression V)} :
    holdsAll x filters = some true ↔ ∀ f ∈ filters, f.holds x = some true := by
  induction filters with
  | nil => simp [holdsAll]
  | cons f filters ih => simp [holdsAll, ih]

theorem holds_foldl_addDistinct {x : Option V} {filters merged : List (FilterExpression V)}
    (hfilters : ∀ f ∈ filters, f.holds x = some true)
    (hmerged : ∀ f ∈ merged, f.holds x = some true) :
    ∀ f ∈ filters.foldl (addDistinct E) merged, f.holds x = some true := by
  induction filters generalizing merged with
  | nil => exact hmerged
  | cons f filters ih =>
    apply ih fun g hg => hfilters g (List.mem_cons_of_mem _ hg)
    intro g hg
    unfold addDistinct at hg
    split at hg
    · exact hmerged g hg
    · rcases List.mem_append.1 hg with hg | hg
      · exact hmerged g hg
      · exact List.mem_singleton.1 hg ▸ hfilters f List.mem_cons_self

/-- The column filters hold of a row. -/
def ColumnFiltersHold (row : FieldIndex → Option V) (filters : List (ColumnFilterInfo V)) : Prop :=
  ∀ f ∈ filters, f.tableFilter.holds (row f.columnFieldIndex) = some true

variable (himplied : FilterComparison.Implied E V)

include himplied

theorem holds_mergeFilterExpressions {x : Option V} {left right : FilterExpression V}
    (hleft : left.holds x = some true) (hright : right.holds x = some true) :
    (mergeFilterExpressions E left right).holds x = some true := by
  have hsplit := himplied.splitFilters x [left, right] (by simp [hleft, hright])
  have hall : ∀ f ∈ (FilterComparison.splitFilters E [left, right]).foldl (addDistinct E) [],
      f.holds x = some true := holds_foldl_addDistinct hsplit (by simp)
  unfold mergeFilterExpressions
  split
  next heq => exact hall _ (by rw [heq]; exact List.mem_cons_self)
  next => exact FilterExpression.holdsAll_eq_true.2 hall

theorem columnFiltersHold_addColumnFilter {columnFilter : ColumnFilterInfo V}
    (h : columnFilter.tableFilter.holds (row columnFilter.columnFieldIndex) = some true)
    {filters : List (ColumnFilterInfo V)} (hfilters : ColumnFiltersHold row filters) :
    ColumnFiltersHold row (addColumnFilter E columnFilter filters) := by
  induction filters with
  | nil =>
    intro f hf
    exact List.mem_singleton.1 hf ▸ h
  | cons existing filters ih =>
    have hexisting := hfilters existing List.mem_cons_self
    have hrest : ColumnFiltersHold row filters := fun f hf =>
      hfilters f (List.mem_cons_of_mem _ hf)
    rw [addColumnFilter]
    split
    next heq =>
      intro f hf
      rcases List.mem_cons.1 hf with rfl | hf
      · exact holds_mergeFilterExpressions himplied hexisting (heq ▸ h)
      · exact hrest f hf
    next =>
      intro f hf
      rcases List.mem_cons.1 hf with rfl | hf
      · exact hexisting
      · exact ih hrest f hf

omit himplied in
mutual

theorem columnFiltersHold_addFilterNode (himplied : FilterComparison.Implied E V)
    (node : DuckLakeFilterNode V) (h : node.holds row = some true) {filters : List (ColumnFilterInfo V)}
    (hfilters : ColumnFiltersHold row filters) :
    ColumnFiltersHold row (addFilterNodeToPushdownInfo E filters node) := by
  match node with
  | .conjunction false children => exact columnFiltersHold_addFilterNodes himplied children h hfilters
  | .columnFilter f => exact columnFiltersHold_addColumnFilter himplied h hfilters
  | .conjunction true children => exact hfilters
  | .matchNone => exact hfilters

theorem columnFiltersHold_addFilterNodes (himplied : FilterComparison.Implied E V)
    (nodes : List (DuckLakeFilterNode V)) (h : DuckLakeFilterNode.holdsAll row nodes = some true)
    {filters : List (ColumnFilterInfo V)}
    (hfilters : ColumnFiltersHold row filters) :
    ColumnFiltersHold row (addFilterNodes E filters nodes) := by
  match nodes with
  | [] => exact hfilters
  | node :: nodes =>
    obtain ⟨hnode, hnodes⟩ : node.holds row = some true ∧
        DuckLakeFilterNode.holdsAll row nodes = some true := by
      simpa [DuckLakeFilterNode.holdsAll] using h
    exact columnFiltersHold_addFilterNodes himplied nodes hnodes
      (columnFiltersHold_addFilterNode himplied node hnode hfilters)

end

end Merging

section Pruning

variable {E V : Type} [FilterSources E V] [FilterComparison E V] [SQLStrings V]
  {eval : E → Option Bool} {row : FieldIndex → Option V}

variable (himplied : FilterSources.Implied V eval row)

include himplied

variable [SQLWriter] {types : FieldIndex → LogicalTypeId}

end Pruning

section Example

attribute [local instance] numbersAndStrings SQLWriter.reference

/-- The combiner on comparisons of columns with constants: a single comparison becomes a table
filter, a disjunction stays with the combiner. -/
@[reducible] def columnComparisons :
    FilterSources (ColumnFilterInfo NumberOrString) NumberOrString where
  splitPredicates
    | .conjunction false children => children
    | expr => [expr]
  addFilter
    | _, .other _ => .success
    | _, .conjunction _ _ => .unsupported
  generateTableScanFilters added := added.filterMap fun
    | .other f => some (f.columnFieldIndex, some (.other f))
    | .conjunction _ _ => none
  hasFilters added := added.any fun
    | .other _ => false
    | .conjunction _ _ => true
  isVirtualColumn _ := false
  hasSubject
    | .other _ => true
    | .conjunction _ _ => false
  subjectFilter
    | _, .other f => some f
    | _, .conjunction _ _ => none
  getExpressionFilter
    | .other f => some f
    | .conjunction _ _ => none

attribute [local instance] columnComparisons

/-- The engine on filters of single columns, which are neither split up nor found equal. -/
@[reducible] def singleFilters :
    FilterComparison (ColumnFilterInfo NumberOrString) NumberOrString where
  splitFilters filters := filters
  equalFilters _ _ := false
  equalExpressions _ _ := false

attribute [local instance] singleFilters

end Example

end DuckLake
