import Mathlib.Data.Option.Basic

/-!
# Conditions in three-valued logic

The text of a condition, as a parser reads it: a disjunction of conjunctions of factors, where a
factor is an atom or a condition in parentheses. Gluing two texts with a connective is an operation
on this syntax that does not look at what the texts mean: `p OR q` glued to `r` with `AND` is
`p OR (q AND r)`. A truth value is `some true`, `some false`, or `none` for unknown.
-/

namespace DuckLake

/-! ## Truth values -/

namespace Truth

def or : Option Bool → Option Bool → Option Bool
  | some true, _ => some true
  | _, some true => some true
  | some false, some false => some false
  | _, _ => none

def and : Option Bool → Option Bool → Option Bool
  | some false, _ => some false
  | _, some false => some false
  | some true, some true => some true
  | _, _ => none

def not : Option Bool → Option Bool := Option.map Bool.not

@[simp] theorem or_eq_true {p q : Option Bool} :
    or p q = some true ↔ p = some true ∨ q = some true := by
  rcases p with - | - | - <;> rcases q with - | - | - <;> simp [or]

@[simp] theorem and_eq_true {p q : Option Bool} :
    and p q = some true ↔ p = some true ∧ q = some true := by
  rcases p with - | - | - <;> rcases q with - | - | - <;> simp [and]

theorem and_eq_false {p q : Option Bool} :
    and p q = some false ↔ p = some false ∨ q = some false := by
  rcases p with - | - | - <;> rcases q with - | - | - <;> simp [and]

@[simp] theorem not_eq_true {p : Option Bool} : not p = some true ↔ p = some false := by
  rcases p with - | - | - <;> simp [not]

end Truth

/-! ## Texts of conditions -/

mutual

inductive Factor (α : Type) where
  | atom (a : α)
  | paren (d : Disjunction α)

inductive Conjunction (α : Type) where
  | factor (f : Factor α)
  | and (f : Factor α) (c : Conjunction α)

inductive Disjunction (α : Type) where
  | conjunction (c : Conjunction α)
  | or (c : Conjunction α) (d : Disjunction α)

end

section Eval

variable {α : Type} (v : α → Option Bool)

mutual

def Factor.eval : Factor α → Option Bool
  | .atom a => v a
  | .paren d => d.eval

def Conjunction.eval : Conjunction α → Option Bool
  | .factor f => f.eval
  | .and f c => Truth.and f.eval c.eval

def Disjunction.eval : Disjunction α → Option Bool
  | .conjunction c => c.eval
  | .or c d => Truth.or c.eval d.eval

end

end Eval

/-- The text of a condition; no text is no condition. -/
abbrev Condition (α : Type) := Option (Disjunction α)

namespace Disjunction

variable {α : Type}

def ofFactor (f : Factor α) : Disjunction α := .conjunction (.factor f)

def ofAtom (a : α) : Disjunction α := ofFactor (.atom a)

def paren (d : Disjunction α) : Disjunction α := ofFactor (.paren d)

/-- `d OR e`. -/
def glueOr : Disjunction α → Disjunction α → Disjunction α
  | .conjunction c, e => .or c e
  | .or c d, e => .or c (d.glueOr e)

/-- `c AND d`, for conjunctions. -/
def glueConjunctions : Conjunction α → Conjunction α → Conjunction α
  | .factor f, d => .and f d
  | .and f c, d => .and f (glueConjunctions c d)

/-- `c AND d`: the connective binds the last conjunction on the left to the first on the right. -/
def glueAnd : Disjunction α → Disjunction α → Disjunction α
  | .conjunction c, .conjunction c' => .conjunction (glueConjunctions c c')
  | .conjunction c, .or c' e => .or (glueConjunctions c c') e
  | .or c d, e => .or c (d.glueAnd e)

/-- A text without a disjunction outside parentheses. -/
def IsConjunction : Disjunction α → Prop
  | .conjunction _ => True
  | .or _ _ => False

variable {v : α → Option Bool} {d e : Disjunction α}

@[simp] theorem eval_ofAtom {a : α} : (ofAtom a).eval v = v a := by
  simp [ofAtom, ofFactor, eval, Conjunction.eval, Factor.eval]

@[simp] theorem eval_paren : d.paren.eval v = d.eval v := by
  simp [paren, ofFactor, eval, Conjunction.eval, Factor.eval]

theorem isConjunction_ofAtom (a : α) : (ofAtom a).IsConjunction := trivial

theorem isConjunction_paren (d : Disjunction α) : d.paren.IsConjunction := trivial

@[simp] theorem eval_glueOr (d e : Disjunction α) :
    (d.glueOr e).eval v = some true ↔ d.eval v = some true ∨ e.eval v = some true :=
  match d with
  | .conjunction c => by simp [glueOr, eval]
  | .or c d => by
    rw [glueOr, eval, eval, Truth.or_eq_true, Truth.or_eq_true, eval_glueOr d e, or_assoc]

theorem eval_glueConjunctions (c c' : Conjunction α) :
    (glueConjunctions c c').eval v = some true ↔ c.eval v = some true ∧ c'.eval v = some true :=
  match c with
  | .factor f => by simp [glueConjunctions, Conjunction.eval]
  | .and f c => by
    rw [glueConjunctions, Conjunction.eval, Conjunction.eval, Truth.and_eq_true,
      Truth.and_eq_true, eval_glueConjunctions c c', and_assoc]

theorem IsConjunction.glueAnd (hd : d.IsConjunction) (he : e.IsConjunction) :
    (d.glueAnd e).IsConjunction := by
  cases d with
  | or => exact hd.elim
  | conjunction c =>
    cases e with
    | or => exact he.elim
    | conjunction c' => trivial

/-- Glued with `AND`, both sides hold, if neither has a disjunction outside parentheses. -/
theorem eval_glueAnd (hd : d.IsConjunction) (he : e.IsConjunction) :
    (d.glueAnd e).eval v = some true ↔ d.eval v = some true ∧ e.eval v = some true := by
  cases d with
  | or => exact hd.elim
  | conjunction c =>
    cases e with
    | or => exact he.elim
    | conjunction c' => simp [Disjunction.glueAnd, eval, eval_glueConjunctions]

end Disjunction

end DuckLake
