import Mathlib.Data.List.Forall2
import Mathlib.Order.Nat
import DuckLake.Lib.Text

/-!
# Reading SQL expressions

A text of SQL, as the list of its tokens, is read from left to right. An operator takes what stands
before it as its left operand, up to the last operator that binds less tightly. Operators that bind
equally tightly associate to the left.
-/

namespace DuckLake

/-! ## Expressions -/

inductive SqlOperator where
  | and | equal | bitAnd | add | subtract | modulo | divide
deriving DecidableEq, Repr

def SqlOperator.precedence : SqlOperator → ℕ
  | and => 1
  | equal => 3
  | bitAnd => 4
  | add | subtract => 5
  | modulo | divide => 6

/-- The precedence of `IS NULL`. -/
def isNullPrecedence : ℕ := 2

/-- Expressions over columns and constants. -/
inductive SqlExpression (C : Type) where
  | column (name : Text)
  | constant (c : C)
  | call (function : Text) (arguments : List (SqlExpression C))
  | binary (operator : SqlOperator) (left right : SqlExpression C)
  | isNull (operand : SqlExpression C)

/-- A function is one token with the parenthesis that opens its arguments. -/
inductive SqlToken (C : Type) where
  | column (name : Text)
  | constant (c : C)
  | call (function : Text)
  | leftParen | rightParen | comma
  | operator (operator : SqlOperator)
  | isNull

/-! ## The reader -/

section

variable {C : Type}

/-- The left operands whose operators wait for their right operands, the last one first. -/
abbrev PendingOperands (C : Type) := List (SqlExpression C × SqlOperator)

/-- What an open parenthesis belongs to. -/
inductive SqlContext (C : Type) where
  | parentheses
  | arguments (function : Text) (before : List (SqlExpression C))

/-- Before an operand, or after one. -/
inductive ReaderState (C : Type) where
  | operand (pending : PendingOperands C) (outer : List (SqlContext C × PendingOperands C))
  | operator (last : SqlExpression C) (pending : PendingOperands C)
    (outer : List (SqlContext C × PendingOperands C))

/-- Gives the operators that bind at least as tightly as the precedence their right operand. -/
def collapse (precedence : ℕ) :
    PendingOperands C → SqlExpression C → SqlExpression C × PendingOperands C
  | [], e => (e, [])
  | (left, op) :: pending, e =>
    if precedence ≤ op.precedence then collapse precedence pending (.binary op left e)
    else (e, (left, op) :: pending)

def readToken : ReaderState C → SqlToken C → Option (ReaderState C)
  | .operand pending outer, .column name => some (.operator (.column name) pending outer)
  | .operand pending outer, .constant c => some (.operator (.constant c) pending outer)
  | .operand pending outer, .call function =>
    some (.operand [] ((.arguments function [], pending) :: outer))
  | .operand pending outer, .leftParen => some (.operand [] ((.parentheses, pending) :: outer))
  | .operator e pending outer, .operator op =>
    let (left, pending) := collapse op.precedence pending e
    some (.operand ((left, op) :: pending) outer)
  | .operator e pending outer, .isNull =>
    let (e, pending) := collapse isNullPrecedence pending e
    some (.operator (.isNull e) pending outer)
  | .operator e inner ((.arguments function before, pending) :: outer), .comma =>
    some (.operand [] ((.arguments function (before ++ [(collapse 0 inner e).1]), pending) :: outer))
  | .operator e inner ((.arguments function before, pending) :: outer), .rightParen =>
    some (.operator (.call function (before ++ [(collapse 0 inner e).1])) pending outer)
  | .operator e inner ((.parentheses, pending) :: outer), .rightParen =>
    some (.operator (collapse 0 inner e).1 pending outer)
  | _, _ => none

def readSql (tokens : List (SqlToken C)) : Option (SqlExpression C) :=
  match tokens.foldlM readToken (.operand [] []) with
  | some (.operator e pending []) => some (collapse 0 pending e).1
  | _ => none

/-! ## Parts of a text -/

/-- Operators that all bind less tightly than a precedence. -/
def Looser (precedence : ℕ) (pending : PendingOperands C) : Prop :=
  ∀ entry ∈ pending, entry.2.precedence < precedence

/-- After operators that bind less tightly than the precedence, the tokens read as one operand. -/
def ReadsAs (precedence : ℕ) (tokens : List (SqlToken C)) (e : SqlExpression C) : Prop :=
  ∀ pending outer, Looser precedence pending → ∃ last inner,
    tokens.foldlM readToken (.operand pending outer) =
        some (.operator last (inner ++ pending) outer) ∧
      ∀ p ≤ precedence, collapse p (inner ++ pending) last = collapse p pending e

theorem Looser.mono {p q : ℕ} {pending : PendingOperands C} (h : Looser p pending) (hle : p ≤ q) :
    Looser q pending := fun entry hentry => (h entry hentry).trans_le hle

theorem Looser.collapse {p : ℕ} {pending : PendingOperands C} (h : Looser p pending)
    (e : SqlExpression C) : collapse p pending e = (e, pending) := by
  cases pending with
  | nil => rfl
  | cons entry pending =>
    rw [DuckLake.collapse, if_neg (Nat.not_le.2 (h entry List.mem_cons_self))]

theorem looser_nil (p : ℕ) : Looser p ([] : PendingOperands C) := nofun

theorem Looser.cons {p : ℕ} {pending : PendingOperands C} {op : SqlOperator}
    (h : Looser p pending) (hop : op.precedence < p) (left : SqlExpression C) :
    Looser p ((left, op) :: pending) := List.forall_mem_cons.2 ⟨hop, h⟩

theorem collapse_cons {p : ℕ} {op : SqlOperator} (hle : p ≤ op.precedence)
    (left e : SqlExpression C) (pending : PendingOperands C) :
    collapse p ((left, op) :: pending) e = collapse p pending (.binary op left e) := by
  rw [collapse, if_pos hle]

theorem ReadsAs.mono {p q : ℕ} {tokens : List (SqlToken C)} {e : SqlExpression C}
    (h : ReadsAs q tokens e) (hle : p ≤ q) : ReadsAs p tokens e := by
  intro pending outer hloose
  obtain ⟨last, inner, hread, hcollapse⟩ := h pending outer (hloose.mono hle)
  exact ⟨last, inner, hread, fun r hr => hcollapse r (hr.trans hle)⟩

theorem readsAs_column (p : ℕ) (name : Text) : ReadsAs p [.column name] (.column name : SqlExpression C) :=
  fun _ _ _ => ⟨.column name, [], rfl, fun _ _ => rfl⟩

theorem readsAs_constant (p : ℕ) (c : C) : ReadsAs p [.constant c] (.constant c) :=
  fun _ _ _ => ⟨.constant c, [], rfl, fun _ _ => rfl⟩

theorem foldlM_readToken {tokens rest : List (SqlToken C)} {t : SqlToken C}
    {s s' s'' : ReaderState C} (htokens : tokens.foldlM readToken s = some s')
    (ht : readToken s' t = some s'') :
    (tokens ++ t :: rest).foldlM readToken s = rest.foldlM readToken s'' := by
  rw [List.foldlM_append, htokens, Option.bind_eq_bind, Option.bind_some, List.foldlM_cons, ht,
    Option.bind_eq_bind, Option.bind_some]

/-- An operator between two operands that bind more tightly, the left one at least as tightly. -/
theorem ReadsAs.binary (op : SqlOperator) {left right : List (SqlToken C)}
    {l r : SqlExpression C} (hl : ReadsAs op.precedence left l)
    (hr : ReadsAs (op.precedence + 1) right r) :
    ReadsAs op.precedence (left ++ .operator op :: right) (.binary op l r) := by
  intro pending outer hloose
  obtain ⟨last, inner, hread, hcollapse⟩ := hl pending outer hloose
  have hpending : Looser (op.precedence + 1) ((l, op) :: pending) :=
    (hloose.mono (Nat.le_succ _)).cons (Nat.lt_succ_self _) l
  obtain ⟨last', inner', hread', hcollapse'⟩ := hr ((l, op) :: pending) outer hpending
  have hstep : readToken (.operator last (inner ++ pending) outer) (.operator op) =
      some (.operand ((l, op) :: pending) outer) := by
    rw [readToken, hcollapse _ le_rfl, hloose.collapse]
  refine ⟨last', inner' ++ [(l, op)], ?_, fun p hp => ?_⟩
  · rw [foldlM_readToken hread hstep, hread', List.append_assoc, List.singleton_append]
  · rw [List.append_assoc, List.singleton_append, hcollapse' p (hp.trans (Nat.le_succ _)),
      collapse_cons hp]

theorem ReadsAs.isNull {tokens : List (SqlToken C)} {e : SqlExpression C}
    (h : ReadsAs isNullPrecedence tokens e) :
    ReadsAs isNullPrecedence (tokens ++ [.isNull]) (.isNull e) := by
  intro pending outer hloose
  obtain ⟨last, inner, hread, hcollapse⟩ := h pending outer hloose
  have hstep : readToken (.operator last (inner ++ pending) outer) .isNull =
      some (.operator (.isNull e) pending outer) := by
    rw [readToken, hcollapse _ le_rfl, hloose.collapse]
  exact ⟨.isNull e, [], foldlM_readToken hread hstep, fun p _ => rfl⟩

theorem ReadsAs.parentheses {tokens : List (SqlToken C)} {e : SqlExpression C}
    (h : ReadsAs 0 tokens e) (p : ℕ) :
    ReadsAs p (.leftParen :: (tokens ++ [.rightParen])) e := by
  intro pending outer _
  obtain ⟨last, inner, hread, hcollapse⟩ :=
    h [] ((.parentheses, pending) :: outer) (looser_nil 0)
  have hstep : readToken (.operator last (inner ++ []) ((.parentheses, pending) :: outer))
      .rightParen = some (.operator e pending outer) := by
    rw [readToken, hcollapse 0 le_rfl]
    rfl
  exact ⟨e, [], foldlM_readToken hread hstep, fun _ _ => rfl⟩

/-- The arguments of a function, which commas separate. -/
def argumentTokens : List (List (SqlToken C)) → List (SqlToken C)
  | [] => []
  | [tokens] => tokens
  | tokens :: rest => tokens ++ .comma :: argumentTokens rest

theorem ReadsAs.arguments {function : Text} {pending : PendingOperands C}
    {outer : List (SqlContext C × PendingOperands C)} {tokens : List (SqlToken C)}
    {e : SqlExpression C} {argumentList : List (List (SqlToken C))} {es : List (SqlExpression C)}
    (hfirst : ReadsAs 0 tokens e) (hrest : List.Forall₂ (ReadsAs 0) argumentList es)
    (before : List (SqlExpression C)) :
    (argumentTokens (tokens :: argumentList) ++ [SqlToken.rightParen]).foldlM readToken
        (.operand [] ((.arguments function before, pending) :: outer)) =
      some (.operator (.call function (before ++ e :: es)) pending outer) := by
  induction hrest generalizing tokens e before with
  | nil =>
    obtain ⟨last, inner, hread, hcollapse⟩ :=
      hfirst [] ((.arguments function before, pending) :: outer) (looser_nil 0)
    have hstep : readToken (.operator last (inner ++ [])
        ((.arguments function before, pending) :: outer)) .rightParen =
          some (.operator (.call function (before ++ [e])) pending outer) := by
      rw [readToken, hcollapse 0 le_rfl]
      rfl
    exact foldlM_readToken hread hstep
  | cons hsecond _ ih =>
    obtain ⟨last, inner, hread, hcollapse⟩ :=
      hfirst [] ((.arguments function before, pending) :: outer) (looser_nil 0)
    have hstep : readToken (.operator last (inner ++ [])
        ((.arguments function before, pending) :: outer)) .comma =
          some (.operand [] ((.arguments function (before ++ [e]), pending) :: outer)) := by
      rw [readToken, hcollapse 0 le_rfl]
      rfl
    rw [argumentTokens, List.append_assoc, List.cons_append, foldlM_readToken hread hstep,
      ih hsecond (before ++ [e]), List.append_assoc, List.singleton_append]
    exact nofun

theorem ReadsAs.call {tokens : List (SqlToken C)} {e : SqlExpression C}
    {argumentList : List (List (SqlToken C))} {es : List (SqlExpression C)}
    (hfirst : ReadsAs 0 tokens e) (hrest : List.Forall₂ (ReadsAs 0) argumentList es)
    (function : Text) (p : ℕ) :
    ReadsAs p (.call function :: (argumentTokens (tokens :: argumentList) ++ [SqlToken.rightParen]))
      (.call function (e :: es)) :=
  fun _ _ _ => ⟨.call function (e :: es), [], hfirst.arguments hrest [], fun _ _ => rfl⟩

theorem ReadsAs.read {tokens : List (SqlToken C)} {e : SqlExpression C}
    (h : ReadsAs 0 tokens e) : readSql tokens = some e := by
  obtain ⟨last, inner, hread, hcollapse⟩ := h [] [] (looser_nil 0)
  have hlast := hcollapse 0 le_rfl
  rw [readSql, hread]
  change some (DuckLake.collapse 0 (inner ++ []) last).1 = _
  rw [hlast]
  rfl

end

end DuckLake
