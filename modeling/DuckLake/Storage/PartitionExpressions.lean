import Mathlib.Data.Int.Bitwise
import DuckLake.Common.Murmur3
import DuckLake.Common.Util
import DuckLake.Lib.SqlLiteral
import DuckLake.Lib.SqlReader
import DuckLake.Storage.TableEntry

/-!
# Partition expressions

The key of a row under a partition transform is computed by an expression that the insert binds, and
by a text of SQL with which the flush of inlined data finds the rows of each file that it has written.
The texts are kept as the lists of their tokens; the text of a column is one token.
-/

namespace DuckLake

/-! ## Values -/

/-- The types of the engine that are neither numbers nor strings. `T` are those that the expressions
do not tell apart. -/
inductive EngineType (T : Type) where
  | timestampNs | timestampTzNs | timestampTz
  | other (type : T)
deriving DecidableEq

inductive KeyType (T : Type) where
  | integer | bigint | varchar
  | engine (type : EngineType T)
deriving DecidableEq

inductive KeyValue (V : Type) where
  | null
  | integer (i : Int32)
  | bigint (i : Int64)
  | varchar (t : Text)
  | other (v : V)
deriving DecidableEq

/-- What the expressions use of the engine: its values `V` of the types `T`, the texts of the values
and its scalar functions. -/
structure KeyEngine (T V : Type) where
  typeOf : V → EngineType T
  /-- The text of a value, and the cast of a text to a type. -/
  showText : V → Text
  readText : EngineType T → Text → Except Exception V
  /-- `Date::FromDate`, and the constants `DATE '…'` -/
  fromDate : ℕ → ℕ → ℕ → V
  readDate : Text → Except Exception V
  physical : KeyValue V → PhysicalValue
  call : Text → List (KeyValue V) → Except Exception (KeyValue V)

variable {T V : Type} (engine : KeyEngine T V)

def KeyValue.HasType : KeyType T → KeyValue V → Prop
  | _, .null => True
  | .integer, .integer _ | .bigint, .bigint _ | .varchar, .varchar _ => True
  | .engine type, .other v => engine.typeOf v = type
  | _, _ => False

/-! ## Evaluation -/

def InInteger (i : Int) : Prop := -(2 ^ 31 : Int) ≤ i ∧ i < 2 ^ 31

instance : DecidablePred InInteger := fun _ => inferInstanceAs (Decidable (_ ∧ _))

def checkedInteger (i : Int) : Except Exception (KeyValue V) :=
  if InInteger i then .ok (.integer (Int32.ofInt i)) else .error ⟨.outOfRange, "Overflow of INT32"⟩

def checkedBigint (i : Int) : Except Exception (KeyValue V) :=
  if InBigint i then .ok (.bigint (Int64.ofInt i)) else .error ⟨.outOfRange, "Overflow of INT64"⟩

/-- `none` is NULL. `%` and `//` truncate. -/
def SqlOperator.compute : SqlOperator → Int → Int → Option Int
  | add, a, b => some (a + b)
  | subtract, a, b => some (a - b)
  | modulo, a, b => if b = 0 then none else some (a.tmod b)
  | divide, a, b => if b = 0 then none else some (a.tdiv b)
  | bitAnd, a, b => some (a.land b)
  | and, _, _ | equal, _, _ => none

/-- The operands are brought to the wider type. -/
def arithmetic (op : SqlOperator) : KeyValue V → KeyValue V → Except Exception (KeyValue V)
  | .null, _ | _, .null => .ok .null
  | .integer a, .integer b => (op.compute a.toInt b.toInt).elim (.ok .null) checkedInteger
  | .integer a, .bigint b => (op.compute a.toInt b.toInt).elim (.ok .null) checkedBigint
  | .bigint a, .integer b => (op.compute a.toInt b.toInt).elim (.ok .null) checkedBigint
  | .bigint a, .bigint b => (op.compute a.toInt b.toInt).elim (.ok .null) checkedBigint
  | _, _ => .error ⟨.binder, "No function matches the given name and argument types"⟩

def scalarFunction (function : Text) (arguments : List (KeyValue V)) :
    Except Exception (KeyValue V) :=
  if function = "murmur3_32" then
    match arguments with
    | [.null] => .ok .null
    | [v] => .ok (.integer (engine.physical v).murmur3)
    | _ => .error ⟨.binder, "No function matches the given name and argument types"⟩
  else engine.call function arguments

section

variable {C : Type} (constantValue : C → Except Exception (KeyValue V)) (row : Text → KeyValue V)

mutual

def evaluate : SqlExpression C → Except Exception (KeyValue V)
  | .column name => .ok (row name)
  | .constant c => constantValue c
  | .call function arguments => do
    let values ← evaluateAll arguments
    scalarFunction engine function values
  | .binary op left right => do
    let a ← evaluate left
    let b ← evaluate right
    arithmetic op a b
  | .isNull _ => .error ⟨.binder, "Not a value"⟩

def evaluateAll : List (SqlExpression C) → Except Exception (List (KeyValue V))
  | [] => .ok []
  | e :: es => do
    let value ← evaluate e
    let values ← evaluateAll es
    return value :: values

end

/-- A string literal takes the type of the value with which it is compared. -/
def castLike : KeyValue V → Text → Except Exception (KeyValue V)
  | .null, _ => .ok .null
  | .integer _, t => match Text.readInteger t with
    | some i => checkedInteger i
    | none => .error ⟨.invalidInput, "Could not convert string to INT32"⟩
  | .bigint _, t => match Text.readInteger t with
    | some i => checkedBigint i
    | none => .error ⟨.invalidInput, "Could not convert string to INT64"⟩
  | .varchar _, t => .ok (.varchar t)
  | .other v, t => (engine.readText (engine.typeOf v) t).map .other

/-- The value of a column, or a key, compared with a string literal. -/
def equalsLiteral [DecidableEq V] : KeyValue V → KeyValue V → Except Exception (Option Bool)
  | .null, _ | _, .null => .ok none
  | v, .varchar t => (castLike engine v t).map fun w => some (decide (v = w))
  | _, _ => .error ⟨.binder, "Not a literal"⟩

/-- The conditions of SQL, with three truth values. -/
def conjunction : Option Bool → Option Bool → Option Bool
  | some false, _ | _, some false => some false
  | some true, b | b, some true => b
  | none, none => none

def holds [DecidableEq V] : SqlExpression C → Except Exception (Option Bool)
  | .binary .and left right => do
    let a ← holds left
    let b ← holds right
    return conjunction a b
  | .binary .equal left right => do
    let v ← evaluate engine constantValue row left
    let w ← evaluate engine constantValue row right
    equalsLiteral engine v w
  | .isNull e => do
    let v ← evaluate engine constantValue row e
    return some (decide (v = .null))
  | _ => .error ⟨.binder, "Not a condition"⟩

end

/-- The constants of a text. A number is an `INTEGER` if it fits. -/
inductive SqlConstant where
  | number (n : ℕ)
  | string (t : Text)
  | date (t : Text)

def SqlConstant.value : SqlConstant → Except Exception (KeyValue V)
  | number n => if InInteger n then checkedInteger n else checkedBigint n
  | string t => .ok (.varchar t)
  | date t => (engine.readDate t).map .other

namespace DuckLakePartitionUtils

/-! ## The texts -/

abbrev SqlText := List (SqlToken SqlConstant)

/-- The part of `date_diff` that an epoch transform computes. -/
def getEpochTransformPart : DuckLakeTransform → Option Text
  | .epochYear => some "year".toList
  | .epochMonth => some "month".toList
  | .epochDay => some "day".toList
  | .epochHour => some "hour".toList
  | _ => none

def isEpochTransform (transform : DuckLakeTransform) : Bool :=
  (getEpochTransformPart transform).isSome

/-- `GetPartitionKeyName`, without used names. -/
def getPartitionKeyName (fieldName : Text) : DuckLakeTransform → Text
  | .identity => fieldName
  | .year => "year".toList
  | .month => "month".toList
  | .day => "day".toList
  | .hour => "hour".toList
  | .epochYear => "epoch_year".toList
  | .epochMonth => "epoch_month".toList
  | .epochDay => "epoch_day".toList
  | .epochHour => "epoch_hour".toList
  | .bucket _ => "bucket".toList

def isNanoseconds : KeyType T → Bool
  | .engine .timestampNs | .engine .timestampTzNs => true
  | _ => false

def isTimestampTz : KeyType T → Bool
  | .engine .timestampTz => true
  | _ => false

def nanosText (colName : Text) : SqlText := [.call "epoch_ns", .column colName, .rightParen]

/-- `(n - ((n % 1000) + 1000) % 1000) // 1000` -/
def floorMicrosText (nanos : SqlText) : SqlText :=
  [.leftParen] ++ nanos ++ [.operator .subtract, .leftParen, .leftParen] ++ nanos ++
    [.operator .modulo, .constant (.number 1000), .rightParen, .operator .add,
      .constant (.number 1000), .rightParen, .operator .modulo, .constant (.number 1000),
      .rightParen, .operator .divide, .constant (.number 1000)]

/-- The argument of `date_diff` for a column. -/
def epochColumnText (colName : Text) (sourceType : KeyType T) : SqlText :=
  if isNanoseconds sourceType then
    [.call "make_timestamp"] ++ floorMicrosText (nanosText colName) ++ [.rightParen]
  else if isTimestampTz sourceType then
    [.call "make_timestamp", .call "epoch_us", .column colName, .rightParen, .rightParen]
  else [.column colName]

def getPartitionSQLExpression (transform : DuckLakeTransform) (colName : Text)
    (sourceType : KeyType T) : SqlText :=
  match transform with
  | .identity => [.column colName]
  | .bucket bucketCount =>
    [.leftParen, .call "murmur3_32", .column colName, .rightParen, .operator .bitAnd,
      .constant (.number 2147483647), .rightParen, .operator .modulo,
      .constant (.number bucketCount)]
  | transform => match getEpochTransformPart transform with
    | some part => [.call "date_diff", .constant (.string part), .comma,
        .constant (.date "1970-01-01"), .comma] ++ epochColumnText colName sourceType ++
          [.rightParen]
    | none => [.call (getPartitionKeyName colName transform), .column colName, .rightParen]

/-- `none` is the NULL partition value. -/
def partitionCondition (expression : SqlText) : Option Text → SqlText
  | none => expression ++ [.isNull]
  | some value => expression ++ [.operator .equal, .constant (.string value)]

def partitionConditionAt (partitionValues : List (Option Text)) (entry : SqlText × ℕ) :
    Except Exception SqlText :=
  match partitionValues[entry.2]? with
  | some value => .ok (partitionCondition entry.1 value)
  | none => internalException ("Attempted to access index " ++ Text.ofNat entry.2 ++
      " within vector of size " ++ Text.ofNat partitionValues.length)

def buildPartitionFilter (partitionSqlExprs : List SqlText) (partitionValues : List (Option Text)) :
    Except Exception SqlText := do
  let conditions ← partitionSqlExprs.zipIdx.mapM (partitionConditionAt partitionValues)
  return List.intercalate [.operator .and] conditions

/-! ## The bound expressions -/

/-- `micros` in `FloorNanosToMicros` -/
def floorMicros (nanos : SqlExpression (KeyValue V)) : SqlExpression (KeyValue V) :=
  let remainder := .binary .modulo nanos (.constant (.bigint 1000))
  let shifted := .binary .add remainder (.constant (.bigint 1000))
  let nonnegRemainder := .binary .modulo shifted (.constant (.bigint 1000))
  let floored := .binary .subtract nanos nonnegRemainder
  .binary .divide floored (.constant (.bigint 1000))

def floorNanosToMicros (columnExpr : SqlExpression (KeyValue V)) : SqlExpression (KeyValue V) :=
  .call "make_timestamp" [floorMicros (.call "epoch_ns" [columnExpr])]

/-- `ApplyEpochTransform` of a column of the type -/
def applyEpochTransform (columnExpr : SqlExpression (KeyValue V)) (sourceType : KeyType T)
    (part : Text) : SqlExpression (KeyValue V) :=
  let columnExpr :=
    if isNanoseconds sourceType then floorNanosToMicros columnExpr
    else if isTimestampTz sourceType then
      .call "make_timestamp" [.call "epoch_us" [columnExpr]]
    else columnExpr
  .call "date_diff"
    [.constant (.varchar part), .constant (.other (engine.fromDate 1970 1 1)), columnExpr]

/-- `ApplyBucketTransform`, with the `NumericCast` of the count -/
def applyBucketTransform (columnExpr : SqlExpression (KeyValue V)) (bucketCount : ℕ) :
    Except Exception (SqlExpression (KeyValue V)) :=
  let hash := .call "murmur3_32" [columnExpr]
  let masked := .binary .bitAnd hash (.constant (.integer 2147483647))
  if InInteger bucketCount then
    .ok (.binary .modulo masked (.constant (.integer (Int32.ofNat bucketCount))))
  else internalException ("Information loss on integer cast: value " ++ Text.ofNat bucketCount ++
    " outside of target range [-2147483648, 2147483647]")

def applyPartitionTransform (columnExpr : SqlExpression (KeyValue V)) (sourceType : KeyType T) :
    DuckLakeTransform → Except Exception (SqlExpression (KeyValue V))
  | .identity => .ok columnExpr
  | .year => .ok (.call "year" [columnExpr])
  | .month => .ok (.call "month" [columnExpr])
  | .day => .ok (.call "day" [columnExpr])
  | .hour => .ok (.call "hour" [columnExpr])
  | .epochYear => .ok (applyEpochTransform engine columnExpr sourceType "year")
  | .epochMonth => .ok (applyEpochTransform engine columnExpr sourceType "month")
  | .epochDay => .ok (applyEpochTransform engine columnExpr sourceType "day")
  | .epochHour => .ok (applyEpochTransform engine columnExpr sourceType "hour")
  | .bucket bucketCount => applyBucketTransform columnExpr bucketCount

def getPartitionKeyType (sourceType : KeyType T) : DuckLakeTransform → KeyType T
  | .identity => sourceType
  | .bucket _ => .integer
  | _ => .bigint

/-! ## Keys and the rows of a file -/

end DuckLakePartitionUtils

open DuckLakePartitionUtils

/-- A partition field with its column. `GetPartitionField` checks the bucket count. -/
structure PartitionKeyField (T : Type) where
  transform : DuckLakeTransform
  colName : Text
  type : KeyType T
  bucketCount : ∀ n, transform = .bucket n → 0 < n ∧ n ≤ 2147483647

variable {engine}

/-- The key of a row by the bound expression. -/
def PartitionKeyField.key (engine : KeyEngine T V) (field : PartitionKeyField T)
    (row : Text → KeyValue V) : Except Exception (KeyValue V) := do
  let e ← applyPartitionTransform engine (.column field.colName) field.type field.transform
  evaluate engine .ok row e

def PartitionKeyField.sqlExpression (field : PartitionKeyField T) : SqlText :=
  getPartitionSQLExpression field.transform field.colName field.type

/-- The value of a text. -/
def evaluateText (engine : KeyEngine T V) (row : Text → KeyValue V) (text : SqlText) :
    Except Exception (KeyValue V) :=
  match readSql text with
  | some e => evaluate engine (SqlConstant.value engine) row e
  | none => .error ⟨.invalidInput, "syntax error"⟩

/-- The text of a key in the metadata of a file, `none` for NULL. -/
def KeyValue.partitionValue (engine : KeyEngine T V) : KeyValue V → Option Text
  | .null => none
  | .integer i => some (Text.ofInt i.toInt)
  | .bigint i => some (Text.ofInt i.toInt)
  | .varchar t => some t
  | .other v => some (engine.showText v)

/-- Whether the rows of a file with the filter include the row. No filter is made of no fields. -/
def selectsRow [DecidableEq V] (engine : KeyEngine T V) (row : Text → KeyValue V)
    (filter : SqlText) : Except Exception Bool :=
  if filter.isEmpty then .ok true
  else match readSql filter with
    | none => .error ⟨.invalidInput, "syntax error"⟩
    | some e => do
      let result ← holds engine (SqlConstant.value engine) row e
      return result = some true

end DuckLake
