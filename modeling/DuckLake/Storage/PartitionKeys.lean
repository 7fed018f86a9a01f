import DuckLake.Lib.Guard
import DuckLake.Storage.PartitionExpressions

/-!
# Partition keys by text and by expression

The text of a partition expression reads as an expression that has the value of the bound one. The
nanoseconds of a timestamp are floored to microseconds, unless the multiple of 1000 below them does
not fit 64 bits. The filters of the keys of some rows divide these rows.
-/

namespace DuckLake

open DuckLakePartitionUtils

variable {T V : Type} {engine : KeyEngine T V}

/-! ## Arithmetic -/

theorem inBigint_iff {i : Int} : InBigint i ↔ -(2 ^ 63) ≤ i ∧ i < 2 ^ 63 := by
  simp only [InBigint, bigintLimit]
  norm_cast

theorem inBigint_toInt (i : Int64) : InBigint i.toInt :=
  inBigint_iff.2 ⟨i.le_toInt, i.toInt_lt⟩

theorem toInt_ofInt64 {i : Int} (h : InBigint i) : (Int64.ofInt i).toInt = i := by
  obtain ⟨hle, hlt⟩ := inBigint_iff.1 h
  exact Int64.toInt_ofInt_of_le hle hlt

theorem checkedBigint_of_in {i : Int} (h : InBigint i) :
    checkedBigint i = .ok (.bigint (Int64.ofInt i) : KeyValue V) := if_pos h

/-- What an operator computes of a `BIGINT` and a constant, whatever the width of the constant. -/
theorem arithmetic_thousand (op : SqlOperator) {i : Int} (h : InBigint i) {c : KeyValue V}
    (hc : c = .bigint 1000 ∨ c = .integer 1000) :
    arithmetic op (.bigint (Int64.ofInt i)) c =
      (op.compute i 1000).elim (.ok .null) checkedBigint := by
  rcases hc with rfl | rfl
  · rw [arithmetic, toInt_ofInt64 h]
    rfl
  · rw [arithmetic, toInt_ofInt64 h]
    rfl

/-- The nanoseconds that are floored without an overflow. -/
def floorLimit : Int := -9223372036854775000

theorem shifted_tmod (n : Int) : (n.tmod 1000 + 1000).tmod 1000 = n % 1000 := by
  have hnonneg : 0 ≤ n.tmod 1000 + 1000 := by
    have hlt := Int.lt_tmod_of_pos n (b := 1000) (by decide)
    omega
  rw [Int.tmod_eq_emod_of_nonneg hnonneg, Int.add_emod_right, Int.tmod_eq_emod]
  split <;> simp

theorem inBigint_of_small {i : Int} (hle : -2000 ≤ i) (hlt : i ≤ 2000) : InBigint i := by
  rw [inBigint_iff]
  omega

theorem inBigint_floor {n : Int} (h : InBigint n) :
    InBigint (n - n % 1000) ↔ floorLimit ≤ n := by
  rw [inBigint_iff] at h ⊢
  unfold floorLimit
  omega

/-- The microseconds of some nanoseconds, by `floorMicros`. -/
def flooredMicros : KeyValue V → Except Exception (KeyValue V)
  | .bigint n =>
    if floorLimit ≤ n.toInt then .ok (.bigint (Int64.ofInt (n.toInt / 1000)))
    else .error ⟨.outOfRange, "Overflow of INT64"⟩
  | _ => .ok .null

/-- The steps of the flooring. The constants are of one of the two widths. -/
theorem floor_steps {n : KeyValue V} (hn : n.HasType engine .bigint) {c : KeyValue V}
    (hc : c = .bigint 1000 ∨ c = .integer 1000) :
    (do
      let remainder ← arithmetic .modulo n c
      let shifted ← arithmetic .add remainder c
      let nonnegRemainder ← arithmetic .modulo shifted c
      let floored ← arithmetic .subtract n nonnegRemainder
      arithmetic .divide floored c) = flooredMicros n := by
  cases n with
  | integer i => exact hn.elim
  | varchar t => exact hn.elim
  | other v => exact hn.elim
  | null => rcases hc with rfl | rfl <;> rfl
  | bigint n =>
    have hn := inBigint_toInt n
    have hremainder : InBigint (n.toInt.tmod 1000) := by
      have hlow := Int.lt_tmod_of_pos n.toInt (b := 1000) (by decide)
      have hhigh := Int.tmod_lt_of_pos n.toInt (b := 1000) (by decide)
      exact inBigint_of_small (by omega) (by omega)
    have hshifted : InBigint (n.toInt.tmod 1000 + 1000) := by
      have hlow := Int.lt_tmod_of_pos n.toInt (b := 1000) (by decide)
      have hhigh := Int.tmod_lt_of_pos n.toInt (b := 1000) (by decide)
      exact inBigint_of_small (by omega) (by omega)
    have hnonneg : InBigint (n.toInt % 1000) := inBigint_of_small (by omega) (by omega)
    have hmodulo : ∀ {i : Int}, InBigint i → InBigint (i.tmod 1000) →
        arithmetic .modulo (.bigint (Int64.ofInt i)) c =
          .ok (.bigint (Int64.ofInt (i.tmod 1000))) := by
      intro i hi hmod
      rw [arithmetic_thousand .modulo hi hc]
      exact checkedBigint_of_in hmod
    have hadd : arithmetic .add (.bigint (Int64.ofInt (n.toInt.tmod 1000))) c =
        .ok (.bigint (Int64.ofInt (n.toInt.tmod 1000 + 1000))) := by
      rw [arithmetic_thousand .add hremainder hc]
      exact checkedBigint_of_in hshifted
    have hsubtract : arithmetic (V := V) .subtract (.bigint n)
        (.bigint (Int64.ofInt (n.toInt % 1000))) = checkedBigint (n.toInt - n.toInt % 1000) := by
      rw [arithmetic, toInt_ofInt64 hnonneg]
      rfl
    have hfirst := hmodulo hn hremainder
    rw [Int64.ofInt_toInt] at hfirst
    have hsecond := hmodulo hshifted (by rwa [shifted_tmod])
    rw [shifted_tmod] at hsecond
    simp only [hfirst, hadd, hsecond, hsubtract, bind, Except.bind, flooredMicros]
    by_cases hlimit : floorLimit ≤ n.toInt
    · have hfloored := (inBigint_floor hn).2 hlimit
      rw [checkedBigint_of_in hfloored, if_pos hlimit]
      change arithmetic .divide _ c = _
      rw [arithmetic_thousand .divide hfloored hc]
      have hdiv : (n.toInt - n.toInt % 1000).tdiv 1000 = n.toInt / 1000 := by
        have hdvd : (1000 : Int) ∣ n.toInt - n.toInt % 1000 := ⟨n.toInt / 1000, by omega⟩
        rw [Int.tdiv_eq_ediv_of_dvd hdvd]
        omega
      have hin : InBigint (n.toInt / 1000) := by
        rw [inBigint_iff] at hn ⊢
        omega
      change checkedBigint _ = _
      rw [hdiv, checkedBigint_of_in hin]
    · rw [if_neg hlimit, checkedBigint, if_neg (mt (inBigint_floor hn).1 hlimit)]

/-! ## Reading the texts -/

/-- The functions that return a `BIGINT`. -/
def bigintFunctions : List Text :=
  ["epoch_ns".toList, "year".toList, "month".toList, "day".toList, "hour".toList,
    "date_diff".toList]

/-- What the engine documents of its casts and functions. -/
structure KeyEngine.Lawful (engine : KeyEngine T V) : Prop where
  readText_showText (v : V) : engine.readText (engine.typeOf v) (engine.showText v) = .ok v
  readDate_epoch : engine.readDate "1970-01-01".toList = .ok (engine.fromDate 1970 1 1)
  call_bigint {function : Text} {arguments : List (KeyValue V)} {v : KeyValue V} :
    function ∈ bigintFunctions → engine.call function arguments = .ok v → v.HasType engine .bigint

/-- The flooring of nanoseconds, as the texts and the bound expressions nest it. -/
def flooredTree {C : Type} (nanos : SqlExpression C) (thousand : C) : SqlExpression C :=
  .binary .divide (.binary .subtract nanos (.binary .modulo (.binary .add
    (.binary .modulo nanos (.constant thousand)) (.constant thousand)) (.constant thousand)))
      (.constant thousand)

theorem readsAs_nanosText (colName : Text) (p : ℕ) :
    ReadsAs p (nanosText colName) (.call "epoch_ns" [.column colName]) :=
  ReadsAs.call (readsAs_column 0 colName) .nil "epoch_ns" p

theorem readsAs_floorMicrosText {nanos : SqlText} {e : SqlExpression SqlConstant}
    (h : ∀ p, ReadsAs p nanos e) :
    ReadsAs 6 (floorMicrosText nanos) (flooredTree e (.number 1000)) := by
  have hremainder : ReadsAs 6 _ _ :=
    ReadsAs.binary .modulo (h 6) (readsAs_constant 7 (SqlConstant.number 1000))
  have hshifted : ReadsAs 5 _ _ := ReadsAs.binary .add
    ((hremainder.mono (Nat.zero_le 6)).parentheses 5) (readsAs_constant 6 (.number 1000))
  have hnonneg : ReadsAs 6 _ _ := ReadsAs.binary .modulo
    ((hshifted.mono (Nat.zero_le 5)).parentheses 6) (readsAs_constant 7 (.number 1000))
  have hfloored : ReadsAs 5 _ _ := ReadsAs.binary .subtract (h 5) hnonneg
  have hmicros : ReadsAs 6 _ _ := ReadsAs.binary .divide
    ((hfloored.mono (Nat.zero_le 5)).parentheses 6) (readsAs_constant 7 (.number 1000))
  simpa [floorMicrosText, flooredTree] using hmicros

theorem ok_bind {α β : Type} (a : α) (f : α → Except Exception β) :
    (Except.ok a >>= f) = f a := rfl

theorem evaluate_flooredTree {C : Type} {constantValue : C → Except Exception (KeyValue V)}
    {row : Text → KeyValue V} {nanos : SqlExpression C} {thousand : C} {c : KeyValue V}
    (hthousand : constantValue thousand = .ok c) (hc : c = .bigint 1000 ∨ c = .integer 1000)
    (hnanos : ∀ v, evaluate engine constantValue row nanos = .ok v → v.HasType engine .bigint) :
    evaluate engine constantValue row (flooredTree nanos thousand) =
      evaluate engine constantValue row nanos >>= flooredMicros := by
  simp only [flooredTree, evaluate, hthousand]
  cases hvalue : evaluate engine constantValue row nanos with
  | error e => rfl
  | ok n =>
    have hsteps := floor_steps (hnanos n hvalue) hc
    simpa only [ok_bind, bind_assoc] using hsteps

theorem value_number {n : ℕ} (h : n < 2 ^ 31) :
    (SqlConstant.number n).value engine = .ok (.integer (Int32.ofNat n)) := by
  have hin : InInteger n := by
    unfold InInteger
    omega
  rw [SqlConstant.value, if_pos hin, checkedInteger, if_pos hin, Int32.ofInt_eq_ofNat]

theorem evaluate_nanos {C : Type} (lawful : engine.Lawful)
    {constantValue : C → Except Exception (KeyValue V)} {row : Text → KeyValue V} {colName : Text}
    {v : KeyValue V}
    (h : evaluate engine constantValue row (.call "epoch_ns" [.column colName]) = .ok v) :
    v.HasType engine .bigint :=
  lawful.call_bigint (by decide) h

/-! ## The texts agree with the bound expressions -/

section

variable (row : Text → KeyValue V)

/-- The text reads as an expression with the value of the bound one. -/
def Agrees (engine : KeyEngine T V) (p : ℕ) (text : SqlText)
    (bound : SqlExpression (KeyValue V)) : Prop :=
  ∃ e, ReadsAs p text e ∧
    evaluate engine (SqlConstant.value engine) row e = evaluate engine .ok row bound

variable {row}

theorem agrees_column (p : ℕ) (colName : Text) :
    Agrees row engine p [.column colName] (.column colName) :=
  ⟨.column colName, readsAs_column p colName, rfl⟩

theorem Agrees.call {text : SqlText} {bound : SqlExpression (KeyValue V)}
    (h : Agrees row engine 0 text bound) (function : Text) (p : ℕ) :
    Agrees row engine p (.call function :: (text ++ [.rightParen])) (.call function [bound]) := by
  obtain ⟨e, hreads, hvalue⟩ := h
  refine ⟨.call function [e], hreads.call .nil function p, ?_⟩
  simp only [evaluate, evaluateAll, hvalue]

theorem agrees_floorMicros (lawful : engine.Lawful) (colName : Text) :
    Agrees row engine 0 (floorMicrosText (nanosText colName))
      (floorMicros (.call "epoch_ns" [.column colName])) := by
  refine ⟨_, (readsAs_floorMicrosText (readsAs_nanosText colName)).mono (Nat.zero_le 6), ?_⟩
  rw [evaluate_flooredTree (value_number (by decide)) (.inr rfl) fun v h =>
    evaluate_nanos lawful h]
  change _ = evaluate engine .ok row (flooredTree _ (KeyValue.bigint 1000))
  rw [evaluate_flooredTree rfl (.inl rfl) fun v h => evaluate_nanos lawful h]
  rfl

/-- The argument of `date_diff` for a column, in a bound expression. -/
def epochColumn (colName : Text) (sourceType : KeyType T) : SqlExpression (KeyValue V) :=
  if isNanoseconds sourceType then floorNanosToMicros (.column colName)
  else if isTimestampTz sourceType then
    .call "make_timestamp" [.call "epoch_us" [.column colName]]
  else .column colName

theorem agrees_epochColumn (lawful : engine.Lawful) (colName : Text) (sourceType : KeyType T) :
    Agrees row engine 0 (epochColumnText colName sourceType)
      (epochColumn colName sourceType) := by
  unfold epochColumnText epochColumn
  split
  · exact (agrees_floorMicros lawful colName).call "make_timestamp" 0
  · split
    · exact ((agrees_column 0 colName).call "epoch_us" 0).call "make_timestamp" 0
    · exact agrees_column 0 colName

theorem agrees_dateDiff (lawful : engine.Lawful) {text : SqlText}
    {bound : SqlExpression (KeyValue V)} (h : Agrees row engine 0 text bound) (part : Text) (p : ℕ) :
    Agrees row engine p ([.call "date_diff", .constant (.string part), .comma,
        .constant (.date "1970-01-01"), .comma] ++ text ++ [.rightParen])
      (.call "date_diff"
        [.constant (.varchar part), .constant (.other (engine.fromDate 1970 1 1)), bound]) := by
  obtain ⟨e, hreads, hvalue⟩ := h
  have hcall := (readsAs_constant 0 (SqlConstant.string part)).call
    (.cons (readsAs_constant 0 (.date "1970-01-01")) (.cons hreads .nil)) "date_diff" p
  have hdate : SqlConstant.value engine (.date "1970-01-01") =
      .ok (.other (engine.fromDate 1970 1 1)) := by
    change (engine.readDate "1970-01-01".toList).map KeyValue.other = _
    rw [lawful.readDate_epoch]
    rfl
  refine ⟨_, hcall, ?_⟩
  simp only [evaluate, evaluateAll, hvalue, hdate]
  rfl

theorem agrees_bucket (colName : Text) {bucketCount : ℕ} (h : bucketCount < 2 ^ 31) :
    Agrees row engine 3
      [.leftParen, .call "murmur3_32", .column colName, .rightParen, .operator .bitAnd,
        .constant (.number 2147483647), .rightParen, .operator .modulo,
        .constant (.number bucketCount)]
      (.binary .modulo (.binary .bitAnd (.call "murmur3_32" [.column colName])
        (.constant (.integer 2147483647))) (.constant (.integer (Int32.ofNat bucketCount)))) := by
  have hhash : @ReadsAs SqlConstant 4 _ _ := (readsAs_column 0 colName).call .nil "murmur3_32" 4
  have hmasked : ReadsAs 4 _ _ :=
    ReadsAs.binary .bitAnd hhash (readsAs_constant 5 (SqlConstant.number 2147483647))
  have hbucket : ReadsAs 6 _ _ := ReadsAs.binary .modulo
    ((hmasked.mono (Nat.zero_le 4)).parentheses 6) (readsAs_constant 7 (.number bucketCount))
  refine ⟨_, hbucket.mono (by decide), ?_⟩
  simp only [evaluate, evaluateAll, value_number h, value_number (n := 2147483647) (by decide)]
  rfl

theorem agrees_partition (lawful : engine.Lawful) (field : PartitionKeyField T) :
    ∃ bound, applyPartitionTransform engine (.column field.colName) field.type field.transform =
        .ok bound ∧ Agrees row engine 3 field.sqlExpression bound := by
  obtain ⟨transform, colName, type, hcount⟩ := field
  cases transform with
  | identity => exact ⟨_, rfl, agrees_column 3 colName⟩
  | year => exact ⟨_, rfl, (agrees_column 0 colName).call "year" 3⟩
  | month => exact ⟨_, rfl, (agrees_column 0 colName).call "month" 3⟩
  | day => exact ⟨_, rfl, (agrees_column 0 colName).call "day" 3⟩
  | hour => exact ⟨_, rfl, (agrees_column 0 colName).call "hour" 3⟩
  | epochYear => exact ⟨_, rfl, agrees_dateDiff lawful (agrees_epochColumn lawful _ type) "year" 3⟩
  | epochMonth => exact ⟨_, rfl, agrees_dateDiff lawful (agrees_epochColumn lawful _ type) "month" 3⟩
  | epochDay => exact ⟨_, rfl, agrees_dateDiff lawful (agrees_epochColumn lawful _ type) "day" 3⟩
  | epochHour => exact ⟨_, rfl, agrees_dateDiff lawful (agrees_epochColumn lawful _ type) "hour" 3⟩
  | bucket bucketCount =>
    obtain ⟨-, hle⟩ := hcount bucketCount rfl
    have hin : InInteger bucketCount := by
      unfold InInteger
      omega
    refine ⟨_, ?_, agrees_bucket colName (Nat.lt_succ_of_le hle)⟩
    rw [applyPartitionTransform, DuckLakePartitionUtils.applyBucketTransform, if_pos hin]

end

/-! ## The types of the keys -/

/-- A row whose columns hold values of their types. -/
structure KeyRow (engine : KeyEngine T V) (fields : List (PartitionKeyField T)) where
  value : Text → KeyValue V
  typed : ∀ field ∈ fields, (value field.colName).HasType engine field.type

theorem hasType_call (lawful : engine.Lawful) {row : Text → KeyValue V} {function : Text}
    {arguments : List (SqlExpression (KeyValue V))} {v : KeyValue V}
    (hfunction : function ∈ bigintFunctions)
    (h : evaluate engine .ok row (.call function arguments) = .ok v) :
    v.HasType engine .bigint := by
  rw [evaluate] at h
  obtain ⟨values, -, h⟩ := bind_eq_ok.1 h
  have hmurmur : function ≠ "murmur3_32".toList := by
    rintro rfl
    revert hfunction
    decide
  have hcall : scalarFunction engine function values = engine.call function values := if_neg hmurmur
  exact lawful.call_bigint hfunction (hcall.symm.trans h)

theorem hasType_checkedInteger {i : Int} {v : KeyValue V} (h : checkedInteger i = .ok v) :
    v.HasType engine .integer := by
  rw [checkedInteger] at h
  split at h <;> cases h
  trivial

theorem hasType_arithmetic {op : SqlOperator} {v w : KeyValue V} {c : Int32}
    (hv : v.HasType engine .integer) (h : arithmetic op v (.integer c) = .ok w) :
    w.HasType engine .integer := by
  cases v with
  | null =>
    cases h
    trivial
  | integer i =>
    rw [arithmetic] at h
    cases hcompute : op.compute i.toInt c.toInt with
    | none =>
      rw [hcompute] at h
      cases h
      trivial
    | some k =>
      rw [hcompute] at h
      exact hasType_checkedInteger h
  | bigint i => exact hv.elim
  | varchar t => exact hv.elim
  | other v => exact hv.elim

theorem hasType_bucket {row : Text → KeyValue V} {colName : Text} {bucketCount : Int32}
    {v : KeyValue V} (h : evaluate engine .ok row
      (.binary .modulo (.binary .bitAnd (.call "murmur3_32" [.column colName])
        (.constant (.integer 2147483647))) (.constant (.integer bucketCount))) = .ok v) :
    v.HasType engine .integer := by
  rw [evaluate, evaluate] at h
  obtain ⟨masked, hmasked, h⟩ := bind_eq_ok.1 h
  obtain ⟨hash, hhash, hmasked⟩ := bind_eq_ok.1 hmasked
  have hinteger : hash.HasType engine .integer := by
    have hcall : scalarFunction engine "murmur3_32".toList [row colName] = .ok hash := hhash
    cases hvalue : row colName with
    | null =>
      rw [hvalue] at hcall
      cases hcall
      trivial
    | integer i | bigint i | varchar t | other v =>
      rw [hvalue] at hcall
      cases hcall
      trivial
  exact hasType_arithmetic (hasType_arithmetic hinteger hmasked) h

theorem hasType_key (lawful : engine.Lawful) {fields : List (PartitionKeyField T)}
    (row : KeyRow engine fields) {field : PartitionKeyField T} (hfield : field ∈ fields)
    {v : KeyValue V} (h : field.key engine row.value = .ok v) :
    v.HasType engine (getPartitionKeyType field.type field.transform) := by
  have htyped := row.typed field hfield
  obtain ⟨transform, colName, type, hcount⟩ := field
  obtain ⟨bound, hbound, h⟩ := bind_eq_ok.1 h
  cases transform with
  | identity =>
    cases hbound
    cases h
    exact htyped
  | bucket bucketCount =>
    rw [applyPartitionTransform, DuckLakePartitionUtils.applyBucketTransform] at hbound
    split at hbound <;> cases hbound
    exact hasType_bucket h
  | year | month | day | hour | epochYear | epochMonth | epochDay | epochHour =>
    cases hbound
    exact hasType_call lawful (by decide) h

/-! ## The conditions -/

section

variable [DecidableEq V]

omit [DecidableEq V] in
/-- The text of a key casts back to the key. -/
theorem castLike_partitionValue (lawful : engine.Lawful) {type : KeyType T} {v w : KeyValue V}
    {t : Text} (hv : v.HasType engine type) (hw : w.HasType engine type) (hnull : v ≠ .null)
    (ht : w.partitionValue engine = some t) : castLike engine v t = .ok w := by
  cases w with
  | null => cases ht
  | integer i =>
    cases ht
    have hin : InInteger i.toInt := ⟨i.le_toInt, i.toInt_lt⟩
    cases type <;> cases v <;> first | exact hv.elim | exact hw.elim | exact absurd rfl hnull | skip
    rw [castLike, Text.readInteger_ofInt]
    change checkedInteger i.toInt = _
    rw [checkedInteger, if_pos hin, Int32.ofInt_toInt]
  | bigint i =>
    cases ht
    cases type <;> cases v <;> first | exact hv.elim | exact hw.elim | exact absurd rfl hnull | skip
    rw [castLike, Text.readInteger_ofInt]
    change checkedBigint i.toInt = _
    rw [checkedBigint_of_in (inBigint_toInt i), Int64.ofInt_toInt]
  | varchar s =>
    cases ht
    cases type <;> cases v <;> first | exact hv.elim | exact hw.elim | exact absurd rfl hnull | rfl
  | other u =>
    cases ht
    cases type <;> cases v <;> first | exact hv.elim | exact hw.elim | exact absurd rfl hnull | skip
    rename_i type v
    rw [castLike, show engine.typeOf v = engine.typeOf u from Eq.trans hv (Eq.symm hw),
      lawful.readText_showText]
    rfl

theorem conjunction_eq_true {a b : Option Bool} :
    conjunction a b = some true ↔ a = some true ∧ b = some true := by
  rcases a with _ | _ | _ <;> rcases b with _ | _ | _ <;> simp [conjunction]

variable (engine) (row : Text → KeyValue V)

/-- The text reads as a condition that is true exactly when `P` is. -/
def TrueWhen (p : ℕ) (text : SqlText) (P : Prop) : Prop :=
  ∃ e, ReadsAs p text e ∧ ∃ r, holds engine (SqlConstant.value engine) row e = .ok r ∧
    (r = some true ↔ P)

variable {engine row}

theorem trueWhen_condition (lawful : engine.Lawful) {type : KeyType T} {text : SqlText}
    {bound : SqlExpression (KeyValue V)} {v w : KeyValue V}
    (hagrees : Agrees row engine 3 text bound) (hbound : evaluate engine .ok row bound = .ok v)
    (hv : v.HasType engine type) (hw : w.HasType engine type) :
    TrueWhen engine row 2 (partitionCondition text (w.partitionValue engine)) (v = w) := by
  obtain ⟨e, hreads, hvalue⟩ := hagrees
  cases htext : w.partitionValue engine with
  | none =>
    have hnull : w = .null := by
      cases w <;> first | rfl | cases htext
    refine ⟨.isNull e, (hreads.mono (by decide)).isNull, some (decide (v = .null)), ?_, ?_⟩
    · rw [holds, hvalue, hbound]
      rfl
    · rw [hnull]
      simp
  | some t =>
    have hread : ReadsAs 3 (partitionCondition text (some t))
        (.binary .equal e (.constant (.string t))) :=
      ReadsAs.binary .equal hreads (readsAs_constant 4 (SqlConstant.string t))
    have hholds : holds engine (SqlConstant.value engine) row
        (.binary .equal e (.constant (.string t))) = equalsLiteral engine v (.varchar t) := by
      rw [holds, hvalue, hbound]
      rfl
    refine ⟨_, hread.mono (by decide), ?_⟩
    by_cases hnull : v = .null
    · refine ⟨none, ?_, ⟨nofun, ?_⟩⟩
      · rw [hholds, hnull]
        rfl
      · rintro rfl
        rw [hnull] at htext
        cases htext
    · refine ⟨some (decide (v = w)), ?_, by simp⟩
      have hequals : equalsLiteral engine v (.varchar t) =
          (castLike engine v t).map fun w => some (decide (v = w)) := by
        cases v <;> first | exact absurd rfl hnull | rfl
      rw [hholds, hequals, castLike_partitionValue lawful hv hw hnull htext]
      rfl

theorem TrueWhen.and {left right : SqlText} {P Q : Prop} (hl : TrueWhen engine row 1 left P)
    (hr : TrueWhen engine row 2 right Q) :
    TrueWhen engine row 1 (left ++ .operator .and :: right) (P ∧ Q) := by
  obtain ⟨e, hreads, r, hholds, hiff⟩ := hl
  obtain ⟨e', hreads', r', hholds', hiff'⟩ := hr
  refine ⟨_, ReadsAs.binary .and hreads hreads', conjunction r r', ?_, ?_⟩
  · rw [holds, hholds, hholds']
    rfl
  · rw [conjunction_eq_true, hiff, hiff']

/-! ## The filters -/

theorem trueWhen_filter {text : SqlText} {P : Prop} (h : TrueWhen engine row 1 text P)
    {conditions : List SqlText} {Ps : List Prop}
    (hrest : List.Forall₂ (TrueWhen engine row 2) conditions Ps) :
    TrueWhen engine row 1 (List.intercalate [.operator .and] (text :: conditions))
      (P ∧ ∀ Q ∈ Ps, Q) := by
  induction hrest generalizing text P with
  | nil => simpa [List.intercalate] using h
  | @cons condition Q conditions Ps hcondition _ ih =>
    have hstep := ih (h.and hcondition)
    have htext : List.intercalate [SqlToken.operator .and] (text :: condition :: conditions) =
        List.intercalate [.operator .and] ((text ++ .operator .and :: condition) :: conditions) := by
      cases conditions <;> simp [List.intercalate]
    rw [htext, List.forall_mem_cons, ← and_assoc]
    exact hstep

omit [DecidableEq V] in
theorem buildPartitionFilter_eq {exprs : List SqlText} {values : List (Option Text)}
    (h : exprs.length = values.length) :
    buildPartitionFilter exprs values =
      .ok (List.intercalate [.operator .and] (List.zipWith partitionCondition exprs values)) := by
  have hconditions : exprs.zipIdx.mapM (partitionConditionAt values) =
      .ok (List.zipWith partitionCondition exprs values) := by
    refine mapM_eq_ok_iff.2 (List.forall₂_iff_get.2 ⟨by simp [h], fun i hi hi' => ?_⟩)
    simp only [List.length_zipIdx] at hi
    simp [partitionConditionAt, List.getElem?_eq_getElem (h ▸ hi)]
  rw [buildPartitionFilter, hconditions]
  rfl

theorem trueWhen_key (lawful : engine.Lawful) {fields : List (PartitionKeyField T)}
    (row row' : KeyRow engine fields) {field : PartitionKeyField T} (hfield : field ∈ fields)
    {v w : KeyValue V} (hv : field.key engine row.value = .ok v)
    (hw : field.key engine row'.value = .ok w) :
    TrueWhen engine row.value 2
      (partitionCondition field.sqlExpression (w.partitionValue engine)) (v = w) := by
  obtain ⟨bound, hbound, hagrees⟩ := @agrees_partition _ _ _ row.value lawful field
  have hvalue : evaluate engine .ok row.value bound = .ok v := by
    obtain ⟨bound', hbound', hvalue⟩ := bind_eq_ok.1 hv
    rw [hbound] at hbound'
    cases hbound'
    exact hvalue
  exact trueWhen_condition lawful hagrees hvalue (hasType_key lawful row hfield hv)
    (hasType_key lawful row' hfield hw)

/-- The conditions of some keys, and that these are the keys of the row. -/
theorem trueWhen_keys (lawful : engine.Lawful) {fields : List (PartitionKeyField T)}
    (row row' : KeyRow engine fields) {rest : List (PartitionKeyField T)}
    (hrest : ∀ field ∈ rest, field ∈ fields) {keys keys' : List (KeyValue V)}
    (h : List.Forall₂ (fun field v => PartitionKeyField.key engine field row.value = .ok v) rest
      keys)
    (h' : List.Forall₂ (fun field v => PartitionKeyField.key engine field row'.value = .ok v) rest
      keys') :
    List.Forall₂ (TrueWhen engine row.value 2) (List.zipWith partitionCondition
      (rest.map (·.sqlExpression)) (keys'.map (·.partitionValue engine)))
        (List.zipWith Eq keys keys') ∧
      ((∀ P ∈ List.zipWith Eq keys keys', P) ↔ keys = keys') := by
  induction h generalizing keys' with
  | nil =>
    cases h'
    exact ⟨.nil, by simp⟩
  | @cons field v rest keys hv _ ih =>
    obtain ⟨hfield, hrest⟩ := List.forall_mem_cons.1 hrest
    cases h' with
    | cons hw h' =>
      obtain ⟨hconditions, hiff⟩ := ih hrest h'
      refine ⟨.cons (trueWhen_key lawful row row' hfield hv hw) hconditions, ?_⟩
      rw [List.zipWith_cons_cons, List.forall_mem_cons, hiff, List.cons.injEq]

theorem selectsRow_conditions {row : Text → KeyValue V} {conditions : List SqlText}
    {Ps : List Prop} (h : List.Forall₂ (TrueWhen engine row 2) conditions Ps) :
    ∃ b, selectsRow engine row (List.intercalate [.operator .and] conditions) = .ok b ∧
      (b = true ↔ ∀ P ∈ Ps, P) := by
  cases h with
  | nil => exact ⟨true, rfl, by simp⟩
  | @cons text P conditions Ps htext hrest =>
    obtain ⟨e, hreads, hholds⟩ := htext
    obtain ⟨e, hreads, r, hholds, hr⟩ :=
      trueWhen_filter ⟨e, hreads.mono (by decide), hholds⟩ hrest
    have hread := (hreads.mono (Nat.zero_le 1)).read
    have hne : (List.intercalate [SqlToken.operator .and] (text :: conditions)).isEmpty = false := by
      rw [← Bool.not_eq_true, List.isEmpty_iff]
      intro hnil
      rw [hnil] at hread
      cases hread
    refine ⟨decide (r = some true), ?_, by rw [decide_eq_true_iff, hr, List.forall_mem_cons]⟩
    rw [selectsRow, hne, hread, if_neg Bool.false_ne_true]
    change holds engine _ row e >>= _ = _
    rw [hholds]
    rfl

/-- The filter of some keys selects the rows with these keys. -/
theorem selectsRow_filter (lawful : engine.Lawful) {fields : List (PartitionKeyField T)}
    (row row' : KeyRow engine fields) {keys keys' : List (KeyValue V)}
    (h : fields.mapM (·.key engine row.value) = .ok keys)
    (h' : fields.mapM (·.key engine row'.value) = .ok keys') :
    (buildPartitionFilter (fields.map (·.sqlExpression))
        (keys'.map (·.partitionValue engine)) >>= selectsRow engine row.value) =
      .ok (decide (keys = keys')) := by
  have hkeys := mapM_eq_ok_iff.1 h
  have hkeys' := mapM_eq_ok_iff.1 h'
  have hlength : (fields.map (·.sqlExpression)).length =
      (keys'.map (·.partitionValue engine)).length := by
    rw [List.length_map, List.length_map, hkeys'.length_eq]
  rw [buildPartitionFilter_eq hlength, ok_bind]
  obtain ⟨hconditions, hiff⟩ := trueWhen_keys lawful row row' (fun _ h => h) hkeys hkeys'
  obtain ⟨b, hselects, hb⟩ := selectsRow_conditions hconditions
  rw [hselects, show b = decide (keys = keys') by rw [Bool.eq_iff_iff, hb, hiff, decide_eq_true_iff]]

end

/-! ## Exact partitions -/

/-- The expressions of the field floor nanoseconds to microseconds. -/
def PartitionKeyField.floorsNanos (field : PartitionKeyField T) : Bool :=
  isEpochTransform field.transform && isNanoseconds field.type

/-- Microseconds that are the floor of the nanoseconds. -/
def IsFloor (n : Int64) (result : Except Exception (KeyValue V)) : Prop :=
  ∃ m : Int64, result = .ok (.bigint m) ∧ m.toInt = n.toInt / 1000

/-- The nanoseconds of the column lie below the floors that fit 64 bits. -/
def PartitionKeyField.BelowFloor (engine : KeyEngine T V) (field : PartitionKeyField T)
    (row : Text → KeyValue V) : Prop :=
  field.floorsNanos = true ∧ ∃ n : Int64,
    engine.call "epoch_ns" [row field.colName] = .ok (.bigint n) ∧ n.toInt < floorLimit

/-- The texts agree with the bound expressions, nanoseconds are floored, and a row is selected by the
filter of its own keys and by no other one. -/
structure PartitionsExactly [DecidableEq V] (engine : KeyEngine T V)
    (fields : List (PartitionKeyField T)) (rows : List (KeyRow engine fields)) : Prop where
  agree : ∀ row ∈ rows, ∀ field ∈ fields,
    evaluateText engine row.value field.sqlExpression = field.key engine row.value
  floors : ∀ row ∈ rows, ∀ field ∈ fields, field.floorsNanos = true → ∀ n : Int64,
    engine.call "epoch_ns" [row.value field.colName] = .ok (.bigint n) →
      IsFloor n (evaluateText engine row.value (floorMicrosText (nanosText field.colName))) ∧
        IsFloor n (evaluate engine .ok row.value
          (floorMicros (.call "epoch_ns" [.column field.colName])))
  filters : ∀ keys : KeyRow engine fields → List (KeyValue V),
    (∀ row ∈ rows, fields.mapM (·.key engine row.value) = .ok (keys row)) →
      ∀ row ∈ rows, ∀ tuple ∈ rows.map keys,
        (buildPartitionFilter (fields.map (·.sqlExpression))
            (tuple.map (·.partitionValue engine)) >>= selectsRow engine row.value) =
          .ok (decide (keys row = tuple))

theorem Agrees.evaluateText {row : Text → KeyValue V} {text : SqlText}
    {bound : SqlExpression (KeyValue V)} {p : ℕ} (h : Agrees row engine p text bound) :
    evaluateText engine row text = evaluate engine .ok row bound := by
  obtain ⟨e, hreads, hvalue⟩ := h
  rw [DuckLake.evaluateText, (hreads.mono (Nat.zero_le p)).read]
  exact hvalue

theorem evaluate_floorMicros (lawful : engine.Lawful) {row : Text → KeyValue V} {colName : Text}
    {n : Int64} (h : engine.call "epoch_ns" [row colName] = .ok (.bigint n)) :
    evaluate engine .ok row (floorMicros (.call "epoch_ns" [.column colName])) =
      flooredMicros (.bigint n) := by
  change evaluate engine .ok row (flooredTree _ (KeyValue.bigint 1000)) = _
  rw [evaluate_flooredTree rfl (.inl rfl) fun v h => evaluate_nanos lawful h]
  have hnanos : evaluate engine .ok row (.call "epoch_ns" [.column colName]) =
      .ok (.bigint n) := h
  rw [hnanos]
  rfl

theorem isFloor_iff {n : Int64} :
    IsFloor (V := V) n (flooredMicros (.bigint n)) ↔ floorLimit ≤ n.toInt := by
  constructor
  · rintro ⟨m, hm, -⟩
    rw [flooredMicros] at hm
    split at hm
    · assumption
    · cases hm
  · intro hlimit
    refine ⟨Int64.ofInt (n.toInt / 1000), if_pos hlimit, toInt_ofInt64 ?_⟩
    have hn := inBigint_toInt n
    rw [inBigint_iff] at hn ⊢
    omega

theorem partitionsExactly_iff [DecidableEq V] (lawful : engine.Lawful)
    {fields : List (PartitionKeyField T)} (rows : List (KeyRow engine fields)) :
    PartitionsExactly engine fields rows ↔
      ∀ row ∈ rows, ∀ field ∈ fields, ¬ field.BelowFloor engine row.value := by
  constructor
  · rintro hexact row hrow field hfield ⟨hfloors, n, hnanos, hbelow⟩
    have hfloor := (hexact.floors row hrow field hfield hfloors n hnanos).2
    rw [evaluate_floorMicros lawful hnanos, isFloor_iff] at hfloor
    exact absurd hfloor (Int.not_le.2 hbelow)
  · intro habove
    constructor
    · intro row _ field _
      obtain ⟨bound, hbound, hagrees⟩ := @agrees_partition _ _ _ row.value lawful field
      rw [hagrees.evaluateText, PartitionKeyField.key, hbound]
      rfl
    · intro row hrow field hfield hfloors n hnanos
      have hlimit : floorLimit ≤ n.toInt := by
        by_contra hbelow
        exact habove row hrow field hfield ⟨hfloors, n, hnanos, Int.not_le.1 hbelow⟩
      rw [(agrees_floorMicros lawful field.colName).evaluateText,
        evaluate_floorMicros lawful hnanos]
      exact ⟨isFloor_iff.2 hlimit, isFloor_iff.2 hlimit⟩
    · intro keys hkeys row hrow tuple htuple
      obtain ⟨row', hrow', rfl⟩ := List.mem_map.1 htuple
      exact selectsRow_filter lawful row row' (hkeys row hrow) (hkeys row' hrow')

/-! ## Two timestamps -/

/-- The first nanoseconds of 64 bits but eight, the last nanosecond before 1970, its microsecond, and
the day of the epoch. -/
inductive SampleTime where
  | first | last | lastMicros | epochDay
deriving DecidableEq

def SampleTime.text : SampleTime → Text
  | first => "1677-09-21 00:12:43.1452242"
  | last => "1969-12-31 23:59:59.999999999"
  | lastMicros => "1969-12-31 23:59:59.999999"
  | epochDay => "1970-01-01"

def SampleTime.type : SampleTime → EngineType Text
  | first | last => .timestampNs
  | lastMicros => .other "TIMESTAMP"
  | epochDay => .other "DATE"

def SampleTime.read (t : Text) : Except Exception SampleTime :=
  match [first, last, lastMicros, epochDay].find? (·.text = t) with
  | some time => .ok time
  | none => .error ⟨.invalidInput, "Could not convert string"⟩

def sampleCall (function : Text) (arguments : List (KeyValue SampleTime)) :
    Except Exception (KeyValue SampleTime) :=
  if function = "epoch_ns" then
    match arguments with
    | [.other .first] => .ok (.bigint (-9223372036854775800))
    | [.other .last] => .ok (.bigint (-1))
    | _ => .ok .null
  else if function = "make_timestamp" then
    match arguments with
    | [.bigint i] => .ok (if i = -1 then .other .lastMicros else .null)
    | _ => .ok .null
  else if function = "date_diff" then
    match arguments with
    | [.varchar _, .other .epochDay, .other .lastMicros] => .ok (.bigint (-1))
    | _ => .ok .null
  else .error ⟨.binder, "No function matches the given name and argument types"⟩

def sampleEngine : KeyEngine Text SampleTime where
  typeOf := SampleTime.type
  showText := SampleTime.text
  readText _ := SampleTime.read
  fromDate _ _ _ := .epochDay
  readDate := SampleTime.read
  physical _ := .int64 0
  call := sampleCall

theorem sampleEngine_lawful : sampleEngine.Lawful where
  readText_showText v := by cases v <;> rfl
  readDate_epoch := rfl
  call_bigint := by
    intro function arguments v hfunction h
    change sampleCall function arguments = .ok v at h
    unfold sampleCall at h
    split at h
    · split at h <;> cases h <;> trivial
    · split at h
      · rename_i hmake
        subst hmake
        exact absurd hfunction (by decide)
      · split at h
        · split at h <;> cases h <;> trivial
        · cases h

/-- `epoch_day(ts)` of a `TIMESTAMP_NS`. -/
def epochDayField : PartitionKeyField Text :=
  ⟨.epochDay, "ts".toList, .engine .timestampNs, nofun⟩

def sampleRow (time : SampleTime) (h : time.type = .timestampNs) :
    KeyRow sampleEngine [epochDayField] where
  value _ := .other time
  typed := by
    intro field hfield
    obtain rfl := List.mem_singleton.1 hfield
    exact h

theorem partitionsExactly_last :
    PartitionsExactly sampleEngine [epochDayField] [sampleRow .last rfl] := by
  refine (partitionsExactly_iff sampleEngine_lawful _).2 ?_
  rintro row hrow field hfield ⟨-, n, hnanos, hbelow⟩
  obtain rfl := List.mem_singleton.1 hrow
  obtain rfl := List.mem_singleton.1 hfield
  have hn : n = -1 := by
    cases hnanos
    rfl
  rw [hn] at hbelow
  revert hbelow
  decide

/-- The floor of -9223372036854775800 nanoseconds is computed from a number below 64 bits. -/
theorem not_partitionsExactly_first : sampleEngine.Lawful ∧
    ¬ PartitionsExactly sampleEngine [epochDayField] [sampleRow .first rfl] := by
  refine ⟨sampleEngine_lawful, fun hexact => ?_⟩
  have hfloor := (hexact.floors _ List.mem_cons_self _ List.mem_cons_self rfl
    (-9223372036854775800) rfl).2
  rw [evaluate_floorMicros sampleEngine_lawful rfl, isFloor_iff] at hfloor
  revert hfloor
  decide

end DuckLake
