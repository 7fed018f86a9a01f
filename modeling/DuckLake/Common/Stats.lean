import DuckLake.Common.Util

/-!
# Column statistics

The statistics that are kept for a column of a data file, and how the statistics of two sets of
rows are merged into those of their union.
-/

namespace DuckLake

/-! ## Types -/

inductive LogicalTypeId where
  | boolean | tinyint | smallint | integer | bigint | hugeint
  | utinyint | usmallint | uinteger | ubigint | uhugeint
  | float | double | decimal
  | date | time | timeTz | timeNs | timestamp | timestampTz | timestampSec | timestampMs
  | timestampNs | timestampTzNs | interval
  | varchar | blob | uuid | geometry | variant | struct | list | map | sqlNull | unknown
deriving DecidableEq, Repr

namespace LogicalTypeId

def isNumeric : LogicalTypeId → Bool
  | tinyint | smallint | integer | bigint | hugeint | utinyint | usmallint | uinteger | ubigint
  | uhugeint | float | double | decimal => true
  | _ => false

def isTemporal : LogicalTypeId → Bool
  | date | time | timeTz | timeNs | timestamp | timestampTz | timestampSec | timestampMs
  | timestampNs | timestampTzNs => true
  | _ => false

def isFloating : LogicalTypeId → Bool
  | float | double => true
  | _ => false

/-- Types whose statistics are compared as values and not as strings. -/
def requiresValueComparison (type : LogicalTypeId) : Bool :=
  type.isNumeric || type.isTemporal || type = boolean

end LogicalTypeId

abbrev FieldIndex := Nat

/-- A value as it is stored in the catalog; NULL has no text. -/
abbrev Value := Option Text

/-! ## Statistics of one column -/

structure DuckLakeColumnStats where
  type : LogicalTypeId
  min : Text := []
  max : Text := []
  nullCount : Nat := 0
  numValues : Nat := 0
  columnSizeBytes : Nat := 0
  containsNan : Bool := false
  hasNullCount : Bool := false
  hasNumValues : Bool := false
  hasMin : Bool := false
  hasMax : Bool := false
  isAnyValid : Bool := true
  /-- Invalidated bounds must never be reseeded. -/
  boundsUnknown : Bool := false
  hasContainsNan : Bool := false
  minIsExact : Bool := false
  maxIsExact : Bool := false
  /-- The statistics of geometries and variants, in their stored form. -/
  extraStats : Option Text := none
deriving DecidableEq

/-- How the engine compares two bounds of a type, and how two extra statistics are merged. -/
class StatsMerge where
  lessThan : LogicalTypeId → Text → Text → Bool
  equals : LogicalTypeId → Text → Text → Bool
  mergeExtra : Text → Text → Text

namespace DuckLakeColumnStats

def anyValid (stats : DuckLakeColumnStats) : Bool :=
  if stats.hasNumValues && stats.hasNullCount then stats.nullCount < stats.numValues
  else stats.isAnyValid

def isIntegral : LogicalTypeId → Bool
  | .tinyint | .smallint | .integer | .bigint | .hugeint | .utinyint | .usmallint | .uinteger
  | .ubigint | .uhugeint => true
  | _ => false

/-- Bound strings reread exactly at wider types. -/
def boundsSurviveTypePromotion (source target : LogicalTypeId) : Bool :=
  (isIntegral source && isIntegral target) || (source = .decimal && target = .decimal)

def mergeCounts (stats new : DuckLakeColumnStats) : DuckLakeColumnStats :=
  { stats with
    type := new.type
    hasNullCount := stats.hasNullCount && new.hasNullCount
    nullCount :=
      if stats.hasNullCount && new.hasNullCount then stats.nullCount + new.nullCount
      else stats.nullCount
    hasNumValues := stats.hasNumValues && new.hasNumValues
    numValues :=
      if stats.hasNumValues && new.hasNumValues then stats.numValues + new.numValues
      else stats.numValues
    columnSizeBytes := stats.columnSizeBytes + new.columnSizeBytes
    hasContainsNan := stats.hasContainsNan && new.hasContainsNan
    containsNan :=
      stats.containsNan || (stats.hasContainsNan && new.hasContainsNan && new.containsNan) }

def invalidateBounds (stats : DuckLakeColumnStats) : DuckLakeColumnStats :=
  { stats with hasMin := false, hasMax := false, boundsUnknown := true }

section Merge

variable [StatsMerge]

/-- Selects the smallest bound; on a tie the bound is exact only if both are. -/
def mergeMin (stats new : DuckLakeColumnStats) : DuckLakeColumnStats :=
  if !new.hasMin then { stats with hasMin := false }
  else if !stats.hasMin then stats
  else if StatsMerge.lessThan stats.type new.min stats.min then
    { stats with min := new.min, minIsExact := new.minIsExact }
  else if StatsMerge.equals stats.type new.min stats.min then
    { stats with minIsExact := stats.minIsExact && new.minIsExact }
  else stats

def mergeMax (stats new : DuckLakeColumnStats) : DuckLakeColumnStats :=
  if !new.hasMax then { stats with hasMax := false }
  else if !stats.hasMax then stats
  else if StatsMerge.lessThan stats.type stats.max new.max then
    { stats with max := new.max, maxIsExact := new.maxIsExact }
  else if StatsMerge.equals stats.type new.max stats.max then
    { stats with maxIsExact := stats.maxIsExact && new.maxIsExact }
  else stats

def mergeExtraStats (stats new : DuckLakeColumnStats) : DuckLakeColumnStats :=
  match new.extraStats, stats.extraStats with
  | some extra, some current => { stats with extraStats := some (StatsMerge.mergeExtra current extra) }
  | some extra, none => { stats with extraStats := some extra }
  | none, _ => stats

def mergeStats (stats new : DuckLakeColumnStats) : DuckLakeColumnStats :=
  let boundsSurvive := stats.type = new.type || boundsSurviveTypePromotion stats.type new.type
  let merged := mergeCounts stats new
  if !new.anyValid then
    -- all values in the source are NULL - don't update min/max
    if boundsSurvive then merged else merged.invalidateBounds
  else if !merged.anyValid then
    if merged.boundsUnknown then merged
    else
      { merged with
        min := new.min, hasMin := new.hasMin, minIsExact := new.minIsExact
        max := new.max, hasMax := new.hasMax, maxIsExact := new.maxIsExact
        isAnyValid := true }
  else
    let merged :=
      if boundsSurvive then (merged.mergeMin new).mergeMax new else merged.invalidateBounds
    merged.mergeExtraStats new

end Merge

end DuckLakeColumnStats

end DuckLake
