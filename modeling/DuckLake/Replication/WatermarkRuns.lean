import Mathlib.Data.List.Basic
import Mathlib.Order.MinMax
import DuckLake.Lib.Guard
import DuckLake.Lib.Runs
import DuckLake.Lib.SqlLiteral
import DuckLake.Replication.WatermarkSync

/-!
# Runs of the watermark replication

Below the stored watermark, the destination holds what the source holds, whenever its rows were last
copied from the table with the stored identity: rows that are appended later have no smaller
watermark, and a cycle that was stopped has copied everything. A cycle then copies exactly. The cursor
says nothing about rows that a stopped cycle has copied from another table.
-/

namespace DuckLake

variable {Row Table Column W : Type} [LinearOrder W] {engine : WatermarkEngine Row Column W}

/-! ## The rows of one cycle -/

/-- What `validateWatermarkRows` checks. -/
def NoNulls (engine : WatermarkEngine Row Column W) (column : Column) (rows : List Row) : Prop :=
  ∀ r ∈ rows, ∃ w, engine.value column r = some w

omit [LinearOrder W] in
theorem noNulls_of_validate {column : Column} {rows : List Row}
    (h : validateWatermarkRows engine column rows = .ok ()) : NoNulls engine column rows := by
  rw [validateWatermarkRows] at h
  split at h
  · cases h
  · rename_i hnone
    intro r hr
    refine Option.isSome_iff_exists.1 (Option.isSome_iff_ne_none.2 fun hnull => hnone ?_)
    exact List.any_eq_true.2 ⟨r, hr, by rw [hnull]; rfl⟩

theorem maxWatermark_eq_some {column : Column} {rows : List Row} {high : W} :
    maxWatermark engine column rows = some high ↔
      (∃ r ∈ rows, engine.value column r = some high) ∧
        ∀ r ∈ rows, ∀ w, engine.value column r = some w → w ≤ high := by
  rw [maxWatermark, List.max?_eq_some_iff]
  simp only [List.mem_filterMap]
  constructor
  · rintro ⟨hmem, hle⟩
    exact ⟨hmem, fun r hr w hw => hle w ⟨r, hr, hw⟩⟩
  · rintro ⟨hmem, hle⟩
    exact ⟨hmem, fun w ⟨r, hr, hw⟩ => hle r hr w hw⟩

theorem maxWatermark_eq_none {column : Column} {rows : List Row} :
    maxWatermark engine column rows = none ↔ ∀ r ∈ rows, engine.value column r = none := by
  rw [maxWatermark, List.max?_eq_none_iff, List.filterMap_eq_nil_iff]

/-- The rows up to the maximum. -/
def upToMax (engine : WatermarkEngine Row Column W) (column : Column) (rows : List Row) :
    List Row :=
  rows.filter fun r => (maxWatermark engine column rows).any fun high =>
    atMost engine column high r

theorem upToMax_eq {column : Column} {rows : List Row} (h : NoNulls engine column rows) :
    upToMax engine column rows = rows := by
  refine List.filter_eq_self.2 fun r hr => ?_
  obtain ⟨w, hw⟩ := h r hr
  cases hmax : maxWatermark engine column rows with
  | none =>
    rw [maxWatermark_eq_none.1 hmax r hr] at hw
    cases hw
  | some high =>
    have hle := (maxWatermark_eq_some.1 hmax).2 r hr w hw
    simp [atMost, hw, hle]

/-- The part of the rows that a replay from the watermark keeps. -/
def below (engine : WatermarkEngine Row Column W) (column : Column) (low : W) (rows : List Row) :
    List Row := rows.filter fun r => !atLeast engine column low r

/-- Replaying the rows from a watermark on makes up for the part below it. -/
theorem replay_perm {column : Column} {rows src : List Row} {low : W}
    (h : (below engine column low rows).Perm (below engine column low src)) :
    (below engine column low rows ++ src.filter (atLeast engine column low)).Perm src := by
  refine (h.append_right _).trans ?_
  refine List.perm_append_comm.trans ?_
  exact List.filter_append_perm _ src

/-- The stored watermark is one of the source. -/
def KnowsCursor (engine : WatermarkEngine Row Column W) (prior : TableSyncState Table Column)
    (src : List Row) : Prop :=
  ∀ c last, prior.watermarkColumn = some c → prior.lastWatermark = some last →
    ∃ low, engine.cast c last = .ok low ∧ ∃ r ∈ src, engine.value c r = some low

/-- Below the stored watermark, the destination holds what the source holds. -/
def HoldsBelow (engine : WatermarkEngine Row Column W) (prior : TableSyncState Table Column)
    (rows src : List Row) : Prop :=
  ∀ c last low, prior.watermarkColumn = some c → prior.lastWatermark = some last →
    engine.cast c last = .ok low → (below engine c low rows).Perm (below engine c low src)

theorem holdsBelow_of_perm {prior : TableSyncState Table Column} {rows src : List Row}
    (h : rows.Perm src) : HoldsBelow engine prior rows src :=
  fun _ _ _ _ _ _ => h.filter _

/-- The state that a cycle stores. -/
def outcomeOf (engine : WatermarkEngine Row Column W) (column : Column)
    (source : Option (Table × ℕ)) (src : List Row) : TableSyncState Table Column :=
  ⟨some column, source, (maxWatermark engine column src).map (engine.toText column)⟩

theorem seed_eq (lawful : engine.Lawful) {column : Column} {src : List Row}
    (hnulls : NoNulls engine column src) {high : W}
    (hmax : maxWatermark engine column src = some high) :
    applyWatermarkDelta engine [] src column none (engine.toText column high) = .ok src := by
  obtain ⟨⟨r, -, hr⟩, -⟩ := maxWatermark_eq_some.1 hmax
  have hsrc : upToMax engine column src = src := upToMax_eq hnulls
  simp only [upToMax, hmax, Option.any_some] at hsrc
  rw [applyWatermarkDelta, lawful column r high hr]
  change Except.ok ([] ++ src.filter _) = _
  rw [List.nil_append, hsrc]

theorem delta_perm (lawful : engine.Lawful) {column : Column} {dst src rows : List Row}
    (hnulls : NoNulls engine column src) {high low : W} {last : Text}
    (hmax : maxWatermark engine column src = some high) (hlast : engine.cast column last = .ok low)
    (hbelow : (below engine column low dst).Perm (below engine column low src))
    (h : applyWatermarkDelta engine dst src column (some last) (engine.toText column high) =
      .ok rows) : rows.Perm src := by
  obtain ⟨⟨r, -, hr⟩, hle⟩ := maxWatermark_eq_some.1 hmax
  rw [applyWatermarkDelta, hlast, lawful column r high hr] at h
  cases h
  have hfilter : (src.filter fun r => atLeast engine column low r && atMost engine column high r) =
      src.filter (atLeast engine column low) := by
    refine List.filter_congr fun r hr => ?_
    obtain ⟨w, hw⟩ := hnulls r hr
    have hmost : atMost engine column high r = true := by simp [atMost, hw, hle r hr w hw]
    rw [hmost, Bool.and_true]
  rw [hfilter]
  exact replay_perm hbelow

/-- A cycle copies the source, where its cursor can be trusted. -/
theorem syncTable_copies [DecidableEq Table] [DecidableEq Column] (lawful : engine.Lawful)
    {column : Column} {source : Option (Table × ℕ)} {schema : SchemaMatch}
    {prior : Option (TableSyncState Table Column)} {dest : Option (List Row)}
    {src rows : List Row} {outcome : TableSyncState Table Column}
    (hcursor : ∀ p dst, prior = some p → dest = some dst → identityChanged source prior = false →
      KnowsCursor engine p src ∧ (p.watermarkColumn = some column → HoldsBelow engine p dst src))
    (h : syncTable engine column source schema prior dest src = .ok (rows, outcome)) :
    NoNulls engine column src ∧ rows.Perm src ∧ outcome = outcomeOf engine column source src := by
  rw [syncTable] at h
  split at h
  · cases h
  dsimp only at h
  obtain ⟨⟨⟩, hvalid, h⟩ := bind_eq_ok.1 h
  have hnulls := noNulls_of_validate hvalid
  obtain ⟨backwards, -, h⟩ := bind_eq_ok.1 h
  obtain ⟨rows', hrows, h⟩ := bind_eq_ok.1 h
  cases h
  refine ⟨hnulls, ?_, rfl⟩
  generalize hreseed : ((dest.isNone || decide (schema = .drifted)) || lacksCursor column prior ||
    backwards || identityChanged source prior ||
      (!(dest.isNone || decide (schema = .drifted)) && decide (schema = .extended))) = reseed at hrows
  cases reseed with
  | true =>
    cases hmax : maxWatermark engine column src with
    | none =>
      rw [hmax] at hrows
      cases hrows
      cases src with
      | nil => exact .refl _
      | cons r src =>
        obtain ⟨w, hw⟩ := hnulls r List.mem_cons_self
        rw [maxWatermark_eq_none.1 hmax r List.mem_cons_self] at hw
        cases hw
    | some high =>
      rw [hmax] at hrows
      have hseed : applyWatermarkDelta engine [] src column none (engine.toText column high) =
          .ok rows := hrows
      rw [seed_eq lawful hnulls hmax] at hseed
      cases hseed
      exact .refl _
  | false =>
    simp only [Bool.or_eq_false_iff] at hreseed
    obtain ⟨⟨⟨⟨⟨hdest, -⟩, hlacks⟩, -⟩, hidentity⟩, -⟩ := hreseed
    obtain ⟨dst, rfl⟩ : ∃ dst, dest = some dst := by
      cases dest with
      | none => cases hdest
      | some dst => exact ⟨dst, rfl⟩
    cases prior with
    | none => cases hlacks
    | some p =>
      simp only [lacksCursor, Bool.or_eq_false_iff, decide_eq_false_iff_not, not_not,
        Option.isNone_eq_false_iff, Option.isSome_iff_exists] at hlacks
      obtain ⟨⟨last, hlast⟩, hcolumn⟩ := hlacks
      obtain ⟨hknows, hbelow⟩ := hcursor p dst rfl rfl hidentity
      obtain ⟨low, hlow, r, hr, hvalue⟩ := hknows column last hcolumn hlast
      cases hmax : maxWatermark engine column src with
      | none =>
        rw [maxWatermark_eq_none.1 hmax r hr] at hvalue
        cases hvalue
      | some high =>
        rw [hmax] at hrows
        have hdelta : applyWatermarkDelta engine dst src column p.lastWatermark
            (engine.toText column high) = .ok rows := hrows
        rw [hlast] at hdelta
        have hheld := hbelow hcolumn column last low hcolumn hlast hlow
        exact delta_perm lawful hnulls hmax hlow hheld hdelta

/-! ## The invariant -/

namespace SyncState

/-- The stored cursor is one of its source. What the destination holds below it only matters while
its column is the configured one. -/
structure Inv (engine : WatermarkEngine Row Column W) (s : SyncState Row Table Column) :
    Prop where
  knows : ∀ p table epoch, s.prior = some p → p.sourceTableUuid = some (table, epoch) →
    KnowsCursor engine p (s.sources table)
  below : ∀ p table epoch dst, s.prior = some p → p.sourceTableUuid = some (table, epoch) →
    s.dest = some dst → s.copied = some table → p.watermarkColumn = some s.column →
      HoldsBelow engine p dst (s.sources table)

variable {s s' : SyncState Row Table Column}

theorem Initial.inv (h : s.Initial) : s.Inv engine where
  knows p _ _ hp := by
    rw [h.prior] at hp
    cases hp
  below p _ _ _ hp := by
    rw [h.prior] at hp
    cases hp

/-- Appended rows are not below a watermark of the source. -/
theorem below_append {column : Column} {src new : List Row} {low : W} {r : Row} (hr : r ∈ src)
    (hvalue : engine.value column r = some low)
    (happends : ∀ r ∈ new, ∃ w, engine.value column r = some w ∧
      ∀ r' ∈ src, ∀ w', engine.value column r' = some w' → w' ≤ w) :
    below engine column low (src ++ new) = below engine column low src := by
  have hnew : below engine column low new = [] := by
    refine List.filter_eq_nil_iff.2 fun r' hr' => ?_
    obtain ⟨w, hw, hle⟩ := happends r' hr'
    simp [atLeast, hw, hle r hr low hvalue]
  rw [below, List.filter_append]
  change below engine column low src ++ below engine column low new = _
  rw [hnew, List.append_nil]

theorem Inv.append [DecidableEq Table] (h : s.Inv engine) {table : Table} {rows : List Row}
    (happends : s.Appends engine (.append table rows)) :
    Inv engine { s with sources := Function.update s.sources table (s.sources table ++ rows) } where
  knows p table' epoch hp hid := by
    have hknows := h.knows p table' epoch hp hid
    by_cases heq : table' = table
    · subst heq
      dsimp only
      rw [Function.update_self]
      intro c last hc hlast
      obtain ⟨low, hlow, r, hr, hvalue⟩ := hknows c last hc hlast
      exact ⟨low, hlow, r, List.mem_append_left _ hr, hvalue⟩
    · dsimp only
      rw [Function.update_of_ne heq]
      exact hknows
  below p table' epoch dst hp hid hdest hcopied hcolumn := by
    have hbelow := h.below p table' epoch dst hp hid hdest hcopied hcolumn
    by_cases heq : table' = table
    · subst heq
      dsimp only
      rw [Function.update_self]
      intro c last low hc hlast hlow
      obtain rfl : s.column = c := Option.some.inj (hcolumn.symm.trans hc)
      obtain ⟨low', hlow', r, hr, hvalue⟩ := h.knows p table' epoch hp hid _ last hc hlast
      rw [hlow] at hlow'
      cases hlow'
      rw [below_append hr hvalue happends]
      exact hbelow _ last low hc hlast hlow
    · dsimp only
      rw [Function.update_of_ne heq]
      exact hbelow

/-- The state that is claimed has no cursor, or is the stored one. -/
theorem claim_eq {p : TableSyncState Table Column} (h : s.claim = some p) :
    s.prior = some p ∨ p.lastWatermark = none := by
  rw [claim] at h
  cases hprior : s.prior with
  | some p' =>
    rw [hprior] at h
    exact .inl h
  | none =>
    rw [hprior] at h
    dsimp only at h
    split at h
    · cases h
    · cases h
      exact .inr rfl

theorem Inv.claim (h : s.Inv engine) : Inv engine { s with prior := s.claim } where
  knows p table epoch hp hid := by
    rcases claim_eq hp with hp | hnone
    · exact h.knows p table epoch hp hid
    · intro c last _ hlast
      rw [hnone] at hlast
      cases hlast
  below p table epoch dst hp hid hdest hcopied hcolumn := by
    rcases claim_eq hp with hp | hnone
    · exact h.below p table epoch dst hp hid hdest hcopied hcolumn
    · intro c last low _ hlast
      rw [hnone] at hlast
      cases hlast

/-- The rows of the current table are written. -/
theorem Inv.copied (h : s.Inv engine) {rows : List Row}
    (hrows : rows.Perm (s.sources s.current)) :
    Inv engine { s with dest := some rows, copied := some s.current } where
  knows := h.knows
  below p table epoch dst hp hid hdest hcopied _ := by
    cases hdest
    cases hcopied
    exact holdsBelow_of_perm hrows

theorem knowsCursor_outcome (lawful : engine.Lawful) {column : Column}
    {source : Option (Table × ℕ)} {src : List Row} :
    KnowsCursor engine (outcomeOf engine column source src) src := by
  intro c last hc hlast
  cases hc
  obtain ⟨high, hmax, rfl⟩ := Option.map_eq_some_iff.1 hlast
  obtain ⟨⟨r, hr, hvalue⟩, -⟩ := maxWatermark_eq_some.1 hmax
  exact ⟨high, lawful _ r high hvalue, r, hr, hvalue⟩

/-- The outcome of a cycle is stored. -/
theorem Inv.outcome (lawful : engine.Lawful) {rows : List Row}
    {column : Column} (hrows : rows.Perm (s.sources s.current)) {epoch : Option ℕ} :
    Inv engine { s with
      dest := some rows
      prior := some (outcomeOf engine column (epoch.map fun epoch => (s.current, epoch))
        (s.sources s.current))
      copied := some s.current } where
  knows p table epoch' hp hid := by
    cases hp
    obtain ⟨epoch, -, heq⟩ := Option.map_eq_some_iff.1 hid
    cases heq
    exact knowsCursor_outcome lawful
  below p table epoch' dst hp hid hdest hcopied _ := by
    cases hdest
    cases hcopied
    exact holdsBelow_of_perm hrows

variable [DecidableEq Table] [DecidableEq Column]

/-- A cycle whose cursor can be trusted copies the source. -/
theorem Inv.sync_copies (lawful : engine.Lawful) (h : s.Inv engine) {cycle : SyncCycle}
    (htrusts : s.Trusts (.cycle cycle : SyncEvent Row Table Column)) {rows : List Row}
    {outcome : TableSyncState Table Column} (hsync : s.sync engine cycle = .ok (rows, outcome)) :
    NoNulls engine s.column (s.sources s.current) ∧ rows.Perm (s.sources s.current) ∧
      outcome = outcomeOf engine s.column
        (cycle.epoch.map fun epoch => (s.current, epoch)) (s.sources s.current) := by
  refine syncTable_copies lawful (fun p dst hp hdest hidentity => ?_) hsync
  rw [hp] at hidentity
  cases hepoch : cycle.epoch with
  | none =>
    rw [hepoch] at hidentity
    cases hidentity
  | some epoch =>
    rw [hepoch] at hidentity
    have hid : p.sourceTableUuid = some (s.current, epoch) := by
      simpa [identityChanged] using hidentity
    have hcopied := htrusts epoch p hepoch hp hid (by rw [hdest]; rfl)
    exact ⟨h.knows p s.current epoch hp hid, h.below p s.current epoch dst hp hid hdest hcopied⟩

theorem Inv.runCycle (lawful : engine.Lawful) (h : s.Inv engine) {cycle : SyncCycle}
    (htrusts : s.Trusts (.cycle cycle : SyncEvent Row Table Column)) :
    (s.runCycle engine cycle).Inv engine := by
  rw [SyncState.runCycle]
  cases hsync : s.sync engine cycle with
  | error e => exact h.claim
  | ok result =>
    obtain ⟨rows, outcome⟩ := result
    obtain ⟨-, hrows, rfl⟩ := h.sync_copies lawful htrusts hsync
    cases cycle.ending with
    | rolledBack => exact h.claim
    | stopped => exact (h.claim).copied hrows
    | completed => exact .outcome lawful hrows

theorem Inv.step (lawful : engine.Lawful) (h : s.Inv engine) {event : SyncEvent Row Table Column}
    (horderly : s.Appends engine event ∧ s.Trusts event)
    (hstep : s.step engine event = some s') : s'.Inv engine := by
  cases event with
  | append table rows =>
    cases hstep
    exact h.append horderly.1
  | replace table =>
    cases hstep
    exact ⟨h.knows, h.below⟩
  | configure column =>
    cases hstep
    refine ⟨h.knows, fun p table epoch dst hp hid hdest hcopied hcolumn => ?_⟩
    cases hlast : p.lastWatermark with
    | none =>
      intro c last low _ hcursor
      rw [hlast] at hcursor
      cases hcursor
    | some last =>
      have hsame := horderly.2 p hp (by rw [hlast]; rfl) hcolumn
      exact h.below p table epoch dst hp hid hdest hcopied (hsame ▸ hcolumn)
  | delist stopped =>
    cases hstep
    refine ⟨fun p table epoch hp hid => ?_, nofun⟩
    cases stopped with
    | false => cases hp
    | true => exact h.knows p table epoch hp hid
  | cycle cycle =>
    cases hstep
    exact h.runCycle lawful horderly.2

/-! ## Every run -/

/-- The cycle commits the rows of the destination. -/
def Commits (engine : WatermarkEngine Row Column W) (s : SyncState Row Table Column)
    (cycle : SyncCycle) : Prop :=
  (∃ result, s.sync engine cycle = .ok result) ∧ cycle.ending ≠ .rolledBack

/-- In a run in which rows are only added, no cycle takes a stored cursor for rows that were copied
from another table, and the watermark column is not changed to another one and back before a cycle,
every cycle that commits copies exactly. -/
theorem run_copiesExactly (lawful : engine.Lawful) {s₀ : SyncState Row Table Column}
    (hinit : s₀.Initial)
    (hrun : Reaches (step engine) (fun s event => s.Appends engine event ∧ s.Trusts event) s₀ s)
    {cycle : SyncCycle} (htrusts : s.Trusts (.cycle cycle : SyncEvent Row Table Column))
    (hcommits : s.Commits engine cycle) :
    (s.runCycle engine cycle).CopiesExactly engine s.column := by
  have hinv : s.Inv engine :=
    hrun.invariant hinit.inv fun _ _ _ h horderly hstep => h.step lawful horderly hstep
  obtain ⟨⟨⟨rows, outcome⟩, hsync⟩, hend⟩ := hcommits
  obtain ⟨hnulls, hrows, -⟩ := hinv.sync_copies lawful htrusts hsync
  have hcopies : ∀ s' : SyncState Row Table Column, s'.dest = some rows →
      s'.sources = s.sources → s'.current = s.current →
        s'.CopiesExactly engine s.column := by
    intro s' hdest hsources hcurrent
    refine ⟨rows, hdest, ?_⟩
    rw [hsources, hcurrent]
    change rows.Perm (upToMax engine s.column (s.sources s.current))
    rw [upToMax_eq hnulls]
    exact hrows
  rw [SyncState.runCycle, hsync]
  cases hending : cycle.ending with
  | rolledBack => exact absurd hending hend
  | stopped => exact hcopies _ rfl rfl rfl
  | completed => exact hcopies _ rfl rfl rfl

/-! ## Two tables of numbers -/

/-- Rows that are their own watermark. -/
def numberEngine : WatermarkEngine ℕ Unit ℕ where
  name _ := "w"
  value _ r := some r
  toText _ := Text.ofNat
  cast _ t := match Text.readDigits t with
    | some n => .ok n
    | none => .error ⟨.invalidInput, "Could not convert string to UINT64"⟩

theorem numberEngine_lawful : numberEngine.Lawful := by
  intro c r w h
  cases h
  change (match Text.readDigits (Text.ofNat r) with
    | some n => Except.ok n
    | none => _) = Except.ok r
  rw [Text.readDigits_ofNat]

def numberCycle (ending : CycleEnd) : SyncCycle := ⟨some 0, .same, ending⟩

/-- Two source tables, of which the first one is replicated. -/
def numberStart : SyncState ℕ Bool Unit where
  sources table := if table then [2, 6] else [1, 5]
  current := false
  column := ()
  dest := none
  prior := none
  copied := none

theorem numberStart_initial : numberStart.Initial := ⟨rfl, rfl⟩

theorem run_copiesExactly_twoCycles :
    ((numberStart.runCycle numberEngine (numberCycle .stopped)).runCycle numberEngine
      (numberCycle .completed)).CopiesExactly numberEngine () := by
  have hstop : Reaches (step numberEngine)
      (fun s event => s.Appends numberEngine event ∧ s.Trusts event) numberStart
      (numberStart.runCycle numberEngine (numberCycle .stopped)) :=
    .tail .refl ⟨.cycle (numberCycle .stopped), ⟨trivial, nofun⟩, rfl⟩
  exact run_copiesExactly numberEngine_lawful numberStart_initial hstop
    (fun _ _ _ _ _ _ => rfl) ⟨⟨_, rfl⟩, nofun⟩

/-- The replicated table is the second one for a cycle that is stopped before it stores its cursor,
and then the first one again. -/
def afterReturn : SyncState ℕ Bool Unit :=
  { { numberStart.runCycle numberEngine (numberCycle .completed) with current := true }.runCycle
      numberEngine (numberCycle .stopped) with current := false }

theorem not_copiesExactly_afterReturn :
    numberStart.Initial ∧
      Reaches (step numberEngine) (fun s event => s.Appends numberEngine event) numberStart
        afterReturn ∧
      afterReturn.Commits numberEngine (numberCycle .completed) ∧
        ¬ (afterReturn.runCycle numberEngine (numberCycle .completed)).CopiesExactly
          numberEngine () := by
  refine ⟨numberStart_initial, ?_, ⟨⟨_, rfl⟩, nofun⟩, ?_⟩
  · refine .tail (.tail (.tail (.tail .refl ⟨.cycle (numberCycle .completed), trivial, rfl⟩)
      ⟨.replace true, trivial, rfl⟩) ⟨.cycle (numberCycle .stopped), trivial, rfl⟩)
        ⟨.replace false, trivial, rfl⟩
  · rintro ⟨rows, hdest, hperm⟩
    have hrows : (afterReturn.runCycle numberEngine (numberCycle .completed)).dest =
        some [2, 5] := rfl
    rw [hrows] at hdest
    cases hdest
    revert hperm
    decide

end SyncState

end DuckLake
