import DuckLake.Lib.Validity
import DuckLake.Storage.MetadataInfo

/-!
# Configuration options

An option is written to the metadata in the transaction that sets it, and to the options in memory
at once. The transaction keeps what the option held before, and puts it back when it does not
commit.
-/

namespace DuckLake

/-! ## Options -/

inductive ConfigScope where
  | global
  | schema (id : SchemaIndex)
  | table (id : TableIndex)
deriving DecidableEq

/-- An option in its scope. -/
structure ConfigKey where
  scope : ConfigScope
  key : Text
deriving DecidableEq

/-- The options in memory, over all scopes. -/
abbrev DuckLakeOptions : Type := ConfigKey → Option Text

/-- What an option held before a transaction set or reset it. -/
structure DuckLakeConfigOptionUndo where
  option : ConfigKey
  /-- The value as written, which the undo compares against. -/
  value : Text
  previousValue : Option Text
  reset : Bool

def undoConfigOption (undo : DuckLakeConfigOptionUndo) (options : DuckLakeOptions) :
    DuckLakeOptions :=
  if undo.reset then
    if (options undo.option).isNone then Function.update options undo.option undo.previousValue
    else options
  -- when another transaction has set the option since, its value is left in place
  else if options undo.option ≠ some undo.value then options
  else Function.update options undo.option undo.previousValue

/-- The undo entries of a transaction, from the last one on. -/
def undoConfigOptions (undo : List DuckLakeConfigOptionUndo) (options : DuckLakeOptions) :
    DuckLakeOptions :=
  undo.foldr undoConfigOption options

/-! ## The metadata -/

/-- A row of `ducklake_metadata`. -/
structure ConfigRow where
  option : ConfigKey
  value : Text
deriving DecidableEq

inductive ConfigWrite where
  | insert (option : ConfigKey) (value : Text)
  | update (option : ConfigKey) (value : Text)
  | delete (option : ConfigKey)

namespace ConfigWrite

def option : ConfigWrite → ConfigKey
  | insert option _ | update option _ | delete option => option

def execute (rows : List ConfigRow) : ConfigWrite → List ConfigRow
  | insert option value => rows ++ [⟨option, value⟩]
  | update option value => rows.map fun row =>
      if row.option = option then { row with value := value } else row
  | delete option => rows.filter (·.option ≠ option)

end ConfigWrite

def rowsOf (rows : List ConfigRow) (option : ConfigKey) : List ConfigRow :=
  rows.filter (·.option = option)

/-- The options that are loaded from the metadata: a later row overwrites an earlier one. -/
def loadOptions (rows : List ConfigRow) : DuckLakeOptions := fun option =>
  (rowsOf rows option).getLast?.map (·.value)

/-! ## Transactions -/

inductive ConfigChange where
  | set (option : ConfigKey) (value : Text)
  | reset (option : ConfigKey)

namespace ConfigChange

def option : ConfigChange → ConfigKey
  | set option _ | reset option => option

/-- What the change asks for. -/
def apply (options : DuckLakeOptions) : ConfigChange → DuckLakeOptions
  | set option value => Function.update options option (some value)
  | reset option => Function.update options option none

/-- `SetConfigOption` and `ResetConfigOption` of the metadata manager: the statement that is
executed, given the rows that the transaction sees. A reset that finds no row changes nothing. -/
def write (rows : List ConfigRow) : ConfigChange → Option ConfigWrite
  | set option value =>
    if (rowsOf rows option).isEmpty then some (.insert option value)
    else some (.update option value)
  | reset option => if (rowsOf rows option).isEmpty then none else some (.delete option)

/-- `SetConfigOption` and `ResetConfigOption` of the catalog: what is kept for an undo. -/
def undo (options : DuckLakeOptions) : ConfigChange → DuckLakeConfigOptionUndo
  | set option value => ⟨option, value, options option, false⟩
  | reset option => ⟨option, [], options option, true⟩

end ConfigChange

/-- A transaction that is open. -/
structure ConfigTransaction where
  /-- What its metadata transaction sees. -/
  rows : List ConfigRow
  writes : List ConfigWrite := []
  undo : List DuckLakeConfigOptionUndo := []
  /-- The changes it was asked for. -/
  changes : List ConfigChange := []
  /-- The options that were changed by commits since it began. -/
  missed : List ConfigKey := []

def ConfigTransaction.touched (T : ConfigTransaction) : List ConfigKey := T.changes.map (·.option)

/-- The options of one attached catalog. -/
structure ConfigState where
  memory : DuckLakeOptions
  /-- The committed rows. -/
  rows : List ConfigRow
  transactions : Nat → Option ConfigTransaction := fun _ => none
  /-- The initial values with the changes of the committed transactions, in commit order. -/
  expected : DuckLakeOptions

inductive ConfigEvent where
  | begin (id : Nat)
  | change (id : Nat) (change : ConfigChange)
  /-- A commit that went through, at once or after another attempt had been rolled back. -/
  | commit (id : Nat) (retried : Bool)
  /-- A rollback, or a commit that failed. -/
  | rollback (id : Nat)

namespace ConfigState

/-- The catalog right after it was attached. -/
def load (rows : List ConfigRow) : ConfigState where
  memory := loadOptions rows
  rows := rows
  expected := loadOptions rows

/-- Whether the metadata manager commits each statement on its own. -/
abbrev CommitsEachStatement : Type := Bool

variable (each : CommitsEachStatement)

/-- The rows that a statement of the transaction sees. -/
def seen (σ : ConfigState) (T : ConfigTransaction) : List ConfigRow :=
  if each then σ.rows else T.rows

def close (σ : ConfigState) (id : Nat) : ConfigState :=
  { σ with transactions := Function.update σ.transactions id none }

/-- The change, with the statement that is executed for it. -/
def changed (σ : ConfigState) (id : Nat) (T : ConfigTransaction) (change : ConfigChange)
    (write : ConfigWrite) : ConfigState :=
  { σ with
    memory := change.apply σ.memory
    rows := if each then write.execute σ.rows else σ.rows
    transactions := Function.update σ.transactions id (some { T with
      rows := write.execute T.rows
      writes := T.writes ++ [write]
      undo := T.undo ++ [change.undo σ.memory]
      changes := T.changes ++ [change] }) }

def requested (σ : ConfigState) (id : Nat) (T : ConfigTransaction) (change : ConfigChange) :
    ConfigState :=
  { σ with
    transactions := Function.update σ.transactions id
      (some { T with changes := T.changes ++ [change] }) }

/-- The statements of an attempt that was rolled back are not executed again by the next one. -/
def committed (σ : ConfigState) (id : Nat) (T : ConfigTransaction) (retried : Bool) : ConfigState :=
  { σ with
    rows := if each || retried then σ.rows else T.writes.foldl ConfigWrite.execute σ.rows
    transactions := fun other =>
      if other = id then none
      else (σ.transactions other).map fun U => { U with missed := U.missed ++ T.touched }
    expected := T.changes.foldl ConfigChange.apply σ.expected }

def step (σ : ConfigState) : ConfigEvent → ConfigState
  | .begin id =>
    match σ.transactions id with
    | some _ => σ
    | none =>
      { σ with transactions := Function.update σ.transactions id (some { rows := σ.rows }) }
  | .change id change =>
    match σ.transactions id with
    | none => σ
    | some T =>
      match change.write (seen each σ T) with
      | some write => changed each σ id T change write
      | none => requested σ id T change
  | .commit id retried =>
    match σ.transactions id with
    | none => σ
    | some T => committed each σ id T retried
  | .rollback id =>
    match σ.transactions id with
    | none => σ
    | some T => { close σ id with memory := undoConfigOptions T.undo σ.memory }

def run (σ : ConfigState) (events : List ConfigEvent) : ConfigState := events.foldl (step each) σ

end ConfigState

/-! ## Rows and values of one option -/

section Option

variable {rows rows' : List ConfigRow} {o : ConfigKey} {m m' : DuckLakeOptions}

/-- An update does not change which option a row belongs to. -/
theorem rowsOf_update (rows : List ConfigRow) (o option : ConfigKey) (value : Text) :
    rowsOf ((ConfigWrite.update option value).execute rows) o = (rowsOf rows o).map fun row =>
      if row.option = option then { row with value := value } else row := by
  unfold rowsOf ConfigWrite.execute
  rw [List.filter_map]
  congr 1
  apply List.filter_congr
  intro row _
  simp only [Function.comp_apply]
  split <;> rfl

theorem option_of_mem_rowsOf {row : ConfigRow} (h : row ∈ rowsOf rows o) : row.option = o := by
  simpa using (List.mem_filter.1 h).2

theorem rowsOf_delete (rows : List ConfigRow) (option : ConfigKey) :
    rowsOf ((ConfigWrite.delete option).execute rows) option = [] := by
  apply List.eq_nil_iff_forall_not_mem.2
  intro row hrow
  have hkept := (List.mem_filter.1 hrow).1
  have hne : row.option ≠ option := by simpa using (List.mem_filter.1 hkept).2
  exact hne (option_of_mem_rowsOf hrow)

theorem rowsOf_execute_of_ne {write : ConfigWrite} (h : write.option ≠ o) :
    rowsOf (write.execute rows) o = rowsOf rows o := by
  cases write with
  | insert option value => simp_all [rowsOf, ConfigWrite.execute, ConfigWrite.option]
  | update option value =>
    rw [rowsOf_update]
    conv_rhs => rw [← List.map_id (rowsOf rows o)]
    apply List.map_congr_left
    intro row hrow
    have hne : row.option ≠ option := fun heq => h (heq.symm.trans (option_of_mem_rowsOf hrow))
    simp [hne]
  | delete option =>
    apply filter_filter_of_seen
    intro row hrow hseen
    have hne : row.option ≠ option := fun heq => h (heq.symm.trans (by simpa using hseen))
    simpa using hne

/-- What a statement does to the rows of an option depends on these rows only. -/
theorem rowsOf_execute_congr (write : ConfigWrite) (h : rowsOf rows o = rowsOf rows' o) :
    rowsOf (write.execute rows) o = rowsOf (write.execute rows') o := by
  by_cases ho : write.option = o
  · subst ho
    cases write with
    | insert option value =>
      simpa [rowsOf, ConfigWrite.execute, ConfigWrite.option] using h
    | update option value => rw [rowsOf_update, rowsOf_update, h]
    | delete option => rw [ConfigWrite.option, rowsOf_delete, rowsOf_delete]
  · rw [rowsOf_execute_of_ne ho, rowsOf_execute_of_ne ho, h]

theorem rowsOf_foldl_congr (writes : List ConfigWrite) (h : rowsOf rows o = rowsOf rows' o) :
    rowsOf (writes.foldl ConfigWrite.execute rows) o =
      rowsOf (writes.foldl ConfigWrite.execute rows') o := by
  induction writes generalizing rows rows' with
  | nil => exact h
  | cons write writes ih => exact ih (rowsOf_execute_congr write h)

theorem rowsOf_foldl_of_ne {writes : List ConfigWrite} (h : ∀ write ∈ writes, write.option ≠ o) :
    rowsOf (writes.foldl ConfigWrite.execute rows) o = rowsOf rows o := by
  induction writes generalizing rows with
  | nil => rfl
  | cons write writes ih =>
    rw [List.foldl_cons, ih fun w hw => h w (.tail _ hw), rowsOf_execute_of_ne (h write (.head _))]

theorem loadOptions_congr (h : rowsOf rows o = rowsOf rows' o) :
    loadOptions rows o = loadOptions rows' o := by
  unfold loadOptions
  rw [h]

namespace ConfigChange

variable {change : ConfigChange}

theorem option_write {write : ConfigWrite} (h : change.write rows = some write) :
    write.option = change.option := by
  cases change with
  | set option value =>
    simp only [ConfigChange.write] at h
    split at h <;> cases h <;> rfl
  | reset option =>
    simp only [ConfigChange.write] at h
    split at h <;> cases h
    rfl

theorem apply_of_ne (h : change.option ≠ o) : change.apply m o = m o := by
  cases change <;> exact Function.update_of_ne (Ne.symm h) ..

theorem apply_congr (h : m o = m' o) : change.apply m o = change.apply m' o := by
  by_cases ho : change.option = o
  · subst ho
    cases change <;> simp [apply, ConfigChange.option]
  · rw [apply_of_ne ho, apply_of_ne ho, h]

/-- The statement leaves behind what was asked for. -/
theorem loadOptions_write {write : ConfigWrite} (h : change.write rows = some write) :
    loadOptions (write.execute rows) change.option = change.apply m change.option := by
  cases change with
  | set option value =>
    simp only [ConfigChange.write] at h
    split at h
    · cases h
      simp [loadOptions, rowsOf, ConfigWrite.execute, ConfigChange.option, apply]
    · rename_i hsome
      cases h
      have hne : rowsOf rows option ≠ [] := fun h => hsome (List.isEmpty_iff.2 h)
      obtain ⟨row, hlast⟩ : ∃ row, (rowsOf rows option).getLast? = some row :=
        ⟨_, List.getLast?_eq_some_getLast hne⟩
      have hoption : row.option = option := option_of_mem_rowsOf (List.mem_of_getLast? hlast)
      simp [loadOptions, rowsOf_update, ConfigChange.option, apply, hlast, hoption]
  | reset option =>
    simp only [ConfigChange.write] at h
    split at h
    · cases h
    · cases h
      simp [loadOptions, rowsOf_delete, ConfigChange.option, apply]

theorem loadOptions_of_no_write (h : change.write rows = none) :
    loadOptions rows change.option = none ∧ change.apply m change.option = none := by
  cases change with
  | set option value =>
    simp only [ConfigChange.write] at h
    split at h <;> cases h
  | reset option =>
    simp only [ConfigChange.write] at h
    split at h
    · rename_i hempty
      simp [loadOptions, ConfigChange.option, apply, List.isEmpty_iff.1 hempty]
    · cases h

/-- Undoing a change puts back the value that it has found. -/
theorem undo_apply : undoConfigOption (change.undo m) (change.apply m) change.option =
    m change.option := by
  cases change with
  | set option value =>
    simp [undoConfigOption, ConfigChange.undo, apply, ConfigChange.option]
  | reset option =>
    simp [undoConfigOption, ConfigChange.undo, apply, ConfigChange.option]

end ConfigChange

theorem undoConfigOption_of_ne {undo : DuckLakeConfigOptionUndo} (h : undo.option ≠ o) :
    undoConfigOption undo m o = m o := by
  unfold undoConfigOption
  split
  · split
    · exact Function.update_of_ne (Ne.symm h) ..
    · rfl
  · split
    · rfl
    · exact Function.update_of_ne (Ne.symm h) ..

theorem undoConfigOption_congr {undo : DuckLakeConfigOptionUndo} (h : m o = m' o) :
    undoConfigOption undo m o = undoConfigOption undo m' o := by
  by_cases ho : undo.option = o
  · subst ho
    simp only [undoConfigOption, h]
    split
    · split
      · simp
      · exact h
    · split
      · exact h
      · simp
  · rw [undoConfigOption_of_ne ho, undoConfigOption_of_ne ho, h]

theorem undoConfigOptions_congr {undo : List DuckLakeConfigOptionUndo} (h : m o = m' o) :
    undoConfigOptions undo m o = undoConfigOptions undo m' o := by
  induction undo with
  | nil => exact h
  | cons u undo ih => exact undoConfigOption_congr ih

theorem undoConfigOptions_of_ne {undo : List DuckLakeConfigOptionUndo}
    (h : ∀ u ∈ undo, u.option ≠ o) : undoConfigOptions undo m o = m o := by
  induction undo with
  | nil => rfl
  | cons u undo ih =>
    exact (undoConfigOption_of_ne (h u (.head _))).trans (ih fun u' hu' => h u' (.tail _ hu'))

theorem undoConfigOptions_concat (undo : List DuckLakeConfigOptionUndo)
    (u : DuckLakeConfigOptionUndo) : undoConfigOptions (undo ++ [u]) m =
      undoConfigOptions undo (undoConfigOption u m) := by
  simp [undoConfigOptions]

end Option

theorem foldl_apply_congr {m m' : DuckLakeOptions} {o : ConfigKey} (changes : List ConfigChange)
    (h : m o = m' o) :
    changes.foldl ConfigChange.apply m o = changes.foldl ConfigChange.apply m' o := by
  induction changes generalizing m m' with
  | nil => exact h
  | cons change changes ih => exact ih (ConfigChange.apply_congr h)

theorem foldl_apply_of_ne {m : DuckLakeOptions} {o : ConfigKey} {changes : List ConfigChange}
    (h : o ∉ changes.map (·.option)) : changes.foldl ConfigChange.apply m o = m o := by
  induction changes generalizing m with
  | nil => rfl
  | cons change changes ih =>
    rw [List.map_cons, List.mem_cons, not_or] at h
    rw [List.foldl_cons, ih h.2, ConfigChange.apply_of_ne (Ne.symm h.1)]

/-! ## What an open transaction knows -/

section Runs

variable (each : ConfigState.CommitsEachStatement)

/-- What holds of an open transaction while no other one changes its options. -/
structure ConfigTransaction.Follows (σ : ConfigState) (T : ConfigTransaction) : Prop where
  writes : ∀ write ∈ T.writes, write.option ∈ T.touched
  undo : ∀ u ∈ T.undo, u.option ∈ T.touched
  paired : T.undo.length = T.writes.length
  missed : each = false → ∀ o ∈ T.touched, o ∉ T.missed
  reads : each = false → ∀ o, o ∉ T.missed →
    rowsOf T.rows o = rowsOf (T.writes.foldl ConfigWrite.execute σ.rows) o
  shown : ∀ o ∈ T.touched, σ.memory o = T.changes.foldl ConfigChange.apply σ.expected o
  stored : ∀ o ∈ T.touched, loadOptions (σ.seen each T) o = σ.memory o
  undone : ∀ o ∈ T.touched, undoConfigOptions T.undo σ.memory o = σ.expected o

/-- The options in memory, in the metadata and in the open transactions belong together. -/
structure ConfigState.Settled (σ : ConfigState) : Prop where
  alone : ∀ {id other T U}, σ.transactions id = some T → σ.transactions other = some U →
    id ≠ other → ∀ o ∈ T.touched, o ∉ U.touched
  follows : ∀ {id T}, σ.transactions id = some T → T.Follows each σ
  kept : ∀ o, (∀ id T, σ.transactions id = some T → o ∉ T.touched) →
    σ.memory o = σ.expected o ∧ loadOptions σ.rows o = σ.expected o
  written : each = false → ∀ o, loadOptions σ.rows o = σ.expected o

variable {each} {σ σ' : ConfigState} {T : ConfigTransaction} {id : Nat} {o : ConfigKey}

/-- A step of another transaction leaves the options of this one alone. -/
theorem ConfigTransaction.Follows.frame (h : T.Follows each σ) (missed : List ConfigKey)
    (hmissed : each = false → ∀ o ∉ missed, o ∉ T.missed ∧ rowsOf σ'.rows o = rowsOf σ.rows o)
    (hkept : ∀ o ∈ T.touched, σ'.memory o = σ.memory o ∧ σ'.expected o = σ.expected o ∧
      (each = true → rowsOf σ'.rows o = rowsOf σ.rows o) ∧ (each = false → o ∉ missed)) :
    ConfigTransaction.Follows each σ' { T with missed := missed } where
  writes := h.writes
  undo := h.undo
  paired := h.paired
  missed he o ho := (hkept o ho).2.2.2 he
  reads he o ho := by
    obtain ⟨hm, hrows⟩ := hmissed he o ho
    rw [h.reads he o hm]
    exact rowsOf_foldl_congr T.writes hrows.symm
  shown o ho := by
    obtain ⟨hmemory, hexpected, -⟩ := hkept o ho
    rw [hmemory, h.shown o ho]
    exact foldl_apply_congr T.changes hexpected.symm
  stored o ho := by
    obtain ⟨hmemory, -, hrows, -⟩ := hkept o ho
    rw [hmemory, ← h.stored o ho]
    apply loadOptions_congr
    cases each with
    | true => exact hrows rfl
    | false => rfl
  undone o ho := by
    obtain ⟨hmemory, hexpected, -⟩ := hkept o ho
    rw [hexpected, ← h.undone o ho]
    exact undoConfigOptions_congr hmemory

/-- What the transaction finds at an option that no other one has changed. -/
theorem ConfigState.Settled.current (h : σ.Settled each) (hT : σ.transactions id = some T)
    (halone : ∀ other U, other ≠ id → σ.transactions other = some U → o ∉ U.touched)
    (hmissed : each = false → o ∉ T.missed) :
    σ.memory o = T.changes.foldl ConfigChange.apply σ.expected o ∧
      loadOptions (σ.seen each T) o = σ.memory o ∧
      undoConfigOptions T.undo σ.memory o = σ.expected o := by
  have hf := h.follows hT
  by_cases ho : o ∈ T.touched
  · exact ⟨hf.shown o ho, hf.stored o ho, hf.undone o ho⟩
  · obtain ⟨hmemory, hrows⟩ := h.kept o fun other U hU => by
      by_cases hid : other = id
      · subst hid
        rw [hT] at hU
        cases hU
        exact ho
      · exact halone other U hid hU
    have hseen : loadOptions (σ.seen each T) o = loadOptions σ.rows o := by
      apply loadOptions_congr
      cases each with
      | true => rfl
      | false =>
        show rowsOf T.rows o = rowsOf σ.rows o
        rw [hf.reads rfl o (hmissed rfl)]
        exact rowsOf_foldl_of_ne fun write hw heq => ho (heq ▸ hf.writes write hw)
    refine ⟨?_, ?_, ?_⟩
    · rw [hmemory, foldl_apply_of_ne ho]
    · rw [hseen, hrows, hmemory]
    · rw [undoConfigOptions_of_ne (o := o) fun u hu heq => ho (heq ▸ hf.undo u hu), hmemory]

/-- The transaction goes on to `T'`, and only its own options change. -/
theorem ConfigState.Settled.put {T' : ConfigTransaction} (h : σ.Settled each)
    (htransactions : σ'.transactions = Function.update σ.transactions id (some T'))
    (hexpected : σ'.expected = σ.expected) (hrows : each = false → σ'.rows = σ.rows)
    (hkept : ∀ o ∉ T'.touched, σ'.memory o = σ.memory o ∧ rowsOf σ'.rows o = rowsOf σ.rows o)
    (halone : ∀ other U, other ≠ id → σ.transactions other = some U →
      ∀ o ∈ T'.touched, o ∉ U.touched)
    (htouched : ∀ T, σ.transactions id = some T → T.touched ⊆ T'.touched)
    (hT' : T'.Follows each σ') : σ'.Settled each := by
  have hother : ∀ {other U}, other ≠ id → σ'.transactions other = some U →
      σ.transactions other = some U := by
    intro other U hne hU
    rwa [htransactions, Function.update_of_ne hne] at hU
  have hself : ∀ {U}, σ'.transactions id = some U → U = T' := by
    intro U hU
    rw [htransactions, Function.update_self] at hU
    exact (Option.some.inj hU).symm
  constructor
  case alone =>
    intro i j U V hU hV hij o ho
    by_cases hi : i = id
    · subst hi
      cases hself hU
      exact halone j V (Ne.symm hij) (hother (Ne.symm hij) hV) o ho
    · by_cases hj : j = id
      · subst hj
        cases hself hV
        exact fun ho' => halone i U hi (hother hi hU) o ho' ho
      · exact h.alone (hother hi hU) (hother hj hV) hij o ho
  case follows =>
    intro i U hU
    by_cases hi : i = id
    · subst hi
      cases hself hU
      exact hT'
    · apply (h.follows (hother hi hU)).frame U.missed
      · intro he o ho
        exact ⟨ho, by rw [hrows he]⟩
      · intro o ho
        have hnot : o ∉ T'.touched := fun ho' => halone i U hi (hother hi hU) o ho' ho
        exact ⟨(hkept o hnot).1, by rw [hexpected], fun _ => (hkept o hnot).2,
          fun he => (h.follows (hother hi hU)).missed he o ho⟩
  case kept =>
    intro o ho
    have hnot : o ∉ T'.touched := ho id T' (by rw [htransactions, Function.update_self])
    obtain ⟨hmemory, hrow⟩ := hkept o hnot
    rw [hmemory, loadOptions_congr hrow, hexpected]
    apply h.kept
    intro i U hU
    by_cases hi : i = id
    · subst hi
      exact fun ho' => hnot (htouched U hU ho')
    · exact ho i U (by rwa [htransactions, Function.update_of_ne hi])
  case written =>
    intro he o
    rw [hrows he, hexpected]
    exact h.written he o

/-! ## The steps -/

/-- The runs in which the options stay right: at a change no other open transaction has changed the
option, and the transaction sees every commit to it; no attempt with option statements is retried;
and where each statement is committed on its own, no transaction with option statements is rolled
back. -/
def ConfigEvent.Clean (each : ConfigState.CommitsEachStatement) (σ : ConfigState) :
    ConfigEvent → Prop
  | .begin _ => True
  | .change id c => ∀ T, σ.transactions id = some T →
      (each = false → c.option ∉ T.missed) ∧
      ∀ other U, other ≠ id → σ.transactions other = some U → c.option ∉ U.touched
  | .commit id retried => ∀ T, σ.transactions id = some T →
      retried = true → each = false → T.writes = []
  | .rollback id => ∀ T, σ.transactions id = some T → each = true → T.writes = []

def ConfigState.CleanRun (each : ConfigState.CommitsEachStatement) :
    ConfigState → List ConfigEvent → Prop
  | _, [] => True
  | σ, event :: events => event.Clean each σ ∧ CleanRun each (σ.step each event) events

namespace ConfigState.Settled

theorem load (rows : List ConfigRow) : (ConfigState.load rows).Settled each where
  alone h := by cases h
  follows h := by cases h
  kept _ _ := ⟨rfl, rfl⟩
  written _ _ := rfl

theorem begin (h : σ.Settled each) (hid : σ.transactions id = none) :
    ConfigState.Settled each { σ with
      transactions := Function.update σ.transactions id (some { rows := σ.rows }) } := by
  refine h.put rfl rfl (fun _ => rfl) ?_ ?_ ?_ ?_
  · intro o _
    exact ⟨rfl, rfl⟩
  · intro other U _ _ o ho
    cases ho
  · intro T hT
    rw [hid] at hT
    cases hT
  · constructor <;> intros <;> first | rfl | contradiction

variable {change : ConfigChange}

/-- After the change the options of the transaction are still its own. -/
theorem alone_concat (h : σ.Settled each) (hT : σ.transactions id = some T)
    (hclean : (ConfigEvent.change id change).Clean each σ) (other : Nat) (U : ConfigTransaction)
    (hne : other ≠ id) (hU : σ.transactions other = some U) :
    ∀ o ∈ (T.changes ++ [change]).map (·.option), o ∉ U.touched := by
  intro o ho
  rw [List.map_append, List.mem_append] at ho
  cases ho with
  | inl ho => exact h.alone hT hU (Ne.symm hne) o ho
  | inr ho =>
    cases List.mem_singleton.1 ho
    exact (hclean T hT).2 other U hne hU

theorem touched_subset (change : ConfigChange) (hT : σ.transactions id = some T)
    (U : ConfigTransaction) (hU : σ.transactions id = some U) :
    U.touched ⊆ (T.changes ++ [change]).map (·.option) := by
  rw [hT] at hU
  cases hU
  rw [List.map_append]
  exact List.subset_append_left ..

theorem mem_concat (ho : o ∈ (T.changes ++ [change]).map (·.option)) :
    o = change.option ∨ change.option ≠ o ∧ o ∈ T.touched := by
  by_cases heq : o = change.option
  · exact .inl heq
  · refine .inr ⟨Ne.symm heq, ?_⟩
    rw [List.map_append, List.mem_append] at ho
    exact ho.resolve_right fun h => heq (List.mem_singleton.1 h)

/-- A change that executes a statement: the statement, the value in memory and the entry for the
undo all belong to the option of the change. -/
theorem changed {write : ConfigWrite} (h : σ.Settled each)
    (hT : σ.transactions id = some T) (hclean : (ConfigEvent.change id change).Clean each σ)
    (hwrite : change.write (σ.seen each T) = some write) :
    (σ.changed each id T change write).Settled each := by
  obtain ⟨hmissed, halone⟩ := hclean T hT
  have hf := h.follows hT
  have hoption := ConfigChange.option_write hwrite
  obtain ⟨hmemory, -, hundone⟩ := h.current hT halone hmissed
  have hnew : change.option ∈ (T.changes ++ [change]).map (·.option) := by simp
  have hold := touched_subset change hT T hT
  refine h.put rfl rfl ?_ ?_ (h.alone_concat hT hclean) (touched_subset change hT) ?_
  · rintro rfl
    rfl
  · intro o ho
    have hne : change.option ≠ o := fun heq => ho (heq ▸ hnew)
    refine ⟨ConfigChange.apply_of_ne hne, ?_⟩
    cases each with
    | true => exact rowsOf_execute_of_ne (by rwa [hoption])
    | false => rfl
  constructor
  case writes =>
    intro w hw
    cases List.mem_append.1 hw with
    | inl hw => exact hold (hf.writes w hw)
    | inr hw =>
      cases List.mem_singleton.1 hw
      rwa [hoption]
  case undo =>
    intro u hu
    cases List.mem_append.1 hu with
    | inl hu => exact hold (hf.undo u hu)
    | inr hu =>
      cases List.mem_singleton.1 hu
      cases change <;> exact hnew
  case paired => simp [hf.paired]
  case missed =>
    intro he o ho
    cases mem_concat ho with
    | inl heq => exact heq ▸ hmissed he
    | inr h => exact hf.missed he o h.2
  case reads =>
    intro he o ho
    subst he
    rw [List.foldl_append]
    exact rowsOf_execute_congr write (hf.reads rfl o ho)
  case shown =>
    intro o ho
    rw [List.foldl_append]
    cases mem_concat ho with
    | inl heq => exact heq ▸ ConfigChange.apply_congr hmemory
    | inr h => exact ConfigChange.apply_congr (hf.shown o h.2)
  case stored =>
    intro o ho
    have hseen : (σ.changed each id T change write).seen each
        { T with
          rows := write.execute T.rows
          writes := T.writes ++ [write]
          undo := T.undo ++ [change.undo σ.memory]
          changes := T.changes ++ [change] } = write.execute (σ.seen each T) := by
      cases each <;> rfl
    rw [hseen]
    cases mem_concat ho with
    | inl heq =>
      subst heq
      exact ConfigChange.loadOptions_write hwrite
    | inr h =>
      have hrows : rowsOf (write.execute (σ.seen each T)) o = rowsOf (σ.seen each T) o :=
        rowsOf_execute_of_ne (by rw [hoption]; exact h.1)
      rw [loadOptions_congr hrows, hf.stored o h.2]
      exact (ConfigChange.apply_of_ne h.1).symm
  case undone =>
    intro o ho
    rw [undoConfigOptions_concat]
    cases mem_concat ho with
    | inl heq =>
      subst heq
      exact (undoConfigOptions_congr ConfigChange.undo_apply).trans hundone
    | inr h =>
      refine Eq.trans (undoConfigOptions_congr ?_) (hf.undone o h.2)
      rw [undoConfigOption_of_ne (by cases change <;> exact h.1)]
      exact ConfigChange.apply_of_ne h.1

/-- A reset that finds no row: the option was unset in memory too. -/
theorem requested (h : σ.Settled each) (hT : σ.transactions id = some T)
    (hclean : (ConfigEvent.change id change).Clean each σ)
    (hwrite : change.write (σ.seen each T) = none) :
    (σ.requested id T change).Settled each := by
  obtain ⟨hmissed, halone⟩ := hclean T hT
  have hf := h.follows hT
  obtain ⟨hmemory, hstored, hundone⟩ := h.current hT halone hmissed
  obtain ⟨hnone, happly⟩ :=
    ConfigChange.loadOptions_of_no_write (m := T.changes.foldl ConfigChange.apply σ.expected)
      hwrite
  have hold := touched_subset change hT T hT
  refine h.put rfl rfl (fun _ => rfl) (fun _ _ => ⟨rfl, rfl⟩) (h.alone_concat hT hclean)
    (touched_subset change hT) ?_
  constructor
  case writes => exact fun w hw => hold (hf.writes w hw)
  case undo => exact fun u hu => hold (hf.undo u hu)
  case paired => exact hf.paired
  case missed =>
    intro he o ho
    cases mem_concat ho with
    | inl heq => exact heq ▸ hmissed he
    | inr h => exact hf.missed he o h.2
  case reads => exact hf.reads
  case shown =>
    intro o ho
    rw [List.foldl_append]
    cases mem_concat ho with
    | inl heq =>
      subst heq
      exact (hstored.symm.trans hnone).trans happly.symm
    | inr h => exact (hf.shown o h.2).trans (ConfigChange.apply_of_ne h.1).symm
  case stored =>
    intro o ho
    cases mem_concat ho with
    | inl heq => exact heq ▸ hstored
    | inr h => exact hf.stored o h.2
  case undone =>
    intro o ho
    cases mem_concat ho with
    | inl heq => exact heq ▸ hundone
    | inr h => exact hf.undone o h.2

/-- What is persisted once the transaction has ended is what its changes ask for. -/
theorem loadOptions_committed (h : σ.Settled each) (hT : σ.transactions id = some T)
    {retried : Bool} (hclean : (ConfigEvent.commit id retried).Clean each σ)
    (ho : o ∈ T.touched) : loadOptions (σ.committed each id T retried).rows o = σ.memory o := by
  have hf := h.follows hT
  rw [← hf.stored o ho]
  apply loadOptions_congr
  cases each with
  | true => rfl
  | false =>
    refine Eq.trans ?_ (hf.reads rfl o (hf.missed rfl o ho)).symm
    cases retried with
    | true =>
      rw [hclean T hT rfl rfl]
      rfl
    | false => rfl

theorem rowsOf_committed (hf : T.Follows each σ) (retried : Bool) (ho : o ∉ T.touched) :
    rowsOf (σ.committed each id T retried).rows o = rowsOf σ.rows o := by
  unfold ConfigState.committed
  split
  · rfl
  · exact rowsOf_foldl_of_ne fun write hw heq => ho (heq ▸ hf.writes write hw)

theorem committed (h : σ.Settled each) (hT : σ.transactions id = some T) {retried : Bool}
    (hclean : (ConfigEvent.commit id retried).Clean each σ) :
    (σ.committed each id T retried).Settled each := by
  have hf := h.follows hT
  have hopen : ∀ {i V}, (σ.committed each id T retried).transactions i = some V →
      i ≠ id ∧ ∃ U, σ.transactions i = some U ∧ V = { U with missed := U.missed ++ T.touched } := by
    intro i V hV
    simp only [ConfigState.committed] at hV
    split at hV
    · cases hV
    · obtain ⟨U, hU, rfl⟩ := Option.map_eq_some_iff.1 hV
      exact ⟨‹_›, U, hU, rfl⟩
  -- the values that the transaction leaves behind, by whether it has changed the option
  have hvalues : ∀ o, (o ∈ T.touched ∨ σ.memory o = σ.expected o) →
      σ.memory o = (σ.committed each id T retried).expected o := by
    intro o ho
    by_cases hmem : o ∈ T.touched
    · exact hf.shown o hmem
    · exact (ho.resolve_left hmem).trans (foldl_apply_of_ne hmem).symm
  constructor
  case alone =>
    intro i j V W hV hW hij
    obtain ⟨-, U, hU, rfl⟩ := hopen hV
    obtain ⟨-, U', hU', rfl⟩ := hopen hW
    exact fun o ho => h.alone hU hU' hij o ho
  case follows =>
    intro i V hV
    obtain ⟨hne, U, hU, rfl⟩ := hopen hV
    have hfU := h.follows hU
    apply hfU.frame
    · intro he o ho
      rw [List.mem_append, not_or] at ho
      exact ⟨ho.1, rowsOf_committed hf retried ho.2⟩
    · intro o ho
      have hnot : o ∉ T.touched := fun ho' => h.alone hT hU (Ne.symm hne) o ho' ho
      refine ⟨rfl, foldl_apply_of_ne hnot, fun _ => rowsOf_committed hf retried hnot, ?_⟩
      intro he
      rw [List.mem_append, not_or]
      exact ⟨hfU.missed he o ho, hnot⟩
  case kept =>
    intro o ho
    by_cases hmem : o ∈ T.touched
    · have hvalue := hvalues o (.inl hmem)
      exact ⟨hvalue, (h.loadOptions_committed hT hclean hmem).trans hvalue⟩
    · obtain ⟨hmemory, hrows⟩ := h.kept o fun i U hU => by
        by_cases hi : i = id
        · subst hi
          rw [hT] at hU
          cases hU
          exact hmem
        · exact ho i { U with missed := U.missed ++ T.touched }
            (by simp [ConfigState.committed, hi, hU])
      have hvalue := hvalues o (.inr hmemory)
      refine ⟨hvalue, ?_⟩
      rw [loadOptions_congr (rowsOf_committed hf retried hmem), hrows, ← hmemory]
      exact hvalue
  case written =>
    intro he o
    by_cases hmem : o ∈ T.touched
    · exact (h.loadOptions_committed hT hclean hmem).trans (hf.shown o hmem)
    · rw [loadOptions_congr (rowsOf_committed hf retried hmem), h.written he o]
      exact (foldl_apply_of_ne hmem).symm

theorem rolledBack (h : σ.Settled each) (hT : σ.transactions id = some T)
    (hclean : (ConfigEvent.rollback id).Clean each σ) :
    ConfigState.Settled each
      { σ.close id with memory := undoConfigOptions T.undo σ.memory } := by
  have hf := h.follows hT
  have hopen : ∀ {i U}, (σ.close id).transactions i = some U →
      i ≠ id ∧ σ.transactions i = some U := by
    intro i U hU
    by_cases hi : i = id
    · simp [ConfigState.close, hi] at hU
    · simp only [ConfigState.close, Function.update_of_ne hi] at hU
      exact ⟨hi, hU⟩
  have hmemory : ∀ o ∉ T.touched, undoConfigOptions T.undo σ.memory o = σ.memory o := by
    intro o ho
    exact undoConfigOptions_of_ne fun u hu heq => ho (heq ▸ hf.undo u hu)
  constructor
  case alone =>
    intro i j U V hU hV hij
    exact h.alone (hopen hU).2 (hopen hV).2 hij
  case follows =>
    intro i U hU
    obtain ⟨hne, hU⟩ := hopen hU
    have hfU := h.follows hU
    apply hfU.frame U.missed
    · exact fun _ o ho => ⟨ho, rfl⟩
    · intro o ho
      have hnot : o ∉ T.touched := fun ho' => h.alone hT hU (Ne.symm hne) o ho' ho
      exact ⟨hmemory o hnot, rfl, fun _ => rfl, fun he => hfU.missed he o ho⟩
  case kept =>
    intro o ho
    by_cases hmem : o ∈ T.touched
    · refine ⟨hf.undone o hmem, ?_⟩
      cases each with
      | false => exact h.written rfl o
      | true =>
        have hundo : T.undo = [] := by
          rw [← List.length_eq_zero_iff, hf.paired, hclean T hT rfl]
          rfl
        have hundone := hf.undone o hmem
        rw [hundo] at hundone
        exact (hf.stored o hmem).trans hundone
    · obtain ⟨hkept, hrows⟩ := h.kept o fun i U hU => by
        by_cases hi : i = id
        · subst hi
          rw [hT] at hU
          cases hU
          exact hmem
        · exact ho i U (by simpa only [ConfigState.close, Function.update_of_ne hi] using hU)
      exact ⟨(hmemory o hmem).trans hkept, hrows⟩
  case written => exact h.written

theorem step (h : σ.Settled each) {event : ConfigEvent} (hclean : event.Clean each σ) :
    (σ.step each event).Settled each := by
  cases event with
  | begin id =>
    simp only [ConfigState.step]
    split
    · exact h
    · exact h.begin ‹_›
  | change id change =>
    simp only [ConfigState.step]
    split
    · exact h
    · rename_i T hT
      split
      · exact h.changed hT hclean ‹_›
      · exact h.requested hT hclean ‹_›
  | commit id retried =>
    simp only [ConfigState.step]
    split
    · exact h
    · exact h.committed ‹_› hclean
  | rollback id =>
    simp only [ConfigState.step]
    split
    · exact h
    · exact h.rolledBack ‹_› hclean

theorem run (h : σ.Settled each) {events : List ConfigEvent} (hclean : σ.CleanRun each events) :
    (σ.run each events).Settled each := by
  induction events generalizing σ with
  | nil => exact h
  | cons event events ih => exact ih (h.step hclean.1) hclean.2

end ConfigState.Settled

end Runs

/-- Once all transactions have ended, the options in memory are the initial ones with the committed
changes, and so are the ones in the metadata. -/
theorem options_after_transactions (each : ConfigState.CommitsEachStatement)
    (rows : List ConfigRow) (events : List ConfigEvent)
    (hclean : (ConfigState.load rows).CleanRun each events)
    (hended : ∀ id, ((ConfigState.load rows).run each events).transactions id = none) :
    ((ConfigState.load rows).run each events).memory =
        ((ConfigState.load rows).run each events).expected ∧
      loadOptions ((ConfigState.load rows).run each events).rows =
        ((ConfigState.load rows).run each events).memory := by
  have hsettled : ((ConfigState.load rows).run each events).Settled each :=
    (ConfigState.Settled.load rows).run hclean
  have hkept := fun o => hsettled.kept o fun id T hT => by
    rw [hended id] at hT
    cases hT
  refine ⟨funext fun o => (hkept o).1, funext fun o => ?_⟩
  rw [(hkept o).1, (hkept o).2]

/-- One transaction sets an option and commits, the other one resets it and is rolled back. -/
def commitThenRollback (option : ConfigKey) (value : Text) : List ConfigEvent :=
  [.begin 0, .change 0 (.set option value), .commit 0 false, .begin 1, .change 1 (.reset option),
    .rollback 1]

theorem commitThenRollback_clean (option : ConfigKey) (value : Text) :
    (ConfigState.load []).CleanRun false (commitThenRollback option value) := by
  simp +contextual [commitThenRollback, ConfigState.CleanRun, ConfigEvent.Clean, ConfigState.step,
    ConfigState.load, ConfigChange.write, ConfigState.seen, rowsOf, ConfigState.changed,
    ConfigState.committed, ConfigTransaction.touched]

theorem commitThenRollback_ended (option : ConfigKey) (value : Text) (id : Nat) :
    ((ConfigState.load []).run false (commitThenRollback option value)).transactions id = none := by
  simp +contextual [commitThenRollback, ConfigState.run, ConfigState.step, ConfigState.load,
    ConfigChange.write, ConfigState.seen, rowsOf, ConfigState.changed, ConfigState.committed,
    ConfigState.close, ConfigWrite.execute]

theorem options_after_commitThenRollback :
    ((ConfigState.load []).run false
        (commitThenRollback ⟨.global, ['k']⟩ ['a'])).memory ⟨.global, ['k']⟩ = some ['a'] ∧
      loadOptions ((ConfigState.load []).run false
        (commitThenRollback ⟨.global, ['k']⟩ ['a'])).rows ⟨.global, ['k']⟩ = some ['a'] := by
  obtain ⟨hmemory, hrows⟩ := options_after_transactions false []
    (commitThenRollback ⟨.global, ['k']⟩ ['a']) (commitThenRollback_clean _ _)
    (commitThenRollback_ended _ _)
  rw [hrows, hmemory]
  exact ⟨rfl, rfl⟩

/-- Two transactions set one option, and both are rolled back, the first one first. Its undo finds
the value of the second one and leaves it; the undo of the second one puts back the value that the
first one had set. -/
def overlappingRollbacks (option : ConfigKey) (first second : Text) : List ConfigEvent :=
  [.begin 0, .begin 1, .change 0 (.set option first), .change 1 (.set option second), .rollback 0,
    .rollback 1]

theorem options_differ_after_rollbacks :
    ¬ ∀ (each : ConfigState.CommitsEachStatement) (rows : List ConfigRow)
        (events : List ConfigEvent),
      (∀ id, ((ConfigState.load rows).run each events).transactions id = none) →
      ((ConfigState.load rows).run each events).memory =
        ((ConfigState.load rows).run each events).expected ∧
      loadOptions ((ConfigState.load rows).run each events).rows =
        ((ConfigState.load rows).run each events).memory := by
  intro h
  obtain ⟨hmemory, -⟩ := h false [] (overlappingRollbacks ⟨.global, ['k']⟩ ['a'] ['b']) fun id => by
    simp +contextual [overlappingRollbacks, ConfigState.run, ConfigState.step, ConfigState.load,
      ConfigChange.write, ConfigState.seen, rowsOf, ConfigState.changed, ConfigState.close,
      Function.update_apply]
  have hvalue := congrFun hmemory ⟨.global, ['k']⟩
  exact absurd hvalue (by decide)

end DuckLake
