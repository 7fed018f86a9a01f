import DuckLake.Storage.SnapshotChanges

/-!
# The change log round trip

A change log is a comma-separated list of `keyword:value` entries. The proof goes through the list
of entries a transaction logs: the writer renders it, the reader recovers it entry by entry, and
applying the entries one after another collects exactly the sets of the transaction.
-/

namespace DuckLake

/-! ## Reading one entry -/

/-- The keyword the writer uses for a kind. -/
def ChangeType.keyword : ChangeType → Text
  | .createdTable => "created_table"
  | .createdView => "created_view"
  | .createdSchema => "created_schema"
  | .droppedSchema => "dropped_schema"
  | .droppedTable => "dropped_table"
  | .droppedView => "dropped_view"
  | .insertedIntoTable => "inserted_into_table"
  | .deletedFromTable => "deleted_from_table"
  | .insertedIntoTableInlined => "inlined_insert"
  | .deletedFromTableInlined => "inlined_delete"
  | .flushedInlineDataForTable => "inline_flush"
  | .alteredTable => "altered_table"
  | .alteredView => "altered_view"
  | .compactedTable => "compacted_table"
  | .mergeAdjacent => "merge_adjacent"
  | .rewriteDelete => "rewrite_delete"
  | .createdScalarMacro => "created_scalar_macro"
  | .createdTableMacro => "created_table_macro"
  | .setNotNull => "set_not_null"
  | .createdProcedure => "created_procedure"
  | .droppedScalarMacro => "dropped_scalar_macro"
  | .droppedTableMacro => "dropped_table_macro"
  | .droppedProcedure => "dropped_procedure"

theorem ChangeType.colon_not_mem_keyword (t : ChangeType) : ':' ∉ t.keyword := by
  cases t <;> decide

theorem ChangeType.find?_keyword (t : ChangeType) :
    (changeTypeKeywords.find? fun e => t.keyword.ciEquals e.1).map (·.2) = some t := by
  cases t <;> decide

/-- The end of an entry: either the end of the log or a comma. -/
def EntryEnd (rest : Text) : Prop := rest = [] ∨ ∃ r, rest = ',' :: r

theorem parseChangeType_keyword (t : ChangeType) (rest : Text) :
    parseChangeType (t.keyword ++ ':' :: rest) = .ok (t, ':' :: rest) := by
  have hkey : ∀ c ∈ t.keyword, decide (c ≠ ':') = true := by
    intro c hc
    refine decide_eq_true ?_
    rintro rfl
    exact t.colon_not_mem_keyword hc
  have htake : (t.keyword ++ ':' :: rest).takeWhile (· ≠ ':') = t.keyword := by
    rw [List.takeWhile_append_of_pos hkey, List.takeWhile_cons_of_neg (by simp), List.append_nil]
  have hdrop : (t.keyword ++ ':' :: rest).dropWhile (· ≠ ':') = ':' :: rest := by
    rw [List.dropWhile_append_of_pos hkey, List.dropWhile_cons_of_neg (by simp)]
  obtain ⟨e, he, heq⟩ := Option.map_eq_some_iff.1 t.find?_keyword
  simp only [parseChangeType, htake, hdrop, he, heq]

theorem parseChangeValueLoop_guarded {b : Bool} {v rest : Text} (hv : Text.Guarded '"' ',' b v)
    (hs : Text.quoteState '"' b v = false) (hr : EntryEnd rest) :
    parseChangeValueLoop b (v ++ rest) = (v, rest) := by
  induction v generalizing b with
  | nil =>
    cases hs
    rcases hr with rfl | ⟨r, rfl⟩
    · rfl
    · rfl
  | cons c v ih =>
    obtain ⟨hc, hv⟩ := hv
    have hstep : (!b && decide (c = ',')) = false := by
      cases b with
      | true => rfl
      | false => simpa using hc rfl
    rw [List.cons_append, parseChangeValueLoop, hstep, ih hv hs]
    rfl

theorem parseChangeEntry_render {p : ParsedChange} {rest : Text}
    (hv : Text.Closed '"' ',' p.changeValue) (hr : EntryEnd rest) :
    parseChangeEntry (p.changeType.keyword ++ ':' :: (p.changeValue ++ rest)) = .ok (p, rest) := by
  simp only [parseChangeEntry, parseChangeType_keyword, bind, Except.bind, parseChangeValue,
    parseChangeValueLoop_guarded hv.guarded hv.state hr]
  rfl

def ParsedChange.render (p : ParsedChange) : Text := p.changeType.keyword ++ ':' :: p.changeValue

theorem ParsedChange.render_ne_nil (p : ParsedChange) : p.render ≠ [] := by simp [render]

theorem parseChangesList_render {ps : List ParsedChange}
    (h : ∀ p ∈ ps, Text.Closed '"' ',' p.changeValue) :
    parseChangesList (Text.join "," (ps.map ParsedChange.render)) = .ok ps := by
  induction ps with
  | nil =>
    rw [parseChangesList]
    rfl
  | cons p ps ih =>
    have hp := h p (by simp)
    have ih := ih fun q hq => h q (List.mem_cons_of_mem _ hq)
    rw [List.map_cons]
    cases ps with
    | nil =>
      have hentry := parseChangeEntry_render hp (.inl rfl)
      rw [List.append_nil] at hentry
      change parseChangesList p.render = _
      rw [parseChangesList, if_neg (by simpa using p.render_ne_nil)]
      split
      · rename_i hw
        cases hw.symm.trans hentry
      · rename_i hw
        cases hw.symm.trans hentry
        rfl
      · rename_i hw
        cases hw.symm.trans hentry
    | cons q qs =>
      have hentry := parseChangeEntry_render hp
        (.inr ⟨Text.join "," ((q :: qs).map ParsedChange.render), rfl⟩)
      have heq : Text.join "," (p.render :: (q :: qs).map ParsedChange.render) =
          p.changeType.keyword ++ ':' :: (p.changeValue ++
            ',' :: Text.join "," ((q :: qs).map ParsedChange.render)) := by
        rw [Text.join_cons (by simp)]
        simp [ParsedChange.render]
      rw [heq, parseChangesList, if_neg (by simp)]
      split
      · rename_i hw
        cases hw.symm.trans hentry
      · rename_i hw
        cases hw.symm.trans hentry
      · rename_i hw
        cases hw.symm.trans hentry
        rw [if_neg (by simp), ih]
        rfl

/-! ## Logged changes -/

/-- One entry of a change log: an id under a kind, a created schema, or a created entry. -/
inductive LoggedChange where
  | id (t : ChangeType) (i : Idx)
  | schema (path : List Text)
  | entry (t : ChangeType) (path : List Text) (name : Text)

def ChangeType.LogsId (t : ChangeType) : Prop := t.createdKind? = none ∧ t ≠ .createdSchema

namespace LoggedChange

variable [SQLWriter]

def parsed : LoggedChange → ParsedChange
  | id t i => ⟨t, i.toText⟩
  | schema path => ⟨.createdSchema, toQuotedList path '.'⟩
  | entry t path name => ⟨t, toQuotedList (path ++ [name]) '.'⟩

def Valid : LoggedChange → Prop
  | id t _ => t.LogsId
  | schema _ => True
  | entry t path _ => t.createdKind?.isSome ∧ path ≠ []

/-- The log that consists of one entry. -/
def sets : LoggedChange → ChangeSets
  | id t i => ⟨fun t' => {j | t' = t ∧ j = i}, ∅, fun _ => ∅⟩
  | schema path => ⟨fun _ => ∅, {key | (toQuotedList path '.').fold = key.fold}, fun _ => ∅⟩
  | entry t path name => ⟨fun _ => ∅, ∅, fun k => {p | t.createdKind? = some k ∧
      (toQuotedList path '.').fold = p.1.fold ∧ name.fold = p.2.fold}⟩

/-- The name that the entry says was created. -/
def named? : LoggedChange → Option LoggedName
  | entry t path name => some ⟨t, toQuotedList path '.', name⟩
  | _ => none

def schema? : LoggedChange → Option Text
  | schema path => some (toQuotedList path '.')
  | _ => none

theorem closed_parsed (c : LoggedChange) : Text.Closed '"' ',' c.parsed.changeValue := by
  cases c with
  | id t i =>
    refine .of_forall fun c hc => ?_
    have hd := Text.isDigit_of_mem_ofNat hc
    constructor <;> (rintro rfl; exact absurd hd (by decide))
  | schema path => exact closed_toQuotedList (by decide) (by decide) (by decide) _
  | entry t path name => exact closed_toQuotedList (by decide) (by decide) (by decide) _

end LoggedChange

theorem createdIn_insert [SQLWriter] {m : CreatedNames} {e : ParsedCatalogEntry}
    {kind key name : Text} :
    CreatedIn (m.insert e kind) key name ↔
      CreatedIn m key name ∨ (e.schemaKey.fold = key.fold ∧ e.name.fold = name.fold) := by
  simp only [CreatedIn, CreatedNames.insert, CIMap.find?_update]
  by_cases h : e.schemaKey.fold = key.fold
  · rw [if_pos h, CIMap.find?_congr h]
    simp only [Option.some.injEq, exists_eq_left', CIMap.contains_insert, h, true_and]
    cases hm : m.map.find? key with
    | none => simp [CIMap.contains]
    | some names => simp [or_comm]
  · simp [h]

/-! ## Collecting names -/

section FirstAmong

variable {α : Type} {same : α → α → Prop}

theorem FirstAmong.mem {l : List α} {a : α} (h : FirstAmong same l a) : a ∈ l := by
  obtain ⟨before, after, rfl, -⟩ := h
  simp

theorem firstAmong_concat {l : List α} {x a : α} :
    FirstAmong same (l ++ [x]) a ↔ FirstAmong same l a ∨ a = x ∧ ∀ b ∈ l, ¬ same x b := by
  constructor
  · rintro ⟨before, after, hsplit, hbefore⟩
    rcases List.eq_nil_or_concat after with rfl | ⟨after', y, rfl⟩
    · obtain ⟨rfl, hx⟩ := List.append_inj' hsplit rfl
      cases hx
      exact .inr ⟨rfl, hbefore⟩
    · rw [List.concat_eq_append, ← List.cons_append, ← List.append_assoc] at hsplit
      obtain ⟨rfl, -⟩ := List.append_inj' hsplit rfl
      exact .inl ⟨before, after', rfl, hbefore⟩
  · rintro (⟨before, after, rfl, hbefore⟩ | ⟨rfl, hl⟩)
    · exact ⟨before, after ++ [x], by simp, hbefore⟩
    · exact ⟨l, [], rfl, hl⟩

/-- Where no two elements are the same, every one comes first. -/
theorem firstAmong_iff_mem {l : List α} (h : l.Pairwise fun a b => ¬ same b a) {a : α} :
    FirstAmong same l a ↔ a ∈ l := by
  refine ⟨FirstAmong.mem, fun ha => ?_⟩
  obtain ⟨before, after, rfl⟩ := List.append_of_mem ha
  exact ⟨before, after, rfl, fun b hb => (List.pairwise_append.1 h).2.2 b hb a (.head _)⟩

end FirstAmong

/-! ## Reading what is created

The names and schema keys of the log are inserted one after the other. -/

theorem createdAs_insert [SQLWriter] {m : CreatedNames} {e : ParsedCatalogEntry}
    {type type' : ChangeType} {key name : Text} :
    CreatedAs (m.insert e type'.kindText) type key name ↔
      CreatedAs m type key name ∨ e.schemaKey.fold = key.fold ∧ e.name = name ∧
        type.kindText = type'.kindText ∧ ¬ CreatedIn m key name := by
  simp only [CreatedAs, CreatedIn, CreatedNames.insert, CIMap.find?_update]
  by_cases h : e.schemaKey.fold = key.fold
  · rw [if_pos h, CIMap.find?_congr h]
    simp only [Option.some.injEq, exists_eq_left', CIMap.mem_insert, h, true_and]
    cases hm : m.map.find? key with
    | none =>
      have hempty : (∅ : CIMap Text).contains e.name = false := rfl
      simp only [Option.getD_none, CIMap.entries_empty, List.not_mem_nil, false_or, hempty,
        true_and, reduceCtorEq, false_and, exists_false, not_false_iff, and_true]
      exact and_congr_left fun _ => eq_comm
    | some names =>
      simp only [Option.getD_some, Option.some.injEq, exists_eq_left', Bool.not_eq_true]
      constructor
      · rintro (h | ⟨h, rfl, hk⟩)
        · exact .inl h
        · exact .inr ⟨rfl, hk, h⟩
      · rintro (h | ⟨rfl, hk, h⟩)
        · exact .inl h
        · exact .inr ⟨h, rfl, hk⟩
  · simp [h]

section Apply

variable [SQLWriter] {r : SnapshotChangeInformation}

omit [SQLWriter] in
theorem ids_insertId_self {t : ChangeType} (ht : t.LogsId) (i : Idx) :
    (r.insertId i t).ids t = (r.ids t).insert i := by
  obtain ⟨hkind, hschema⟩ := ht
  cases t <;> first | exact absurd rfl hschema | rfl | cases hkind

omit [SQLWriter] in
theorem ids_insertId_of_ne {t t' : ChangeType} (h : t' ≠ t) (i : Idx) :
    (r.insertId i t).ids t' = r.ids t' := by
  cases t <;> cases t' <;> first | rfl | exact absurd rfl h

omit [SQLWriter] in
theorem createdSchemas_insertId (t : ChangeType) (i : Idx) :
    (r.insertId i t).createdSchemas = r.createdSchemas := by
  cases t <;> rfl

omit [SQLWriter] in
theorem createdMap_insertId (t : ChangeType) (i : Idx) (k : CreatedKind) :
    (r.insertId i t).createdMap k = r.createdMap k := by
  cases t <;> rfl

/-- What the change log is read into: the sets, and the names that come first. -/
structure ReadFrom (names : List LoggedName) (schemas : List Text) (r : SnapshotChangeInformation) :
    Prop where
  collects : r.Collects names schemas
  created : ∀ k key name, CreatedIn (r.createdMap k) key name ↔
    ∃ e ∈ names, e.type.createdKind? = some k ∧ e.key.fold = key.fold ∧ e.name.fold = name.fold
  schemas : ∀ key, r.createdSchemas.contains key = true ↔ ∃ k ∈ schemas, k.fold = key.fold

variable {names : List LoggedName} {schemas : List Text}

omit [SQLWriter] in
theorem ReadFrom.of_eq {r' : SnapshotChangeInformation} (h : ReadFrom names schemas r)
    (hcreated : ∀ k, r'.createdMap k = r.createdMap k)
    (hschemas : r'.createdSchemas = r.createdSchemas) : ReadFrom names schemas r' := by
  refine ⟨⟨fun type key name => ?_, ?_⟩, ?_, ?_⟩
  · rw [← h.collects.names, SnapshotChangeInformation.HasName, SnapshotChangeInformation.HasName]
    simp only [hcreated]
  · rw [hschemas]
    exact h.collects.schemas
  · intro k key name
    rw [hcreated, h.created]
  · rw [hschemas]
    exact h.schemas

theorem applyChange_id {t : ChangeType} (ht : t.LogsId) (i : Idx) :
    ∃ r', r.applyChange (LoggedChange.id t i).parsed = .ok r' ∧
      r'.sets = r.sets ∪ (LoggedChange.id t i).sets ∧
      (ReadFrom names schemas r → ReadFrom names schemas r') := by
  have happly : r.applyChange (LoggedChange.id t i).parsed = .ok (r.insertId i t) := by
    obtain ⟨hkind, hschema⟩ := ht
    have hid : toUnsigned (LoggedChange.id t i).parsed.changeValue = .ok i := toUnsigned_toText i
    cases t <;> first | exact absurd rfl hschema | exact congrArg (· >>= _) hid | cases hkind
  refine ⟨_, happly, ?_, fun h => h.of_eq (createdMap_insertId t i) (createdSchemas_insertId t i)⟩
  ext t' j
  · by_cases h : t' = t
    · subst h
      simp [SnapshotChangeInformation.sets, ids_insertId_self ht, LoggedChange.sets]
    · simp [SnapshotChangeInformation.sets, ids_insertId_of_ne h, LoggedChange.sets, h]
  · simp [SnapshotChangeInformation.sets, createdSchemas_insertId, LoggedChange.sets]
  · simp [SnapshotChangeInformation.sets, createdMap_insertId, LoggedChange.sets]

omit [SQLWriter] in
theorem mem_keys {m : CISet} {key : Text} :
    key ∈ m.entries.map (·.1) ↔ (key, ()) ∈ m.entries := by
  refine ⟨fun h => ?_, fun h => List.mem_map_of_mem h⟩
  obtain ⟨⟨_, _⟩, hmem, rfl⟩ := List.mem_map.1 h
  exact hmem

omit [SQLWriter] in
/-- A schema key is kept when it is the first of its kind. -/
theorem ReadFrom.insertSchema {key : Text} (h : ReadFrom names schemas r) :
    ReadFrom names (schemas ++ [key])
      { r with createdSchemas := r.createdSchemas.insert key () } := by
  refine ⟨⟨h.collects.names, fun key' => ?_⟩, h.created, fun key' => ?_⟩
  · have hnew : r.createdSchemas.contains key = false ↔ ∀ k ∈ schemas, ¬ key.fold = k.fold := by
      rw [← Bool.not_eq_true, h.schemas]
      push Not
      exact forall₂_congr fun k _ => ne_comm
    rw [firstAmong_concat, ← h.collects.schemas, ← hnew, mem_keys, mem_keys, CIMap.mem_insert]
    exact or_congr_right ⟨fun h => ⟨h.2.1, h.1⟩, fun h => ⟨h.2, h.1, rfl⟩⟩
  · simp only [CIMap.contains_insert, h.schemas, List.mem_append, List.mem_singleton, or_and_right,
      exists_or, exists_eq_left, or_comm]

omit [SQLWriter] in
theorem ChangeType.kindText_inj {t t' : ChangeType} {k : CreatedKind}
    (h : t.createdKind? = some k) (h' : t'.createdKind? = some k)
    (htext : t.kindText = t'.kindText) : t = t' := by
  cases t <;> cases h <;> cases t' <;> first | rfl | exact absurd htext (by decide)

/-- An inserted name is there, with its kind, when there was none like it. -/
theorem hasName_insertName {r' : SnapshotChangeInformation} {e : ParsedCatalogEntry}
    {t : ChangeType} {k : CreatedKind} (ht : t.createdKind? = some k)
    (hself : r'.createdMap k = (r.createdMap k).insert e t.kindText)
    (hother : ∀ k', k' ≠ k → r'.createdMap k' = r.createdMap k') {type : ChangeType}
    {key name : Text} : r'.HasName type key name ↔ r.HasName type key name ∨
      t = type ∧ e.schemaKey.fold = key.fold ∧ e.name = name ∧
        ¬ CreatedIn (r.createdMap k) key e.name := by
  constructor
  · rintro ⟨k₀, hk₀, hcreated⟩
    by_cases hk : k₀ = k
    · subst hk
      rw [hself, createdAs_insert] at hcreated
      rcases hcreated with hcreated | ⟨hkey, rfl, htext, hno⟩
      · exact .inl ⟨k₀, hk₀, hcreated⟩
      · exact .inr ⟨(ChangeType.kindText_inj hk₀ ht htext).symm, hkey, rfl, hno⟩
    · rw [hother k₀ hk] at hcreated
      exact .inl ⟨k₀, hk₀, hcreated⟩
  · rintro (⟨k₀, hk₀, hcreated⟩ | ⟨rfl, hkey, rfl, hno⟩)
    · refine ⟨k₀, hk₀, ?_⟩
      by_cases hk : k₀ = k
      · subst hk
        rw [hself, createdAs_insert]
        exact .inl hcreated
      · rwa [hother k₀ hk]
    · refine ⟨k, ht, ?_⟩
      rw [hself, createdAs_insert]
      exact .inr ⟨hkey, rfl, rfl, hno⟩

/-- A name is kept, with its kind, when it is the first of its kind. -/
theorem ReadFrom.insertName {r' : SnapshotChangeInformation} {e : ParsedCatalogEntry}
    {t : ChangeType} {k : CreatedKind} (ht : t.createdKind? = some k)
    (hself : r'.createdMap k = (r.createdMap k).insert e t.kindText)
    (hother : ∀ k', k' ≠ k → r'.createdMap k' = r.createdMap k')
    (hschemas : r'.createdSchemas = r.createdSchemas) (h : ReadFrom names schemas r) :
    ReadFrom (names ++ [⟨t, e.schemaKey, e.name⟩]) schemas r' := by
  have hnew : ∀ key, e.schemaKey.fold = key.fold → ((∀ b ∈ names,
      ¬ LoggedName.SameEntry ⟨t, e.schemaKey, e.name⟩ b) ↔
        ¬ CreatedIn (r.createdMap k) key e.name) := by
    intro key hkey
    rw [h.created]
    push Not
    refine forall₂_congr fun b _ => ?_
    simp only [LoggedName.SameEntry, ht, hkey, not_and, ne_eq]
    exact ⟨fun h h₁ h₂ h₃ => h h₁.symm h₂.symm h₃.symm, fun h h₁ h₂ h₃ => h h₁.symm h₂.symm h₃.symm⟩
  refine ⟨⟨fun type key name => ?_, ?_⟩, fun k' key name => ?_, ?_⟩
  · simp only [firstAmong_concat]
    rw [hasName_insertName ht hself hother, h.collects.names]
    constructor
    · rintro (⟨x, hx, h⟩ | ⟨htype, hkey, hname, hno⟩)
      · exact ⟨x, .inl hx, h⟩
      · exact ⟨_, .inr ⟨rfl, (hnew key hkey).2 hno⟩, htype, hkey, hname⟩
    · rintro ⟨x, hx | ⟨rfl, hfirst⟩, htype, hkey, hname⟩
      · exact .inl ⟨x, hx, htype, hkey, hname⟩
      · exact .inr ⟨htype, hkey, hname, (hnew key hkey).1 hfirst⟩
  · rw [hschemas]
    exact h.collects.schemas
  · by_cases hk : k' = k
    · subst hk
      rw [hself, createdIn_insert, h.created]
      simp [or_and_right, exists_or, ht]
    · rw [hother k' hk, h.created]
      have hne : t.createdKind? ≠ some k' := by
        rw [ht]
        exact fun heq => hk (Option.some.inj heq).symm
      simp [or_and_right, exists_or, hne]
  · rw [hschemas]
    exact h.schemas

theorem applyChange_schema (path : List Text) :
    ∃ r', r.applyChange (LoggedChange.schema path).parsed = .ok r' ∧
      r'.sets = r.sets ∪ (LoggedChange.schema path).sets ∧
      (ReadFrom names schemas r → ReadFrom names (schemas ++ [toQuotedList path '.']) r') := by
  simp only [LoggedChange.parsed, SnapshotChangeInformation.applyChange,
    parseQuotedList_toQuotedList (show '.' ≠ '"' by decide)]
  refine ⟨_, rfl, ?_, fun h => h.insertSchema⟩
  ext t' j
  · cases t' <;> simp [SnapshotChangeInformation.sets, SnapshotChangeInformation.ids,
      LoggedChange.sets]
  · simp [SnapshotChangeInformation.sets, LoggedChange.sets, CIMap.contains_insert, or_comm]
  · cases t' <;> simp [SnapshotChangeInformation.sets, SnapshotChangeInformation.createdMap,
      LoggedChange.sets]

/-- A created entry is inserted into the map of its kind, and into no other one. -/
theorem applyChange_entry_eq {t : ChangeType} {k : CreatedKind} {path : List Text}
    (ht : t.createdKind? = some k) (hpath : path ≠ []) (name : Text) :
    ∃ r', r.applyChange (LoggedChange.entry t path name).parsed = .ok r' ∧
      r'.createdMap k = (r.createdMap k).insert ⟨path, name⟩ t.kindText ∧
      (∀ k', k' ≠ k → r'.createdMap k' = r.createdMap k') ∧
      r'.createdSchemas = r.createdSchemas ∧ ∀ t', r'.ids t' = r.ids t' := by
  cases t <;> cases ht
  all_goals
    simp only [LoggedChange.parsed, SnapshotChangeInformation.applyChange,
      parseCatalogEntry_toQuotedList hpath]
    refine ⟨_, rfl, rfl, fun k' hk => ?_, rfl, fun t' => ?_⟩
    · cases k' <;> first | rfl | exact absurd rfl hk
    · cases t' <;> rfl

theorem applyChange_entry {t : ChangeType} {path : List Text} {name : Text}
    (ht : t.createdKind?.isSome) (hpath : path ≠ []) :
    ∃ r', r.applyChange (LoggedChange.entry t path name).parsed = .ok r' ∧
      r'.sets = r.sets ∪ (LoggedChange.entry t path name).sets ∧
      (ReadFrom names schemas r →
        ReadFrom (names ++ [⟨t, toQuotedList path '.', name⟩]) schemas r') := by
  obtain ⟨k, hk⟩ := Option.isSome_iff_exists.1 ht
  obtain ⟨r', happly, hself, hother, hschemas, hids⟩ := applyChange_entry_eq hk hpath name
  refine ⟨r', happly, ?_, fun h => h.insertName (e := ⟨path, name⟩) hk hself hother hschemas⟩
  ext k' j
  · simp [SnapshotChangeInformation.sets, LoggedChange.sets, hids]
  · simp [SnapshotChangeInformation.sets, LoggedChange.sets, hschemas]
  · by_cases hk' : k' = k
    · subst hk'
      simp [SnapshotChangeInformation.sets, LoggedChange.sets, hself, createdIn_insert, hk,
        ParsedCatalogEntry.schemaKey]
    · have hne : t.createdKind? ≠ some k' := by
        rw [hk]
        exact fun heq => hk' (Option.some.inj heq).symm
      simp [SnapshotChangeInformation.sets, LoggedChange.sets, hother k' hk', hne]

theorem applyChange_valid {c : LoggedChange} (hc : c.Valid) (names : List LoggedName)
    (schemas : List Text) :
    ∃ r', r.applyChange c.parsed = .ok r' ∧ r'.sets = r.sets ∪ c.sets ∧
      (ReadFrom names schemas r →
        ReadFrom (names ++ c.named?.toList) (schemas ++ c.schema?.toList) r') := by
  cases c with
  | id t i =>
    obtain ⟨r', happly, hsets, hread⟩ := applyChange_id (r := r) hc i
    refine ⟨r', happly, hsets, fun h => ?_⟩
    simpa [LoggedChange.named?, LoggedChange.schema?] using hread h
  | schema path =>
    obtain ⟨r', happly, hsets, hread⟩ := applyChange_schema (r := r) path
    refine ⟨r', happly, hsets, fun h => ?_⟩
    simpa [LoggedChange.named?, LoggedChange.schema?] using hread h
  | entry t path name =>
    obtain ⟨r', happly, hsets, hread⟩ := applyChange_entry (r := r) hc.1 hc.2
    refine ⟨r', happly, hsets, fun h => ?_⟩
    simpa [LoggedChange.named?, LoggedChange.schema?] using hread h

theorem foldlM_applyChange {cs : List LoggedChange} (hcs : ∀ c ∈ cs, c.Valid)
    (hr : ReadFrom names schemas r) :
    ∃ r', (cs.map LoggedChange.parsed).foldlM SnapshotChangeInformation.applyChange r = .ok r' ∧
      r'.sets = r.sets ∪ .unions (cs.map LoggedChange.sets) ∧
      ReadFrom (names ++ cs.filterMap (·.named?)) (schemas ++ cs.filterMap (·.schema?)) r' := by
  induction cs generalizing r names schemas with
  | nil => exact ⟨r, rfl, by ext <;> simp [ChangeSets.unions], by simpa using hr⟩
  | cons c cs ih =>
    obtain ⟨r₁, h₁, hs₁, hread₁⟩ := applyChange_valid (hcs c (by simp)) names schemas
    obtain ⟨r₂, h₂, hs₂, hread₂⟩ := ih (fun d hd => hcs d (List.mem_cons_of_mem _ hd)) (hread₁ hr)
    refine ⟨r₂, ?_, ?_, ?_⟩
    · rw [List.map_cons, List.foldlM_cons, h₁]
      exact h₂
    · rw [hs₂, hs₁, List.map_cons, ChangeSets.unions, ChangeSets.union_assoc]
    · have hcons : ∀ {β : Type} (f : LoggedChange → Option β),
          (c :: cs).filterMap f = (f c).toList ++ cs.filterMap f := by
        intro β f
        rw [List.filterMap_cons]
        cases f c <;> rfl
      rwa [hcons, hcons, ← List.append_assoc, ← List.append_assoc]

omit [SQLWriter] in
theorem sets_empty : ({} : SnapshotChangeInformation).sets = ∅ := by
  ext t' j
  · cases t' <;> simp [SnapshotChangeInformation.sets, SnapshotChangeInformation.ids]
  · simp [SnapshotChangeInformation.sets, CIMap.contains]
  · constructor
    · rintro ⟨names, h, -⟩
      cases t' <;> cases h
    · intro h
      cases h

omit [SQLWriter] in
theorem readFrom_empty : ReadFrom [] [] {} := by
  have hnone : ∀ k, (({} : SnapshotChangeInformation).createdMap k).map = ∅ := by
    intro k
    cases k <;> rfl
  refine ⟨⟨fun type key name => ?_, fun key => ?_⟩, fun k key name => ?_, fun key => ?_⟩
  · simp [SnapshotChangeInformation.HasName, CreatedAs, hnone, FirstAmong]
  · simp [FirstAmong]
  · simp [CreatedIn, hnone]
  · simp [CIMap.contains]

/-- Reading a rendered list of logged changes collects what they record. -/
theorem parseChangesMade_render {cs : List LoggedChange} (hcs : ∀ c ∈ cs, c.Valid) :
    ∃ r, parseChangesMade (Text.join "," (cs.map fun c => c.parsed.render)) = .ok r ∧
      r.sets = .unions (cs.map LoggedChange.sets) ∧
      r.Collects (cs.filterMap (·.named?)) (cs.filterMap (·.schema?)) := by
  have hclosed : ∀ p ∈ cs.map LoggedChange.parsed, Text.Closed '"' ',' p.changeValue := by
    intro p hp
    obtain ⟨c, -, rfl⟩ := List.mem_map.1 hp
    exact c.closed_parsed
  have hlist := parseChangesList_render hclosed
  rw [List.map_map] at hlist
  obtain ⟨r, hr, hs, hread⟩ := foldlM_applyChange hcs readFrom_empty
  refine ⟨r, ?_, ?_, ?_⟩
  · simp only [parseChangesMade]
    exact (congrArg (· >>= _) hlist).trans hr
  · rw [hs, sets_empty, ChangeSets.empty_union]
  · simpa using hread.collects

end Apply

/-! ## The writer -/

namespace ChangeSets

def ofIds (t : ChangeType) (s : Set Idx) : ChangeSets :=
  ⟨fun t' => {i | t' = t ∧ i ∈ s}, ∅, fun _ => ∅⟩

def ofSchemas (s : Set Text) : ChangeSets := ⟨fun _ => ∅, s, fun _ => ∅⟩

def ofCreated (k : CreatedKind) (s : Set (Text × Text)) : ChangeSets :=
  ⟨fun _ => ∅, ∅, fun k' => {p | k' = k ∧ p ∈ s}⟩

end ChangeSets

section Writer

variable [SQLWriter]

def appendLogged (acc : Text) (c : LoggedChange) : Text :=
  appendChange acc c.parsed.changeType.keyword c.parsed.changeValue

theorem foldl_appendLogged {l : List LoggedChange} (acc : Text) :
    l.foldl appendLogged acc = Text.join ","
      ((if acc.isEmpty then [] else [acc]) ++ l.map fun c => c.parsed.render) := by
  induction l generalizing acc with
  | nil =>
    cases acc with
    | nil => rfl
    | cons => rfl
  | cons c l ih =>
    have hne : (appendLogged acc c).isEmpty = false := by simp [appendLogged, appendChange]
    rw [List.foldl_cons, ih, hne]
    cases acc with
    | nil =>
      simp [appendLogged, appendChange, ParsedChange.render]
    | cons a acc =>
      have happ : appendLogged (a :: acc) c = (a :: acc) ++ "," ++ c.parsed.render := by
        simp [appendLogged, appendChange, ParsedChange.render]
      rw [happ]
      cases l with
      | nil => rfl
      | cons d l => simp [Text.join]

/-- `f` extends the text of a log by well-formed entries that record `S`. They say that `names` and
`schemas` were created, in this order. -/
def Writes (f : Text → Text) (S : ChangeSets) (names : List LoggedName) (schemas : List Text) :
    Prop :=
  ∃ l : List LoggedChange, (∀ c ∈ l, c.Valid) ∧ (∀ acc, f acc = l.foldl appendLogged acc) ∧
    ChangeSets.unions (l.map LoggedChange.sets) = S ∧ l.filterMap (·.named?) = names ∧
    l.filterMap (·.schema?) = schemas

theorem Writes.comp {f g : Text → Text} {S T : ChangeSets} {names names' : List LoggedName}
    {schemas schemas' : List Text} (hf : Writes f S names schemas)
    (hg : Writes g T names' schemas') :
    Writes (fun acc => g (f acc)) (S ∪ T) (names ++ names') (schemas ++ schemas') := by
  obtain ⟨l, hl, hfl, hS, rfl, rfl⟩ := hf
  obtain ⟨m, hm, hgm, hT, rfl, rfl⟩ := hg
  refine ⟨l ++ m, ?_, ?_, ?_, List.filterMap_append, List.filterMap_append⟩
  · intro c hc
    rcases List.mem_append.1 hc with hc | hc
    · exact hl c hc
    · exact hm c hc
  · intro acc
    rw [List.foldl_append, ← hfl, ← hgm]
  · rw [List.map_append, ChangeSets.unions_append, hS, hT]

theorem writes_ids {t : ChangeType} (ht : t.LogsId) (ids : List Idx) (f : Idx → Idx) :
    Writes (fun acc => ids.foldl (fun acc i => appendChange acc t.keyword (f i).toText) acc)
      (.ofIds t (f '' {i | i ∈ ids})) [] [] := by
  refine ⟨ids.map fun i => .id t (f i), ?_, ?_, ?_, ?_, ?_⟩
  · intro c hc
    obtain ⟨i, -, rfl⟩ := List.mem_map.1 hc
    exact ht
  · intro acc
    rw [List.foldl_map]
    rfl
  · ext t' j
    · simp only [ChangeSets.mem_ids_unions, List.map_map, List.mem_map, Function.comp_apply,
        exists_exists_and_eq_and, LoggedChange.sets, ChangeSets.ofIds, Set.mem_ofPred_eq,
        Set.mem_image]
      constructor
      · rintro ⟨i, hi, rfl, rfl⟩
        exact ⟨rfl, i, hi, rfl⟩
      · rintro ⟨rfl, i, hi, rfl⟩
        exact ⟨i, hi, rfl, rfl⟩
    · simp [ChangeSets.mem_schemas_unions, LoggedChange.sets, ChangeSets.ofIds]
    · simp [ChangeSets.mem_created_unions, LoggedChange.sets, ChangeSets.ofIds]
  · simp [LoggedChange.named?]
  · simp [LoggedChange.schema?]

theorem writes_addCreatedSchemas (created : CreatedSchemas) :
    Writes (addCreatedSchemas created) (.ofSchemas {key | created.map.contains key = true}) []
      (created.map.entries.map (·.1)) := by
  refine ⟨created.map.entries.map fun e => .schema e.2.path, ?_, ?_, ?_, ?_, ?_⟩
  · intro c hc
    obtain ⟨e, -, rfl⟩ := List.mem_map.1 hc
    trivial
  · intro acc
    rw [List.foldl_map, addCreatedSchemas]
    refine List.foldl_ext _ _ _ fun acc e he => ?_
    rw [created.keys e he, DuckLakeSchemaEntry.pathKey_eq]
    rfl
  · ext t' j
    · simp [ChangeSets.mem_ids_unions, LoggedChange.sets, ChangeSets.ofSchemas]
    · simp only [ChangeSets.mem_schemas_unions, List.map_map, List.mem_map, Function.comp_apply,
        exists_exists_and_eq_and, LoggedChange.sets, ChangeSets.ofSchemas, Set.mem_ofPred_eq,
        CIMap.contains_iff]
      refine exists_congr fun e => and_congr_right fun he => ?_
      rw [created.keys e he, DuckLakeSchemaEntry.pathKey_eq]
    · simp [ChangeSets.mem_created_unions, LoggedChange.sets, ChangeSets.ofSchemas]
  · simp [LoggedChange.named?]
  · rw [List.filterMap_map, ← List.filterMap_eq_map]
    refine List.filterMap_congr fun e he => ?_
    rw [Function.comp_apply, Function.comp_apply, created.keys e he, DuckLakeSchemaEntry.pathKey_eq]
    rfl

instance : Nonempty DuckLakeSchemaEntry := ⟨.root 0 []⟩

theorem writes_addCreatedInfo {k : CreatedKind} {changeType : CatalogEntry → Text}
    {t : CatalogEntry → ChangeType} (ht : ∀ e, changeType e = (t e).keyword)
    (hk : ∀ e, (t e).createdKind? = some k) (created : CreatedEntries) :
    Writes (addCreatedInfo changeType created)
      (.ofCreated k {p | ∃ entries, created.map.find? p.1 = some entries ∧
        ∃ e ∈ entries, e.name.fold = p.2.fold}) (created.names t) [] := by
  choose! schema hschema using created.keys
  refine ⟨created.map.entries.flatMap fun entry =>
    entry.2.map fun e => .entry (t e) (schema entry).path e.name, ?_, ?_, ?_, ?_, ?_⟩
  · intro c hc
    obtain ⟨entry, -, hc⟩ := List.mem_flatMap.1 hc
    obtain ⟨e, -, rfl⟩ := List.mem_map.1 hc
    exact ⟨by simp [hk], (schema entry).path_ne_nil⟩
  · intro acc
    rw [List.foldl_flatMap, addCreatedInfo]
    refine List.foldl_ext _ _ _ fun acc entry hentry => ?_
    rw [List.foldl_map]
    refine List.foldl_ext _ _ _ fun acc e _ => ?_
    rw [hschema entry hentry, DuckLakeSchemaEntry.pathKey_eq, ht, appendLogged,
      LoggedChange.parsed, ← toQuotedList_append_singleton (schema entry).path_ne_nil]
    rfl
  · ext t' j
    · simp only [ChangeSets.mem_ids_unions, List.mem_map, List.mem_flatMap]
      constructor
      · rintro ⟨_, ⟨_, ⟨_, _, _, _, rfl⟩, rfl⟩, h⟩
        exact h
      · exact False.elim
    · simp only [ChangeSets.mem_schemas_unions, List.mem_map, List.mem_flatMap]
      constructor
      · rintro ⟨_, ⟨_, ⟨_, _, _, _, rfl⟩, rfl⟩, h⟩
        exact h
      · exact False.elim
    · simp only [ChangeSets.mem_created_unions, List.mem_map, List.mem_flatMap,
        CIMap.find?_eq_some_iff, ChangeSets.ofCreated, Set.mem_ofPred_eq]
      constructor
      · rintro ⟨_, ⟨_, ⟨entry, hentry, e, he, rfl⟩, rfl⟩, hkind, hkey, hname⟩
        rw [← DuckLakeSchemaEntry.pathKey_eq, ← hschema entry hentry] at hkey
        rw [hk] at hkind
        cases hkind
        exact ⟨rfl, entry.2, ⟨entry, hentry, hkey, rfl⟩, e, he, hname⟩
      · rintro ⟨rfl, _, ⟨entry, hentry, hkey, rfl⟩, e, he, hname⟩
        refine ⟨_, ⟨_, ⟨entry, hentry, e, he, rfl⟩, rfl⟩, hk e, ?_, hname⟩
        rw [← DuckLakeSchemaEntry.pathKey_eq, ← hschema entry hentry]
        exact hkey
  · rw [List.filterMap_flatMap, CreatedEntries.names]
    refine List.flatMap_congr fun entry hentry => ?_
    rw [hschema entry hentry, DuckLakeSchemaEntry.pathKey_eq, List.filterMap_map]
    exact congrFun List.filterMap_eq_map' entry.2
  · refine List.filterMap_eq_nil_iff.2 fun c hc => ?_
    obtain ⟨entry, -, hc⟩ := List.mem_flatMap.1 hc
    obtain ⟨e, -, rfl⟩ := List.mem_map.1 hc
    rfl

theorem writes_addChangeInfo {t : ChangeType} (ht : t.LogsId) (cs : DuckLakeCommitState)
    (ids : OrdSet TableIndex) :
    Writes (addChangeInfo cs t.keyword ids) (.ofIds t (cs.getTableId '' {i | i ∈ ids})) [] [] :=
  writes_ids ht ids.elems cs.getTableId

theorem writes_addRawChangeInfo {t : ChangeType} (ht : t.LogsId) (ids : List Idx) :
    Writes (addRawChangeInfo t.keyword ids) (.ofIds t (id '' {i | i ∈ ids})) [] [] :=
  writes_ids ht ids id

/-- The kinds that are logged before the compactions. -/
def TransactionChangeInformation.schemaAndDataSets (cs : DuckLakeCommitState)
    (c : TransactionChangeInformation) : ChangeSets where
  ids t := if t = .mergeAdjacent ∨ t = .rewriteDelete then ∅ else (c.sets cs).ids t
  schemas := (c.sets cs).schemas
  created := (c.sets cs).created

theorem writes_addSchemaAndDataChanges (cs : DuckLakeCommitState)
    (c : TransactionChangeInformation) :
    Writes (addSchemaAndDataChanges cs c) (c.schemaAndDataSets cs) c.createdNames
      c.createdSchemaKeys := by
  have hid {t : ChangeType} (h : t.createdKind? = none) (h' : t ≠ .createdSchema) : t.LogsId :=
    ⟨h, h'⟩
  have htable : ∀ e, createdTableChangeType e = e.tableType.keyword := by
    intro e
    unfold createdTableChangeType CatalogEntry.tableType
    split <;> rfl
  have htableKind : ∀ e : CatalogEntry, e.tableType.createdKind? = some .tableOrView := by
    intro e
    unfold CatalogEntry.tableType
    split <;> rfl
  have h := writes_addRawChangeInfo (t := .droppedSchema) (hid rfl (by decide))
    (c.droppedSchemas.entries.map (·.1))
  have h := h.comp <| writes_addChangeInfo (t := .droppedTable) (hid rfl (by decide)) cs
    c.droppedTables
  have h := h.comp <| writes_addChangeInfo (t := .droppedView) (hid rfl (by decide)) cs
    c.droppedViews
  have h := h.comp <| writes_addCreatedSchemas c.createdSchemas
  have h := h.comp <| writes_addCreatedInfo htable htableKind c.createdTables
  have h := h.comp <| writes_addCreatedInfo (t := fun _ => .createdScalarMacro) (fun _ => rfl)
    (fun _ => rfl) c.createdScalarMacros
  have h := h.comp <| writes_addCreatedInfo (t := fun _ => .createdTableMacro) (fun _ => rfl)
    (fun _ => rfl) c.createdTableMacros
  have h := h.comp <| writes_addCreatedInfo (t := fun _ => .createdProcedure) (fun _ => rfl)
    (fun _ => rfl) c.createdProcedures
  have h := h.comp <| writes_addRawChangeInfo (t := .droppedScalarMacro) (hid rfl (by decide))
    c.droppedScalarMacros.elems
  have h := h.comp <| writes_addRawChangeInfo (t := .droppedTableMacro) (hid rfl (by decide))
    c.droppedTableMacros.elems
  have h := h.comp <| writes_addRawChangeInfo (t := .droppedProcedure) (hid rfl (by decide))
    c.droppedProcedures.elems
  have h := h.comp <| writes_addChangeInfo (t := .insertedIntoTable) (hid rfl (by decide)) cs
    c.tablesInsertedInto
  have h := h.comp <| writes_addChangeInfo (t := .setNotNull) (hid rfl (by decide)) cs
    c.tablesSetNotNull
  have h := h.comp <| writes_addChangeInfo (t := .deletedFromTable) (hid rfl (by decide)) cs
    c.tablesDeletedFrom
  have h := h.comp <| writes_addChangeInfo (t := .alteredTable) (hid rfl (by decide)) cs
    c.alteredTables
  have h := h.comp <| writes_addChangeInfo (t := .alteredView) (hid rfl (by decide)) cs
    c.alteredViews
  have h := h.comp <| writes_addChangeInfo (t := .insertedIntoTableInlined)
    (hid rfl (by decide)) cs c.tablesInsertedInlined
  have h := h.comp <| writes_addChangeInfo (t := .deletedFromTableInlined)
    (hid rfl (by decide)) cs c.tablesDeletedInlined
  have h := h.comp <| writes_addChangeInfo (t := .flushedInlineDataForTable)
    (hid rfl (by decide)) cs c.tablesFlushedInlined
  simp only [List.nil_append, List.append_nil] at h
  refine (show _ = c.schemaAndDataSets cs from ?_) ▸ h
  ext t' j
  · simp only [ChangeSets.ids_union, ChangeSets.ofIds, ChangeSets.ofSchemas, ChangeSets.ofCreated,
      TransactionChangeInformation.schemaAndDataSets, TransactionChangeInformation.sets]
    cases t' <;> simp [TransactionChangeInformation.ids, DuckLakeCommitState.loggedId,
      ← OrdSet.mem_def]
  · simp [ChangeSets.ofIds, ChangeSets.ofSchemas, ChangeSets.ofCreated,
      TransactionChangeInformation.schemaAndDataSets, TransactionChangeInformation.sets]
  · cases t' <;> simp [ChangeSets.ofIds, ChangeSets.ofSchemas, ChangeSets.ofCreated,
      TransactionChangeInformation.schemaAndDataSets, TransactionChangeInformation.sets,
      TransactionChangeInformation.createdEntries]

theorem writes_snapshotChanges (cs : DuckLakeCommitState) (c : TransactionChangeInformation) :
    Writes (fun acc => addCompactionChanges cs c (addSchemaAndDataChanges cs c acc)) (c.sets cs)
      c.createdNames c.createdSchemaKeys := by
  have h := (writes_addSchemaAndDataChanges cs c).comp <|
    (writes_addChangeInfo (t := .mergeAdjacent) ⟨rfl, by decide⟩ cs c.tablesMergeAdjacent).comp <|
    writes_addChangeInfo (t := .rewriteDelete) ⟨rfl, by decide⟩ cs c.tablesRewriteDelete
  simp only [List.append_nil] at h
  refine (show _ = c.sets cs from ?_) ▸ h
  ext t' j
  · simp only [ChangeSets.ids_union, ChangeSets.ofIds,
      TransactionChangeInformation.schemaAndDataSets, TransactionChangeInformation.sets]
    cases t' <;> simp [TransactionChangeInformation.ids, DuckLakeCommitState.loggedId]
  · simp [ChangeSets.ofIds, TransactionChangeInformation.schemaAndDataSets]
  · simp [ChangeSets.ofIds, TransactionChangeInformation.schemaAndDataSets]

end Writer

/-! ## The round trip -/

/-- A transaction together with the change text its commit has written. -/
structure LoggedTransaction [SQLWriter] where
  state : DuckLakeTransactionState
  commitState : DuckLakeCommitState
  changes : TransactionChangeInformation
  changesMade : Text
  written : writeSnapshotChanges state commitState changes = .ok changesMade

namespace LoggedTransaction

variable [SQLWriter]

/-- What the transaction changed, re-added tables included. -/
def logged (t : LoggedTransaction) : TransactionChangeInformation :=
  readdTableChanges t.state t.commitState t.changes

def sets (t : LoggedTransaction) : ChangeSets := t.logged.sets t.commitState

theorem exists_logged (t : LoggedTransaction) : ∃ l : List LoggedChange, (∀ c ∈ l, c.Valid) ∧
    t.changesMade = Text.join "," (l.map fun c => c.parsed.render) ∧
    ChangeSets.unions (l.map LoggedChange.sets) = t.sets ∧
    l.filterMap (·.named?) = t.logged.createdNames ∧
    l.filterMap (·.schema?) = t.logged.createdSchemaKeys := by
  obtain ⟨l, hvalid, htext, hl⟩ := writes_snapshotChanges t.commitState t.logged
  have hw := t.written
  simp only [writeSnapshotChanges, snapshotChangesText] at hw
  split at hw
  · cases hw
  · exact ⟨l, hvalid, (Except.ok.inj hw).symm.trans ((htext []).trans (foldl_appendLogged [])), hl⟩

theorem parse_changesMade (t : LoggedTransaction) :
    ∃ r, parseChangesMade t.changesMade = .ok r ∧ r.sets = t.sets ∧
      r.Collects t.logged.createdNames t.logged.createdSchemaKeys := by
  obtain ⟨l, hvalid, htext, hsets, hnames, hschemas⟩ := t.exists_logged
  obtain ⟨r, hr, hrs, hread⟩ := parseChangesMade_render hvalid
  exact ⟨r, htext ▸ hr, hrs.trans hsets, hnames ▸ hschemas ▸ hread⟩

omit [SQLWriter] in
/-- Change texts that are empty are stored as NULL, which the aggregate skips. -/
theorem stringAgg_changesMadeColumn {α : Type} {ts : List α} {f : α → Text} :
    stringAgg (ts.map fun t => changesMadeColumn (f t)) =
      Text.join "," ((ts.map f).filter (!·.isEmpty)) := by
  rw [stringAgg]
  congr 1
  induction ts with
  | nil => rfl
  | cons t ts ih =>
    rw [List.map_cons, List.map_cons, List.filterMap_cons, ih, List.filter_cons]
    unfold changesMadeColumn
    cases (f t).isEmpty <;> rfl

theorem parse_stringAgg (ts : List LoggedTransaction) :
    ∃ r, parseChangesMade (stringAgg (ts.map fun t => changesMadeColumn t.changesMade)) = .ok r ∧
      r.sets = .unions (ts.map sets) ∧
      r.Collects (ts.flatMap (·.logged.createdNames)) (ts.flatMap (·.logged.createdSchemaKeys)) := by
  choose written hvalid htext hsets hnames hschemas using exists_logged
  have hall : ∀ ts : List LoggedTransaction, ∀ c ∈ ts.flatMap written, c.Valid := by
    intro ts c hc
    obtain ⟨t, -, hc⟩ := List.mem_flatMap.1 hc
    exact hvalid t c hc
  obtain ⟨r, hr, hrs, hread⟩ := parseChangesMade_render (hall ts)
  refine ⟨r, ?_, ?_, ?_⟩
  · rw [stringAgg_changesMadeColumn, List.map_congr_left fun t _ => htext t, Text.join_join,
      ← List.map_flatMap]
    · exact hr
    · intro t _ u hu
      obtain ⟨c, -, rfl⟩ := List.mem_map.1 hu
      exact c.parsed.render_ne_nil
  · rw [hrs, List.map_flatMap, ChangeSets.unions_flatMap]
    simp only [hsets]
  · rw [List.filterMap_flatMap, List.filterMap_flatMap] at hread
    simpa only [hnames, hschemas] using hread

end LoggedTransaction

theorem SnapshotChangeInformation.Collects.hasName_iff [SQLWriter] {r : SnapshotChangeInformation}
    {c : TransactionChangeInformation} (h : r.Collects c.createdNames c.createdSchemaKeys)
    (hc : c.DistinctNames) {type : ChangeType} {key name : Text} :
    r.HasName type key name ↔ c.HasName type key name := by
  have hdistinct : c.createdNames.Pairwise fun a b => ¬ b.SameEntry a :=
    hc.imp fun hab hba => hab ⟨hba.1.symm, hba.2.1.symm, hba.2.2.symm⟩
  rw [h.names, TransactionChangeInformation.HasName]
  exact exists_congr fun e => and_congr_left fun _ => firstAmong_iff_mem hdistinct

theorem SnapshotChangeInformation.Collects.mem_schemas_iff [SQLWriter]
    {r : SnapshotChangeInformation} {c : TransactionChangeInformation}
    (h : r.Collects c.createdNames c.createdSchemaKeys) {key : Text} :
    key ∈ r.createdSchemas.entries.map (·.1) ↔ key ∈ c.createdSchemaKeys := by
  rw [h.schemas]
  exact firstAmong_iff_mem (List.pairwise_map.2 <|
    c.createdSchemas.map.distinct.imp fun hab hba => hab hba.symm)

/-- The change log round-trips: the text a commit writes is read back as exactly the ids, schema
keys and created names of the transaction, as long as the names differ by more than their case and
kind. Of names that do not, the one that comes first in the log is kept. The aggregated texts of
several commits are read back as one log. -/
theorem parseChangesMade_writeSnapshotChanges [SQLWriter] :
    (∀ (state : DuckLakeTransactionState) (commitState : DuckLakeCommitState)
      (changes : TransactionChangeInformation) (changesMade : Text),
      writeSnapshotChanges state commitState changes = .ok changesMade →
      ∃ r, parseChangesMade changesMade = .ok r ∧
        r.sets = (readdTableChanges state commitState changes).sets commitState ∧
        (∀ key, key ∈ r.createdSchemas.entries.map (·.1) ↔
          key ∈ (readdTableChanges state commitState changes).createdSchemaKeys) ∧
        ((readdTableChanges state commitState changes).DistinctNames → ∀ type key name,
          r.HasName type key name ↔
            (readdTableChanges state commitState changes).HasName type key name) ∧
        r.Collects (readdTableChanges state commitState changes).createdNames
          (readdTableChanges state commitState changes).createdSchemaKeys) ∧
    (∀ ts : List LoggedTransaction,
      ∃ r, parseChangesMade (stringAgg (ts.map fun t => changesMadeColumn t.changesMade)) = .ok r ∧
        r.sets = .unions (ts.map LoggedTransaction.sets) ∧
        r.Collects (ts.flatMap (·.logged.createdNames))
          (ts.flatMap (·.logged.createdSchemaKeys))) := by
  constructor
  · intro state commitState changes changesMade h
    obtain ⟨r, hr, hsets, hread⟩ :=
      LoggedTransaction.parse_changesMade ⟨state, commitState, changes, changesMade, h⟩
    exact ⟨r, hr, hsets, fun key => hread.mem_schemas_iff, fun hnames type key name =>
      hread.hasName_iff hnames, hread⟩
  · exact LoggedTransaction.parse_stringAgg

section Example

attribute [local instance] SQLWriter.reference

/-- The transaction that creates a table `a`, renames it to `b` and creates a view `a`. -/
def createTableAndView : LoggedTransaction where
  state := {}
  commitState := {}
  changes := {
    createdTables := {
      map := ⟨[("\"main\"", [⟨.tableEntry, "b", .root 0 "main"⟩,
        ⟨.tableEntry, "a", .root 0 "main"⟩, ⟨.viewEntry, "a", .root 0 "main"⟩])],
        List.pairwise_singleton ..⟩
      keys := by
        rintro _ (_ | ⟨_, ⟨⟩⟩)
        exact ⟨.root 0 "main", rfl⟩ } }
  changesMade := "created_table:\"main\".\"b\",created_table:\"main\".\"a\"," ++
    "created_view:\"main\".\"a\""
  written := by decide +kernel

/-- The view is not read back: the table of its name comes first. -/
theorem not_reads_exactNames_createTableAndView :
    ¬ ∀ (t : LoggedTransaction) (r : SnapshotChangeInformation),
      parseChangesMade t.changesMade = .ok r →
      ∀ type key name, r.HasName type key name ↔ t.logged.HasName type key name := by
  intro h
  obtain ⟨r, hr, -, hread⟩ := createTableAndView.parse_changesMade
  have hlogged : createTableAndView.logged.createdNames =
      [⟨.createdTable, "\"main\"", "b"⟩, ⟨.createdTable, "\"main\"", "a"⟩,
        ⟨.createdView, "\"main\"", "a"⟩] := rfl
  have hview := (h createTableAndView r hr .createdView "\"main\"" "a").2
    ⟨⟨.createdView, "\"main\"", "a"⟩, by rw [hlogged]; decide, rfl, rfl, rfl⟩
  rw [hread.names, hlogged] at hview
  obtain ⟨e, hfirst, htype, -, hname⟩ := hview
  rw [show ∀ a b c : LoggedName, [a, b, c] = [a, b] ++ [c] from fun _ _ _ => rfl,
    firstAmong_concat] at hfirst
  rcases hfirst with hfirst | ⟨-, hlast⟩
  · have hmem := hfirst.mem
    simp only [List.mem_cons, List.not_mem_nil, or_false] at hmem
    rcases hmem with rfl | rfl <;> cases htype
  · exact hlast ⟨.createdTable, "\"main\"", "a"⟩ (by decide) ⟨rfl, rfl, rfl⟩

end Example

end DuckLake
