import DuckLake.Storage.VariantStats

/-!
# Shredded variants

The statistics of the fields that a file shreds, from the names of the fields to what is read from
the metadata. `PartialVariantStats.survives_iff` says which of them survive.
-/

namespace DuckLake

/-- A field that a file shreds, the names that lead to it, and its statistics. It is fully shredded
if no value of it was left untyped. -/
structure ShreddedField where
  names : List Text
  stats : DuckLakeColumnStats
  extraStats : Option DuckLakeColumnExtraStats
  isFullyShredded : Bool
  counts : stats.CountsFit
  kind : ExtraKind stats.type extraStats

/-- `DuckLakeTypes::ToString`; the children of a type are not printed. -/
def VariantType.toText : VariantType → Except Exception Text
  | .primitive type => type.toText
  | .struct _ => (DuckLakeType.base .struct).toText
  | .list _ => (DuckLakeType.base .list).toText

section Names

variable [SQLWriter]

theorem mem_stepText_iff {c : Char} (hquote : c ≠ '"')
    {step : VariantStep} : c ∈ stepText step ↔ c ∈ step.name := by
  cases step with
  | field name =>
    rw [stepText_field, mem_writeQuoted_iff hquote]
    rfl
  | element => exact Iff.rfl

theorem mem_pathName_iff {path : List VariantStep} :
    '\x00' ∈ pathName path ↔ ∃ name ∈ path.map VariantStep.name, '\x00' ∈ name := by
  have hjoin : ∀ {path : List VariantStep}, '\x00' ∈ Text.join ['.'] (path.map stepText) ↔
      ∃ name ∈ path.map VariantStep.name, '\x00' ∈ name := by
    intro path
    induction path with
    | nil => simp [Text.join]
    | cons step path ih =>
      have hstep : '\x00' ∈ stepText step ↔ '\x00' ∈ step.name :=
        mem_stepText_iff (by decide)
      cases path with
      | nil => simpa [Text.join] using hstep
      | cons next path =>
        rw [List.map_cons, Text.join_cons (by simp), List.append_assoc, List.mem_append,
          List.mem_append, hstep, ih]
        simp
  cases path with
  | nil =>
    constructor
    · intro h
      have hroot : '\x00' ∉ "root".toList := by decide
      exact absurd h hroot
    · rintro ⟨name, hname, -⟩
      cases hname
  | cons step path => exact hjoin

end Names

section Variants

variable [StatsReader] [VariantTypes]

/-- What the statistics of a file bring for a shredded variant. -/
structure PartialVariantStats where
  variantType : VariantType
  fields : List ShreddedField
  distinct : (fields.map (·.names)).Nodup
  /-- Only the leaves of a file have statistics, and they are those of the type of the leaf. -/
  leaf : ∀ field ∈ fields, ∀ shreddedType fieldName,
    extractVariantType variantType field.names = .ok (shreddedType, fieldName) →
      ∃ type, shreddedType = .primitive type ∧ type.id = field.stats.type

namespace PartialVariantStats

variable (column : PartialVariantStats)

/-- `ParseVariantStats`: the type and the name of every field. -/
def parseVariantStats : Except Exception (List (ShreddedField × VariantType × Text)) :=
  column.fields.mapM fun field =>
    (extractVariantType column.variantType field.names).map (field, ·)

/-- `Finalize`: the statistics of the fully shredded fields are kept. -/
def finalize : Except Exception (List DuckLakeVariantStats) := do
  let parsed ← column.parseVariantStats
  (parsed.filter (·.1.isFullyShredded)).mapM fun (field, shreddedType, fieldName) =>
    shreddedType.toText.map fun type => .mk fieldName type field.stats field.extraStats

/-- The path to a field. -/
def path (field : ShreddedField) : List VariantStep :=
  variantPath column.variantType field.names

/-- The name of every field that is kept is parsed as its path, distinct fields have distinct names,
and the map that is read is the map that was stored. -/
structure Survives (stored : List DuckLakeVariantStats) : Prop where
  paths : ∀ field ∈ column.fields, field.isFullyShredded → ∀ shreddedType fieldName,
    extractVariantType column.variantType field.names = .ok (shreddedType, fieldName) →
      fieldPath fieldName = .ok (column.path field)
  distinct : (stored.map (·.fieldName)).Nodup
  reloads : Reloads stored

end PartialVariantStats

/-- No name has a quote or a zero byte, the statistics fit, and there are no extra statistics. -/
structure ShreddedField.Storable (field : ShreddedField) : Prop where
  quote : ∀ name ∈ field.names, '"' ∉ name
  zero : ∀ name ∈ field.names, '\x00' ∉ name
  stats : field.stats.Storable
  extraStats : field.extraStats.bind DuckLakeColumnExtraStats.trySerialize = none

namespace PartialVariantStats

variable {column : PartialVariantStats} {stored : List DuckLakeVariantStats}

/-- What is kept of a field. -/
structure Keeps (column : PartialVariantStats) (field : ShreddedField)
    (kept : DuckLakeVariantStats) : Prop where
  names : (column.path field).map VariantStep.name = field.names
  fieldName : kept.fieldName = pathName (column.path field)
  extract : ∃ type, extractVariantType column.variantType field.names =
    .ok (.primitive type, kept.fieldName) ∧ kept.HasType type
  fieldStats : kept.fieldStats = field.stats
  extraStats : kept.extraStats = field.extraStats

omit [StatsReader] [VariantTypes] in
theorem forall₂_comp {α β γ : Type} {R : α → β → Prop} {S : β → γ → Prop} {l : List α} {m : List β}
    {n : List γ} (h : List.Forall₂ R l m) (h' : List.Forall₂ S m n) :
    List.Forall₂ (fun a c => ∃ b, R a b ∧ S b c) l n := by
  induction h generalizing n with
  | nil =>
    cases h'
    exact .nil
  | cons hab _ ih =>
    cases h' with
    | cons hbc h' => exact .cons ⟨_, hab, hbc⟩ (ih h')

theorem finalize_ok (h : column.finalize = .ok stored) :
    List.Forall₂ column.Keeps (column.fields.filter (·.isFullyShredded)) stored := by
  obtain ⟨parsed, hparsed, hstored⟩ := bind_eq_ok.1 h
  -- a field is parsed with its type and its name
  have hfields : List.Forall₂ (fun field entry => field ∈ column.fields ∧ entry.1 = field ∧
      extractVariantType column.variantType field.names = .ok entry.2) column.fields parsed := by
    refine List.Forall₂.imp ?_ ((List.forall₂_and_left _ _).2 ⟨fun field hfield => hfield,
      mapM_eq_ok_iff.1 hparsed⟩)
    rintro field entry ⟨hfield, hentry⟩
    cases hextract : extractVariantType column.variantType field.names with
    | error e =>
      rw [hextract] at hentry
      cases hentry
    | ok result =>
      rw [hextract] at hentry
      cases hentry
      exact ⟨hfield, rfl, rfl⟩
  have hkept : List.Forall₂ (fun field entry => field ∈ column.fields ∧ entry.1 = field ∧
      extractVariantType column.variantType field.names = .ok entry.2)
      (column.fields.filter (·.isFullyShredded)) (parsed.filter (·.1.isFullyShredded)) := by
    refine List.rel_filter ?_ hfields
    rintro field entry ⟨-, rfl, -⟩
    exact Iff.rfl
  refine List.Forall₂.imp ?_ (forall₂_comp hkept (mapM_eq_ok_iff.1 hstored))
  rintro field kept ⟨⟨entry, shreddedType, fieldName⟩, ⟨hfield, hentry, hextract⟩, hkeep⟩
  change entry = field at hentry
  subst hentry
  obtain ⟨type, rfl, hid⟩ := column.leaf _ hfield _ _ hextract
  obtain ⟨hnames, hname⟩ := extractVariantType_ok hextract
  change type.toText.map _ = _ at hkeep
  cases htext : type.toText with
  | error e =>
    rw [htext] at hkeep
    cases hkeep
  | ok text =>
    rw [htext] at hkeep
    cases hkeep
    exact ⟨hnames, hname, ⟨type, hextract, htext, hid, hid ▸ entry.kind⟩, rfl, rfl⟩

theorem nodup_fieldName (h : column.finalize = .ok stored) :
    (stored.map (·.fieldName)).Nodup := by
  have hkeeps := finalize_ok h
  have hnames : stored.map (·.fieldName) =
      ((column.fields.filter (·.isFullyShredded)).map column.path).map pathName := by
    rw [List.map_map, ← List.forall₂_eq_eq_eq, List.forall₂_map_left_iff,
      List.forall₂_map_right_iff]
    exact (hkeeps.imp fun field kept hkeep => hkeep.fieldName).flip
  have hpaths : ((column.fields.filter (·.isFullyShredded)).map column.path).map
      (List.map VariantStep.name) =
      (column.fields.filter (·.isFullyShredded)).map (·.names) := by
    rw [List.map_map]
    refine List.map_congr_left fun field hfield => ?_
    obtain ⟨kept, -, hkeep⟩ := (exists_of_mem_forall₂ hkeeps).1 field hfield
    exact hkeep.names
  have hdistinct : ((column.fields.filter (·.isFullyShredded)).map (·.names)).Nodup :=
    column.distinct.sublist (List.filter_sublist.map _)
  rw [hnames]
  rw [← hpaths] at hdistinct
  exact hdistinct.of_map.map pathName_injective

/-- A name is parsed as the path exactly if none of the names that lead to it has a quote. -/
theorem fieldPath_iff {field : ShreddedField} {kept : DuckLakeVariantStats}
    (h : column.Keeps field kept) :
    fieldPath kept.fieldName = .ok (column.path field) ↔ ∀ name ∈ field.names, '"' ∉ name := by
  rw [h.fieldName, fieldPath_pathName_iff, ← h.names]
  constructor
  · intro hpath name hname
    obtain ⟨step, hstep, rfl⟩ := List.mem_map.1 hname
    cases step with
    | field name => exact hpath name hstep
    | element =>
      have helement : '"' ∉ "element".toList := by decide
      exact helement
  · intro hnames name hname
    exact hnames name (List.mem_map.2 ⟨_, hname, rfl⟩)

theorem storable_iff {field : ShreddedField} {kept : DuckLakeVariantStats}
    (h : column.Keeps field kept) :
    kept.Storable ↔ (∀ name ∈ field.names, '\x00' ∉ name) ∧ field.stats.Storable ∧
      field.extraStats.bind DuckLakeColumnExtraStats.trySerialize = none := by
  have hzero : '\x00' ∉ kept.fieldName ↔ ∀ name ∈ field.names, '\x00' ∉ name := by
    rw [h.fieldName, mem_pathName_iff, h.names]
    simp
  rw [← hzero, ← h.fieldStats, ← h.extraStats]
  exact ⟨fun ⟨hname, hstats, hextra⟩ => ⟨hname, hstats, hextra⟩,
    fun ⟨hname, hstats, hextra⟩ => ⟨hname, hstats, hextra⟩⟩

/-- The statistics of a shredded variant survive exactly if every fully shredded field has plain
names, and statistics that can be stored. -/
theorem survives_iff (column : PartialVariantStats) (h : column.finalize = .ok stored) :
    column.Survives stored ↔
      ∀ field ∈ column.fields, field.isFullyShredded → field.Storable := by
  have hkeeps := finalize_ok h
  have hkept : ∀ field ∈ column.fields, field.isFullyShredded →
      ∃ kept ∈ stored, column.Keeps field kept := fun field hfield hfully =>
    (exists_of_mem_forall₂ hkeeps).1 field (List.mem_filter.2 ⟨hfield, hfully⟩)
  have hreloads : Reloads stored ↔ ∀ kept ∈ stored, kept.Storable := by
    apply reloads_iff
    · intro kept hmem
      obtain ⟨field, -, hkeep⟩ := (exists_of_mem_forall₂ hkeeps).2 kept hmem
      obtain ⟨type, -, htype⟩ := hkeep.extract
      exact ⟨type, htype⟩
    · intro kept hmem
      obtain ⟨field, -, hkeep⟩ := (exists_of_mem_forall₂ hkeeps).2 kept hmem
      rw [hkeep.fieldStats]
      exact field.counts
    · exact nodup_fieldName h
  constructor
  · intro hsurvives field hfield hfully
    obtain ⟨kept, hmem, hkeep⟩ := hkept field hfield hfully
    obtain ⟨type, hextract, -⟩ := hkeep.extract
    obtain ⟨hzero, hstats, hextra⟩ := (storable_iff hkeep).1 (hreloads.1 hsurvives.reloads kept hmem)
    exact ⟨(fieldPath_iff hkeep).1 (hsurvives.paths field hfield hfully _ _ hextract), hzero, hstats,
      hextra⟩
  · intro hstorable
    refine ⟨fun field hfield hfully shreddedType fieldName hextract => ?_, nodup_fieldName h,
      hreloads.2 fun kept hmem => ?_⟩
    · obtain ⟨kept, hmem, hkeep⟩ := hkept field hfield hfully
      obtain ⟨type, hextract', -⟩ := hkeep.extract
      obtain ⟨-, rfl⟩ := Prod.mk.inj (Except.ok.inj (hextract'.symm.trans hextract))
      exact (fieldPath_iff hkeep).2 (hstorable field hfield hfully).quote
    · obtain ⟨field, hfield, hkeep⟩ := (exists_of_mem_forall₂ hkeeps).2 kept hmem
      obtain ⟨hfield, hfully⟩ := List.mem_filter.1 hfield
      have hfieldStorable := hstorable field hfield hfully
      exact (storable_iff hkeep).2 ⟨hfieldStorable.zero, hfieldStorable.stats,
        hfieldStorable.extraStats⟩

end PartialVariantStats

end Variants

/-! ## A field that is a string -/

@[reducible] def VariantTypes.reference : VariantTypes where
  sameIdentifier := Text.ciEquals
  typeToString _ := "STRUCT".toList

/-- The statistics of a geometry are not looked into. -/
@[reducible] def StatsReader.reference : StatsReader where
  toStatsWriter := StatsWriter.reference
  readJson := Json.read
  readJson_writeJson document _ := read_write document
  readJson_apostrophe _ := rfl
  parseExtraStats extra _ := .ok extra

attribute [local instance] VariantTypes.reference StatsReader.reference

/-- A variant whose objects have one field, a string. -/
def stringField (name : Text) : VariantType :=
  .struct [("typed_value".toList,
    .struct [(name, .struct [("typed_value".toList, .primitive (.base .varchar))])])]

theorem sameIdentifier_self (t : Text) : VariantTypes.sameIdentifier t t = true := by
  simp [VariantTypes.sameIdentifier, Text.ciEquals]

theorem variantPath_stringField (name : Text) :
    variantPath (stringField name) [name] = [.field name] := by
  rw [stringField, variantPath]
  simp only [List.find?_cons, sameIdentifier_self]
  rfl

theorem extract_stringField (name : Text) : extractVariantType (stringField name) [name] =
    .ok (.primitive (.base .varchar), quoteVariantFieldName name) := by
  rw [extractVariantType, if_neg (List.cons_ne_nil _ _), stringField, extractVariantLayer]
  simp only [List.find?_cons, sameIdentifier_self]
  rfl

def stringStats : DuckLakeColumnStats where
  type := .varchar
  min := "a"
  max := "b"
  hasMin := true
  hasMax := true
  nullCount := 0
  numValues := 2
  hasNullCount := true
  hasNumValues := true
  columnSizeBytes := 40

def stringColumn (name : Text) : PartialVariantStats where
  variantType := stringField name
  fields := [⟨[name], stringStats, none, true, ⟨by decide, by decide, by decide⟩, trivial⟩]
  distinct := List.nodup_singleton _
  leaf field hfield shreddedType fieldName h := by
    rw [List.mem_singleton.1 hfield] at h ⊢
    obtain ⟨rfl, -⟩ := Prod.mk.inj (Except.ok.inj ((extract_stringField name).symm.trans h))
    exact ⟨_, rfl, rfl⟩

theorem finalize_stringColumn (name : Text) : (stringColumn name).finalize =
    .ok [.mk (quoteVariantFieldName name) "varchar" stringStats none] := by
  have hparsed : (stringColumn name).parseVariantStats = .ok [((stringColumn name).fields.head
      (List.cons_ne_nil _ _), .primitive (.base .varchar), quoteVariantFieldName name)] := by
    refine mapM_eq_ok_iff.2 (.cons ?_ .nil)
    exact congrArg _ (extract_stringField name)
  rw [PartialVariantStats.finalize, hparsed]
  rfl

namespace PartialVariantStats

theorem storable_stringStats : stringStats.Storable where
  nullCount _ := .inl (by decide)
  numValues _ := .inl (by decide)
  columnSizeBytes := .inl (by decide)
  min _ h := nomatch h
  max _ h := nomatch h
  boundsUnknown := rfl

theorem survives_iff_dotted :
    (stringColumn "a.b").Survives
      [.mk (quoteVariantFieldName "a.b") "varchar" stringStats none] := by
  refine (survives_iff _ (finalize_stringColumn "a.b")).2 fun field hfield _ => ?_
  rw [List.mem_singleton.1 hfield]
  exact ⟨by simp, by simp, storable_stringStats, rfl⟩

/-- A quote in a name is doubled when the name is parsed. -/
theorem not_survives : ¬ ∀ (_ : StatsReader) (_ : VariantTypes) (column : PartialVariantStats)
    (stored : List DuckLakeVariantStats), column.finalize = .ok stored →
      column.Survives stored := by
  intro h
  have hsurvives := h StatsReader.reference VariantTypes.reference (stringColumn "a\"b") _
    (finalize_stringColumn _)
  have hpath := hsurvives.paths _ List.mem_cons_self rfl _ _ (extract_stringField _)
  have hread : fieldPath (quoteVariantFieldName "a\"b") = .ok [.field "a\"\"b"] :=
    fieldPath_pathName [.field "a\"b"]
  have hsame := Except.ok.inj (hread.symm.trans (hpath.trans
    (congrArg Except.ok (variantPath_stringField "a\"b"))))
  exact absurd hsame (by decide)

end PartialVariantStats

end DuckLake
