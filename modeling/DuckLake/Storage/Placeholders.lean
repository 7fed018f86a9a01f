import DuckLake.Lib.Substitution
import DuckLake.Storage.SnapshotChanges

/-!
# Placeholders in the statements of a commit

The statements of a commit are generated before its snapshot is known, with placeholders for the
snapshot counters and the names of the metadata catalog. `query` replaces the placeholders in the
whole batch, one after another, by textual search. `userTextSurvives_iff` says for which batches
this changes nothing but the placeholders that the generators wrote.
-/

namespace DuckLake

/-! ## Placeholders -/

inductive Placeholder where
  | snapshotId | schemaVersion | nextCatalogId | nextFileId
  | author | commitMessage | commitExtraInfo
  | metadataCatalogNameLiteral | metadataCatalogNameIdentifier | metadataSchemaNameLiteral
  | metadataCatalog | metadataSchemaEscaped | metadataPath | dataPath
deriving DecidableEq, Repr

namespace Placeholder

def text : Placeholder → Text
  | snapshotId => "\x7bSNAPSHOT_ID\x7d"
  | schemaVersion => "\x7bSCHEMA_VERSION\x7d"
  | nextCatalogId => "\x7bNEXT_CATALOG_ID\x7d"
  | nextFileId => "\x7bNEXT_FILE_ID\x7d"
  | author => "\x7bAUTHOR\x7d"
  | commitMessage => "\x7bCOMMIT_MESSAGE\x7d"
  | commitExtraInfo => "\x7bCOMMIT_EXTRA_INFO\x7d"
  | metadataCatalogNameLiteral => "\x7bMETADATA_CATALOG_NAME_LITERAL\x7d"
  | metadataCatalogNameIdentifier => "\x7bMETADATA_CATALOG_NAME_IDENTIFIER\x7d"
  | metadataSchemaNameLiteral => "\x7bMETADATA_SCHEMA_NAME_LITERAL\x7d"
  | metadataCatalog => "\x7bMETADATA_CATALOG\x7d"
  | metadataSchemaEscaped => "\x7bMETADATA_SCHEMA_ESCAPED\x7d"
  | metadataPath => "\x7bMETADATA_PATH\x7d"
  | dataPath => "\x7bDATA_PATH\x7d"

/-- The placeholders in the order in which `query` replaces them. -/
def all : List Placeholder :=
  [snapshotId, schemaVersion, nextCatalogId, nextFileId, author, commitMessage, commitExtraInfo,
    metadataCatalogNameLiteral, metadataCatalogNameIdentifier, metadataSchemaNameLiteral,
    metadataCatalog, metadataSchemaEscaped, metadataPath, dataPath]

theorem mem_all (p : Placeholder) : p ∈ all := by
  cases p <;> decide

end Placeholder

/-- The characters that placeholders are made of. -/
def placeholderChar (c : Char) : Prop := c = '{' ∨ c = '}' ∨ c = '_' ∨ c.isUpper = true

instance : DecidablePred placeholderChar := fun _ => inferInstanceAs (Decidable (_ ∨ _))

theorem placeholderChar_of_mem {p : Placeholder} : ∀ {c}, c ∈ p.text → placeholderChar c := by
  have h : p.text.all (fun c => decide (placeholderChar c)) = true := by
    cases p <;> decide
  intro c hc
  simpa using List.all_eq_true.1 h c hc

theorem outside_of_all {t : Text} (h : (t.all fun c => decide (¬ placeholderChar c)) = true) :
    ∀ c ∈ t, ¬ placeholderChar c := by
  intro c hc
  simpa using List.all_eq_true.1 h c hc

/-- A placeholder has one opening brace, at its start, and one closing brace, at its end. -/
theorem Placeholder.text_eq (p : Placeholder) :
    ∃ body, p.text = '{' :: (body ++ ['}']) ∧ '{' ∉ body ∧ '}' ∉ body := by
  refine ⟨p.text.tail.dropLast, ?_⟩
  cases p <;> decide

theorem Placeholder.text_ne_nil (p : Placeholder) : p.text ≠ [] := by
  cases p <;> decide

/-! ## Writing values -/

/-- `EscapeVarcharForSQL`, one character. -/
def escapeVarcharChar (c : Char) : Text :=
  if c = '\x00' then "', chr(0), '" else if c = '\'' then "''" else [c]

def escapeVarcharForSQL (t : Text) : Text :=
  let ret := t.flatMap escapeVarcharChar
  if '\x00' ∈ t then "CONCAT('" ++ ret ++ "')" else "'" ++ ret ++ "'"

/-- The engine's `Value::ToSQLString` on a string value. A missing value is written as a keyword, a
string as a literal; versions of the engine differ in how they write a string with zero bytes. -/
class ValueWriter extends SQLWriter where
  toSQLString : Option Text → Text
  toSQLString_none : toSQLString none = "NULL".toList
  toSQLString_some : ∀ t, toSQLString (some t) = sqlString t ∨
    toSQLString (some t) = escapeVarcharForSQL t

@[reducible] def ValueWriter.reference : ValueWriter where
  toSQLWriter := SQLWriter.reference
  toSQLString
    | none => "NULL"
    | some t => escapeVarcharForSQL t
  toSQLString_none := rfl
  toSQLString_some _ := .inr rfl

/-- `StringUtil::Replace`, of the single quote by two of them. -/
def replaceQuotes (t : Text) : Text := Text.escape '\'' t

/-! ## Substitution -/

/-- The names of the metadata catalog that a `DuckLakeCatalog` knows. -/
structure MetadataNames where
  metadataDatabaseName : Text
  metadataSchemaName : Text
  metadataPath : Text
  dataPath : Text
deriving DecidableEq

/-- What the metadata manager substitutes from. -/
structure MetadataContext where
  snapshot : DuckLakeSnapshot
  commitInfo : DuckLakeSnapshotCommit
  catalog : MetadataNames
deriving DecidableEq

section Substitute

variable [ValueWriter]

open SQLWriter ValueWriter

def substituteCatalogPlaceholders (catalog : MetadataNames) (query : Text) : Text :=
  let catalogIdentifier := quotedIdentifier catalog.metadataDatabaseName
  let catalogLiteral := sqlString catalog.metadataDatabaseName
  let schemaIdentifier := quotedIdentifier catalog.metadataSchemaName
  let schemaIdentifierEscaped := replaceQuotes schemaIdentifier
  let schemaLiteral := sqlString catalog.metadataSchemaName
  let metadataPath := sqlString catalog.metadataPath
  let dataPath := sqlString catalog.dataPath
  let query := replaceAll Placeholder.metadataCatalogNameLiteral.text catalogLiteral query
  let query := replaceAll Placeholder.metadataCatalogNameIdentifier.text catalogIdentifier query
  let query := replaceAll Placeholder.metadataSchemaNameLiteral.text schemaLiteral query
  let query := replaceAll Placeholder.metadataCatalog.text
    (catalogIdentifier ++ "." ++ schemaIdentifier) query
  let query := replaceAll Placeholder.metadataSchemaEscaped.text schemaIdentifierEscaped query
  let query := replaceAll Placeholder.metadataPath.text metadataPath query
  replaceAll Placeholder.dataPath.text dataPath query

def substituteSnapshotPlaceholders (snapshot : DuckLakeSnapshot)
    (commitInfo : DuckLakeSnapshotCommit) (query : Text) : Text :=
  let query := replaceAll Placeholder.snapshotId.text (.ofNat snapshot.snapshotId) query
  let query := replaceAll Placeholder.schemaVersion.text (.ofNat snapshot.schemaVersion) query
  let query := replaceAll Placeholder.nextCatalogId.text snapshot.nextCatalogId.toText query
  let query := replaceAll Placeholder.nextFileId.text (.ofNat snapshot.nextFileId) query
  let query := replaceAll Placeholder.author.text (toSQLString commitInfo.author) query
  let query := replaceAll Placeholder.commitMessage.text
    (toSQLString commitInfo.commitMessage) query
  replaceAll Placeholder.commitExtraInfo.text (toSQLString commitInfo.commitExtraInfo) query

/-- The text that `DuckLakeMetadataManager::Query` hands to the metadata database. -/
def query (context : MetadataContext) (query : Text) : Text :=
  substituteCatalogPlaceholders context.catalog
    (substituteSnapshotPlaceholders context.snapshot context.commitInfo query)

end Substitute

/-! ## Statements -/

/-- Text that a generator writes itself: a brace in it does not open a placeholder. -/
def inert : Text → Bool
  | [] => true
  | c :: t => (c ≠ '{' || (t.head?.any fun d => !d.isUpper)) && inert t

structure FixedText where
  text : Text
  inert : inert text = true

/-- What the statements of a commit are made of. User text comes in as a string literal, a quoted
identifier, an inlined string value, the value of a setting, or the first field name of a struct
literal. -/
inductive Piece where
  | fixed (t : FixedText)
  | placeholder (p : Placeholder)
  | literal (t : Text)
  | identifier (t : Text)
  | varchar (t : Text)
  | value (v : Option Text)
  | structField (name : Text)

section Batch

variable [ValueWriter]

open SQLWriter ValueWriter

/-- The text a piece has in the batch. -/
def Piece.render : Piece → Text
  | fixed t => t.text
  | placeholder p => p.text
  | literal t => sqlString t
  | identifier t => quotedIdentifier t
  | varchar t => escapeVarcharForSQL t
  | value v => toSQLString v
  | structField name => '{' :: ("'" ++ replaceQuotes name ++ "'")

/-- The value that stands for a placeholder. -/
def MetadataContext.value (context : MetadataContext) : Placeholder → Text
  | .snapshotId => .ofNat context.snapshot.snapshotId
  | .schemaVersion => .ofNat context.snapshot.schemaVersion
  | .nextCatalogId => context.snapshot.nextCatalogId.toText
  | .nextFileId => .ofNat context.snapshot.nextFileId
  | .author => toSQLString context.commitInfo.author
  | .commitMessage => toSQLString context.commitInfo.commitMessage
  | .commitExtraInfo => toSQLString context.commitInfo.commitExtraInfo
  | .metadataCatalogNameLiteral => sqlString context.catalog.metadataDatabaseName
  | .metadataCatalogNameIdentifier => quotedIdentifier context.catalog.metadataDatabaseName
  | .metadataSchemaNameLiteral => sqlString context.catalog.metadataSchemaName
  | .metadataCatalog => quotedIdentifier context.catalog.metadataDatabaseName ++ "." ++
      quotedIdentifier context.catalog.metadataSchemaName
  | .metadataSchemaEscaped => replaceQuotes (quotedIdentifier context.catalog.metadataSchemaName)
  | .metadataPath => sqlString context.catalog.metadataPath
  | .dataPath => sqlString context.catalog.dataPath

/-- The text a piece is meant to have when the batch is executed. -/
def Piece.intended (context : MetadataContext) : Piece → Text
  | placeholder p => context.value p
  | piece => piece.render

def renderBatch (batch : List Piece) : Text := batch.flatMap Piece.render

def intendedBatch (context : MetadataContext) (batch : List Piece) : Text :=
  batch.flatMap (Piece.intended context)

/-- Executing the batch replaces the placeholders that the generators wrote and nothing else: every
embedded user text is still written as it was. -/
def UserTextSurvives (context : MetadataContext) (batch : List Piece) : Prop :=
  query context (renderBatch batch) = intendedBatch context batch

end Batch

/-- The user strings in a piece. -/
def Piece.userText : Piece → List Text
  | literal t | identifier t | varchar t | structField t | value (some t) => [t]
  | fixed _ | placeholder _ | value none => []

/-- The user strings in the value of a placeholder. -/
def MetadataContext.userText (context : MetadataContext) : Placeholder → List Text
  | .snapshotId | .schemaVersion | .nextCatalogId | .nextFileId => []
  | .author => context.commitInfo.author.toList
  | .commitMessage => context.commitInfo.commitMessage.toList
  | .commitExtraInfo => context.commitInfo.commitExtraInfo.toList
  | .metadataCatalogNameLiteral | .metadataCatalogNameIdentifier =>
    [context.catalog.metadataDatabaseName]
  | .metadataSchemaNameLiteral | .metadataSchemaEscaped => [context.catalog.metadataSchemaName]
  | .metadataCatalog =>
    [context.catalog.metadataDatabaseName, context.catalog.metadataSchemaName]
  | .metadataPath => [context.catalog.metadataPath]
  | .dataPath => [context.catalog.dataPath]

/-- `p'` is replaced after `p`. -/
def Placeholder.Before (p p' : Placeholder) : Prop :=
  ∃ before after, Placeholder.all = before ++ p :: after ∧ p' ∈ after

/-! ### Generators -/

open Placeholder Piece

def Piece.comma : Piece := fixed ⟨", ", rfl⟩

def insertSnapshotSql : List Piece :=
  [fixed ⟨"INSERT INTO ", rfl⟩, placeholder metadataCatalog,
    fixed ⟨".ducklake_snapshot VALUES (", rfl⟩, placeholder snapshotId, fixed ⟨", NOW(), ", rfl⟩,
    placeholder schemaVersion, comma, placeholder nextCatalogId, comma,
    placeholder nextFileId, fixed ⟨");", rfl⟩]

def sqlStringOrNull (t : Text) : Piece :=
  if t.isEmpty then fixed ⟨"NULL", rfl⟩ else literal t

def writeSnapshotChangesSql (changesMade : Text) (commitInfo : DuckLakeSnapshotCommit) :
    List Piece :=
  [fixed ⟨"INSERT INTO ", rfl⟩, placeholder metadataCatalog,
    fixed ⟨".ducklake_snapshot_changes VALUES (", rfl⟩, placeholder snapshotId, comma,
    sqlStringOrNull changesMade, comma, value commitInfo.author, comma,
    value commitInfo.commitMessage, comma, value commitInfo.commitExtraInfo,
    fixed ⟨");", rfl⟩]

theorem inert_of_not_mem {t : Text} (h : '{' ∉ t) : inert t = true := by
  induction t with
  | nil => rfl
  | cons c t ih =>
    rw [List.mem_cons, not_or] at h
    simp [inert, ih h.2, Ne.symm h.1]

theorem brace_not_mem_ofNat (n : Nat) : '{' ∉ Text.ofNat n :=
  fun h => absurd (Text.isDigit_of_mem_ofNat h) (by decide)

theorem inert_number (i : Int) :
    inert (if i < 0 then '-' :: Text.ofNat i.natAbs else Text.ofNat i.natAbs) = true := by
  refine inert_of_not_mem ?_
  split
  · simpa using brace_not_mem_ofNat i.natAbs
  · exact brace_not_mem_ofNat i.natAbs

/-- A number in the text of a statement. -/
def Piece.number (i : Int) : Piece :=
  fixed ⟨if i < 0 then '-' :: Text.ofNat i.natAbs else Text.ofNat i.natAbs, inert_number i⟩

def maxValuesListLength : Nat := 65536

section Inlined

variable [ValueWriter]

/-- The loop of `ChunkValuesStatements`: the statements written so far, the open list of values,
and the tuples still to come. -/
def chunkValuesLoop (makeStatement : List Piece → List Piece) :
    List Piece → List Piece → List (List Piece) → List Piece
  | result, values, [] => if values.isEmpty then result else result ++ makeStatement values
  | result, values, tuple :: tuples =>
    let values := (if values.isEmpty then values else values ++ [comma]) ++ tuple
    if maxValuesListLength ≤ (renderBatch values).length then
      chunkValuesLoop makeStatement (result ++ makeStatement values) [] tuples
    else chunkValuesLoop makeStatement result values tuples

/-- Large `VALUES` lists are split over statements. -/
def chunkValuesStatements (makeStatement : List Piece → List Piece) (tuples : List (List Piece)) :
    List Piece :=
  chunkValuesLoop makeStatement [] [] tuples

/-- The row ids of the rows of an insert: preserved ids stay, the others are numbered. -/
def emitRowIds : Nat → List (Option Int) → List Int
  | _, [] => []
  | rowId, some rid :: rows =>
    if isTransactionLocalRowId rid then rowId :: emitRowIds (rowId + 1) rows
    else rid :: emitRowIds rowId rows
  | rowId, none :: rows => rowId :: emitRowIds (rowId + 1) rows

def inlinedTuple (rid : Int) (cells : List Piece) : List Piece :=
  [fixed ⟨"(", rfl⟩, .number rid, comma, placeholder snapshotId, fixed ⟨", NULL, ", rfl⟩] ++
    cells ++ [fixed ⟨")", rfl⟩]

/-- The statements that insert rows into an inlined data table. A row comes with its preserved row
id, if row ids are preserved, and the text of its cells. -/
def formatInlinedDataInsert (inlinedTableName : Text) (rowIdStart : Nat)
    (rows : List (Option Int × List Piece)) : List Piece :=
  let tuples :=
    (emitRowIds rowIdStart (rows.map (·.1))).zipWith inlinedTuple (rows.map (·.2))
  let insertPrefix := [fixed ⟨"INSERT INTO ", rfl⟩, placeholder metadataCatalog,
    fixed ⟨".", rfl⟩, identifier inlinedTableName, fixed ⟨" VALUES ", rfl⟩]
  chunkValuesStatements (fun values => insertPrefix ++ values ++ [fixed ⟨";", rfl⟩]) tuples

end Inlined

/-! ## What the pieces contain -/

section Contain

variable {p : Placeholder}

theorem infix_escape_iff {q : Char} (hq : ¬ placeholderChar q) {t : Text} :
    p.text <:+: Text.escape q t ↔ p.text <:+: t := by
  rw [Text.escape_eq_flatMap]
  refine infix_flatMap_iff (A := placeholderChar) (fun c hc => ?_) (fun c hc => ?_)
    (fun d => placeholderChar_of_mem) p.text_ne_nil
  · exact if_neg (by rintro rfl; exact hq hc)
  · by_cases h : c = q <;> simp [h, hq, hc]

theorem infix_quoted_iff {q : Char} (hq : ¬ placeholderChar q) {t : Text} :
    p.text <:+: q :: t ++ [q] ↔ p.text <:+: t := by
  have h := infix_append_cons_iff (p := p.text) (x := []) (y := t ++ [q])
    (fun d => placeholderChar_of_mem) p.text_ne_nil hq
  have h' := infix_append_cons_iff (p := p.text) (x := t) (y := [])
    (fun d => placeholderChar_of_mem) p.text_ne_nil hq
  simp only [List.nil_append, List.infix_nil, p.text_ne_nil, false_or, or_false] at h h'
  rw [List.cons_append, h, h']

theorem infix_writeQuoted_iff {q : Char} (hq : ¬ placeholderChar q) {t : Text} :
    p.text <:+: Text.writeQuoted q t ↔ p.text <:+: t := by
  rw [Text.writeQuoted, infix_quoted_iff hq, infix_escape_iff hq]

theorem infix_escapeVarcharForSQL_iff {t : Text} :
    p.text <:+: escapeVarcharForSQL t ↔ p.text <:+: t := by
  have hflat : p.text <:+: t.flatMap escapeVarcharChar ↔ p.text <:+: t := by
    refine infix_flatMap_iff (A := placeholderChar) (fun c hc => ?_) (fun c hc => ?_)
      (fun d => placeholderChar_of_mem) p.text_ne_nil
    · unfold escapeVarcharChar
      rw [if_neg (by rintro rfl; exact absurd hc (by decide)),
        if_neg (by rintro rfl; exact absurd hc (by decide))]
    · unfold escapeVarcharChar
      split
      · exact ⟨by decide, outside_of_all (by decide)⟩
      · split
        · exact ⟨by decide, outside_of_all (by decide)⟩
        · simpa using hc
  rw [← hflat]
  have hquote : ¬ placeholderChar '\'' := by decide
  unfold escapeVarcharForSQL
  simp only
  split
  · have h := infix_append_cons_iff (p := p.text) (x := t.flatMap escapeVarcharChar) (y := [')'])
      (fun d => placeholderChar_of_mem) p.text_ne_nil hquote
    have hclose : ¬ p.text <:+: [')'] := by cases p <;> decide
    simp only [hclose, or_false] at h
    have hopen : '{' ∉ "CONCAT('".toList := by decide
    obtain ⟨body, hp, -⟩ := p.text_eq
    rw [← h, hp, List.append_assoc]
    exact infix_append_iff_of_not_mem hopen
  · exact infix_quoted_iff hquote

end Contain

/-! ## Placeholders as tags -/

/-- Text that neither continues a placeholder at its start nor begins one at its end. -/
structure Framed (t : Text) : Prop where
  start : ∃ w, w ≠ [] ∧ w <+: t ∧ '{' ∉ w ∧ '}' ∉ w ∧ ∀ p : Placeholder, ¬ w <:+: p.text
  ends : ∀ (p : Placeholder) s, s <:+ t → s ≠ [] → s <+: p.text → s = p.text

theorem ends_of_last {t : Text} {c : Char} (hc : ¬ placeholderChar c) (p : Placeholder) (s : Text)
    (hs : s <:+ t ++ [c]) (hne : s ≠ []) (hp : s <+: p.text) : s = p.text := by
  obtain ⟨u, hu⟩ := hs
  have hlast : s.getLast hne = c := by
    have h : (u ++ s).getLast? = some c := by rw [hu, List.getLast?_concat]
    rw [List.getLast?_append, List.getLast?_eq_some_getLast hne] at h
    exact Option.some.inj h
  exact absurd (placeholderChar_of_mem (hp.subset (hlast ▸ List.getLast_mem hne))) hc

theorem ends_of_not_mem {t : Text} (ht : '{' ∉ t) (p : Placeholder) (s : Text) (hs : s <:+ t)
    (hne : s ≠ []) (hp : s <+: p.text) : s = p.text := by
  obtain ⟨body, hbody, -⟩ := p.text_eq
  obtain ⟨c, s, rfl⟩ := List.exists_cons_of_ne_nil hne
  rw [hbody] at hp
  exact absurd (hs.subset (by simp [(List.cons_prefix_cons.1 hp).1])) ht

theorem framed_of_chars {t : Text} {c d : Char} (hc : ¬ placeholderChar c)
    (hd : ¬ placeholderChar d) : Framed (c :: t ++ [d]) where
  start := by
    refine ⟨[c], by simp, by simp, ?_, ?_, fun p h => ?_⟩
    · rintro h
      exact hc (.inl (List.mem_singleton.1 h).symm)
    · rintro h
      exact hc (.inr (.inl (List.mem_singleton.1 h).symm))
    · exact hc (placeholderChar_of_mem (h.subset (by simp)))
  ends := ends_of_last hd

theorem framed_of_no_brace {t : Text} (hne : t ≠ []) (ho : '{' ∉ t) (hc : '}' ∉ t)
    (h : ∀ p : Placeholder, ¬ t <:+: p.text) : Framed t where
  start := ⟨t, hne, List.prefix_rfl, ho, hc, h⟩
  ends := ends_of_not_mem ho

theorem framed_ofNat (n : Nat) : Framed (.ofNat n) := by
  refine framed_of_no_brace (Text.ofNat_ne_nil n) (brace_not_mem_ofNat n)
    (fun h => absurd (Text.isDigit_of_mem_ofNat h) (by decide)) fun p h => ?_
  obtain ⟨c, t, hc⟩ := List.exists_cons_of_ne_nil (Text.ofNat_ne_nil n)
  have hmem : c ∈ Text.ofNat n := by simp [hc]
  have hdigit := Text.isDigit_of_mem_ofNat hmem
  have hchar := placeholderChar_of_mem (h.subset hmem)
  simp only [placeholderChar, Char.isDigit, Bool.and_eq_true, decide_eq_true_eq,
    ge_iff_le] at hdigit hchar
  obtain rfl | rfl | rfl | hupper := hchar
  · exact absurd hdigit.2 (by decide)
  · exact absurd hdigit.2 (by decide)
  · exact absurd hdigit.2 (by decide)
  · have hletter : 'A'.val ≤ c.val ∧ c.val ≤ 'Z'.val := of_decide_eq_true hupper
    exact absurd (UInt32.le_trans hletter.1 hdigit.2) (by decide)

theorem framed_writeQuoted {q : Char} (hq : ¬ placeholderChar q) (t : Text) :
    Framed (Text.writeQuoted q t) := framed_of_chars hq hq

theorem framed_escapeVarcharForSQL (t : Text) : Framed (escapeVarcharForSQL t) := by
  unfold escapeVarcharForSQL
  simp only
  split
  · have hopen : "CONCAT('".toList <+: "CONCAT('" ++ t.flatMap escapeVarcharChar ++ "')" := by
      rw [List.append_assoc]
      exact List.prefix_append _ _
    refine ⟨⟨"CONCAT('", by decide, hopen, by decide, by decide, ?_⟩, ?_⟩
    · rintro p h
      exact absurd (placeholderChar_of_mem (c := '(') (h.subset (by decide))) (by decide)
    · intro p s hs
      have hclose : "')".toList = "'".toList ++ [')'] := rfl
      rw [hclose, ← List.append_assoc] at hs
      exact ends_of_last (by decide) p s hs
  · exact framed_of_chars (by decide) (by decide)

theorem Placeholder.text_injective {p p' : Placeholder} (h : p.text = p'.text) : p = p' :=
  List.inj_on_of_nodup_map (f := Placeholder.text) (l := Placeholder.all) (by decide) p.mem_all
    p'.mem_all h

theorem Placeholder.text_prefix {p p' : Placeholder} (h : p.text <+: p'.text) : p = p' := by
  obtain ⟨body, hp, -, -⟩ := p.text_eq
  obtain ⟨body', hp', -, hclose⟩ := p'.text_eq
  refine text_injective ?_
  rw [hp, hp', List.cons_prefix_cons] at h
  have hmem : body ++ ['}'] = body' ++ ['}'] := by
    obtain ⟨r, hr⟩ := h.2
    rcases List.eq_nil_or_concat r with rfl | ⟨r, c, rfl⟩
    · simpa using hr
    · rw [List.concat_eq_append, ← List.append_assoc] at hr
      obtain ⟨hr, -⟩ := List.append_inj' hr rfl
      exact absurd (by rw [← hr]; simp) hclose
  rw [hp, hp', hmem]

/-- No placeholder starts in inert text, whatever follows. -/
theorem noStart_of_inert {t : Text} (h : inert t = true) (p : Placeholder) (r : Text) :
    NoStart p.text t r := by
  induction t with
  | nil => exact fun s hs hne => absurd (List.suffix_nil.1 hs) hne
  | cons c t ih =>
    simp only [inert, Bool.and_eq_true, Bool.or_eq_true, decide_eq_true_eq] at h
    intro s hs hne hp
    rcases List.suffix_cons_iff.1 hs with rfl | hs
    · obtain ⟨d, hd, body, hbody⟩ : ∃ d, d.isUpper = true ∧ ∃ body, p.text = '{' :: d :: body :=
        ⟨p.text.tail.headD ' ', by cases p <;> decide, p.text.tail.tail, by cases p <;> decide⟩
      rw [hbody, List.cons_append, List.cons_prefix_cons] at hp
      obtain ⟨rfl, hp⟩ := hp
      rcases h.1 with h | h
      · exact h rfl
      · cases t with
        | nil => simp at h
        | cons e t =>
          rw [List.cons_append, List.cons_prefix_cons] at hp
          simp [← hp.1, hd] at h
    · exact ih h.2 s hs hne hp

theorem FixedText.not_infix (t : FixedText) (p : Placeholder) : ¬ p.text <:+: t.text := by
  rintro ⟨u, v, h⟩
  refine noStart_of_inert t.inert p [] (p.text ++ v) ⟨u, by rw [← h, List.append_assoc]⟩ ?_ ?_
  · simp [p.text_ne_nil]
  · simp

theorem FixedText.ends (t : FixedText) (p : Placeholder) (s : Text) (hs : s <:+ t.text)
    (hne : s ≠ []) (hp : s <+: p.text) : s = p.text := by
  obtain ⟨r, hr⟩ := hp
  exact absurd ⟨[], by simp [hr]⟩ (noStart_of_inert t.inert p r s hs hne)

section Tags

variable [ValueWriter]

open SQLWriter ValueWriter

theorem framed_toSQLString (v : Option Text) : Framed (toSQLString v) := by
  cases v with
  | none =>
    rw [toSQLString_none]
    refine framed_of_no_brace (by decide) (by decide) (by decide) fun p => ?_
    cases p <;> decide
  | some t =>
    rcases toSQLString_some t with h | h
    · rw [h, sqlString_eq]
      exact framed_writeQuoted (by decide) t
    · rw [h]
      exact framed_escapeVarcharForSQL t

theorem framed_sqlString (t : Text) : Framed (sqlString t) := by
  rw [sqlString_eq]
  exact framed_writeQuoted (by decide) t

theorem framed_quotedIdentifier (t : Text) : Framed (quotedIdentifier t) := by
  rw [quotedIdentifier_eq]
  exact framed_writeQuoted (by decide) t

theorem replaceQuotes_quotedIdentifier (t : Text) :
    replaceQuotes (quotedIdentifier t) = '"' :: Text.escape '\'' (Text.escape '"' t) ++ ['"'] := by
  rw [quotedIdentifier_eq, replaceQuotes, Text.writeQuoted, Text.escape_append, Text.escape]
  rfl

theorem framed_value (context : MetadataContext) (p : Placeholder) : Framed (context.value p) := by
  cases p with
  | snapshotId | schemaVersion | nextCatalogId | nextFileId => exact framed_ofNat _
  | author | commitMessage | commitExtraInfo => exact framed_toSQLString _
  | metadataCatalogNameLiteral | metadataSchemaNameLiteral | metadataPath | dataPath =>
    exact framed_sqlString _
  | metadataCatalogNameIdentifier => exact framed_quotedIdentifier _
  | metadataSchemaEscaped =>
    rw [MetadataContext.value, replaceQuotes_quotedIdentifier]
    exact framed_of_chars (by decide) (by decide)
  | metadataCatalog =>
    rw [MetadataContext.value, quotedIdentifier_eq, quotedIdentifier_eq, Text.writeQuoted,
      Text.writeQuoted, ← List.append_assoc, List.cons_append, List.cons_append, List.cons_append]
    exact framed_of_chars (by decide) (by decide)

/-- The placeholders, in the order in which they are replaced. -/
def MetadataContext.tags (context : MetadataContext) : Tags Placeholder where
  o := '{'
  keys := Placeholder.all
  tag := Placeholder.text
  value := context.value
  nodup := by decide
  tag_eq p := by
    obtain ⟨body, hp, hopen, -⟩ := p.text_eq
    exact ⟨_, hp, by simpa using hopen⟩
  tag_prefix _ _ := Placeholder.text_prefix
  stop p := by
    obtain ⟨w, hne, hprefix, hopen, hclose, hw⟩ := (framed_value context p).start
    refine ⟨w, hne, hprefix, hopen, fun p' x y _ heq hy => ⟨fun h => ?_, fun h => ?_⟩⟩
    · obtain ⟨body, hp', -⟩ := p'.text_eq
      obtain ⟨y, c, rfl⟩ := (List.eq_nil_or_concat y).resolve_left hy
      rw [hp', List.concat_eq_append, ← List.append_assoc, ← List.cons_append] at heq
      obtain ⟨-, hc⟩ := List.append_inj' heq rfl
      obtain rfl : '}' = c := List.singleton_inj.1 hc
      exact hclose (h.subset (by simp))
    · exact hw p' (h.isInfix.trans ⟨x, [], by simp [heq]⟩)
  value_end p p' := (framed_value context p).ends p'

theorem query_eq_substitute (context : MetadataContext) (t : Text) :
    query context t = context.tags.substitute t := rfl

end Tags

/-! ## When user text survives -/

/-- A piece that the substitution leaves as it is meant: no placeholder in its user text and, for a
placeholder, none in its value that is replaced later. -/
def Piece.Safe (context : MetadataContext) : Piece → Prop
  | placeholder p => ∀ t ∈ context.userText p, ∀ p', p.Before p' → ¬ p'.text <:+: t
  | piece => ∀ t ∈ piece.userText, ∀ p : Placeholder, ¬ p.text <:+: t

/-- A batch all of whose pieces are safe. -/
def SafeBatch (context : MetadataContext) (batch : List Piece) : Prop :=
  ∀ piece ∈ batch, piece.Safe context

@[simp] theorem safeBatch_nil {context : MetadataContext} : SafeBatch context [] := by
  simp [SafeBatch]

@[simp] theorem safeBatch_cons {context : MetadataContext} {piece : Piece} {batch : List Piece} :
    SafeBatch context (piece :: batch) ↔ piece.Safe context ∧ SafeBatch context batch :=
  List.forall_mem_cons

@[simp] theorem safeBatch_append {context : MetadataContext} {batch batch' : List Piece} :
    SafeBatch context (batch ++ batch') ↔ SafeBatch context batch ∧ SafeBatch context batch' :=
  List.forall_mem_append

@[simp] theorem safe_fixed (context : MetadataContext) (t : FixedText) :
    (fixed t).Safe context := by
  simp [Piece.Safe, Piece.userText]

@[simp] theorem safe_comma (context : MetadataContext) : comma.Safe context := safe_fixed _ _

theorem safe_number (context : MetadataContext) (p : Placeholder) (h : context.userText p = []) :
    (placeholder p).Safe context := by
  simp [Piece.Safe, h]

theorem length_emitRowIds (rowId : Nat) (rows : List (Option Int)) :
    (emitRowIds rowId rows).length = rows.length := by
  fun_induction emitRowIds rowId rows <;> simp_all

theorem safeBatch_zipWith_tuples {context : MetadataContext} {ids : List Int}
    {cells : List (List Piece)} (h : ids.length = cells.length) :
    (∀ t ∈ ids.zipWith inlinedTuple cells, SafeBatch context t) ↔
      ∀ c ∈ cells, SafeBatch context c := by
  induction ids generalizing cells with
  | nil =>
    obtain rfl := List.length_eq_zero_iff.1 h.symm
    simp
  | cons id ids ih =>
    obtain ⟨c, cells, rfl⟩ := List.exists_cons_of_length_eq_add_one h.symm
    have hlength : ids.length = cells.length := by simpa using h
    simp only [List.zipWith_cons_cons, List.forall_mem_cons, ih hlength]
    simp [inlinedTuple, Piece.number, safe_number context snapshotId rfl]

section Survives

variable [ValueWriter]

open SQLWriter ValueWriter

/-- The context does not matter for how a piece is divided. -/
def Piece.segment : Piece → Tags.Segment Placeholder
  | placeholder p => .hole p
  | piece => .solid piece.render

theorem renderBatch_eq (context : MetadataContext) (batch : List Piece) :
    renderBatch batch = context.tags.render (batch.map Piece.segment) := by
  rw [renderBatch, Tags.render, List.flatMap_map]
  congr 1
  funext piece
  cases piece <;> rfl

theorem intendedBatch_eq (context : MetadataContext) (batch : List Piece) :
    intendedBatch context batch = context.tags.fill (batch.map Piece.segment) := by
  rw [intendedBatch, Tags.fill, List.flatMap_map]
  congr 1
  funext piece
  cases piece <;> rfl

theorem infix_toSQLString_iff {p : Placeholder} {t : Text} :
    p.text <:+: toSQLString (some t) ↔ p.text <:+: t := by
  rcases toSQLString_some t with h | h
  · rw [h, sqlString_eq, infix_writeQuoted_iff (by decide)]
  · rw [h, infix_escapeVarcharForSQL_iff]

theorem not_infix_null (p : Placeholder) : ¬ p.text <:+: toSQLString none := by
  rw [toSQLString_none]
  cases p <;> decide

theorem infix_structField_iff {p : Placeholder} {t : Text} :
    p.text <:+: Piece.render (structField t) ↔ p.text <:+: t := by
  obtain ⟨d, body, hbody, hd⟩ : ∃ d body, p.text = '{' :: d :: body ∧ d ≠ '\'' :=
    ⟨p.text.tail.headD ' ', p.text.tail.tail, by cases p <;> decide⟩
  have hstart : ¬ p.text <+: '{' :: ("'" ++ replaceQuotes t ++ "'") := by
    rw [hbody, List.cons_prefix_cons]
    rintro ⟨-, h⟩
    exact hd (List.cons_prefix_cons.1 h).1
  rw [Piece.render, List.infix_cons_iff]
  simp only [hstart, false_or]
  exact (infix_quoted_iff (by decide)).trans (infix_escape_iff (by decide))

/-- A placeholder is found in a piece exactly when it is found in the user text of the piece. -/
theorem infix_render_iff {p : Placeholder} {piece : Piece} (h : ∀ p', piece ≠ placeholder p') :
    p.text <:+: piece.render ↔ ∃ t ∈ piece.userText, p.text <:+: t := by
  cases piece with
  | fixed t => simp [Piece.render, Piece.userText, t.not_infix p]
  | placeholder p' => exact absurd rfl (h p')
  | literal t =>
    simp [Piece.render, Piece.userText, sqlString_eq, infix_writeQuoted_iff (q := '\'') (by decide)]
  | identifier t =>
    simp [Piece.render, Piece.userText, quotedIdentifier_eq,
      infix_writeQuoted_iff (q := '"') (by decide)]
  | varchar t => simp [Piece.render, Piece.userText, infix_escapeVarcharForSQL_iff]
  | value v =>
    cases v with
    | none => simp [Piece.render, Piece.userText, not_infix_null]
    | some t => simp [Piece.render, Piece.userText, infix_toSQLString_iff]
  | structField t => simp [Piece.userText, infix_structField_iff]

/-- A placeholder is found in the value of another exactly when it is found in the user text of
the value. -/
theorem infix_value_iff {context : MetadataContext} {p p' : Placeholder} :
    p'.text <:+: context.value p ↔ ∃ t ∈ context.userText p, p'.text <:+: t := by
  have hnumber (n : Nat) : ¬ p'.text <:+: Text.ofNat n := by
    obtain ⟨body, hp, -⟩ := p'.text_eq
    exact fun h => brace_not_mem_ofNat n (h.subset (by simp [hp]))
  have hvalue (v : Option Text) : p'.text <:+: toSQLString v ↔ ∃ t ∈ v.toList, p'.text <:+: t := by
    cases v with
    | none => simp [not_infix_null]
    | some t => simp [infix_toSQLString_iff]
  have hliteral (t : Text) : p'.text <:+: sqlString t ↔ p'.text <:+: t := by
    rw [sqlString_eq, infix_writeQuoted_iff (by decide)]
  have hidentifier (t : Text) : p'.text <:+: quotedIdentifier t ↔ p'.text <:+: t := by
    rw [quotedIdentifier_eq, infix_writeQuoted_iff (by decide)]
  cases p with
  | snapshotId | schemaVersion | nextCatalogId | nextFileId =>
    simpa [MetadataContext.value, MetadataContext.userText, Idx.toText] using hnumber _
  | author | commitMessage | commitExtraInfo => exact hvalue _
  | metadataCatalogNameLiteral | metadataSchemaNameLiteral | metadataPath | dataPath =>
    simpa [MetadataContext.value, MetadataContext.userText] using hliteral _
  | metadataCatalogNameIdentifier =>
    simpa [MetadataContext.value, MetadataContext.userText] using hidentifier _
  | metadataSchemaEscaped =>
    simp only [MetadataContext.value, MetadataContext.userText, List.mem_singleton, exists_eq_left]
    rw [replaceQuotes_quotedIdentifier, infix_quoted_iff (by decide), infix_escape_iff (by decide),
      infix_escape_iff (by decide)]
  | metadataCatalog =>
    have hdot := infix_append_cons_iff (p := p'.text) (c := '.')
      (x := quotedIdentifier context.catalog.metadataDatabaseName)
      (y := quotedIdentifier context.catalog.metadataSchemaName)
      (fun d => placeholderChar_of_mem) p'.text_ne_nil (by decide)
    rw [hidentifier, hidentifier] at hdot
    have heq : context.value .metadataCatalog =
        quotedIdentifier context.catalog.metadataDatabaseName ++
          '.' :: quotedIdentifier context.catalog.metadataSchemaName := by
      rw [MetadataContext.value, List.append_assoc]
      rfl
    rw [heq, hdot]
    simp [MetadataContext.userText]

theorem ends_render {piece : Piece} (h : ∀ p', piece ≠ placeholder p') (p : Placeholder) (s : Text)
    (hs : s <:+ piece.render) (hne : s ≠ []) (hp : s <+: p.text) : s = p.text := by
  cases piece with
  | fixed t => exact t.ends p s hs hne hp
  | placeholder p' => exact absurd rfl (h p')
  | literal t => exact (framed_sqlString t).ends p s hs hne hp
  | identifier t => exact (framed_quotedIdentifier t).ends p s hs hne hp
  | varchar t => exact (framed_escapeVarcharForSQL t).ends p s hs hne hp
  | value v => exact (framed_toSQLString v).ends p s hs hne hp
  | structField name =>
    have hs' : s <:+ '{' :: ("'" ++ replaceQuotes name) ++ ['\''] := by
      simpa [Piece.render] using hs
    exact ends_of_last (by decide) p s hs' hne hp

theorem proper_segment (context : MetadataContext) (piece : Piece) :
    context.tags.Proper piece.segment := by
  cases piece with
  | placeholder p => exact p.mem_all
  | fixed | literal | identifier | varchar | value | structField => exact ends_render (by simp)

theorem clean_segment_iff (context : MetadataContext) (piece : Piece) :
    context.tags.Clean piece.segment ↔ piece.Safe context := by
  have hsolid (piece : Piece) (h : ∀ p', piece ≠ placeholder p') :
      (∀ p ∈ Placeholder.all, ¬ p.text <:+: piece.render) ↔
        ∀ t ∈ piece.userText, ∀ p : Placeholder, ¬ p.text <:+: t := by
    simp only [infix_render_iff h, Placeholder.mem_all, true_implies, not_exists, not_and]
    exact ⟨fun h t ht p => h p t ht, fun h p t ht => h t ht p⟩
  cases piece with
  | placeholder p =>
    simp only [Piece.segment, Tags.Clean, Piece.Safe]
    change (∀ p', p.Before p' → ¬ p'.text <:+: context.value p) ↔ _
    simp only [infix_value_iff, not_exists, not_and]
    exact ⟨fun h t ht p' hp' => h p' hp' t ht, fun h p' hp' t ht => h t ht p' hp'⟩
  | fixed | literal | identifier | varchar | value | structField => exact hsolid _ (by simp)

theorem userTextSurvives_iff_safeBatch (context : MetadataContext) (batch : List Piece) :
    UserTextSurvives context batch ↔ SafeBatch context batch := by
  have hproper : ∀ s ∈ batch.map Piece.segment, context.tags.Proper s := by
    intro s hs
    obtain ⟨piece, -, rfl⟩ := List.mem_map.1 hs
    exact proper_segment context piece
  rw [UserTextSurvives, query_eq_substitute, renderBatch_eq context, intendedBatch_eq,
    Tags.substitute_render_iff hproper, List.forall_mem_map]
  exact forall₂_congr fun piece _ => clean_segment_iff context piece

/-- The substitution changes nothing but the placeholders of the generators exactly when no
embedded user text contains the text of a placeholder, and no value inserted for a placeholder of
the batch comes from user text with a placeholder that is replaced later. -/
theorem userTextSurvives_iff (context : MetadataContext) (batch : List Piece) :
    UserTextSurvives context batch ↔
      (∀ piece ∈ batch, ∀ t ∈ piece.userText, ∀ p : Placeholder, ¬ p.text <:+: t) ∧
        ∀ p, placeholder p ∈ batch →
          ∀ t ∈ context.userText p, ∀ p', p.Before p' → ¬ p'.text <:+: t := by
  rw [userTextSurvives_iff_safeBatch]
  constructor
  · intro h
    refine ⟨fun piece hpiece => ?_, fun p hp => h _ hp⟩
    cases piece with
    | placeholder p => simp [Piece.userText]
    | fixed | literal | identifier | varchar | value | structField => exact h _ hpiece
  · intro ⟨htext, hvalue⟩ piece hpiece
    cases piece with
    | placeholder p => exact hvalue p hpiece
    | fixed | literal | identifier | varchar | value | structField => exact htext _ hpiece

end Survives

section Counterexample

attribute [local instance] ValueWriter.reference

/-- A commit message that mentions a placeholder is stored with a number in its place. -/
theorem not_userTextSurvives_commitMessage :
    ¬ UserTextSurvives
      { snapshot := ⟨7, 1, 4, 2⟩
        commitInfo := ⟨some "me", some "release \x7bSNAPSHOT_ID\x7d", none, true⟩
        catalog := ⟨"meta", "main", "meta.db", "data/"⟩ }
      (writeSnapshotChangesSql "inserted_into_table:1"
        ⟨some "me", some "release \x7bSNAPSHOT_ID\x7d", none, true⟩) := by
  unfold UserTextSurvives
  decide +kernel

end Counterexample

/-! ### The generators -/

section Generators

variable [ValueWriter]

/-- The statements that end every commit survive when the changes and the commit info contain no
placeholder and the names of the metadata catalog none that is replaced later. -/
theorem userTextSurvives_snapshotStatements_iff (context : MetadataContext) (changesMade : Text) :
    UserTextSurvives context
        (insertSnapshotSql ++ writeSnapshotChangesSql changesMade context.commitInfo) ↔
      (∀ p : Placeholder, ¬ p.text <:+: changesMade) ∧
        (∀ v ∈ [context.commitInfo.author, context.commitInfo.commitMessage,
          context.commitInfo.commitExtraInfo], (value v).Safe context) ∧
        (placeholder metadataCatalog).Safe context := by
  have hchanges : (sqlStringOrNull changesMade).Safe context ↔
      ∀ p : Placeholder, ¬ p.text <:+: changesMade := by
    unfold sqlStringOrNull
    split
    · rename_i hempty
      rw [List.isEmpty_iff] at hempty
      simp [safe_fixed, hempty, Placeholder.text_ne_nil]
    · simp [Piece.Safe, Piece.userText]
  rw [userTextSurvives_iff_safeBatch, SafeBatch]
  simp only [insertSnapshotSql, writeSnapshotChangesSql, List.cons_append, List.nil_append,
    List.forall_mem_cons, List.not_mem_nil, false_implies, implies_true, and_true, safe_fixed,
    safe_comma, true_and, hchanges, safe_number context snapshotId rfl,
    safe_number context schemaVersion rfl, safe_number context nextCatalogId rfl,
    safe_number context nextFileId rfl]
  tauto

theorem safeBatch_chunkValuesLoop {insertPrefix insertEnd : List Piece}
    {tuples : List (List Piece)} (hne : ∀ t ∈ tuples, t ≠ []) (result values : List Piece) :
    SafeBatch context (chunkValuesLoop (fun values => insertPrefix ++ values ++ insertEnd)
        result values tuples) ↔
      SafeBatch context result ∧ SafeBatch context values ∧
        (tuples ≠ [] ∨ values ≠ [] → SafeBatch context insertPrefix ∧ SafeBatch context insertEnd) ∧
        ∀ t ∈ tuples, SafeBatch context t := by
  induction tuples generalizing result values with
  | nil =>
    rw [chunkValuesLoop]
    by_cases hvalues : values = []
    · simp [hvalues]
    · simp [hvalues]
      tauto
  | cons tuple tuples ih =>
    have htuple := hne tuple (by simp)
    have ih := ih fun t ht => hne t (List.mem_cons_of_mem _ ht)
    rw [chunkValuesLoop]
    generalize hvalues : (if values.isEmpty then values else values ++ [comma]) ++ tuple = values'
    have hne' : values' ≠ [] := by
      rw [← hvalues]
      simp [htuple]
    have hsafe : SafeBatch context values' ↔ SafeBatch context values ∧ SafeBatch context tuple := by
      rw [← hvalues]
      split <;> simp
    simp only [List.forall_mem_cons]
    split
    · rw [ih]
      simp [hsafe]
      tauto
    · rw [ih]
      simp [hsafe, hne']
      tauto

/-- Inlined rows survive when neither their cells nor the name of the inlined data table contain a
placeholder, and the names of the metadata catalog none that is replaced later. -/
theorem userTextSurvives_formatInlinedDataInsert_iff (context : MetadataContext)
    (inlinedTableName : Text) (rowIdStart : Nat) {rows : List (Option Int × List Piece)}
    (hrows : rows ≠ []) :
    UserTextSurvives context (formatInlinedDataInsert inlinedTableName rowIdStart rows) ↔
      ((∀ p : Placeholder, ¬ p.text <:+: inlinedTableName) ∧
        (placeholder metadataCatalog).Safe context) ∧
      ∀ row ∈ rows, SafeBatch context row.2 := by
  have hlength : (emitRowIds rowIdStart (rows.map (·.1))).length = (rows.map (·.2)).length := by
    simp [length_emitRowIds]
  have hne : ∀ t ∈ (emitRowIds rowIdStart (rows.map (·.1))).zipWith inlinedTuple (rows.map (·.2)),
      t ≠ [] := by
    intro t ht
    rw [← List.map_uncurry_zip_eq_zipWith] at ht
    obtain ⟨⟨rid, cells⟩, -, rfl⟩ := List.mem_map.1 ht
    simp [inlinedTuple]
  have hcons : (emitRowIds rowIdStart (rows.map (·.1))).zipWith inlinedTuple (rows.map (·.2)) ≠
      [] := by
    intro h
    have hzero := congrArg List.length h
    simp only [List.length_zipWith, hlength, Nat.min_self, List.length_map,
      List.length_nil] at hzero
    exact hrows (List.length_eq_zero_iff.1 hzero)
  rw [userTextSurvives_iff_safeBatch, formatInlinedDataInsert, chunkValuesStatements,
    safeBatch_chunkValuesLoop hne, safeBatch_zipWith_tuples hlength,
    List.forall_mem_map]
  simp only [safeBatch_nil, safeBatch_cons, safe_fixed, hcons, true_and, and_true, ne_eq,
    not_false_eq_true, true_or, true_implies]
  rw [and_comm (a := (placeholder metadataCatalog).Safe context)]
  simp [Piece.Safe, Piece.userText]

end Generators

end DuckLake
