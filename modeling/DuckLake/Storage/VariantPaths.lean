import DuckLake.Common.Types
import DuckLake.Common.Util

/-!
# Paths of shredded fields

A shredded field of a variant is named by its path, in which the fields of structs are quoted and
the elements of lists are not. The path is written when the statistics of a file are gathered, and
it is parsed when the statistics are used. `fieldPath_pathName_iff` says which paths come back.
-/

namespace DuckLake

/-- One step into a variant. -/
inductive VariantStep where
  | field (name : Text)
  | element
deriving DecidableEq

/-- The type of a variant while it is shredded: the parts of each layer are a struct. -/
inductive VariantType where
  | primitive (type : DuckLakeType)
  | struct (children : List (Text × VariantType))
  | list (child : VariantType)

/-- How the engine compares the names of struct fields, and prints a type. -/
class VariantTypes where
  sameIdentifier : Text → Text → Bool
  typeToString : VariantType → Text

/-! ## Writing a path -/

section Write

variable [SQLWriter]

open SQLWriter

def quoteVariantFieldName (fieldName : Text) : Text := quotedIdentifier fieldName

/-- `+= "."`, unless nothing stands before it. -/
def appendStep (variantFieldName step : Text) : Text :=
  if variantFieldName ≠ [] then variantFieldName ++ '.' :: step else step

variable [VariantTypes]

open VariantTypes

/-- `ExtractVariantType` below the first layer; the names are those that are left of `all`. -/
def extractVariantLayer (all : List Text) : List Text → VariantType → Text →
    Except Exception (VariantType × Text)
  | names, .struct children, variantFieldName =>
    match children.find? fun child => sameIdentifier child.1 "typed_value".toList with
    | none => invalidInputException ("Could not find typed_value field in type " ++
        typeToString (.struct children))
    | some (_, typedValue) =>
      match names with
      -- reached the final type - this is the type
      | [] => .ok (typedValue, variantFieldName)
      | fieldName :: names =>
        match typedValue with
        | .list child =>
          if fieldName ≠ "element".toList then
            invalidInputException ("Found a list at this layer - expected a field named \"element\" " ++
              "but got a field named \"" ++ fieldName ++ "\"")
          else extractVariantLayer all names child (appendStep variantFieldName "element".toList)
        | .struct fields =>
          match fields.find? fun child => sameIdentifier child.1 fieldName with
          | none => invalidInputException ("Could not find field " ++ fieldName ++ " in type " ++
              typeToString (.struct children))
          | some (_, child) => extractVariantLayer all names child
              (appendStep variantFieldName (quoteVariantFieldName fieldName))
        | .primitive _ => invalidInputException ("Expected variant type to be struct at this layer " ++
            "while looking for nested field " ++ Text.join ".".toList all ++ " - but found " ++
            typeToString (.struct children))
  | _, type, _ => invalidInputException ("Expected variant type to be struct at this layer while " ++
      "looking for field " ++ Text.join ".".toList all ++ " - but found " ++ typeToString type)

/-- The shredded type at the end of a path, and the name of the field. -/
def extractVariantType (variantType : VariantType) (fieldNames : List Text) :
    Except Exception (VariantType × Text) :=
  extractVariantLayer fieldNames fieldNames variantType
    (if fieldNames = [] then "root".toList else [])

/-- The steps that lead to the names in a type. -/
def variantPath : VariantType → List Text → List VariantStep
  | .struct children, name :: names =>
    match children.find? fun child => sameIdentifier child.1 "typed_value".toList with
    | some (_, .list child) => .element :: variantPath child names
    | some (_, .struct fields) =>
      match fields.find? fun child => sameIdentifier child.1 name with
      | some (_, child) => .field name :: variantPath child names
      | none => []
    | _ => []
  | _, _ => []

end Write

/-! ## Parsing a path -/

/-- The name up to the closing quote, and what follows it. -/
def readQuotedName : Text → Text × Text
  | [] => ([], [])
  | '"' :: '"' :: t =>
    -- an escaped quote is added once here and once more with the other characters
    ('"' :: '"' :: (readQuotedName t).1, (readQuotedName t).2)
  | '"' :: t => ([], t)
  | c :: t => (c :: (readQuotedName t).1, (readQuotedName t).2)

/-- One step, and what follows it. -/
def readStep : Text → Except Exception (VariantStep × Text)
  | '"' :: t => .ok (.field (readQuotedName t).1, (readQuotedName t).2)
  | t =>
    let subfield := t.takeWhile (· ≠ '.')
    if subfield ≠ "element".toList then
      invalidInputException ("Invalid unquoted field " ++ subfield ++ ", expected element or root")
    else .ok (.element, t.dropWhile (· ≠ '.'))

theorem length_readQuotedName (t : Text) : (readQuotedName t).2.length ≤ t.length := by
  fun_induction readQuotedName t with
  | case1 => exact le_rfl
  | case2 t ih => exact ih.trans (by simp [Nat.le_succ_of_le])
  | case3 t => exact Nat.le_succ _
  | case4 c t _ _ ih => exact ih.trans (Nat.le_succ _)

theorem length_readStep {t after : Text} {step : VariantStep} (h : readStep t = .ok (step, after)) :
    after.length ≤ t.length := by
  unfold readStep at h
  split at h
  · cases h
    exact (length_readQuotedName _).trans (Nat.le_succ _)
  · simp only at h
    split at h
    · cases h
    · cases h
      exact List.length_dropWhile_le _ _

inductive NestedVariantStats where
  | mk (fullFieldName : Text) (childNames : List Text) (childStats : List NestedVariantStats)

namespace NestedVariantStats

def empty : NestedVariantStats := .mk [] [] []

def fullFieldName : NestedVariantStats → Text
  | .mk name _ _ => name

def setFullFieldName (fieldName : Text) : NestedVariantStats → NestedVariantStats
  | .mk _ names children => .mk fieldName names children

/-- The statistics below a step; they are empty if there are none yet. -/
def child : NestedVariantStats → VariantStep → NestedVariantStats
  | .mk _ _ children, .element => children.getLastD empty
  | .mk _ names children, .field name => (children[names.idxOf name]?).getD empty

local instance : LawfulBEq Text := inferInstanceAs (LawfulBEq (List Char))

def setChild (stats : NestedVariantStats) (step : VariantStep) (new : NestedVariantStats) :
    NestedVariantStats :=
  match stats, step with
  | .mk fieldName names children, .element =>
    .mk fieldName names (children.dropLast ++ [new])
  | .mk fieldName names children, .field name =>
    if name ∈ names then .mk fieldName names (children.set (names.idxOf name) new)
    else .mk fieldName (names ++ [name]) (children ++ [new])

end NestedVariantStats

open NestedVariantStats

def formatException (fieldName : Text) : Exception :=
  ⟨.invalidInput, "Incorrectly formatted field name " ++ fieldName⟩

/-- The loop of `ToNestedVariantStats`, at the position where `rest` begins. -/
def toNestedLoop (fieldName : Text) (stats : NestedVariantStats) (rest : Text) :
    Except Exception NestedVariantStats :=
  if rest = [] then .error (formatException fieldName)
  else match _h : readStep rest with
    | .error e => .error e
    | .ok (step, []) => .ok (stats.setChild step ((stats.child step).setFullFieldName fieldName))
    | .ok (step, '.' :: rest) =>
      (toNestedLoop fieldName (stats.child step) rest).map (stats.setChild step)
    | .ok _ => .error (formatException fieldName)
termination_by rest.length
decreasing_by exact length_readStep _h

def toNestedVariantStats (fieldName : Text) (stats : NestedVariantStats) :
    Except Exception NestedVariantStats :=
  if fieldName = "root".toList then .ok (stats.setFullFieldName fieldName)
  else toNestedLoop fieldName stats fieldName

/-! ### The path that a name stands for -/

/-- The steps that a name is read as. -/
def readSteps (fieldName : Text) (rest : Text) : Except Exception (List VariantStep) :=
  if rest = [] then .error (formatException fieldName)
  else match _h : readStep rest with
    | .error e => .error e
    | .ok (step, []) => .ok [step]
    | .ok (step, '.' :: rest) => (readSteps fieldName rest).map (step :: ·)
    | .ok _ => .error (formatException fieldName)
termination_by rest.length
decreasing_by exact length_readStep _h

/-- The path of a field within the nested statistics. -/
def fieldPath (fieldName : Text) : Except Exception (List VariantStep) :=
  if fieldName = "root".toList then .ok [] else readSteps fieldName fieldName

/-- The field is put at the end of the path. -/
def NestedVariantStats.place (fieldName : Text) :
    NestedVariantStats → List VariantStep → NestedVariantStats
  | stats, [] => stats.setFullFieldName fieldName
  | stats, step :: path => stats.setChild step ((stats.child step).place fieldName path)

theorem readSteps_last {fieldName rest : Text} {step : VariantStep} (hne : rest ≠ [])
    (h : readStep rest = .ok (step, [])) : readSteps fieldName rest = .ok [step] := by
  rw [readSteps, if_neg hne]
  split <;> simp_all

theorem readSteps_dot {fieldName rest rest' : Text} {step : VariantStep} (hne : rest ≠ [])
    (h : readStep rest = .ok (step, '.' :: rest')) :
    readSteps fieldName rest = (readSteps fieldName rest').map (step :: ·) := by
  rw [readSteps, if_neg hne]
  split
  · simp_all
  · simp_all
  · rename_i heq
    rw [h, Except.ok.injEq, Prod.mk.injEq, List.cons.injEq] at heq
    obtain ⟨rfl, -, rfl⟩ := heq
    rfl
  · simp_all

theorem toNestedLoop_eq {fieldName : Text} {stats : NestedVariantStats} {rest : Text} :
    toNestedLoop fieldName stats rest =
      (readSteps fieldName rest).map (stats.place fieldName) := by
  fun_induction toNestedLoop fieldName stats rest with
  | case1 => rw [readSteps, if_pos rfl]; rfl
  | case2 stats rest hne e h =>
    rw [readSteps, if_neg hne]
    split <;> simp_all [Except.map]
  | case3 stats rest hne step h =>
    rw [readSteps_last hne h]
    rfl
  | case4 stats rest hne step rest' h ih =>
    rw [ih, readSteps_dot hne h]
    cases readSteps fieldName rest' <;> rfl
  | case5 stats rest hne result hnil hdot h =>
    rw [readSteps, if_neg hne]
    split
    · simp_all
    · rename_i heq
      exact absurd (Except.ok.inj (h.symm.trans heq)) (hnil _)
    · rename_i heq
      exact absurd (Except.ok.inj (h.symm.trans heq)) (hdot _ _)
    · rfl

/-- The statistics of a field are put at the path that its name is read as. -/
theorem toNestedVariantStats_eq (fieldName : Text) (stats : NestedVariantStats) :
    toNestedVariantStats fieldName stats = (fieldPath fieldName).map (stats.place fieldName) := by
  unfold toNestedVariantStats fieldPath
  split
  · rfl
  · exact toNestedLoop_eq

/-! ## The path comes back -/

theorem Text.escape_injective (q : Char) : Function.Injective (Text.escape q) := by
  intro s t h
  induction s generalizing t with
  | nil =>
    cases t with
    | nil => rfl
    | cons d t => by_cases hd : d = q <;> simp [escape, hd] at h
  | cons c s ih =>
    cases t with
    | nil => by_cases hc : c = q <;> simp [escape, hc] at h
    | cons d t =>
      by_cases hc : c = q
      · by_cases hd : d = q
        · simp only [escape, hc, hd, if_true, List.cons.injEq, true_and] at h
          rw [hc, hd, ih h]
        · simp only [escape, hc, hd, if_true, if_false, List.cons.injEq] at h
          exact absurd h.1.symm hd
      · by_cases hd : d = q
        · simp only [escape, hc, hd, if_true, if_false, List.cons.injEq] at h
          exact h.1.elim
        · simp only [escape, hc, hd, if_false, List.cons.injEq] at h
          rw [h.1, ih h.2]

theorem Text.length_escape (q : Char) (t : Text) :
    (Text.escape q t).length = t.length + t.count q := by
  induction t with
  | nil => rfl
  | cons c t ih =>
    by_cases hc : c = q
    · simp [escape, hc, ih]
      omega
    · simp [escape, hc, ih]
      omega

theorem Text.escape_eq_self {q : Char} {t : Text} : Text.escape q t = t ↔ q ∉ t := by
  constructor
  · intro h
    have hlength := Text.length_escape q t
    rw [h] at hlength
    exact List.count_eq_zero.1 (by omega)
  · intro h
    induction t with
    | nil => rfl
    | cons c t ih =>
      rw [List.mem_cons, not_or] at h
      rw [escape, if_neg (Ne.symm h.1), ih h.2]

namespace VariantStep

def name : VariantStep → Text
  | .field name => name
  | .element => "element".toList

/-- The step that is read for a step that was written: quotes remain doubled. -/
def doubled : VariantStep → VariantStep
  | .field name => .field (Text.escape '"' name)
  | .element => .element

theorem doubled_injective : Function.Injective doubled := by
  rintro (name | _) (name' | _) h
  · rw [Text.escape_injective '"' (VariantStep.field.inj h)]
  · cases h
  · cases h
  · rfl

end VariantStep

section Paths

variable [SQLWriter]

def stepText : VariantStep → Text
  | .field name => quoteVariantFieldName name
  | .element => "element".toList

theorem stepText_field (name : Text) : stepText (.field name) = Text.writeQuoted '"' name :=
  SQLWriter.quotedIdentifier_eq name

theorem stepText_element : stepText .element = "element".toList := rfl

/-- The name of a field. -/
def pathName : List VariantStep → Text
  | [] => "root".toList
  | path => Text.join ['.'] (path.map stepText)

theorem pathName_cons {step : VariantStep} {path : List VariantStep} :
    pathName (step :: path) = Text.join ['.'] ((step :: path).map stepText) := rfl

omit [SQLWriter] in
theorem readQuotedName_escape (name : Text) {after : Text} (h : after.head? ≠ some '"') :
    readQuotedName (Text.escape '"' name ++ '"' :: after) = (Text.escape '"' name, after) := by
  induction name with
  | nil =>
    cases after with
    | nil => rfl
    | cons c after =>
      have hc : c ≠ '"' := fun hc => h (by rw [hc]; rfl)
      simp [Text.escape, readQuotedName, hc]
  | cons c name ih =>
    by_cases hc : c = '"'
    · simp [Text.escape, readQuotedName, hc, ih]
    · rw [Text.escape, if_neg hc, List.cons_append, readQuotedName, ih]
      · simp [hc]
      · simp [hc]

omit [SQLWriter] in
theorem readStep_element {t after : Text} (h : t.head? ≠ some '"')
    (htake : t.takeWhile (· ≠ '.') = "element".toList) (hdrop : t.dropWhile (· ≠ '.') = after) :
    readStep t = .ok (.element, after) := by
  rw [readStep]
  · rw [if_neg (by simpa using htake), hdrop]
  · rintro t rfl
    exact h rfl

theorem readStep_stepText (step : VariantStep) {after : Text}
    (h : after = [] ∨ after.head? = some '.') :
    readStep (stepText step ++ after) = .ok (step.doubled, after) := by
  cases step with
  | field name =>
    have hquote : after.head? ≠ some '"' := by
      rcases h with rfl | h
      · exact nofun
      · rw [h]
        decide
    rw [stepText_field, Text.writeQuoted]
    simp only [List.cons_append, List.append_assoc, List.nil_append, readStep]
    rw [readQuotedName_escape name hquote]
    rfl
  | element =>
    have hletters : ∀ c ∈ "element".toList, (decide (c ≠ '.')) = true :=
      List.all_eq_true.1 (by decide)
    have hstop : after.takeWhile (· ≠ '.') = [] ∧ after.dropWhile (· ≠ '.') = after := by
      cases after with
      | nil => exact ⟨rfl, rfl⟩
      | cons c after =>
        have hc : c = '.' := by simpa using h
        simp [hc]
    have htake : (stepText .element ++ after).takeWhile (· ≠ '.') = "element".toList := by
      rw [stepText_element, List.takeWhile_append_of_pos hletters, hstop.1, List.append_nil]
    have hdrop : (stepText .element ++ after).dropWhile (· ≠ '.') = after := by
      rw [stepText_element, List.dropWhile_append_of_pos hletters, hstop.2]
    exact readStep_element (fun hquote => absurd (Option.some.inj hquote) (by decide)) htake hdrop

theorem stepText_ne_nil (step : VariantStep) : stepText step ≠ [] := by
  cases step with
  | field name =>
    rw [stepText_field]
    exact List.cons_ne_nil _ _
  | element => exact List.cons_ne_nil _ _

theorem readSteps_join (fieldName : Text) {path : List VariantStep} (h : path ≠ []) :
    readSteps fieldName (Text.join ['.'] (path.map stepText)) =
      .ok (path.map VariantStep.doubled) := by
  induction path with
  | nil => exact absurd rfl h
  | cons step path ih =>
    cases path with
    | nil =>
      have hread := readStep_stepText step (.inl rfl)
      rw [List.append_nil] at hread
      exact readSteps_last (stepText_ne_nil step) hread
    | cons next path =>
      have hjoin : Text.join ['.'] ((step :: next :: path).map stepText) =
          stepText step ++ '.' :: Text.join ['.'] ((next :: path).map stepText) := by
        rw [List.map_cons, Text.join_cons (by simp), List.append_assoc]
        rfl
      rw [hjoin, readSteps_dot (by simp) (readStep_stepText step (.inr rfl)), ih (by simp)]
      rfl

theorem pathName_ne_root {path : List VariantStep} (h : path ≠ []) :
    pathName path ≠ "root".toList := by
  have hhead : ∀ step : VariantStep, (stepText step).head? ≠ some 'r' := by
    rintro (name | _)
    · rw [stepText_field]
      exact fun h => absurd (Option.some.inj h) (by decide)
    · exact fun h => absurd (Option.some.inj h) (by decide)
  have hpath : ∃ step after, pathName path = stepText step ++ after := by
    cases path with
    | nil => exact absurd rfl h
    | cons step path =>
      refine ⟨step, ?_⟩
      cases path with
      | nil => exact ⟨[], (List.append_nil _).symm⟩
      | cons next path =>
        exact ⟨_, by rw [pathName_cons, List.map_cons, Text.join_cons (by simp), List.append_assoc]⟩
  obtain ⟨step, after, hpath⟩ := hpath
  intro hroot
  apply hhead step
  rw [← List.head?_append_of_ne_nil _ (stepText_ne_nil step), ← hpath, hroot]
  rfl

theorem fieldPath_pathName (path : List VariantStep) :
    fieldPath (pathName path) = .ok (path.map VariantStep.doubled) := by
  cases path with
  | nil => rfl
  | cons step path =>
    rw [fieldPath, if_neg (pathName_ne_root (by simp)), pathName_cons, readSteps_join _ (by simp)]

/-- The path comes back exactly if no name in it has a quote. -/
theorem fieldPath_pathName_iff (path : List VariantStep) :
    fieldPath (pathName path) = .ok path ↔ ∀ name, .field name ∈ path → '"' ∉ name := by
  have hdoubled : ∀ step : VariantStep, step.doubled = step ↔
      ∀ name, step = .field name → '"' ∉ name := by
    rintro (name | _)
    · simp [VariantStep.doubled, Text.escape_eq_self]
    · simp [VariantStep.doubled]
  rw [fieldPath_pathName, Except.ok.injEq]
  constructor
  · intro h name hmem
    refine (hdoubled _).1 ?_ name rfl
    exact List.map_inj_left.1 (h.trans (List.map_id path).symm) _ hmem
  · intro h
    refine (List.map_congr_left fun step hstep => ?_).trans (List.map_id path)
    exact (hdoubled step).2 fun name hname => h name (hname ▸ hstep)

/-- Distinct paths have distinct names. -/
theorem pathName_injective : Function.Injective pathName := by
  intro path path' h
  have hread : (Except.ok (path.map VariantStep.doubled) : Except Exception _) =
      .ok (path'.map VariantStep.doubled) := by
    rw [← fieldPath_pathName, ← fieldPath_pathName, h]
  exact List.map_injective_iff.2 VariantStep.doubled_injective (Except.ok.inj hread)

/-! ### The names that are written -/

theorem appendStep_join (path : List VariantStep) (step : VariantStep) :
    appendStep (Text.join ['.'] (path.map stepText)) (stepText step) =
      Text.join ['.'] ((path ++ [step]).map stepText) := by
  cases path with
  | nil => rfl
  | cons first path =>
    have hne : Text.join ['.'] ((first :: path).map stepText) ≠ [] :=
      Text.join_ne_nil (by simp) (fun t ht => by
        obtain ⟨step, -, rfl⟩ := List.mem_map.1 ht
        exact stepText_ne_nil step)
    rw [appendStep, if_pos hne, List.map_append, Text.join_append (by simp) (by simp)]
    simp [Text.join]

variable [VariantTypes]

theorem extractVariantLayer_ok {all names : List Text} {variantType type : VariantType}
    {path : List VariantStep} {fieldName : Text}
    (h : extractVariantLayer all names variantType (Text.join ['.'] (path.map stepText)) =
      .ok (type, fieldName)) :
    (variantPath variantType names).map VariantStep.name = names ∧
      fieldName = Text.join ['.'] ((path ++ variantPath variantType names).map stepText) := by
  induction names generalizing variantType path with
  | nil =>
    cases variantType with
    | primitive => cases h
    | list => cases h
    | struct children =>
      rw [extractVariantLayer] at h
      split at h
      · cases h
      · refine ⟨rfl, ?_⟩
        rw [variantPath, List.append_nil]
        · exact (Prod.mk.inj (Except.ok.inj h)).2.symm
        · exact nofun
  | cons name names ih =>
    -- the next layer goes on with one step more
    have hnext : ∀ (step : VariantStep) (child : VariantType), step.name = name →
        extractVariantLayer all names child
          (appendStep (Text.join ['.'] (path.map stepText)) (stepText step)) =
          .ok (type, fieldName) →
        (step :: variantPath child names).map VariantStep.name = name :: names ∧
          fieldName = Text.join ['.'] ((path ++ step :: variantPath child names).map stepText) := by
      intro step child hname hchild
      rw [appendStep_join] at hchild
      obtain ⟨hsteps, hfield⟩ := ih hchild
      refine ⟨by rw [List.map_cons, hsteps, hname], ?_⟩
      rw [hfield, List.append_assoc]
      rfl
    cases variantType with
    | primitive => cases h
    | list => cases h
    | struct children =>
      rw [extractVariantLayer] at h
      rw [variantPath]
      split at h
      · cases h
      · rename_i typedValue htyped
        cases typedValue with
        | primitive => cases h
        | list child =>
          simp only [htyped]
          simp only at h
          split at h
          · cases h
          · rename_i hname
            exact hnext .element child (not_not.1 hname).symm h
        | struct fields =>
          simp only [htyped]
          simp only at h
          split at h
          · cases h
          · rename_i child hchild
            simp only [hchild]
            exact hnext (.field name) child rfl h

/-- The name of a field is that of the path to the names that were looked for. -/
theorem extractVariantType_ok {variantType type : VariantType} {names : List Text}
    {fieldName : Text} (h : extractVariantType variantType names = .ok (type, fieldName)) :
    (variantPath variantType names).map VariantStep.name = names ∧
      fieldName = pathName (variantPath variantType names) := by
  cases names with
  | nil =>
    rw [extractVariantType, if_pos rfl] at h
    cases variantType with
    | primitive => cases h
    | list => cases h
    | struct children =>
      rw [extractVariantLayer] at h
      split at h
      · cases h
      · refine ⟨rfl, ?_⟩
        exact (Prod.mk.inj (Except.ok.inj h)).2.symm
  | cons name names =>
    obtain ⟨hnames, hfield⟩ := @extractVariantLayer_ok _ _ _ _ _ _ [] _ h
    refine ⟨hnames, ?_⟩
    cases hpath : variantPath variantType (name :: names) with
    | nil =>
      rw [hpath] at hnames
      cases hnames
    | cons =>
      rw [hpath] at hfield
      exact hfield

end Paths

end DuckLake
