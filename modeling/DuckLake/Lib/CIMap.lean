import DuckLake.Lib.Text

/-!
# Maps with case-insensitive keys

An association list whose keys differ pairwise after case folding. The order of the entries is
arbitrary, as it is in a hash table: a lookup only depends on the folded key.
-/

namespace DuckLake

structure CIMap (V : Type) where
  entries : List (Text × V)
  distinct : entries.Pairwise fun a b => a.1.fold ≠ b.1.fold

namespace CIMap

variable {V : Type}

instance : EmptyCollection (CIMap V) := ⟨⟨[], .nil⟩⟩

@[simp] theorem entries_empty : (∅ : CIMap V).entries = [] := rfl

def find? (m : CIMap V) (key : Text) : Option V :=
  (m.entries.find? fun e => e.1.ciEquals key).map (·.2)

def contains (m : CIMap V) (key : Text) : Bool := (m.find? key).isSome

@[simp] theorem find?_empty {key : Text} : (∅ : CIMap V).find? key = none := rfl

theorem contains_iff {m : CIMap V} {key : Text} :
    m.contains key = true ↔ ∃ e ∈ m.entries, e.1.fold = key.fold := by
  simp [contains, find?]

theorem find?_eq_some_iff {m : CIMap V} {key : Text} {v : V} :
    m.find? key = some v ↔ ∃ e ∈ m.entries, e.1.fold = key.fold ∧ e.2 = v := by
  obtain ⟨l, hl⟩ := m
  simp only [find?, Text.ciEquals]
  induction l with
  | nil => simp
  | cons e l ih =>
    obtain ⟨he, hl⟩ := List.pairwise_cons.1 hl
    by_cases h : e.1.fold = key.fold
    · simp only [List.find?_cons, List.mem_cons, exists_eq_or_imp, h, true_and, beq_self_eq_true,
        Option.map_some, Option.some.injEq, iff_self_or]
      rintro ⟨e', he', h', -⟩
      exact absurd (h.trans h'.symm) (he e' he')
    · simp only [List.find?_cons, beq_eq_false_iff_ne.2 h, List.mem_cons, exists_eq_or_imp, h,
        false_and, false_or]
      exact ih hl

theorem find?_congr {m : CIMap V} {k k' : Text} (h : k.fold = k'.fold) :
    m.find? k = m.find? k' := by
  simp only [find?, Text.ciEquals, h]

/-! ## Updating the value at a key -/

def updateList (key : Text) (f : V → V) (init : V) : List (Text × V) → List (Text × V)
  | [] => [(key, f init)]
  | e :: l => if e.1.ciEquals key then (e.1, f e.2) :: l else e :: updateList key f init l

theorem mem_updateList {key : Text} {f : V → V} {init : V} {l : List (Text × V)} {e : Text × V}
    (h : e ∈ updateList key f init l) :
    (∃ e' ∈ l, e'.1 = e.1 ∧ (e'.2 = e.2 ∨ f e'.2 = e.2)) ∨ e = (key, f init) := by
  induction l with
  | nil => exact .inr (List.mem_singleton.1 h)
  | cons e' l ih =>
    rw [updateList] at h
    split at h
    · rcases List.mem_cons.1 h with rfl | h
      · exact .inl ⟨e', by simp, rfl, .inr rfl⟩
      · exact .inl ⟨e, by simp [h], rfl, .inl rfl⟩
    · rcases List.mem_cons.1 h with rfl | h
      · exact .inl ⟨e, by simp, rfl, .inl rfl⟩
      · rcases ih h with ⟨e'', he'', heq⟩ | heq
        · exact .inl ⟨e'', by simp [he''], heq⟩
        · exact .inr heq

theorem updateList_ne_nil {key : Text} {f : V → V} {init : V} {l : List (Text × V)} :
    updateList key f init l ≠ [] := by
  cases l with
  | nil => simp [updateList]
  | cons e l =>
    rw [updateList]
    split <;> simp

theorem distinct_updateList {key : Text} {f : V → V} {init : V} {l : List (Text × V)}
    (h : l.Pairwise fun a b => a.1.fold ≠ b.1.fold) :
    (updateList key f init l).Pairwise fun a b => a.1.fold ≠ b.1.fold := by
  induction l with
  | nil => simp [updateList]
  | cons e l ih =>
    obtain ⟨he, hl⟩ := List.pairwise_cons.1 h
    rw [updateList]
    split
    · exact List.pairwise_cons.2 ⟨he, hl⟩
    · rename_i hne
      refine List.pairwise_cons.2 ⟨fun e' he' => ?_, ih hl⟩
      rcases mem_updateList he' with ⟨e'', he'', heq, -⟩ | heq
      · exact heq ▸ he e'' he''
      · rw [heq]
        simpa using hne

/-- Where a key is only spelled in one way, assigning to it changes no other key. -/
theorem mem_updateList_of_ne {key k : Text} {f : V → V} {init v : V} {l : List (Text × V)}
    (h : ∀ e ∈ l, e.1.fold = key.fold → e.1 = key) (hk : k ≠ key) :
    (k, v) ∈ updateList key f init l ↔ (k, v) ∈ l := by
  induction l with
  | nil => simp [updateList, hk]
  | cons e l ih =>
    rw [updateList]
    split
    · rename_i hfold
      obtain rfl : e.1 = key := h e (by simp) (Text.ciEquals_iff.1 hfold)
      have hne : (k, v) ≠ e := fun heq => hk (congrArg Prod.fst heq)
      have hne' : (k, v) ≠ (e.1, f e.2) := fun heq => hk (congrArg Prod.fst heq)
      rw [List.mem_cons, List.mem_cons, or_iff_right hne, or_iff_right hne']
    · rw [List.mem_cons, List.mem_cons, ih fun e' he' => h e' (by simp [he'])]

theorem mem_updateList_self {key : Text} {init : V} {l : List (Text × V)}
    (h : ∀ e ∈ l, e.1.fold = key.fold → e.1 = key) :
    (key, init) ∈ updateList key (fun _ => init) init l := by
  induction l with
  | nil => simp [updateList]
  | cons e l ih =>
    rw [updateList]
    split
    · rename_i hfold
      rw [h e (by simp) (Text.ciEquals_iff.1 hfold)]
      exact .head _
    · exact .tail _ (ih fun e' he' => h e' (by simp [he']))

/-- The value at `key`, or `init` when the key is new, replaced by its image under `f`. -/
def update (m : CIMap V) (key : Text) (f : V → V) (init : V) : CIMap V :=
  ⟨updateList key f init m.entries, distinct_updateList m.distinct⟩

/-- Insertion that keeps the value of a key that is already there. -/
def insert (m : CIMap V) (key : Text) (value : V) : CIMap V := m.update key id value

theorem find?_update {m : CIMap V} {key k : Text} {f : V → V} {init : V} :
    (m.update key f init).find? k =
      if key.fold = k.fold then some (f ((m.find? key).getD init)) else m.find? k := by
  obtain ⟨l, hl⟩ := m
  simp only [update, find?, Text.ciEquals]
  clear hl
  induction l with
  | nil => by_cases h : key.fold = k.fold <;> simp [updateList, h]
  | cons e l ih =>
    by_cases he : e.1.fold = key.fold
    · by_cases h : key.fold = k.fold
      · simp [updateList, Text.ciEquals, he, h]
      · simp [updateList, Text.ciEquals, he, h]
    · by_cases hk : e.1.fold = k.fold
      · have h : key.fold ≠ k.fold := fun h => he (hk.trans h.symm)
        simp [updateList, Text.ciEquals, hk, h, h.symm]
      · simp only [updateList, Text.ciEquals, beq_eq_false_iff_ne.2 he, Bool.false_eq_true,
          if_false, List.find?_cons, beq_eq_false_iff_ne.2 hk]
        exact ih

theorem contains_insert {m : CIMap V} {key k : Text} {value : V} :
    (m.insert key value).contains k = true ↔ key.fold = k.fold ∨ m.contains k = true := by
  rw [contains, insert, find?_update]
  by_cases h : key.fold = k.fold <;> simp [h, contains]

theorem mem_insert {m : CIMap V} {key k : Text} {value v : V} :
    (k, v) ∈ (m.insert key value).entries ↔
      (k, v) ∈ m.entries ∨ m.contains key = false ∧ k = key ∧ v = value := by
  have hlist : ∀ l : List (Text × V), (k, v) ∈ updateList key id value l ↔
      (k, v) ∈ l ∨ (∀ e ∈ l, e.1.fold ≠ key.fold) ∧ k = key ∧ v = value := by
    intro l
    induction l with
    | nil => simp [updateList]
    | cons e l ih =>
      obtain ⟨k', v'⟩ := e
      rw [updateList, List.forall_mem_cons]
      split
      · rename_i h
        simp [Text.ciEquals_iff.1 h]
      · rename_i h
        have h : k'.fold ≠ key.fold := fun heq => h (Text.ciEquals_iff.2 heq)
        rw [List.mem_cons, List.mem_cons, ih, or_assoc, and_iff_right h]
  have hcontains : m.contains key = false ↔ ∀ e ∈ m.entries, e.1.fold ≠ key.fold := by
    rw [← Bool.not_eq_true, contains_iff]
    push Not
    rfl
  rw [hcontains]
  exact hlist m.entries

end CIMap

/-- A set of texts up to case. -/
abbrev CISet := CIMap Unit

end DuckLake
