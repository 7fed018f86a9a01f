import DuckLake.Lib.Chains
import DuckLake.Lib.Guard
import DuckLake.Storage.MetadataInfo

/-!
# Schemas whose parents are not visible

Loading a snapshot skips the schemas that are nested in a schema that was dropped. The walk along
the parents of a schema stops at a schema that an earlier walk has decided: `Memo.Sound` is what
the two memo sets say.
-/

namespace DuckLake

/-! ## The walk along the parents -/

/-- The entry of `schema_by_id`, which is the last one with the id. -/
def schemaById (schemas : List DuckLakeSchemaInfo) (id : SchemaIndex) :
    Option { s // s ∈ schemas } :=
  schemas.attach.reverse.find? fun s => s.1.id == id

/-- The ids that no walk has been at. -/
def unvisited (schemas : List DuckLakeSchemaInfo) (visited : OrdSet SchemaIndex) :
    List DuckLakeSchemaInfo :=
  schemas.filter fun s => s.id ∉ visited

theorem unvisited_decreases {schemas : List DuckLakeSchemaInfo} {visited : OrdSet SchemaIndex}
    {s : DuckLakeSchemaInfo} (hs : s ∈ schemas) (h : s.id ∉ visited) :
    (unvisited schemas (visited.insert s.id)).length < (unvisited schemas visited).length := by
  have hfilter : unvisited schemas (visited.insert s.id) =
      (unvisited schemas visited).filter fun t => t.id ≠ s.id := by
    simp [unvisited, List.filter_filter]
  rw [hfilter]
  exact List.length_filter_lt_length_iff_exists.2 ⟨s, List.mem_filter.2 ⟨hs, by simpa using h⟩, by simp⟩

def cyclicParentException (schema : DuckLakeSchemaInfo) : Exception where
  type := .invalidInput
  message := "Failed to load DuckLake - schema \"" ++ schema.name ++ "\" (id " ++
    schema.id.toText ++ ") has a cyclic parent schema chain"

/-- The sets `reachable` and `unreachable`. -/
structure Memo where
  reachable : OrdSet SchemaIndex := ∅
  unreachable : OrdSet SchemaIndex := ∅

/-- The loop over `current`: the schemas of `chain`, and whether the chain is unreachable. -/
def walkParents (schemas : List DuckLakeSchemaInfo) (memo : Memo)
    (current : { s // s ∈ schemas }) (visited : OrdSet SchemaIndex)
    (chain : List DuckLakeSchemaInfo) : Except Exception (List DuckLakeSchemaInfo × Bool) :=
  if current.1.id ∈ memo.reachable then .ok (chain, false)
  else if current.1.id ∈ memo.unreachable then .ok (chain, true)
  else if _h : current.1.id ∈ visited then .error (cyclicParentException current.1)
  else match current.1.parentId with
    | none => .ok (chain ++ [current.1], false)
    | some parent => match schemaById schemas parent with
      | none => .ok (chain ++ [current.1], true)
      | some next =>
        walkParents schemas memo next (visited.insert current.1.id) (chain ++ [current.1])
termination_by (unvisited schemas visited).length
decreasing_by exact unvisited_decreases current.2 _h

def Memo.mark (memo : Memo) (isUnreachable : Bool) (chain : List DuckLakeSchemaInfo) : Memo :=
  chain.foldl (fun memo entry =>
    if isUnreachable then { memo with unreachable := memo.unreachable.insert entry.id }
    else { memo with reachable := memo.reachable.insert entry.id }) memo

def visitSchema (schemas : List DuckLakeSchemaInfo) (memo : Memo) (schema : { s // s ∈ schemas }) :
    Except Exception Memo := do
  let (chain, isUnreachable) ← walkParents schemas memo schema ∅ []
  return memo.mark isUnreachable chain

def findUnreachableSchemas (schemas : List DuckLakeSchemaInfo) :
    Except Exception (OrdSet SchemaIndex) := do
  let memo ← schemas.attach.foldlM (visitSchema schemas) {}
  return memo.unreachable

/-! ## Parent chains -/

section

variable (schemas : List DuckLakeSchemaInfo)

def IsParent (s parent : DuckLakeSchemaInfo) : Prop :=
  parent ∈ schemas ∧ s.parentId = some parent.id

/-- The parent chain of the schema ends at a root. -/
def ReachesRoot (s : DuckLakeSchemaInfo) : Prop :=
  ∃ top, Relation.ReflTransGen (IsParent schemas) s top ∧ top.parentId = none

/-- The parent chain of the schema reaches an id that is not in the list. -/
def ReachesMissing (s : DuckLakeSchemaInfo) : Prop :=
  ∃ top id, Relation.ReflTransGen (IsParent schemas) s top ∧ top.parentId = some id ∧
    id ∉ schemas.map (·.id)

def Verdict (isUnreachable : Bool) (s : DuckLakeSchemaInfo) : Prop :=
  if isUnreachable then ReachesMissing schemas s else ReachesRoot schemas s

end

variable {schemas : List DuckLakeSchemaInfo}

theorem eq_of_id_eq (hids : (schemas.map (·.id)).Nodup) {s t : DuckLakeSchemaInfo}
    (hs : s ∈ schemas) (ht : t ∈ schemas) (h : s.id = t.id) : s = t :=
  List.inj_on_of_nodup_map hids hs ht h

theorem isParent_rightUnique (hids : (schemas.map (·.id)).Nodup) :
    Relator.RightUnique (IsParent schemas) := by
  intro s p q ⟨hp, hsp⟩ ⟨hq, hsq⟩
  exact eq_of_id_eq hids hp hq (Option.some.inj (hsp.symm.trans hsq))

theorem ReachesRoot.endsAt {s : DuckLakeSchemaInfo} (h : ReachesRoot schemas s) :
    ∃ top, EndsAt (IsParent schemas) s top ∧ top.parentId = none := by
  obtain ⟨top, hchain, hroot⟩ := h
  refine ⟨top, ⟨hchain, fun p hp => ?_⟩, hroot⟩
  exact nomatch hroot.symm.trans hp.2

theorem ReachesMissing.endsAt {s : DuckLakeSchemaInfo} (h : ReachesMissing schemas s) :
    ∃ top, EndsAt (IsParent schemas) s top ∧ top.parentId ≠ none := by
  obtain ⟨top, id, hchain, hparent, hmissing⟩ := h
  refine ⟨top, ⟨hchain, fun p hp => ?_⟩, by simp [hparent]⟩
  obtain rfl := Option.some.inj (hparent.symm.trans hp.2)
  exact hmissing (List.mem_map_of_mem hp.1)

theorem ReachesRoot.not_reachesMissing (hids : (schemas.map (·.id)).Nodup)
    {s : DuckLakeSchemaInfo} (hroot : ReachesRoot schemas s) : ¬ ReachesMissing schemas s := by
  intro hmissing
  obtain ⟨top, htop, hnone⟩ := hroot.endsAt
  obtain ⟨top', htop', hsome⟩ := hmissing.endsAt
  rw [htop.unique (isParent_rightUnique hids) htop'] at hnone
  exact hsome hnone

theorem Verdict.not_entersCycle (hids : (schemas.map (·.id)).Nodup) {isUnreachable : Bool}
    {s : DuckLakeSchemaInfo} (h : Verdict schemas isUnreachable s) :
    ¬ EntersCycle (IsParent schemas) s := by
  cases isUnreachable with
  | true =>
    obtain ⟨top, htop, -⟩ := ReachesMissing.endsAt h
    exact htop.not_entersCycle (isParent_rightUnique hids)
  | false =>
    obtain ⟨top, htop, -⟩ := ReachesRoot.endsAt h
    exact htop.not_entersCycle (isParent_rightUnique hids)

theorem Verdict.head {isUnreachable : Bool} {s p : DuckLakeSchemaInfo}
    (h : Verdict schemas isUnreachable p) (hp : IsParent schemas s p) :
    Verdict schemas isUnreachable s := by
  cases isUnreachable with
  | true =>
    obtain ⟨top, id, hchain, hrest⟩ := h
    exact ⟨top, id, hchain.head hp, hrest⟩
  | false =>
    obtain ⟨top, hchain, hrest⟩ := h
    exact ⟨top, hchain.head hp, hrest⟩

/-! ## The memo -/

theorem schemaById_some {id : SchemaIndex} {p : { s // s ∈ schemas }}
    (h : schemaById schemas id = some p) : p.1.id = id := by
  simpa using List.find?_some h

theorem schemaById_none {id : SchemaIndex} (h : schemaById schemas id = none) :
    id ∉ schemas.map (·.id) := by
  intro hmem
  obtain ⟨s, hs, rfl⟩ := List.mem_map.1 hmem
  have := List.find?_eq_none.1 h ⟨s, hs⟩ (by simp)
  simp at this

namespace Memo

def Holds (memo : Memo) (isUnreachable : Bool) (id : SchemaIndex) : Prop :=
  if isUnreachable then id ∈ memo.unreachable else id ∈ memo.reachable

/-- What the sets say about the schemas of the ids in them. -/
def Sound (schemas : List DuckLakeSchemaInfo) (memo : Memo) : Prop :=
  ∀ isUnreachable id, memo.Holds isUnreachable id →
    ∃ s ∈ schemas, s.id = id ∧ Verdict schemas isUnreachable s

theorem holds_mark {memo : Memo} {b c : Bool} {chain : List DuckLakeSchemaInfo} {id : SchemaIndex} :
    (memo.mark b chain).Holds c id ↔
      memo.Holds c id ∨ b = c ∧ ∃ s ∈ chain, s.id = id := by
  unfold mark
  induction chain generalizing memo with
  | nil => simp
  | cons s chain ih =>
    rw [List.foldl_cons, ih]
    cases b <;> cases c <;> simp [Holds, or_assoc, eq_comm, or_left_comm]

theorem Sound.verdict (hids : (schemas.map (·.id)).Nodup) {memo : Memo} (h : memo.Sound schemas)
    {isUnreachable : Bool} {s : DuckLakeSchemaInfo} (hs : s ∈ schemas)
    (hmem : memo.Holds isUnreachable s.id) : Verdict schemas isUnreachable s := by
  obtain ⟨t, ht, hid, hverdict⟩ := h isUnreachable s.id hmem
  rwa [← eq_of_id_eq hids ht hs hid]

theorem Sound.mark {memo : Memo} (h : memo.Sound schemas) {isUnreachable : Bool}
    {chain : List DuckLakeSchemaInfo}
    (hchain : ∀ s ∈ chain, s ∈ schemas ∧ Verdict schemas isUnreachable s) :
    (memo.mark isUnreachable chain).Sound schemas := by
  intro b id hmem
  rcases holds_mark.1 hmem with hmem | ⟨rfl, s, hs, rfl⟩
  · exact h b id hmem
  · exact ⟨s, (hchain s hs).1, rfl, (hchain s hs).2⟩

end Memo

/-! ## The walks -/

theorem walkParents_ok (hids : (schemas.map (·.id)).Nodup) {memo : Memo}
    (hsound : memo.Sound schemas) {current : { s // s ∈ schemas }} {visited : OrdSet SchemaIndex}
    {chain result : List DuckLakeSchemaInfo} {isUnreachable : Bool}
    (h : walkParents schemas memo current visited chain = .ok (result, isUnreachable)) :
    Verdict schemas isUnreachable current.1 ∧ ∃ rest, result = chain ++ rest ∧
      (∀ s ∈ rest, s ∈ schemas ∧ Verdict schemas isUnreachable s) ∧
      (memo.Holds isUnreachable current.1.id ∨ current.1 ∈ rest) := by
  induction current, visited, chain using walkParents.induct schemas memo with
  | case1 current visited chain hmem =>
    rw [walkParents, if_pos hmem] at h
    obtain ⟨rfl, rfl⟩ := Prod.mk.inj (Except.ok.inj h)
    exact ⟨hsound.verdict hids current.2 hmem, [], (List.append_nil _).symm, by simp, .inl hmem⟩
  | case2 current visited chain hno hmem =>
    rw [walkParents, if_neg hno, if_pos hmem] at h
    obtain ⟨rfl, rfl⟩ := Prod.mk.inj (Except.ok.inj h)
    exact ⟨hsound.verdict hids current.2 hmem, [], (List.append_nil _).symm, by simp, .inl hmem⟩
  | case3 current visited chain hno hno' hvisited =>
    rw [walkParents, if_neg hno, if_neg hno', dif_pos hvisited] at h
    cases h
  | case4 current visited chain hno hno' hvisited hparent =>
    rw [walkParents, if_neg hno, if_neg hno', dif_neg hvisited, hparent] at h
    obtain ⟨rfl, rfl⟩ := Prod.mk.inj (Except.ok.inj h)
    have hroot : Verdict schemas false current.1 := ⟨current.1, .refl, hparent⟩
    exact ⟨hroot, [current.1], rfl, by simpa using ⟨current.2, hroot⟩, .inr (by simp)⟩
  | case5 current visited chain hno hno' hvisited parent hparent hnone =>
    rw [walkParents, if_neg hno, if_neg hno', dif_neg hvisited] at h
    simp only [hparent, hnone] at h
    obtain ⟨rfl, rfl⟩ := Prod.mk.inj (Except.ok.inj h)
    have hmissing : Verdict schemas true current.1 :=
      ⟨current.1, parent, .refl, hparent, schemaById_none hnone⟩
    exact ⟨hmissing, [current.1], rfl, by simpa using ⟨current.2, hmissing⟩, .inr (by simp)⟩
  | case6 current visited chain hno hno' hvisited parent hparent next hnext ih =>
    rw [walkParents, if_neg hno, if_neg hno', dif_neg hvisited] at h
    simp only [hparent, hnext] at h
    obtain ⟨hverdict, rest, rfl, hrest, -⟩ := ih h
    have hcurrent : Verdict schemas isUnreachable current.1 :=
      hverdict.head ⟨next.2, by rw [hparent, schemaById_some hnext]⟩
    exact ⟨hcurrent, current.1 :: rest, by simp,
      List.forall_mem_cons.2 ⟨⟨current.2, hcurrent⟩, hrest⟩, .inr List.mem_cons_self⟩

/-- The walk meets a schema it has been at. -/
theorem walkParents_error (hids : (schemas.map (·.id)).Nodup) {memo : Memo}
    {current : { s // s ∈ schemas }} {visited : OrdSet SchemaIndex}
    {chain : List DuckLakeSchemaInfo} {e : Exception}
    (hvisited : ∀ id ∈ visited, ∃ s ∈ schemas, s.id = id ∧
      Relation.TransGen (IsParent schemas) s current.1)
    (h : walkParents schemas memo current visited chain = .error e) :
    ∃ s, Relation.ReflTransGen (IsParent schemas) current.1 s ∧
      Relation.TransGen (IsParent schemas) s s ∧ e = cyclicParentException s := by
  induction current, visited, chain using walkParents.induct schemas memo with
  | case1 current visited chain hmem =>
    rw [walkParents, if_pos hmem] at h
    cases h
  | case2 current visited chain hno hmem =>
    rw [walkParents, if_neg hno, if_pos hmem] at h
    cases h
  | case3 current visited chain hno hno' hmem =>
    obtain ⟨s, hs, hid, hcycle⟩ := hvisited _ hmem
    rw [eq_of_id_eq hids hs current.2 hid] at hcycle
    rw [walkParents, if_neg hno, if_neg hno', dif_pos hmem] at h
    exact ⟨current.1, .refl, hcycle, (Except.error.inj h).symm⟩
  | case4 current visited chain hno hno' hfresh hparent =>
    rw [walkParents, if_neg hno, if_neg hno', dif_neg hfresh, hparent] at h
    cases h
  | case5 current visited chain hno hno' hfresh parent hparent hnone =>
    rw [walkParents, if_neg hno, if_neg hno', dif_neg hfresh] at h
    simp only [hparent, hnone] at h
    cases h
  | case6 current visited chain hno hno' hfresh parent hparent next hnext ih =>
    rw [walkParents, if_neg hno, if_neg hno', dif_neg hfresh] at h
    simp only [hparent, hnext] at h
    have hp : IsParent schemas current.1 next.1 :=
      ⟨next.2, by rw [hparent, schemaById_some hnext]⟩
    have hvisited' : ∀ id ∈ visited.insert current.1.id, ∃ s ∈ schemas, s.id = id ∧
        Relation.TransGen (IsParent schemas) s next.1 := by
      intro id hid
      rcases OrdSet.mem_insert.1 hid with rfl | hid
      · exact ⟨current.1, current.2, rfl, .single hp⟩
      · obtain ⟨s, hs, hsid, htrans⟩ := hvisited id hid
        exact ⟨s, hs, hsid, htrans.tail hp⟩
    obtain ⟨s, hchain, hcycle⟩ := ih hvisited' h
    exact ⟨s, hchain.head hp, hcycle⟩

/-! ## All schemas -/

theorem visitSchema_ok (hids : (schemas.map (·.id)).Nodup) {memo memo' : Memo}
    (hsound : memo.Sound schemas) {schema : { s // s ∈ schemas }}
    (h : visitSchema schemas memo schema = .ok memo') :
    memo'.Sound schemas ∧ (∃ b, memo'.Holds b schema.1.id) ∧
      ∀ b id, memo.Holds b id → memo'.Holds b id := by
  obtain ⟨⟨chain, isUnreachable⟩, hwalk, hmark⟩ := bind_eq_ok.1 h
  obtain rfl := Except.ok.inj hmark
  obtain ⟨-, rest, hrest, hverdict, hmem⟩ := walkParents_ok hids hsound hwalk
  rw [List.nil_append] at hrest
  subst hrest
  refine ⟨hsound.mark hverdict, ⟨isUnreachable, Memo.holds_mark.2 ?_⟩,
    fun b id hb => Memo.holds_mark.2 (.inl hb)⟩
  exact hmem.imp id fun hmem => ⟨rfl, schema.1, hmem, rfl⟩

theorem visitSchemas_ok (hids : (schemas.map (·.id)).Nodup) {memo memo' : Memo}
    (hsound : memo.Sound schemas) {todo : List { s // s ∈ schemas }}
    (h : todo.foldlM (visitSchema schemas) memo = .ok memo') :
    memo'.Sound schemas ∧ (∀ s ∈ todo, ∃ b, memo'.Holds b s.1.id) ∧
      ∀ b id, memo.Holds b id → memo'.Holds b id := by
  induction todo generalizing memo with
  | nil =>
    obtain rfl := Except.ok.inj h
    exact ⟨hsound, by simp, fun _ _ => id⟩
  | cons schema todo ih =>
    rw [List.foldlM_cons] at h
    obtain ⟨memo₁, hvisit, hrest⟩ := bind_eq_ok.1 h
    obtain ⟨hsound₁, ⟨b, hb⟩, hmono₁⟩ := visitSchema_ok hids hsound hvisit
    obtain ⟨hsound', hcovers, hmono⟩ := ih hsound₁ hrest
    exact ⟨hsound', List.forall_mem_cons.2 ⟨⟨b, hmono b _ hb⟩, hcovers⟩,
      fun c id hc => hmono c id (hmono₁ c id hc)⟩

theorem visitSchemas_error (hids : (schemas.map (·.id)).Nodup) {memo : Memo}
    {todo : List { s // s ∈ schemas }} {e : Exception}
    (h : todo.foldlM (visitSchema schemas) memo = .error e) :
    ∃ s ∈ schemas, Relation.TransGen (IsParent schemas) s s ∧ e = cyclicParentException s := by
  induction todo generalizing memo with
  | nil => cases h
  | cons schema todo ih =>
    rw [List.foldlM_cons] at h
    cases hvisit : visitSchema schemas memo schema with
    | ok memo₁ =>
      rw [hvisit] at h
      exact ih h
    | error e' =>
      rw [hvisit] at h
      obtain rfl := Except.error.inj h
      cases hwalk : walkParents schemas memo schema ∅ [] with
      | ok r =>
        rw [visitSchema, hwalk] at hvisit
        cases hvisit
      | error e'' =>
        rw [visitSchema, hwalk] at hvisit
        obtain rfl := Except.error.inj hvisit
        obtain ⟨s, hchain, hcycle, he⟩ :=
          walkParents_error hids (fun id hid => absurd hid OrdSet.not_mem_empty) hwalk
        obtain ⟨p, -, hp⟩ := Relation.TransGen.tail'_iff.1 hcycle
        exact ⟨s, hp.1, hcycle, he⟩

theorem findUnreachableSchemas_ok (hids : (schemas.map (·.id)).Nodup) {ids : OrdSet SchemaIndex}
    (h : findUnreachableSchemas schemas = .ok ids) :
    (∀ s ∈ schemas, ¬ EntersCycle (IsParent schemas) s) ∧
      ∀ id, id ∈ ids ↔ ∃ s ∈ schemas, s.id = id ∧ ReachesMissing schemas s := by
  obtain ⟨memo, hvisit, hids'⟩ := bind_eq_ok.1 h
  obtain rfl := Except.ok.inj hids'
  have hempty : Memo.Sound schemas {} := by
    intro b id hmem
    cases b <;> exact absurd hmem OrdSet.not_mem_empty
  obtain ⟨hsound, hcovers, -⟩ := visitSchemas_ok hids hempty hvisit
  have hdecided (s) (hs : s ∈ schemas) :
      ∃ b, memo.Holds b s.id ∧ Verdict schemas b s := by
    obtain ⟨b, hb⟩ := hcovers ⟨s, hs⟩ (List.mem_attach _ _)
    exact ⟨b, hb, hsound.verdict hids hs hb⟩
  constructor
  · intro s hs
    obtain ⟨b, -, hverdict⟩ := hdecided s hs
    exact hverdict.not_entersCycle hids
  · intro id
    constructor
    · exact hsound true id
    · rintro ⟨s, hs, rfl, hmissing⟩
      obtain ⟨b, hb, hverdict⟩ := hdecided s hs
      cases b with
      | true => exact hb
      | false => exact absurd hmissing (ReachesRoot.not_reachesMissing hids hverdict)

theorem findUnreachableSchemas_error (hids : (schemas.map (·.id)).Nodup) {e : Exception}
    (h : findUnreachableSchemas schemas = .error e) :
    ∃ s ∈ schemas, Relation.TransGen (IsParent schemas) s s ∧ e = cyclicParentException s := by
  unfold findUnreachableSchemas at h
  cases hvisit : schemas.attach.foldlM (visitSchema schemas) {} with
  | ok memo =>
    rw [hvisit] at h
    cases h
  | error e' =>
    rw [hvisit] at h
    obtain rfl := Except.error.inj h
    exact visitSchemas_error hids hvisit

theorem findUnreachableSchemas_error_iff (hids : (schemas.map (·.id)).Nodup) :
    (∃ e, findUnreachableSchemas schemas = .error e) ↔
      ∃ s ∈ schemas, EntersCycle (IsParent schemas) s := by
  cases h : findUnreachableSchemas schemas with
  | ok ids =>
    refine iff_of_false (fun ⟨_, he⟩ => nomatch he) fun ⟨s, hs, hcycle⟩ => ?_
    exact (findUnreachableSchemas_ok hids h).1 s hs hcycle
  | error e =>
    obtain ⟨s, hs, hcycle, -⟩ := findUnreachableSchemas_error hids h
    exact iff_of_true ⟨e, rfl⟩ ⟨s, hs, s, .refl, hcycle⟩

/-! ## The order of the list -/

theorem isParent_perm {schemas' : List DuckLakeSchemaInfo} (h : schemas'.Perm schemas) :
    IsParent schemas' = IsParent schemas := by
  funext s p
  simp only [IsParent, h.mem_iff]

theorem reachesMissing_perm {schemas' : List DuckLakeSchemaInfo} (h : schemas'.Perm schemas)
    {s : DuckLakeSchemaInfo} : ReachesMissing schemas' s ↔ ReachesMissing schemas s := by
  simp only [ReachesMissing, isParent_perm h, (h.map (·.id)).mem_iff]

theorem findUnreachableSchemas_perm (hids : (schemas.map (·.id)).Nodup)
    {schemas' : List DuckLakeSchemaInfo} (h : schemas'.Perm schemas) {ids : OrdSet SchemaIndex}
    (hok : findUnreachableSchemas schemas = .ok ids) : findUnreachableSchemas schemas' = .ok ids := by
  have hids' : (schemas'.map (·.id)).Nodup := (h.map (·.id)).nodup_iff.2 hids
  obtain ⟨hcycles, hmem⟩ := findUnreachableSchemas_ok hids hok
  cases hresult : findUnreachableSchemas schemas' with
  | error e =>
    obtain ⟨s, hs, hcycle, -⟩ := findUnreachableSchemas_error hids' hresult
    rw [isParent_perm h] at hcycle
    exact absurd ⟨s, .refl, hcycle⟩ (hcycles s (h.mem_iff.1 hs))
  | ok ids' =>
    congr 1
    refine OrdSet.ext_mem fun id => ?_
    rw [(findUnreachableSchemas_ok hids' hresult).2, hmem]
    simp only [h.mem_iff, reachesMissing_perm h]

/-- The schemas of a snapshot have different ids, which are the primary key of `ducklake_schema`.
The message of the error names a schema on a cycle; which one depends on the order. -/
theorem findUnreachableSchemas_exact (hids : (schemas.map (·.id)).Nodup) :
    ((∃ e, findUnreachableSchemas schemas = .error e) ↔
      ∃ s ∈ schemas, EntersCycle (IsParent schemas) s) ∧
    (∀ e, findUnreachableSchemas schemas = .error e → ∃ s ∈ schemas,
      Relation.TransGen (IsParent schemas) s s ∧ e = cyclicParentException s) ∧
    (∀ ids, findUnreachableSchemas schemas = .ok ids →
      ∀ id, id ∈ ids ↔ ∃ s ∈ schemas, s.id = id ∧ ReachesMissing schemas s) ∧
    ∀ schemas' : List DuckLakeSchemaInfo, schemas'.Perm schemas →
      ((∃ e, findUnreachableSchemas schemas' = .error e) ↔
        ∃ e, findUnreachableSchemas schemas = .error e) ∧
      ∀ ids, findUnreachableSchemas schemas' = .ok ids ↔ findUnreachableSchemas schemas = .ok ids := by
  refine ⟨findUnreachableSchemas_error_iff hids, fun e => findUnreachableSchemas_error hids,
    fun ids hok => (findUnreachableSchemas_ok hids hok).2, fun schemas' h => ⟨?_, fun ids => ?_⟩⟩
  · have hids' : (schemas'.map (·.id)).Nodup := (h.map (·.id)).nodup_iff.2 hids
    rw [findUnreachableSchemas_error_iff hids', findUnreachableSchemas_error_iff hids,
      isParent_perm h]
    simp only [h.mem_iff]
  · have hids' : (schemas'.map (·.id)).Nodup := (h.map (·.id)).nodup_iff.2 hids
    exact ⟨findUnreachableSchemas_perm hids' h.symm, findUnreachableSchemas_perm hids h⟩

/-- Schema 3 is nested in schema 2, whose parent 9 was dropped. -/
def droppedParent : List DuckLakeSchemaInfo :=
  [⟨3, some 2, [], "c", []⟩, ⟨1, none, [], "a", []⟩, ⟨2, some 9, [], "b", []⟩]

theorem findUnreachableSchemas_exact_droppedParent :
    findUnreachableSchemas droppedParent = .ok (.ofList [2, 3]) ∧
    ∀ id, id ∈ OrdSet.ofList [2, 3] ↔
      ∃ s ∈ droppedParent, s.id = id ∧ ReachesMissing droppedParent s := by
  have hok : findUnreachableSchemas droppedParent = .ok (.ofList [2, 3]) := by decide +kernel
  exact ⟨hok, (findUnreachableSchemas_exact (by decide)).2.2.1 _ hok⟩

end DuckLake
