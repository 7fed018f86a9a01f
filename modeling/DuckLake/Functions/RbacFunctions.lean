import Mathlib.Data.List.Nodup
import DuckLake.Lib.Runs
import DuckLake.Storage.Rbac

/-!
# Granting and revoking

The functions of `functions/ducklake_rbac_functions.cpp` that create and drop roles and grant and
revoke privileges, and what the checks let a session do after any number of calls of them.
-/

namespace DuckLake

/-- The function `lower` of the metadata database. It folds at least the ASCII letters. -/
class SqlLower where
  lower : Text → Text
  lower_congr : ∀ {s t : Text}, s.fold = t.fold → lower s = lower t

open SqlLower (lower)

/-! ## Binding -/

inductive RbacAction where
  | createRole | dropRole | grant | revoke
deriving DecidableEq, Repr

structure RbacFunctionData where
  action : RbacAction
  /-- The role of a new or dropped role, the grantee of a grant. -/
  name : Text
  privileges : Privileges
  schemaId : Option Idx
  tableId : Option Idx

def RbacFunctionData.scope (data : RbacFunctionData) : GrantScope :=
  .of data.schemaId data.tableId

/-- The lookups in the catalog of a statement. -/
structure CatalogLookup where
  getSchema : Text → Except RbacException Idx
  getTable : Text → Text → Except RbacException Idx

inductive RbacStatement where
  | createRole (role : Text)
  | dropRole (role : Text)
  | grant (grantee privileges : Text) (schema tableName : Option Text)
  | revoke (grantee privileges : Text) (schema tableName : Option Text)

def resolveGrantScope (catalog : CatalogLookup) (schema tableName : Option Text) :
    Except RbacException (Option Idx × Option Idx) :=
  match schema, tableName with
  | none, none => .ok (none, none)
  | schema, tableName => do
    let schemaName := schema.getD "main"
    let schemaId ← catalog.getSchema schemaName
    match tableName with
    | none => .ok (some schemaId, none)
    | some tableName => do
      let tableId ← catalog.getTable schemaName tableName
      return (some schemaId, some tableId)

section Functions

variable [SqlLower]

/-- `lower(value) = lower('role')`. -/
def roleNamePredicate (value role : Text) : Bool := lower value == lower role

/-- The stored spelling of a role. -/
def tryGetRoleName (roles : List DuckLakeRole) (role : Text) : Option Text :=
  (roles.find? fun row => roleNamePredicate row.roleName role).map (·.roleName)

/-- The row is the one of a grantee and a scope. -/
def grantScopePredicate (grantee : Text) (schemaId tableId : Option Idx) (row : DuckLakeGrant) :
    Bool :=
  roleNamePredicate row.grantee grantee &&
    match tableId, schemaId with
    | some tableId, _ => row.tableId == some tableId
    | none, some schemaId => row.schemaId == some schemaId && row.tableId == none
    | none, none => row.schemaId == none && row.tableId == none

/-- `COALESCE(MAX(id), 0) + 1`. -/
def nextId (ids : List ℕ) : ℕ := ids.max?.getD 0 + 1

def roleBind (action : RbacAction) (role : Text) : Except RbacException RbacFunctionData :=
  if role.isEmpty || Text.ciEquals role publicGrantee then
    .error ⟨.invalidInput, "Invalid role name \"".toList ++ role ++ ['"']⟩
  else .ok { action := action, name := role, privileges := 0, schemaId := none, tableId := none }

/-- The name under which a grantee is stored. -/
def storedGrantee (rbac : DuckLakeRbac) (grantee : Text) : Except RbacException Text :=
  if Text.ciEquals grantee publicGrantee then .ok publicGrantee
  else match tryGetRoleName rbac.roles grantee with
    | some roleName => .ok roleName
    | none => .error ⟨.invalidInput, "Role \"".toList ++ grantee ++
        "\" does not exist - create it with ducklake_create_role first".toList⟩

def grantBind (rbac : DuckLakeRbac) (catalog : CatalogLookup) (action : RbacAction)
    (grantee privileges : Text) (schema tableName : Option Text) :
    Except RbacException RbacFunctionData :=
  if grantee.isEmpty then .error ⟨.invalidInput, "Grantee cannot be empty"⟩
  else do
    let privileges ← parsePrivileges privileges
    let grantee ← storedGrantee rbac grantee
    let scope ← resolveGrantScope catalog schema tableName
    return { action := action, name := grantee, privileges := privileges, schemaId := scope.1,
             tableId := scope.2 }

def RbacStatement.bind (rbac : DuckLakeRbac) (catalog : CatalogLookup) :
    RbacStatement → Except RbacException RbacFunctionData
  | createRole role => roleBind .createRole role
  | dropRole role => roleBind .dropRole role
  | grant grantee privileges schema tableName =>
    grantBind rbac catalog .grant grantee privileges schema tableName
  | revoke grantee privileges schema tableName =>
    grantBind rbac catalog .revoke grantee privileges schema tableName

/-! ## Executing -/

/-- A value that its column of 64 signed bits holds. -/
def fitsColumn (id : Option Idx) : Bool := id.all fun id => !isTransactionLocal id

/-- `UPDATE ducklake_grant SET privileges = f(privileges) WHERE predicate`. -/
def updateGrants (predicate : DuckLakeGrant → Bool) (f : Privileges → Privileges)
    (grants : List DuckLakeGrant) : List DuckLakeGrant :=
  grants.map fun row =>
    if predicate row then { row with privileges := f row.privileges } else row

def rbacMutate (rbac : DuckLakeRbac) (data : RbacFunctionData) :
    Except RbacException DuckLakeRbac :=
  match data.action with
  | .createRole =>
    match tryGetRoleName rbac.roles data.name with
    | some existing =>
      .error ⟨.invalidInput, "Role \"".toList ++ existing ++ "\" already exists".toList⟩
    | none => .ok { rbac with roles := rbac.roles ++ [⟨nextId (rbac.roles.map (·.roleId)), data.name⟩] }
  | .dropRole =>
    match tryGetRoleName rbac.roles data.name with
    | none => .error ⟨.invalidInput, "Role \"".toList ++ data.name ++ "\" does not exist".toList⟩
    | some _ => .ok { rbac with
        roles := rbac.roles.filter fun row => !roleNamePredicate row.roleName data.name
        grants := rbac.grants.filter fun row => !roleNamePredicate row.grantee data.name }
  | .grant =>
    let predicate := grantScopePredicate data.name data.schemaId data.tableId
    if rbac.grants.any predicate then
      .ok { rbac with grants := updateGrants predicate (· ||| data.privileges) rbac.grants }
    else if fitsColumn data.schemaId && fitsColumn data.tableId then
      .ok { rbac with grants := rbac.grants ++
        [⟨nextId (rbac.grants.map (·.grantId)), data.name, data.schemaId, data.tableId,
          data.privileges⟩] }
    else .error ⟨.conversion, "Failed to grant DuckLake privileges: "⟩
  | .revoke =>
    let predicate := grantScopePredicate data.name data.schemaId data.tableId
    let grants := updateGrants predicate (· &&& ~~~data.privileges) rbac.grants
    -- drop rows that no longer carry any privilege
    .ok { rbac with grants := grants.filter fun row => row.privileges != 0 }

def rbacMutateExecute (rbac : DuckLakeRbac) (context : RbacSession) (data : RbacFunctionData) :
    Except RbacException DuckLakeRbac := do
  rbac.checkAdmin context
  rbacMutate rbac data

/-- A statement, the session that it runs in and the catalog that it sees. -/
structure RbacCall where
  context : RbacSession
  catalog : CatalogLookup
  statement : RbacStatement

/-- What changes the access control of an attached catalog: a call, with what it was bound to, or
the setting that turns the checks on. -/
inductive RbacEvent where
  | mutate (data : RbacFunctionData)
  | setEnabled (value : Bool)

/-- The step that an event stands for. While the checks are on the engine binds a statement again
before it executes it, so a call binds and executes in one state. -/
inductive RbacStep (rbac : DuckLakeRbac) : RbacEvent → DuckLakeRbac → Prop
  | mutate {call : RbacCall} {data rbac'} (hbind : call.statement.bind rbac call.catalog = .ok data)
      (hexecute : rbacMutateExecute rbac call.context data = .ok rbac') :
      RbacStep rbac (.mutate data) rbac'
  | setEnabled {value rbac'} (h : rbac.setEnabled value = .ok rbac') :
      RbacStep rbac (.setEnabled value) rbac'

/-! ## What a bound statement is -/

/-- A name under which grants are stored. -/
def DuckLakeRbac.StoresGrantee (rbac : DuckLakeRbac) (grantee : Text) : Prop :=
  grantee = publicGrantee ∨ ∃ role ∈ rbac.roles, role.roleName = grantee

/-- What binding establishes. -/
structure RbacFunctionData.Bound (rbac : DuckLakeRbac) (data : RbacFunctionData) : Prop where
  name : data.action = .grant ∨ data.action = .revoke → rbac.StoresGrantee data.name
  privileges : data.action = .grant ∨ data.action = .revoke →
    data.privileges.Known ∧ data.privileges ≠ 0
  role : data.action = .createRole ∨ data.action = .dropRole →
    data.name ≠ [] ∧ data.name.fold ≠ publicGrantee.fold

theorem tryGetRoleName_eq_some {roles : List DuckLakeRole} {role roleName : Text}
    (h : tryGetRoleName roles role = some roleName) :
    (∃ row ∈ roles, row.roleName = roleName) ∧ lower roleName = lower role := by
  obtain ⟨row, hfind, rfl⟩ := Option.map_eq_some_iff.1 h
  have hrow := List.find?_some hfind
  exact ⟨⟨row, List.mem_of_find?_eq_some hfind, rfl⟩, by simpa [roleNamePredicate] using hrow⟩

theorem tryGetRoleName_eq_none {roles : List DuckLakeRole} {role : Text}
    (h : tryGetRoleName roles role = none) :
    ∀ row ∈ roles, lower row.roleName ≠ lower role := by
  intro row hrow
  have hnot := List.find?_eq_none.1 (Option.map_eq_none_iff.1 h) row hrow
  simpa [roleNamePredicate] using hnot

theorem storesGrantee_of_storedGrantee {rbac : DuckLakeRbac} {grantee name : Text}
    (h : storedGrantee rbac grantee = .ok name) : rbac.StoresGrantee name := by
  rw [storedGrantee] at h
  split at h
  · cases h
    exact .inl rfl
  · cases hrole : tryGetRoleName rbac.roles grantee with
    | none =>
      rw [hrole] at h
      cases h
    | some roleName =>
      rw [hrole] at h
      cases h
      exact .inr (tryGetRoleName_eq_some hrole).1

omit [SqlLower] in
theorem bound_of_roleBind (rbac : DuckLakeRbac) {action : RbacAction} {role : Text}
    {data : RbacFunctionData} (haction : action ≠ .grant ∧ action ≠ .revoke)
    (h : roleBind action role = .ok data) : data.Bound rbac := by
  rw [roleBind] at h
  split at h
  · cases h
  · rename_i hrole
    cases h
    simp only [Bool.or_eq_true, Text.ciEquals_iff, not_or] at hrole
    exact {
      name := fun hg => (hg.elim haction.1 haction.2).elim
      privileges := fun hg => (hg.elim haction.1 haction.2).elim
      role := fun _ => ⟨fun hnil => hrole.1 (List.isEmpty_iff.2 hnil), hrole.2⟩ }

theorem bound_of_grantBind {rbac : DuckLakeRbac} {catalog : CatalogLookup} {action : RbacAction}
    {grantee privileges : Text} {schema tableName : Option Text} {data : RbacFunctionData}
    (haction : action ≠ .createRole ∧ action ≠ .dropRole)
    (h : grantBind rbac catalog action grantee privileges schema tableName = .ok data) :
    data.Bound rbac := by
  rw [grantBind] at h
  split at h
  · cases h
  cases hp : parsePrivileges privileges with
  | error => simp [hp, bind, Except.bind] at h
  | ok m =>
    cases hg : storedGrantee rbac grantee with
    | error => simp [hp, hg, bind, Except.bind] at h
    | ok name =>
      cases hs : resolveGrantScope catalog schema tableName with
      | error => simp [hp, hg, hs, bind, Except.bind] at h
      | ok scope =>
        simp only [hp, hg, hs, bind, Except.bind, pure, Except.pure, Except.ok.injEq] at h
        subst h
        exact {
          name := fun _ => storesGrantee_of_storedGrantee hg
          privileges := fun _ => known_of_parsePrivileges hp
          role := fun hr => (hr.elim haction.1 haction.2).elim }

theorem RbacStatement.bound_of_bind {rbac : DuckLakeRbac} {catalog : CatalogLookup}
    {statement : RbacStatement} {data : RbacFunctionData}
    (h : statement.bind rbac catalog = .ok data) : data.Bound rbac := by
  cases statement with
  | createRole role => exact bound_of_roleBind rbac (by decide) h
  | dropRole role => exact bound_of_roleBind rbac (by decide) h
  | grant grantee privileges schema tableName => exact bound_of_grantBind (by decide) h
  | revoke grantee privileges schema tableName => exact bound_of_grantBind (by decide) h

theorem grantScopePredicate_iff {grantee : Text} {schemaId tableId : Option Idx}
    {row : DuckLakeGrant} :
    grantScopePredicate grantee schemaId tableId row = true ↔
      lower row.grantee = lower grantee ∧ row.scope = .of schemaId tableId := by
  simp only [grantScopePredicate, roleNamePredicate, Bool.and_eq_true, beq_iff_eq]
  refine and_congr_right fun _ => ?_
  rw [DuckLakeGrant.scope]
  cases tableId <;> cases schemaId <;> cases row.tableId <;> cases row.schemaId <;>
    simp [GrantScope.of]

omit [SqlLower] in
theorem lt_nextId {ids : List ℕ} {i : ℕ} (h : i ∈ ids) : i < nextId ids := by
  obtain ⟨m, hm⟩ := Option.isSome_iff_exists.1 (List.isSome_max?_of_mem h)
  have hle := (List.max?_eq_some_iff.1 hm).2 i h
  rw [nextId, hm, Option.getD_some]
  omega

/-! ## The invariant of the store -/

/-- Roles and grants as the functions leave them: no two roles and no two grants of one scope with
names that the database lowers to the same, every grant is of `PUBLIC` or of a role that exists,
and of some privileges. -/
structure DuckLakeRbac.WellFormed (rbac : DuckLakeRbac) : Prop where
  roles : (rbac.roles.map fun role => lower role.roleName).Nodup
  notPublic : ∀ role ∈ rbac.roles, lower role.roleName ≠ lower publicGrantee
  grantees : ∀ row ∈ rbac.grants, rbac.StoresGrantee row.grantee
  privileges : ∀ row ∈ rbac.grants, row.privileges.Known ∧ row.privileges ≠ 0
  scopes : (rbac.grants.map fun row => (lower row.grantee, row.scope)).Nodup
  roleIds : (rbac.roles.map (·.roleId)).Nodup
  grantIds : (rbac.grants.map (·.grantId)).Nodup

namespace DuckLakeRbac.WellFormed

variable {rbac : DuckLakeRbac}

theorem of_empty (hroles : rbac.roles = []) (hgrants : rbac.grants = []) : rbac.WellFormed where
  roles := by simp [hroles]
  notPublic := by simp [hroles]
  grantees := by simp [hgrants]
  privileges := by simp [hgrants]
  scopes := by simp [hgrants]
  roleIds := by simp [hroles]
  grantIds := by simp [hgrants]

/-- Stored names that the database lowers to the same are the same. -/
theorem eq_of_lower_eq (h : rbac.WellFormed) {s t : Text} (hs : rbac.StoresGrantee s)
    (ht : rbac.StoresGrantee t) (heq : lower s = lower t) : s = t := by
  rcases hs with rfl | ⟨role, hrole, rfl⟩
  · rcases ht with rfl | ⟨role, hrole, rfl⟩
    · rfl
    · exact absurd heq.symm (h.notPublic role hrole)
  · rcases ht with rfl | ⟨role', hrole', rfl⟩
    · exact absurd heq (h.notPublic role hrole)
    · rw [List.inj_on_of_nodup_map h.roles hrole hrole' heq]

end DuckLakeRbac.WellFormed

/-! ## The step lemmas -/

/-- What an execution can do. -/
theorem rbacMutate_cases {rbac rbac' : DuckLakeRbac} {data : RbacFunctionData}
    (h : rbacMutate rbac data = .ok rbac') :
    (data.action = .createRole ∧ (∀ row ∈ rbac.roles, lower row.roleName ≠ lower data.name) ∧
      rbac' = { rbac with
        roles := rbac.roles ++ [⟨nextId (rbac.roles.map (·.roleId)), data.name⟩] }) ∨
    (data.action = .dropRole ∧ rbac' = { rbac with
      roles := rbac.roles.filter fun row => !roleNamePredicate row.roleName data.name
      grants := rbac.grants.filter fun row => !roleNamePredicate row.grantee data.name }) ∨
    (data.action = .grant ∧
      (∃ row ∈ rbac.grants, lower row.grantee = lower data.name ∧ row.scope = data.scope) ∧
      rbac' = { rbac with
        grants := updateGrants (grantScopePredicate data.name data.schemaId data.tableId)
          (· ||| data.privileges) rbac.grants }) ∨
    (data.action = .grant ∧
      (∀ row ∈ rbac.grants, ¬ (lower row.grantee = lower data.name ∧ row.scope = data.scope)) ∧
      rbac' = { rbac with
        grants := rbac.grants ++ [⟨nextId (rbac.grants.map (·.grantId)), data.name,
          data.schemaId, data.tableId, data.privileges⟩] }) ∨
    (data.action = .revoke ∧ rbac' = { rbac with
      grants := (updateGrants (grantScopePredicate data.name data.schemaId data.tableId)
        (· &&& ~~~data.privileges) rbac.grants).filter fun row => row.privileges != 0 }) := by
  rw [rbacMutate] at h
  cases haction : data.action with
  | createRole =>
    rw [haction] at h
    cases hrole : tryGetRoleName rbac.roles data.name with
    | some existing => simp [hrole] at h
    | none =>
      rw [hrole] at h
      cases h
      exact .inl ⟨rfl, tryGetRoleName_eq_none hrole, rfl⟩
  | dropRole =>
    rw [haction] at h
    cases hrole : tryGetRoleName rbac.roles data.name with
    | some existing =>
      rw [hrole] at h
      cases h
      exact .inr (.inl ⟨rfl, rfl⟩)
    | none => simp [hrole] at h
  | grant =>
    rw [haction] at h
    dsimp only at h
    split at h
    · cases h
      obtain ⟨row, hrow, hpred⟩ := List.any_eq_true.1 ‹_›
      exact .inr (.inr (.inl ⟨rfl, ⟨row, hrow, grantScopePredicate_iff.1 hpred⟩, rfl⟩))
    · rename_i hany
      split at h
      · cases h
        refine .inr (.inr (.inr (.inl ⟨rfl, fun row hrow hkey => hany ?_, rfl⟩)))
        exact List.any_eq_true.2 ⟨row, hrow, grantScopePredicate_iff.2 hkey⟩
      · cases h
  | revoke =>
    rw [haction] at h
    cases h
    exact .inr (.inr (.inr (.inr ⟨rfl, rfl⟩)))

section UpdateGrants

variable {predicate : DuckLakeGrant → Bool} {f : Privileges → Privileges}
  {grants : List DuckLakeGrant}

omit [SqlLower] in
/-- An update changes nothing but privileges. -/
theorem map_updateGrants {κ : Type} (key : DuckLakeGrant → κ)
    (hkey : ∀ row m, key { row with privileges := m } = key row) :
    (updateGrants predicate f grants).map key = grants.map key := by
  rw [updateGrants, List.map_map]
  refine List.map_congr_left fun row _ => ?_
  rw [Function.comp_apply]
  split
  · exact hkey row _
  · rfl

omit [SqlLower] in
theorem mem_updateGrants {row' : DuckLakeGrant} (h : row' ∈ updateGrants predicate f grants) :
    ∃ row ∈ grants, row'.grantee = row.grantee ∧ row'.scope = row.scope ∧
      row'.privileges = if predicate row then f row.privileges else row.privileges := by
  obtain ⟨row, hrow, rfl⟩ := List.mem_map.1 h
  refine ⟨row, hrow, ?_⟩
  split <;> exact ⟨rfl, rfl, rfl⟩

omit [SqlLower] in
theorem holds_updateGrants {grantee : Text} {scope : GrantScope} {p : DuckLakePrivilege} :
    Holds (updateGrants predicate f grants) grantee scope p ↔
      ∃ row ∈ grants, row.grantee.fold = grantee.fold ∧ row.scope = scope ∧
        (if predicate row then f row.privileges else row.privileges).Has p := by
  constructor
  · rintro ⟨row', hrow', hg, hs, hp⟩
    obtain ⟨row, hrow, heqg, heqs, heqp⟩ := mem_updateGrants hrow'
    exact ⟨row, hrow, heqg ▸ hg, heqs ▸ hs, heqp ▸ hp⟩
  · rintro ⟨row, hrow, hg, hs, hp⟩
    refine ⟨_, List.mem_map_of_mem hrow, ?_⟩
    by_cases hpred : predicate row = true
    · rw [if_pos hpred] at hp ⊢
      exact ⟨hg, hs, hp⟩
    · rw [if_neg hpred] at hp ⊢
      exact ⟨hg, hs, hp⟩

end UpdateGrants

/-- The event gives a grantee a privilege on a scope. -/
def RbacEvent.Grants (grantee : Text) (scope : GrantScope) (p : DuckLakePrivilege) :
    RbacEvent → Prop
  | .mutate data => data.action = .grant ∧ data.name.fold = grantee.fold ∧ data.scope = scope ∧
    data.privileges.Has p
  | .setEnabled _ => False

/-- The event takes a privilege on a scope from a grantee, or drops the grantee's role. -/
def RbacEvent.Revokes (grantee : Text) (scope : GrantScope) (p : DuckLakePrivilege) :
    RbacEvent → Prop
  | .mutate data => lower data.name = lower grantee ∧ (data.action = .dropRole ∨
    data.action = .revoke ∧ data.scope = scope ∧ data.privileges.Has p)
  | .setEnabled _ => False

section Step

variable {rbac rbac' : DuckLakeRbac} {data : RbacFunctionData}

theorem holds_rbacMutate (hwf : rbac.WellFormed) (hbound : data.Bound rbac)
    (h : rbacMutate rbac data = .ok rbac') {grantee : Text} {scope : GrantScope}
    {p : DuckLakePrivilege} :
    Holds rbac'.grants grantee scope p ↔ (RbacEvent.mutate data).Grants grantee scope p ∨
      Holds rbac.grants grantee scope p ∧ ¬ (RbacEvent.mutate data).Revokes grantee scope p := by
  obtain ⟨haction, -, rfl⟩ | ⟨haction, rfl⟩ | ⟨haction, ⟨old, hold, hkey⟩, rfl⟩ |
    ⟨haction, -, rfl⟩ | ⟨haction, rfl⟩ := rbacMutate_cases h
  · simp [RbacEvent.Grants, RbacEvent.Revokes, haction]
  · -- The grants of the dropped role go, whatever the spelling.
    simp only [RbacEvent.Grants, RbacEvent.Revokes, haction, reduceCtorEq, false_and, false_or,
      true_or, and_true]
    constructor
    · rintro ⟨row, hrow, hg, hs, hp⟩
      obtain ⟨hmem, hname⟩ := List.mem_filter.1 hrow
      refine ⟨⟨row, hmem, hg, hs, hp⟩, fun heq => ?_⟩
      simp [roleNamePredicate, SqlLower.lower_congr hg, heq] at hname
    · rintro ⟨⟨row, hrow, hg, hs, hp⟩, hne⟩
      refine ⟨row, List.mem_filter.2 ⟨hrow, ?_⟩, hg, hs, hp⟩
      simpa [roleNamePredicate, SqlLower.lower_congr hg] using Ne.symm hne
  · -- The grant is added to the rows of its scope, which all have the name that it was bound to.
    have hname := hbound.name (.inl haction)
    simp only [RbacEvent.Grants, RbacEvent.Revokes, haction, reduceCtorEq, false_and, or_self,
      and_false, not_false_eq_true, and_true, true_and, holds_updateGrants]
    constructor
    · rintro ⟨row, hrow, hg, hs, hp⟩
      by_cases hpred : grantScopePredicate data.name data.schemaId data.tableId row = true
      · rw [if_pos hpred, Privileges.has_or] at hp
        refine hp.symm.imp (fun hp => ?_) fun hp => ⟨row, hrow, hg, hs, hp⟩
        obtain ⟨hlower, hscope⟩ := grantScopePredicate_iff.1 hpred
        have heq := hwf.eq_of_lower_eq (hwf.grantees row hrow) hname hlower
        exact ⟨heq ▸ hg, hscope.symm.trans hs, hp⟩
      · rw [if_neg hpred] at hp
        exact .inr ⟨row, hrow, hg, hs, hp⟩
    · rintro (⟨hg, hs, hp⟩ | ⟨row, hrow, hg, hs, hp⟩)
      · have heq := hwf.eq_of_lower_eq (hwf.grantees old hold) hname hkey.1
        refine ⟨old, hold, heq ▸ hg, hkey.2.trans hs, ?_⟩
        rw [if_pos (grantScopePredicate_iff.2 hkey), Privileges.has_or]
        exact .inr hp
      · refine ⟨row, hrow, hg, hs, ?_⟩
        split
        · exact Privileges.has_or.2 (.inl hp)
        · exact hp
  · simp only [RbacEvent.Grants, RbacEvent.Revokes, haction, reduceCtorEq, false_and, or_self,
      and_false, not_false_eq_true, and_true, true_and]
    rw [Holds]
    simp only [List.mem_append, List.mem_singleton, or_and_right, exists_or, exists_eq_left]
    exact or_comm
  · -- Bits are cleared in the rows of the scope, and a row that loses a bit only has no less.
    simp only [RbacEvent.Grants, RbacEvent.Revokes, haction, reduceCtorEq, false_and, false_or,
      true_and]
    have hfilter (rows : List DuckLakeGrant) :
        Holds (rows.filter fun row => row.privileges != 0) grantee scope p ↔
          Holds rows grantee scope p := by
      constructor
      · rintro ⟨row, hrow, hrest⟩
        exact ⟨row, (List.mem_filter.1 hrow).1, hrest⟩
      · rintro ⟨row, hrow, hg, hs, hp⟩
        refine ⟨row, List.mem_filter.2 ⟨hrow, bne_iff_ne.2 fun hzero => ?_⟩, hg, hs, hp⟩
        exact Privileges.not_has_zero (hzero ▸ hp)
    rw [hfilter, holds_updateGrants]
    constructor
    · rintro ⟨row, hrow, hg, hs, hp⟩
      by_cases hpred : grantScopePredicate data.name data.schemaId data.tableId row = true
      · rw [if_pos hpred, Privileges.has_and, Privileges.has_not] at hp
        exact ⟨⟨row, hrow, hg, hs, hp.1⟩, fun hrevoked => hp.2 hrevoked.2.2⟩
      · rw [if_neg hpred] at hp
        refine ⟨⟨row, hrow, hg, hs, hp⟩, fun hrevoked => hpred (grantScopePredicate_iff.2 ?_)⟩
        exact ⟨(SqlLower.lower_congr hg).trans hrevoked.1.symm, hs.trans hrevoked.2.1.symm⟩
    · rintro ⟨⟨row, hrow, hg, hs, hp⟩, hkept⟩
      refine ⟨row, hrow, hg, hs, ?_⟩
      by_cases hpred : grantScopePredicate data.name data.schemaId data.tableId row = true
      · rw [if_pos hpred, Privileges.has_and, Privileges.has_not]
        obtain ⟨hlower, hscope⟩ := grantScopePredicate_iff.1 hpred
        refine ⟨hp, fun hrevoked => hkept ⟨?_, hscope.symm.trans hs, hrevoked⟩⟩
        exact hlower.symm.trans (SqlLower.lower_congr hg)
      · rw [if_neg hpred]
        exact hp

/-- What an update leaves of a grant. -/
def DuckLakeGrant.key (row : DuckLakeGrant) : ℕ × Text × GrantScope :=
  (row.grantId, row.grantee, row.scope)

/-- Fewer grants, or the same ones with other privileges. -/
theorem DuckLakeRbac.WellFormed.of_grants (h : rbac.WellFormed) {grants : List DuckLakeGrant}
    (hsub : (grants.map (·.key)).Sublist (rbac.grants.map (·.key)))
    (hprivileges : ∀ row ∈ grants, row.privileges.Known ∧ row.privileges ≠ 0) :
    WellFormed { rbac with grants := grants } where
  roles := h.roles
  notPublic := h.notPublic
  grantees row hrow := by
    obtain ⟨old, hold, heq⟩ := List.mem_map.1 (hsub.subset (List.mem_map_of_mem hrow))
    have hgrantee : old.grantee = row.grantee := congrArg (·.2.1) heq
    exact hgrantee ▸ h.grantees old hold
  privileges := hprivileges
  scopes := by
    have hmap := (hsub.map fun key => (lower key.2.1, key.2.2))
    rw [List.map_map, List.map_map] at hmap
    exact h.scopes.sublist hmap
  roleIds := h.roleIds
  grantIds := by
    have hmap := hsub.map (·.1)
    rw [List.map_map, List.map_map] at hmap
    exact h.grantIds.sublist hmap

theorem DuckLakeRbac.WellFormed.createRole (h : rbac.WellFormed) {roleId : ℕ} {role : Text}
    (hid : roleId ∉ rbac.roles.map (·.roleId)) (hpublic : lower role ≠ lower publicGrantee)
    (hnew : ∀ row ∈ rbac.roles, lower row.roleName ≠ lower role) :
    WellFormed { rbac with roles := rbac.roles ++ [⟨roleId, role⟩] } where
  roles := by
    rw [List.map_append, List.nodup_append]
    refine ⟨h.roles, List.nodup_singleton _, fun s hs t ht => ?_⟩
    obtain ⟨row, hrow, rfl⟩ := List.mem_map.1 hs
    rw [List.mem_singleton.1 ht]
    exact hnew row hrow
  notPublic row hrow := by
    rcases List.mem_append.1 hrow with hrow | hrow
    · exact h.notPublic row hrow
    · rw [List.mem_singleton.1 hrow]
      exact hpublic
  grantees row hrow := (h.grantees row hrow).imp_right fun ⟨old, hold, hname⟩ =>
    ⟨old, List.mem_append_left _ hold, hname⟩
  privileges := h.privileges
  scopes := h.scopes
  roleIds := by
    rw [List.map_append, List.nodup_append]
    refine ⟨h.roleIds, List.nodup_singleton _, fun i hi j hj => ?_⟩
    rw [List.mem_singleton.1 hj]
    exact fun (heq : i = roleId) => hid (heq ▸ hi)
  grantIds := h.grantIds

/-- A role goes with all grants of its name. -/
theorem DuckLakeRbac.WellFormed.dropRole (h : rbac.WellFormed) (role : Text) :
    WellFormed { rbac with
      roles := rbac.roles.filter fun row => !roleNamePredicate row.roleName role
      grants := rbac.grants.filter fun row => !roleNamePredicate row.grantee role } where
  roles := h.roles.sublist (List.filter_sublist.map _)
  notPublic row hrow := h.notPublic row (List.mem_filter.1 hrow).1
  grantees row hrow := by
    obtain ⟨hmem, hname⟩ := List.mem_filter.1 hrow
    refine (h.grantees row hmem).imp_right fun ⟨old, hold, heq⟩ => ⟨old, ?_, heq⟩
    exact List.mem_filter.2 ⟨hold, heq ▸ hname⟩
  privileges row hrow := h.privileges row (List.mem_filter.1 hrow).1
  scopes := h.scopes.sublist (List.filter_sublist.map _)
  roleIds := h.roleIds.sublist (List.filter_sublist.map _)
  grantIds := h.grantIds.sublist (List.filter_sublist.map _)

theorem DuckLakeRbac.WellFormed.grant (h : rbac.WellFormed) {row : DuckLakeGrant}
    (hid : row.grantId ∉ rbac.grants.map (·.grantId)) (hgrantee : rbac.StoresGrantee row.grantee)
    (hprivileges : row.privileges.Known ∧ row.privileges ≠ 0)
    (hnew : ∀ old ∈ rbac.grants,
      ¬ (lower old.grantee = lower row.grantee ∧ old.scope = row.scope)) :
    WellFormed { rbac with grants := rbac.grants ++ [row] } where
  roles := h.roles
  notPublic := h.notPublic
  grantees old hold := by
    rcases List.mem_append.1 hold with hold | hold
    · exact h.grantees old hold
    · rw [List.mem_singleton.1 hold]
      exact hgrantee
  privileges old hold := by
    rcases List.mem_append.1 hold with hold | hold
    · exact h.privileges old hold
    · rw [List.mem_singleton.1 hold]
      exact hprivileges
  scopes := by
    rw [List.map_append, List.nodup_append]
    refine ⟨h.scopes, List.nodup_singleton _, fun s hs t ht => ?_⟩
    obtain ⟨old, hold, rfl⟩ := List.mem_map.1 hs
    rw [List.mem_singleton.1 ht]
    exact fun heq => hnew old hold (Prod.mk.inj heq)
  roleIds := h.roleIds
  grantIds := by
    rw [List.map_append, List.nodup_append]
    refine ⟨h.grantIds, List.nodup_singleton _, fun i hi j hj => ?_⟩
    rw [List.mem_singleton.1 hj]
    exact fun (heq : i = row.grantId) => hid (heq ▸ hi)

omit [SqlLower] in
theorem key_updateGrants (predicate : DuckLakeGrant → Bool) (f : Privileges → Privileges)
    (grants : List DuckLakeGrant) :
    (updateGrants predicate f grants).map (·.key) = grants.map (·.key) :=
  map_updateGrants _ fun _ _ => rfl

theorem DuckLakeRbac.WellFormed.rbacMutate (hwf : rbac.WellFormed) (hbound : data.Bound rbac)
    (hpublic : data.action = .createRole → lower data.name ≠ lower publicGrantee)
    (h : rbacMutate rbac data = .ok rbac') : rbac'.WellFormed := by
  obtain ⟨haction, hnew, rfl⟩ | ⟨-, rfl⟩ | ⟨haction, -, rfl⟩ | ⟨haction, hnew, rfl⟩ |
    ⟨-, rfl⟩ := rbacMutate_cases h
  · exact hwf.createRole (fun hid => (lt_nextId hid).false) (hpublic haction) hnew
  · exact hwf.dropRole _
  · refine hwf.of_grants ((key_updateGrants _ _ _).symm ▸ List.Sublist.refl _) fun row hrow => ?_
    obtain ⟨old, hold, -, -, hp⟩ := mem_updateGrants hrow
    obtain ⟨hknown, hne⟩ := hwf.privileges old hold
    obtain ⟨hknown', -⟩ := hbound.privileges (.inl haction)
    rw [hp]
    split
    · refine ⟨hknown.or hknown', fun hzero => hne (hknown.eq_zero_iff.2 fun p hp => ?_)⟩
      exact (hknown.or hknown').eq_zero_iff.1 hzero p (Privileges.has_or.2 (.inl hp))
    · exact ⟨hknown, hne⟩
  · exact hwf.grant (fun hid => (lt_nextId hid).false) (hbound.name (.inl haction))
      (hbound.privileges (.inl haction)) hnew
  · refine hwf.of_grants ?_ fun row hrow => ?_
    · rw [← key_updateGrants (grantScopePredicate data.name data.schemaId data.tableId)
        (· &&& ~~~data.privileges) rbac.grants]
      exact List.filter_sublist.map _
    · obtain ⟨hmem, hne⟩ := List.mem_filter.1 hrow
      obtain ⟨old, hold, -, -, hp⟩ := mem_updateGrants hmem
      refine ⟨?_, bne_iff_ne.1 hne⟩
      rw [hp]
      split
      · exact (hwf.privileges old hold).1.and
      · exact (hwf.privileges old hold).1

end Step

/-! ## Runs -/

/-- The event does not create a role that the database takes for `PUBLIC`. Binding refuses the
name in any case of its ASCII letters. -/
def RbacEvent.NamesNoPublicRole : RbacEvent → Prop
  | .mutate data => data.action = .createRole → lower data.name ≠ lower publicGrantee
  | .setEnabled _ => True

/-- A step whose event does not create such a role. -/
def OrdinaryStep (rbac : DuckLakeRbac) (event : RbacEvent) (rbac' : DuckLakeRbac) : Prop :=
  event.NamesNoPublicRole ∧ RbacStep rbac event rbac'

section Run

variable {start rbac rbac' : DuckLakeRbac} {event : RbacEvent} {log : List RbacEvent}

theorem rbacMutate_of_execute {context : RbacSession} {data : RbacFunctionData}
    (h : rbacMutateExecute rbac context data = .ok rbac') : rbacMutate rbac data = .ok rbac' := by
  rw [rbacMutateExecute] at h
  cases hadmin : rbac.checkAdmin context with
  | error e =>
    rw [hadmin] at h
    cases h
  | ok =>
    rw [hadmin] at h
    exact h

omit [SqlLower] in
/-- Turning the checks on changes nothing else. -/
theorem setEnabled_eq_ok {value : Bool} (h : rbac.setEnabled value = .ok rbac') :
    rbac' = { rbac with enabled := value } ∧ (rbac.enabled = true → value = true) := by
  rw [DuckLakeRbac.setEnabled] at h
  split at h
  · cases h
  · rename_i hguard
    cases h
    refine ⟨rfl, fun henabled => ?_⟩
    simpa [henabled] using hguard

theorem OrdinaryStep.wellFormed (hwf : rbac.WellFormed) (h : OrdinaryStep rbac event rbac') :
    rbac'.WellFormed := by
  obtain ⟨hpublic, h⟩ := h
  cases h with
  | mutate hbind hexecute =>
    exact hwf.rbacMutate (RbacStatement.bound_of_bind hbind) hpublic (rbacMutate_of_execute hexecute)
  | setEnabled h =>
    obtain ⟨rfl, -⟩ := setEnabled_eq_ok h
    exact { hwf with }

theorem OrdinaryStep.holds_iff (hwf : rbac.WellFormed) (h : OrdinaryStep rbac event rbac')
    {grantee : Text} {scope : GrantScope} {p : DuckLakePrivilege} :
    Holds rbac'.grants grantee scope p ↔ event.Grants grantee scope p ∨
      Holds rbac.grants grantee scope p ∧ ¬ event.Revokes grantee scope p := by
  cases h.2 with
  | mutate hbind hexecute =>
    exact holds_rbacMutate hwf (RbacStatement.bound_of_bind hbind) (rbacMutate_of_execute hexecute)
  | setEnabled h =>
    obtain ⟨rfl, -⟩ := setEnabled_eq_ok h
    simp [RbacEvent.Grants, RbacEvent.Revokes]

/-- The checks of a catalog without roles and grants are on at the end of a run if they were at
its start or have been turned on since. -/
theorem enabled_iff (h : LogRun OrdinaryStep start log rbac) :
    rbac.enabled = true ↔ start.enabled = true ∨
      ∃ event ∈ log, event = .setEnabled true := by
  induction h with
  | nil => simp
  | @concat log rbac event rbac' hrun h ih =>
    simp only [List.mem_append, List.mem_singleton, or_and_right, exists_or, exists_eq_left,
      ← or_assoc, ← ih]
    cases h.2 with
    | mutate hbind hexecute =>
      have henabled : rbac'.enabled = rbac.enabled := by
        obtain ⟨-, -, rfl⟩ | ⟨-, rfl⟩ | ⟨-, -, rfl⟩ | ⟨-, -, rfl⟩ | ⟨-, rfl⟩ :=
          rbacMutate_cases (rbacMutate_of_execute hexecute)
        all_goals rfl
      simp [henabled]
    | setEnabled h =>
      obtain ⟨rfl, hon⟩ := setEnabled_eq_ok h
      simpa using hon

/-- By the log, the session may use a grant of the privilege on a scope that contains the
object. -/
def GrantedBy (log : List RbacEvent) (context : RbacSession) (schemaId tableId : Option Idx)
    (p : DuckLakePrivilege) : Prop :=
  ∃ grantee ∈ context.holders, ∃ scope : GrantScope, scope.Covers schemaId tableId ∧
    Stands (RbacEvent.Grants grantee scope p) (RbacEvent.Revokes grantee scope p) log

theorem granted_iff_grantedBy (hroles : start.roles = []) (hgrants : start.grants = [])
    (h : LogRun OrdinaryStep start log rbac) {context : RbacSession}
    {schemaId tableId : Option Idx} {p : DuckLakePrivilege} :
    rbac.Granted context schemaId tableId p ↔ GrantedBy log context schemaId tableId p := by
  have hstands (grantee : Text) (scope : GrantScope) :
      Holds rbac.grants grantee scope p ↔
        Stands (RbacEvent.Grants grantee scope p) (RbacEvent.Revokes grantee scope p) log :=
    h.iff_stands (.of_empty hroles hgrants) (fun _ _ _ hwf h => h.wellFormed hwf)
      (by simp [Holds, hgrants]) fun _ _ _ hwf h => h.holds_iff hwf
  simp only [DuckLakeRbac.Granted, GrantedBy, hstands]

/-- What the log of a catalog and the settings of a session say about a check of privileges on an
object: the checks are off, or the session is exempt, or each of the privileges, or `ADMIN`, has
been granted on a scope that contains the object and stands. -/
def AllowedByLog (start : DuckLakeRbac) (log : List RbacEvent) (context : RbacSession)
    (privilege : Privileges) (schemaId tableId : Option Idx) : Prop :=
  (start.enabled = true ∨ ∃ event ∈ log, event = .setEnabled true) →
    context.isInternalConnection = false → ¬ context.IsBootstrapAdmin →
    (∀ p, privilege.Has p → GrantedBy log context schemaId tableId p) ∨
      GrantedBy log context schemaId tableId .admin

theorem checkPrivilege_iff_allowedByLog (hroles : start.roles = []) (hgrants : start.grants = [])
    (h : LogRun OrdinaryStep start log rbac) {context : RbacSession} {privilege : Privileges}
    (hprivilege : privilege.Known) {schemaId tableId : Option Idx} {object : Text} :
    rbac.checkPrivilege context privilege schemaId tableId object = .ok () ↔
      AllowedByLog start log context privilege schemaId tableId := by
  rw [DuckLakeRbac.checkPrivilege_eq_ok_iff hprivilege, AllowedByLog, DuckLakeRbac.Restricts,
    enabled_iff h]
  simp only [granted_iff_grantedBy hroles hgrants h, and_imp]

/-- The checks of a catalog that has been attached without roles and grants follow the log of the
calls that have succeeded since. -/
theorem checks_iff_allowedByLog (hroles : start.roles = []) (hgrants : start.grants = [])
    (hrun : LogRun RbacStep start log rbac) (hpublic : ∀ event ∈ log, event.NamesNoPublicRole)
    (context : RbacSession) {privilege : Privileges} (hprivilege : privilege.Known)
    (table : RbacTable) (schemaId : Idx) (schemaName : Text) :
    (rbac.checkTablePrivilege context privilege table = .ok () ↔
      isTransactionLocal table.tableId = true ∨
        AllowedByLog start log context privilege (some table.schemaId) (some table.tableId)) ∧
    (rbac.checkSchemaPrivilege context privilege schemaId schemaName = .ok () ↔
      AllowedByLog start log context privilege (some schemaId) none) ∧
    (rbac.checkCatalogPrivilege context privilege = .ok () ↔
      AllowedByLog start log context privilege none none) := by
  have h : LogRun OrdinaryStep start log rbac := hrun.restrict hpublic
  refine ⟨?_, checkPrivilege_iff_allowedByLog hroles hgrants h hprivilege,
    checkPrivilege_iff_allowedByLog hroles hgrants h hprivilege⟩
  rw [DuckLakeRbac.checkTablePrivilege]
  split
  · exact iff_of_true rfl (.inl ‹_›)
  · rw [or_iff_right ‹_›]
    exact checkPrivilege_iff_allowedByLog hroles hgrants h hprivilege

/-- No two roles and no two grants of one scope ever differ in case only, no grant outlives its
role, and none is empty. -/
theorem wellFormed_of_run (hroles : start.roles = []) (hgrants : start.grants = [])
    (hrun : LogRun RbacStep start log rbac) (hpublic : ∀ event ∈ log, event.NamesNoPublicRole) :
    rbac.WellFormed := by
  have h : LogRun OrdinaryStep start log rbac := hrun.restrict hpublic
  exact h.invariant (.of_empty hroles hgrants) fun _ _ _ hwf h => h.wellFormed hwf

end Run

end Functions

/-! ## A run -/

section Example

/-- The function `lower` on text of ASCII characters. -/
@[reducible] def SqlLower.ascii : SqlLower where
  lower := Text.fold
  lower_congr h := h

attribute [local instance] SqlLower.ascii

/-- An administrator's session. -/
def adminSession : RbacSession := ⟨some "admin", none, false⟩

/-- A session of a role that has been given nothing in its own spelling. -/
def analystSession : RbacSession := ⟨some "ANALYST", none, false⟩

/-- A catalog with a schema `main` and a table in it. -/
def exampleLookup : CatalogLookup where
  getSchema _ := .ok 0
  getTable _ _ := .ok 1

def emptyRbac : DuckLakeRbac := ⟨"lake", true, [], []⟩

/-- A role is created, gets two privileges on the schema, and loses one of them. -/
def exampleLog : List RbacEvent :=
  [.mutate ⟨.createRole, "Analyst", 0, none, none⟩,
   .mutate ⟨.grant, "Analyst", 3, some 0, none⟩,
   .mutate ⟨.revoke, "Analyst", 2, some 0, none⟩]

def grantedRbac : DuckLakeRbac :=
  ⟨"lake", true, [⟨1, "Analyst"⟩], [⟨1, "Analyst", some 0, none, 1⟩]⟩

theorem exampleRun : LogRun RbacStep emptyRbac exampleLog grantedRbac := by
  have hcreate := @RbacStep.mutate _ emptyRbac
    ⟨adminSession, exampleLookup, .createRole "Analyst"⟩ _ _ rfl rfl
  have hgrant := @RbacStep.mutate _ { emptyRbac with roles := [⟨1, "Analyst"⟩] }
    ⟨adminSession, exampleLookup, .grant "analyst" "select, insert" (some "main") none⟩ _ _ rfl rfl
  have hrevoke := @RbacStep.mutate _
    { emptyRbac with
      roles := [⟨1, "Analyst"⟩]
      grants := [⟨1, "Analyst", some 0, none, 3⟩] }
    ⟨adminSession, exampleLookup, .revoke "ANALYST" "Insert" (some "main") none⟩ _ _ rfl rfl
  exact .concat (.concat (.concat .nil hcreate) hgrant) hrevoke

theorem exampleLog_namesNoPublicRole : ∀ event ∈ exampleLog, event.NamesNoPublicRole := by
  intro event hevent
  rcases List.mem_cons.1 hevent with rfl | hevent
  · exact fun _ => by decide
  rcases List.mem_cons.1 hevent with rfl | hevent
  · exact nofun
  · rw [List.mem_singleton.1 hevent]
    exact nofun

/-- In any spelling, the role may read the tables of the schema and no longer insert into them. -/
theorem checks_of_analyst :
    AllowedByLog emptyRbac exampleLog analystSession DuckLakePrivilege.select.mask (some 0) (some 1) ∧
      ¬ AllowedByLog emptyRbac exampleLog analystSession DuckLakePrivilege.insert.mask
        (some 0) (some 1) := by
  have h (p : DuckLakePrivilege) := (checks_iff_allowedByLog rfl rfl exampleRun
    exampleLog_namesNoPublicRole analystSession
    (@Privileges.known_mask p) ⟨1, "t", 0, "main"⟩ 0 "main").1
  refine ⟨((h .select).1 (by decide)).resolve_left (by decide), fun hallowed => ?_⟩
  exact absurd ((h .insert).2 (.inr hallowed)) (by decide)

theorem wellFormed_grantedRbac : grantedRbac.WellFormed :=
  wellFormed_of_run rfl rfl exampleRun exampleLog_namesNoPublicRole

end Example

end DuckLake
