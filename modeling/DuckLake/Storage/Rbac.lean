import Mathlib.Algebra.Order.Ring.Nat
import DuckLake.Storage.LocalChanges

/-!
# Roles, grants and privilege checks

The access control of a catalog: what `storage/ducklake_rbac.cpp` reads from the grants of the
metadata database, and the checks that a statement passes before it runs.
-/

namespace DuckLake

/-! ## Privileges -/

inductive DuckLakePrivilege where
  | select | insert | update | delete | create | drop | alter | execute | admin
deriving DecidableEq, Repr

/-- A bitmask of privileges. -/
abbrev Privileges := BitVec 64

namespace DuckLakePrivilege

def bit : DuckLakePrivilege → ℕ
  | select => 0
  | insert => 1
  | update => 2
  | delete => 3
  | create => 4
  | drop => 5
  | alter => 6
  | execute => 7
  | admin => 8

def mask (p : DuckLakePrivilege) : Privileges := BitVec.twoPow 64 p.bit

def name : DuckLakePrivilege → Text
  | select => "SELECT"
  | insert => "INSERT"
  | update => "UPDATE"
  | delete => "DELETE"
  | create => "CREATE"
  | drop => "DROP"
  | alter => "ALTER"
  | execute => "EXECUTE"
  | admin => "ADMIN"

/-- All of them, in the order of their bits. -/
def all : List DuckLakePrivilege :=
  [select, insert, update, delete, create, drop, alter, execute, admin]

theorem mem_all (p : DuckLakePrivilege) : p ∈ all := by cases p <;> decide

theorem bit_lt (p : DuckLakePrivilege) : p.bit < 9 := by cases p <;> decide

theorem bit_injective {p q : DuckLakePrivilege} (h : p.bit = q.bit) : p = q := by
  cases p <;> cases q <;> first | rfl | exact absurd h (by decide)

theorem exists_bit_eq {i : ℕ} (h : i < 9) : ∃ p : DuckLakePrivilege, p.bit = i := by
  match i, h with
  | 0, _ => exact ⟨select, rfl⟩
  | 1, _ => exact ⟨insert, rfl⟩
  | 2, _ => exact ⟨update, rfl⟩
  | 3, _ => exact ⟨delete, rfl⟩
  | 4, _ => exact ⟨create, rfl⟩
  | 5, _ => exact ⟨drop, rfl⟩
  | 6, _ => exact ⟨alter, rfl⟩
  | 7, _ => exact ⟨execute, rfl⟩
  | 8, _ => exact ⟨admin, rfl⟩

end DuckLakePrivilege

namespace Privileges

/-- The bit of a privilege is set. -/
def Has (m : Privileges) (p : DuckLakePrivilege) : Prop := m.getLsbD p.bit = true

instance (m : Privileges) (p : DuckLakePrivilege) : Decidable (m.Has p) :=
  inferInstanceAs (Decidable (_ = _))

def ALL : Privileges := BitVec.ofNat 64 (2 ^ 9 - 1)

/-- No bit other than those of the privileges is set. -/
def Known (m : Privileges) : Prop := ∀ i, m.getLsbD i = true → i < 9

variable {m n : Privileges} {p q : DuckLakePrivilege}

@[simp] theorem not_has_zero : ¬ Privileges.Has 0#64 p := by simp [Has]

@[simp] theorem has_or : Privileges.Has (m ||| n) p ↔ m.Has p ∨ n.Has p := by simp [Has]

@[simp] theorem has_and : Privileges.Has (m &&& n) p ↔ m.Has p ∧ n.Has p := by simp [Has]

@[simp] theorem has_not : Privileges.Has (~~~m) p ↔ ¬ m.Has p := by
  have hp := p.bit_lt
  simp [Has, show p.bit < 64 by omega]

@[simp] theorem has_mask : Privileges.Has q.mask p ↔ q = p := by
  have hq := q.bit_lt
  simp only [Has, DuckLakePrivilege.mask, BitVec.getLsbD_twoPow, Bool.and_eq_true, decide_eq_true_eq]
  exact ⟨fun h => DuckLakePrivilege.bit_injective h.2, fun h => ⟨by omega, congrArg _ h⟩⟩

theorem getLsbD_ALL (i : ℕ) : ALL.getLsbD i = decide (i < 9) := by
  rw [ALL, BitVec.getLsbD_ofNat, Nat.testBit_two_pow_sub_one]
  by_cases h : i < 9 <;> simp [h]
  omega

@[simp] theorem has_ALL : ALL.Has p := by simp [Has, getLsbD_ALL, p.bit_lt]

theorem Known.ext (hm : m.Known) (hn : n.Known) (h : ∀ p, m.Has p ↔ n.Has p) : m = n := by
  apply BitVec.eq_of_getLsbD_eq
  intro i _
  by_cases hi : i < 9
  · obtain ⟨p, rfl⟩ := DuckLakePrivilege.exists_bit_eq hi
    exact Bool.eq_iff_iff.2 (h p)
  · rw [Bool.eq_false_iff.2 fun h => hi (hm i h), Bool.eq_false_iff.2 fun h => hi (hn i h)]

theorem known_zero : Known 0#64 := by simp [Known]

theorem known_ALL : ALL.Known := fun i h => by simpa [getLsbD_ALL] using h

theorem known_mask : Known p.mask := by
  intro i h
  simp only [DuckLakePrivilege.mask, BitVec.getLsbD_twoPow, Bool.and_eq_true, decide_eq_true_eq] at h
  exact h.2 ▸ p.bit_lt

theorem Known.or (hm : m.Known) (hn : n.Known) : Known (m ||| n) := by
  intro i h
  rcases Bool.or_eq_true _ _ ▸ BitVec.getLsbD_or ▸ h with h | h
  · exact hm i h
  · exact hn i h

theorem Known.and (hm : m.Known) : Known (m &&& n) := fun i h =>
  hm i (Bool.and_eq_true _ _ ▸ BitVec.getLsbD_and ▸ h).1

/-- A mask of privileges without any is zero. -/
theorem Known.eq_zero_iff (hm : m.Known) : m = 0 ↔ ∀ p, ¬ m.Has p :=
  ⟨fun h _ => h ▸ not_has_zero, fun h =>
    hm.ext known_zero fun p => iff_of_false (h p) not_has_zero⟩

/-- `(granted & requested) == requested`. -/
def satisfies (granted requested : Privileges) : Bool := granted &&& requested == requested

theorem satisfies_iff {granted requested : Privileges} (h : requested.Known) :
    granted.satisfies requested = true ↔ ∀ p, requested.Has p → granted.Has p := by
  rw [satisfies, beq_iff_eq]
  constructor
  · intro heq p hp
    exact (has_and.1 (heq.symm ▸ hp)).1
  · intro hall
    refine Known.ext (fun i hi => ?_) h fun p => ?_
    · rw [BitVec.and_comm] at hi
      exact h.and i hi
    · rw [has_and]
      exact ⟨And.right, fun hp => ⟨hall p hp, hp⟩⟩

theorem and_mask_ne_zero_iff : (m &&& p.mask != 0) = true ↔ m.Has p := by
  rw [bne_iff_ne, ne_eq, BitVec.and_comm, (known_mask.and).eq_zero_iff]
  simp

end Privileges

/-! ### Their text form -/

/-- `StringUtil::CharacterIsSpace`. -/
def characterIsSpace (c : Char) : Bool := c = ' ' || ('\t' ≤ c && c ≤ '\r')

/-- `StringUtil::Trim`. -/
def trim (t : Text) : Text :=
  ((t.dropWhile characterIsSpace).reverse.dropWhile characterIsSpace).reverse

def splitLoop (sep : Char) : Text → Text → List Text
  | part, [] => if part.isEmpty then [] else [part]
  | part, c :: t => if c = sep then part :: splitLoop sep [] t else splitLoop sep (part ++ [c]) t

/-- `StringUtil::Split`: the parts between the separators, without an empty one at the end. -/
def split (t : Text) (sep : Char) : List Text := splitLoop sep [] t

theorem splitLoop_append {sep : Char} {part t rest : Text} (h : sep ∉ t) :
    splitLoop sep part (t ++ rest) = splitLoop sep (part ++ t) rest := by
  induction t generalizing part with
  | nil => rw [List.append_nil, List.nil_append]
  | cons c t ih =>
    rw [List.mem_cons, not_or] at h
    rw [List.cons_append, splitLoop, if_neg (Ne.symm h.1), ih h.2, List.append_assoc,
      List.singleton_append]

/-- Splitting undoes joining, of nonempty parts that do not contain the separator. -/
theorem split_join {sep : Char} {ts : List Text} (hne : ∀ t ∈ ts, t ≠ [])
    (hsep : ∀ t ∈ ts, sep ∉ t) : split (Text.join [sep] ts) sep = ts := by
  induction ts with
  | nil => rfl
  | cons t ts ih =>
    have ih := ih (fun u hu => hne u (List.mem_cons_of_mem _ hu)) fun u hu =>
      hsep u (List.mem_cons_of_mem _ hu)
    have ht := hsep t (by simp)
    cases ts with
    | nil =>
      have hloop := @splitLoop_append sep [] t [] ht
      rw [List.append_nil, List.nil_append, splitLoop, if_neg (by simp [hne t (by simp)])] at hloop
      exact hloop
    | cons u us =>
      rw [Text.join_cons (by simp), List.append_assoc, split, splitLoop_append ht,
        List.singleton_append, splitLoop, if_pos rfl, List.nil_append]
      exact congrArg (t :: ·) ih

inductive RbacExceptionType where
  | invalidInput | permission | catalog | conversion | notImplemented
deriving DecidableEq, Repr

structure RbacException where
  type : RbacExceptionType
  message : Text
deriving DecidableEq

def parseSinglePrivilege (privilege : Text) (result : Privileges) : Option Privileges :=
  let entry := (trim privilege).map Char.toUpper
  if entry = "SELECT".toList then some (result ||| DuckLakePrivilege.select.mask)
  else if entry = "INSERT".toList then some (result ||| DuckLakePrivilege.insert.mask)
  else if entry = "UPDATE".toList then some (result ||| DuckLakePrivilege.update.mask)
  else if entry = "DELETE".toList then some (result ||| DuckLakePrivilege.delete.mask)
  else if entry = "CREATE".toList then some (result ||| DuckLakePrivilege.create.mask)
  else if entry = "DROP".toList then some (result ||| DuckLakePrivilege.drop.mask)
  else if entry = "ALTER".toList then some (result ||| DuckLakePrivilege.alter.mask)
  else if entry = "EXECUTE".toList then some (result ||| DuckLakePrivilege.execute.mask)
  else if entry = "ADMIN".toList then some (result ||| DuckLakePrivilege.admin.mask)
  else if entry = "ALL".toList then some (result ||| Privileges.ALL)
  else none

def parsePrivilegesLoop : List Text → Privileges → Except RbacException Privileges
  | [], result => .ok result
  | entry :: entries, result =>
    match parseSinglePrivilege entry result with
    | some result => parsePrivilegesLoop entries result
    | none => .error ⟨.invalidInput, "Unknown privilege \"".toList ++ trim entry ++
        ("\" - supported privileges are SELECT, INSERT, UPDATE, DELETE, CREATE, DROP, " ++
        "ALTER, EXECUTE, ADMIN, ALL").toList⟩

def parsePrivileges (privileges : Text) : Except RbacException Privileges := do
  let result ← parsePrivilegesLoop (split privileges ',') 0
  if result = 0 then .error ⟨.invalidInput, "No privileges specified"⟩ else .ok result

/-- The names of the privileges in a mask, in the order of their bits. -/
def privilegeEntries (privileges : Privileges) : List Text :=
  (DuckLakePrivilege.all.filter fun p => privileges &&& p.mask != 0).map (·.name)

def privilegesToString (privileges : Privileges) : Text :=
  if privileges = Privileges.ALL then "ALL" else Text.join "," (privilegeEntries privileges)

@[simp] theorem parseSinglePrivilege_name (p : DuckLakePrivilege) (result : Privileges) :
    parseSinglePrivilege p.name result = some (result ||| p.mask) := by cases p <;> rfl

/-- An entry adds the privileges of a mask that is not empty. -/
theorem parseSinglePrivilege_eq_some {privilege : Text} {result result' : Privileges}
    (h : parseSinglePrivilege privilege result = some result') :
    ∃ m : Privileges, m.Known ∧ (∃ p, m.Has p) ∧ result' = result ||| m := by
  have single (p : DuckLakePrivilege) (h : some (result ||| p.mask) = some result') :
      ∃ m : Privileges, m.Known ∧ (∃ p, m.Has p) ∧ result' = result ||| m :=
    ⟨p.mask, Privileges.known_mask, ⟨p, by simp⟩, (Option.some.inj h).symm⟩
  rw [parseSinglePrivilege] at h
  split at h
  · exact single .select h
  split at h
  · exact single .insert h
  split at h
  · exact single .update h
  split at h
  · exact single .delete h
  split at h
  · exact single .create h
  split at h
  · exact single .drop h
  split at h
  · exact single .alter h
  split at h
  · exact single .execute h
  split at h
  · exact single .admin h
  split at h
  · exact ⟨.ALL, Privileges.known_ALL, ⟨.select, by simp⟩, (Option.some.inj h).symm⟩
  · cases h

theorem known_of_parsePrivilegesLoop {entries : List Text} {result m : Privileges}
    (h : parsePrivilegesLoop entries result = .ok m) (hresult : result.Known) : m.Known := by
  induction entries generalizing result with
  | nil => cases h; exact hresult
  | cons entry entries ih =>
    rw [parsePrivilegesLoop] at h
    cases hentry : parseSinglePrivilege entry result with
    | none =>
      rw [hentry] at h
      cases h
    | some result' =>
      obtain ⟨added, hadded, -, rfl⟩ := parseSinglePrivilege_eq_some hentry
      rw [hentry] at h
      exact ih h (hresult.or hadded)

/-- What a privilege list is read as: known privileges, at least one. -/
theorem known_of_parsePrivileges {t : Text} {m : Privileges} (h : parsePrivileges t = .ok m) :
    m.Known ∧ m ≠ 0 := by
  rw [parsePrivileges] at h
  cases hloop : parsePrivilegesLoop (split t ',') 0 with
  | error e =>
    rw [hloop] at h
    cases h
  | ok result =>
    rw [hloop] at h
    dsimp only [bind, Except.bind] at h
    split at h
    · cases h
    · cases h
      exact ⟨known_of_parsePrivilegesLoop hloop Privileges.known_zero, ‹_›⟩

theorem parsePrivilegesLoop_names (ps : List DuckLakePrivilege) (result : Privileges) :
    parsePrivilegesLoop (ps.map (·.name)) result = .ok (ps.foldl (· ||| ·.mask) result) := by
  induction ps generalizing result with
  | nil => rfl
  | cons p ps ih =>
    rw [List.map_cons, parsePrivilegesLoop, parseSinglePrivilege_name]
    exact ih _

theorem Privileges.has_foldl_mask {ps : List DuckLakePrivilege} {m : Privileges}
    {q : DuckLakePrivilege} : (ps.foldl (· ||| ·.mask) m).Has q ↔ m.Has q ∨ q ∈ ps := by
  induction ps generalizing m with
  | nil => simp
  | cons p ps ih => rw [List.foldl_cons, ih, has_or, has_mask, List.mem_cons, or_assoc, eq_comm]

theorem Privileges.Known.foldl_mask {ps : List DuckLakePrivilege} {m : Privileges} (h : m.Known) :
    (ps.foldl (· ||| ·.mask) m).Known := by
  induction ps generalizing m with
  | nil => exact h
  | cons p ps ih => exact ih (h.or known_mask)

theorem DuckLakePrivilege.comma_not_mem_name (p : DuckLakePrivilege) : ',' ∉ p.name := by
  cases p <;> decide

theorem DuckLakePrivilege.name_ne_nil (p : DuckLakePrivilege) : p.name ≠ [] := by
  cases p <;> decide

theorem split_privilegeEntries (m : Privileges) :
    split (Text.join "," (privilegeEntries m)) ',' = privilegeEntries m := by
  refine split_join (fun t ht => ?_) fun t ht => ?_
  · obtain ⟨p, -, rfl⟩ := List.mem_map.1 ht
    exact p.name_ne_nil
  · obtain ⟨p, -, rfl⟩ := List.mem_map.1 ht
    exact p.comma_not_mem_name

theorem parsePrivileges_privilegesToString {m : Privileges} (h : m.Known) (hne : m ≠ 0) :
    parsePrivileges (privilegesToString m) = .ok m := by
  rw [privilegesToString]
  split
  · subst ‹m = _›
    rfl
  · have hm : (DuckLakePrivilege.all.filter fun p => m &&& p.mask != 0).foldl (· ||| ·.mask) 0 =
        m := by
      refine Privileges.known_zero.foldl_mask.ext h fun p => ?_
      rw [Privileges.has_foldl_mask, List.mem_filter, Privileges.and_mask_ne_zero_iff]
      simp [p.mem_all]
    have hloop := parsePrivilegesLoop_names
      (DuckLakePrivilege.all.filter fun p => m &&& p.mask != 0) 0
    rw [hm] at hloop
    rw [parsePrivileges, split_privilegeEntries, privilegeEntries, hloop]
    exact if_neg hne

/-- The masks that privilege lists are read as are those of known privileges with at least one. The
text form of such a mask is read as the same mask. -/
theorem parsePrivileges_iff_known {m : Privileges} :
    ((∃ t, parsePrivileges t = .ok m) ↔ m.Known ∧ m ≠ 0) ∧
      (m.Known ∧ m ≠ 0 → parsePrivileges (privilegesToString m) = .ok m) := by
  have hprints : m.Known ∧ m ≠ 0 → parsePrivileges (privilegesToString m) = .ok m :=
    fun ⟨hknown, hne⟩ => parsePrivileges_privilegesToString hknown hne
  refine ⟨⟨?_, fun h => ⟨_, hprints h⟩⟩, hprints⟩
  rintro ⟨t, ht⟩
  exact known_of_parsePrivileges ht

/-! ## Grants -/

/-- A row of `ducklake_grant`. -/
structure DuckLakeGrant where
  grantId : ℕ
  grantee : Text
  schemaId : Option Idx
  tableId : Option Idx
  privileges : Privileges
deriving DecidableEq

/-- A row of `ducklake_role`. -/
structure DuckLakeRole where
  roleId : ℕ
  roleName : Text
deriving DecidableEq

/-- The grantee that stands for every session. -/
def publicGrantee : Text := "PUBLIC"

def grantApplies (grantSchema grantTable schemaId tableId : Option Idx) : Bool :=
  match grantTable, grantSchema with
  | some grantTable, _ => tableId == some grantTable
  | none, some grantSchema => schemaId == some grantSchema
  | none, none => true

def getPrivileges (grants : List DuckLakeGrant) (grantee : Text) (schemaId tableId : Option Idx) :
    Privileges :=
  grants.foldl (fun granted row =>
    if !Text.ciEquals row.grantee grantee then granted
    else if grantApplies row.schemaId row.tableId schemaId tableId then granted ||| row.privileges
    else granted) 0

/-- What a grant is about. -/
inductive GrantScope where
  | catalog
  | schema (schemaId : Idx)
  | table (tableId : Idx)
deriving DecidableEq

namespace GrantScope

/-- The scope that a schema id and a table id stand for. -/
def of : Option Idx → Option Idx → GrantScope
  | _, some tableId => table tableId
  | some schemaId, none => schema schemaId
  | none, none => catalog

/-- The scope contains the object of a schema id and a table id, of which a schema has the first
only and the catalog none. -/
def Covers (schemaId tableId : Option Idx) : GrantScope → Prop
  | catalog => True
  | schema id => schemaId = some id
  | table id => tableId = some id

theorem eq_catalog_of_covers {scope : GrantScope} (h : scope.Covers none none) :
    scope = catalog := by
  cases scope with
  | catalog => rfl
  | schema => cases h
  | table => cases h

end GrantScope

def DuckLakeGrant.scope (row : DuckLakeGrant) : GrantScope := .of row.schemaId row.tableId

theorem grantApplies_iff {grantSchema grantTable schemaId tableId : Option Idx} :
    grantApplies grantSchema grantTable schemaId tableId = true ↔
      (GrantScope.of grantSchema grantTable).Covers schemaId tableId := by
  cases grantTable <;> cases grantSchema <;>
    simp [grantApplies, GrantScope.of, GrantScope.Covers]

/-- A grantee, in whatever case, has been granted a privilege on exactly this scope. -/
def Holds (grants : List DuckLakeGrant) (grantee : Text) (scope : GrantScope)
    (p : DuckLakePrivilege) : Prop :=
  ∃ row ∈ grants, row.grantee.fold = grantee.fold ∧ row.scope = scope ∧ row.privileges.Has p

theorem has_getPrivileges {grants : List DuckLakeGrant} {grantee : Text}
    {schemaId tableId : Option Idx} {p : DuckLakePrivilege} :
    (getPrivileges grants grantee schemaId tableId).Has p ↔
      ∃ scope : GrantScope, scope.Covers schemaId tableId ∧ Holds grants grantee scope p := by
  -- The mask that has been collected so far is kept apart from the rows that are left.
  have hfold (rows : List DuckLakeGrant) (m : Privileges) :
      (rows.foldl (fun granted row =>
        if !Text.ciEquals row.grantee grantee then granted
        else if grantApplies row.schemaId row.tableId schemaId tableId then
          granted ||| row.privileges
        else granted) m).Has p ↔
      m.Has p ∨ ∃ row ∈ rows, row.grantee.fold = grantee.fold ∧
        row.scope.Covers schemaId tableId ∧ row.privileges.Has p := by
    induction rows generalizing m with
    | nil => simp
    | cons row rows ih =>
      rw [List.foldl_cons, ih]
      simp only [List.mem_cons, exists_eq_or_imp, ← or_assoc]
      refine or_congr_left ?_
      by_cases hg : row.grantee.fold = grantee.fold
      · by_cases happ : grantApplies row.schemaId row.tableId schemaId tableId = true
        · have hcovers : row.scope.Covers schemaId tableId := grantApplies_iff.1 happ
          simp [Text.ciEquals, hg, happ, hcovers]
        · have hcovers : ¬ row.scope.Covers schemaId tableId := mt grantApplies_iff.2 happ
          simp [Text.ciEquals, hg, happ, hcovers]
      · simp [Text.ciEquals, hg]
  rw [getPrivileges, hfold]
  constructor
  · rintro (h | ⟨row, hrow, hg, hcovers, hp⟩)
    · exact absurd h Privileges.not_has_zero
    · exact ⟨row.scope, hcovers, row, hrow, hg, rfl, hp⟩
  · rintro ⟨scope, hcovers, row, hrow, hg, rfl, hp⟩
    exact .inr ⟨row, hrow, hg, hcovers, hp⟩

/-! ## Sessions -/

/-- What the checks read of a session: its settings `ducklake_role` and `ducklake_admin_role`, and
whether its connection is one that the extension made for itself. -/
structure RbacSession where
  role : Option Text
  adminRole : Option Text
  isInternalConnection : Bool

namespace RbacSession

def getActiveRole (context : RbacSession) : Text :=
  match context.role with
  | some role => if !role.isEmpty then role else []
  | none => []

def getAdminRole (context : RbacSession) : Text :=
  match context.adminRole with
  | some admin => if !admin.isEmpty then admin else "admin"
  | none => "admin"

/-- The role that the settings name as the administrator. -/
def IsBootstrapAdmin (context : RbacSession) : Prop :=
  context.getActiveRole.fold = context.getAdminRole.fold

/-- The grantees whose grants a session may use. -/
def holders (context : RbacSession) : List Text :=
  publicGrantee :: if context.getActiveRole.isEmpty then [] else [context.getActiveRole]

end RbacSession

/-! ## The checks -/

structure DuckLakeRbac where
  /-- The name of the catalog. -/
  catalog : Text
  enabled : Bool
  roles : List DuckLakeRole
  grants : List DuckLakeGrant

/-- What the checks read of a table. -/
structure RbacTable where
  tableId : Idx
  name : Text
  schemaId : Idx
  schemaName : Text

namespace DuckLakeRbac

def setEnabled (rbac : DuckLakeRbac) (value : Bool) : Except RbacException DuckLakeRbac :=
  if !value && rbac.enabled then
    .error ⟨.permission, ("Cannot disable ducklake RBAC while the catalog is attached - detach " ++
      "and re-attach to change it").toList⟩
  else .ok { rbac with enabled := value }

/-- The privileges that the checks look at: those of `PUBLIC` and those of the active role. -/
def sessionPrivileges (rbac : DuckLakeRbac) (context : RbacSession)
    (schemaId tableId : Option Idx) : Privileges :=
  let role := context.getActiveRole
  let privileges := getPrivileges rbac.grants publicGrantee schemaId tableId
  if !role.isEmpty then privileges ||| getPrivileges rbac.grants role schemaId tableId
  else privileges

def hasAdminInternal (rbac : DuckLakeRbac) (context : RbacSession) : Bool :=
  -- bootstrap: the role named by ducklake_admin_role is always admin
  if Text.ciEquals context.getActiveRole context.getAdminRole then true
  else rbac.sessionPrivileges context none none &&& DuckLakePrivilege.admin.mask != 0

def roleText (role : Text) : Text := if role.isEmpty then publicGrantee else role

def checkAdmin (rbac : DuckLakeRbac) (context : RbacSession) : Except RbacException Unit :=
  if !rbac.enabled || context.isInternalConnection then .ok ()
  else if !rbac.hasAdminInternal context then
    .error ⟨.permission, "Role \"".toList ++ roleText context.getActiveRole ++
      "\" does not have ADMIN privileges on DuckLake catalog \"".toList ++ rbac.catalog ++ ['"']⟩
  else .ok ()

def throwDenied (privilege : Privileges) (role object catalog : Text) :
    Except RbacException Unit :=
  .error ⟨.permission, "Role \"".toList ++ roleText role ++ "\" does not have ".toList ++
    privilegesToString privilege ++ " privilege on ".toList ++ object ++
    " of DuckLake catalog \"".toList ++ catalog ++ ['"']⟩

/-- The check of a privilege on the object of a schema id and a table id. -/
def checkPrivilege (rbac : DuckLakeRbac) (context : RbacSession) (privilege : Privileges)
    (schemaId tableId : Option Idx) (object : Text) : Except RbacException Unit :=
  if !rbac.enabled || context.isInternalConnection then .ok ()
  else if rbac.hasAdminInternal context then .ok ()
  else
    let privileges := rbac.sessionPrivileges context schemaId tableId
    if !privileges.satisfies privilege && privileges &&& DuckLakePrivilege.admin.mask == 0 then
      throwDenied privilege context.getActiveRole object rbac.catalog
    else .ok ()

def checkTablePrivilege (rbac : DuckLakeRbac) (context : RbacSession) (privilege : Privileges)
    (table : RbacTable) : Except RbacException Unit :=
  -- a transaction-local table has no persisted id to grant against
  if isTransactionLocal table.tableId then .ok ()
  else rbac.checkPrivilege context privilege (some table.schemaId) (some table.tableId)
    ("table ".toList ++ Text.writeQuoted '"' table.schemaName ++ '.' :: Text.writeQuoted '"' table.name)

def checkSchemaPrivilege (rbac : DuckLakeRbac) (context : RbacSession) (privilege : Privileges)
    (schemaId : Idx) (schemaName : Text) : Except RbacException Unit :=
  rbac.checkPrivilege context privilege (some schemaId) none
    ("schema ".toList ++ Text.writeQuoted '"' schemaName)

def checkCatalogPrivilege (rbac : DuckLakeRbac) (context : RbacSession) (privilege : Privileges) :
    Except RbacException Unit :=
  rbac.checkPrivilege context privilege none none "catalog"

/-- The check for an object that has no check of its own, such as a routine. -/
def checkDuckDBObject (rbac : DuckLakeRbac) (context : RbacSession) (privilege : Privileges)
    (schemaId : Option Idx) : Bool :=
  if !rbac.enabled || context.isInternalConnection || rbac.hasAdminInternal context then true
  else (rbac.sessionPrivileges context schemaId none).satisfies privilege

/-! ### What they let through -/

/-- The session may use a grant of the privilege on a scope that contains the object. -/
def Granted (rbac : DuckLakeRbac) (context : RbacSession) (schemaId tableId : Option Idx)
    (p : DuckLakePrivilege) : Prop :=
  ∃ grantee ∈ context.holders, ∃ scope : GrantScope,
    scope.Covers schemaId tableId ∧ Holds rbac.grants grantee scope p

/-- The session is subject to grants. -/
def Restricts (rbac : DuckLakeRbac) (context : RbacSession) : Prop :=
  rbac.enabled = true ∧ context.isInternalConnection = false ∧ ¬ context.IsBootstrapAdmin

variable {rbac : DuckLakeRbac} {context : RbacSession} {schemaId tableId : Option Idx}
  {privilege : Privileges} {p : DuckLakePrivilege} {object : Text}

theorem has_sessionPrivileges :
    (rbac.sessionPrivileges context schemaId tableId).Has p ↔
      rbac.Granted context schemaId tableId p := by
  rw [sessionPrivileges, Granted, RbacSession.holders]
  by_cases hrole : context.getActiveRole.isEmpty = true
  · simp [hrole, has_getPrivileges]
  · simp [hrole, has_getPrivileges]

theorem Granted.of_catalog (h : rbac.Granted context none none p) :
    rbac.Granted context schemaId tableId p := by
  obtain ⟨grantee, hgrantee, scope, hcovers, hholds⟩ := h
  obtain rfl := scope.eq_catalog_of_covers hcovers
  exact ⟨grantee, hgrantee, .catalog, trivial, hholds⟩

theorem hasAdminInternal_iff :
    rbac.hasAdminInternal context = true ↔
      context.IsBootstrapAdmin ∨ rbac.Granted context none none .admin := by
  rw [hasAdminInternal, ← has_sessionPrivileges, RbacSession.IsBootstrapAdmin]
  split
  · exact iff_of_true rfl (.inl (Text.ciEquals_iff.1 ‹_›))
  · rw [Privileges.and_mask_ne_zero_iff, or_iff_right (mt Text.ciEquals_iff.2 ‹_›)]

theorem checkPrivilege_eq_ok_iff (h : privilege.Known) :
    rbac.checkPrivilege context privilege schemaId tableId object = .ok () ↔
      (rbac.Restricts context → (∀ p, privilege.Has p → rbac.Granted context schemaId tableId p) ∨
        rbac.Granted context schemaId tableId .admin) := by
  rw [checkPrivilege]
  by_cases hoff : (!rbac.enabled || context.isInternalConnection) = true
  · rw [if_pos hoff]
    refine iff_of_true rfl fun ⟨henabled, hinternal, _⟩ => ?_
    simp [henabled, hinternal] at hoff
  rw [if_neg hoff]
  simp only [Bool.or_eq_true, Bool.not_eq_true', not_or, Bool.not_eq_false, Bool.not_eq_true] at hoff
  by_cases hadmin : rbac.hasAdminInternal context = true
  · rw [if_pos hadmin]
    refine iff_of_true rfl fun ⟨_, _, hboot⟩ => .inr ?_
    exact Granted.of_catalog ((hasAdminInternal_iff.1 hadmin).resolve_left hboot)
  rw [if_neg hadmin]
  have hboot : ¬ context.IsBootstrapAdmin := fun hb => hadmin (hasAdminInternal_iff.2 (.inl hb))
  have hgranted :
      (!(rbac.sessionPrivileges context schemaId tableId).satisfies privilege &&
        rbac.sessionPrivileges context schemaId tableId &&& DuckLakePrivilege.admin.mask == 0) =
          true ↔
      ¬ ((∀ p, privilege.Has p → rbac.Granted context schemaId tableId p) ∨
        rbac.Granted context schemaId tableId .admin) := by
    rw [Bool.and_eq_true, Bool.not_eq_true', ← Bool.not_eq_true, Privileges.satisfies_iff h, not_or,
      ← has_sessionPrivileges (p := .admin), ← Privileges.and_mask_ne_zero_iff]
    simp only [has_sessionPrivileges, bne_iff_ne, ne_eq, not_not, beq_iff_eq]
  dsimp only
  by_cases hdenied :
      (!(rbac.sessionPrivileges context schemaId tableId).satisfies privilege &&
        rbac.sessionPrivileges context schemaId tableId &&& DuckLakePrivilege.admin.mask == 0) =
          true
  · rw [if_pos hdenied]
    exact iff_of_false nofun fun hok =>
      hgranted.1 hdenied (hok ⟨hoff.1, hoff.2, hboot⟩)
  · rw [if_neg hdenied]
    exact iff_of_true rfl fun _ => not_not.1 fun hnot => hdenied (hgranted.2 hnot)

/-- The check of an object without a check of its own takes an `ADMIN` grant into account only
when it is on the whole catalog. -/
theorem checkDuckDBObject_iff (h : privilege.Known) :
    rbac.checkDuckDBObject context privilege schemaId = true ↔
      (rbac.Restricts context → (∀ p, privilege.Has p → rbac.Granted context schemaId none p) ∨
        rbac.Granted context none none .admin) := by
  rw [checkDuckDBObject]
  by_cases hexempt : (!rbac.enabled || context.isInternalConnection ||
      rbac.hasAdminInternal context) = true
  · rw [if_pos hexempt]
    refine iff_of_true rfl fun ⟨henabled, hinternal, hboot⟩ => .inr ?_
    simp only [henabled, hinternal, Bool.not_true, Bool.false_or] at hexempt
    exact (hasAdminInternal_iff.1 hexempt).resolve_left hboot
  · rw [if_neg hexempt, Privileges.satisfies_iff h]
    simp only [Bool.or_eq_true, Bool.not_eq_true', not_or, Bool.not_eq_false, Bool.not_eq_true,
      hasAdminInternal_iff] at hexempt
    obtain ⟨⟨henabled, hinternal⟩, hboot, hadmin⟩ := hexempt
    simp only [has_sessionPrivileges]
    exact ⟨fun hall _ => .inl hall, fun hok =>
      (hok ⟨henabled, hinternal, hboot⟩).resolve_right hadmin⟩

/-- A session passes the check of a schema but not the one of an object in it exactly when it is
an administrator of the schema only, without the privilege itself. The other way round, the check of
the object lets nothing through that the one of the schema refuses. -/
theorem schema_object_iff (h : privilege.Known) {schemaId : Idx} {schemaName : Text} :
    (rbac.checkSchemaPrivilege context privilege schemaId schemaName = .ok () ∧
        rbac.checkDuckDBObject context privilege (some schemaId) = false ↔
      rbac.Restricts context ∧ rbac.Granted context (some schemaId) none .admin ∧
        ¬ rbac.Granted context none none .admin ∧
        ∃ p, privilege.Has p ∧ ¬ rbac.Granted context (some schemaId) none p) ∧
    (rbac.checkDuckDBObject context privilege (some schemaId) = true →
      rbac.checkSchemaPrivilege context privilege schemaId schemaName = .ok ()) := by
  rw [checkSchemaPrivilege, checkPrivilege_eq_ok_iff h, ← Bool.not_eq_true, checkDuckDBObject_iff h]
  refine ⟨⟨?_, ?_⟩, fun hobject hrestricts => (hobject hrestricts).imp_right Granted.of_catalog⟩
  · rintro ⟨hschema, hobject⟩
    obtain ⟨hrestricts, hobject⟩ := Classical.not_imp.1 hobject
    obtain ⟨hsome, hadmin⟩ := not_or.1 hobject
    obtain ⟨p, hp⟩ := not_forall.1 hsome
    exact ⟨hrestricts, (hschema hrestricts).resolve_left hsome, hadmin, p, Classical.not_imp.1 hp⟩
  · rintro ⟨hrestricts, hschema, hadmin, p, hp, hnot⟩
    exact ⟨fun _ => .inr hschema, fun hobject =>
      (hobject hrestricts).elim (fun hall => hnot (hall p hp)) hadmin⟩

/-- The administrator of a schema does not execute the routines in it. -/
theorem schema_object_of_schemaAdmin :
    let rbac : DuckLakeRbac := ⟨"lake", true, [⟨1, "owner"⟩],
      [⟨1, "owner", some 0, none, DuckLakePrivilege.admin.mask⟩]⟩
    let context : RbacSession := ⟨some "owner", none, false⟩
    rbac.Granted context (some 0) none .admin ∧ ¬ rbac.Granted context none none .admin := by
  intro rbac context
  have h := (schema_object_iff (@Privileges.known_mask .execute)).1.1
    (show rbac.checkSchemaPrivilege context DuckLakePrivilege.execute.mask 0 "main" = .ok () ∧
      rbac.checkDuckDBObject context DuckLakePrivilege.execute.mask (some 0) = false by decide)
  exact ⟨h.2.1, h.2.2.1⟩

end DuckLakeRbac

/-! ## Statements with several actions -/

inductive MergeActionType where
  | update | delete | insert | doNothing | error
deriving DecidableEq, Repr

namespace MergeActionType

def privilege : MergeActionType → Option DuckLakePrivilege
  | update => some .update
  | delete => some .delete
  | insert => some .insert
  | doNothing | error => none

/-- An action that writes a delete file. -/
def deletes : MergeActionType → Bool
  | update | delete => true
  | _ => false

end MergeActionType

/-- The privileges that the actions of a statement require. -/
def mergePrivileges (actions : List MergeActionType) : Privileges :=
  actions.foldl (fun privileges action =>
    match action.privilege with
    | some p => privileges ||| p.mask
    | none => privileges) 0

def updateDeleteCount (actions : List MergeActionType) : ℕ := (actions.filter (·.deletes)).length

/-- The checks of `PlanMergeInto`. -/
def planMergeInto (rbac : DuckLakeRbac) (context : RbacSession) (table : RbacTable)
    (actions : List MergeActionType) : Except RbacException Unit :=
  let privileges := mergePrivileges actions
  match if privileges ≠ 0 then rbac.checkTablePrivilege context privileges table else .ok () with
  | .error e => .error e
  | .ok () =>
    if updateDeleteCount actions > 1 then
      .error ⟨.notImplemented,
        "MERGE INTO with DuckLake only supports a single UPDATE/DELETE action currently"⟩
    else .ok ()

theorem known_mergePrivileges (actions : List MergeActionType) :
    (mergePrivileges actions).Known := by
  have hfold (m : Privileges) (hm : m.Known) :
      (actions.foldl (fun privileges action =>
        match action.privilege with
        | some p => privileges ||| p.mask
        | none => privileges) m).Known := by
    induction actions generalizing m with
    | nil => exact hm
    | cons action actions ih =>
      rw [List.foldl_cons]
      cases action.privilege with
      | none => exact ih m hm
      | some p => exact ih _ (hm.or Privileges.known_mask)
  exact hfold 0 Privileges.known_zero

theorem has_mergePrivileges {actions : List MergeActionType} {p : DuckLakePrivilege} :
    (mergePrivileges actions).Has p ↔ ∃ action ∈ actions, action.privilege = some p := by
  have hfold (m : Privileges) :
      (actions.foldl (fun privileges action =>
        match action.privilege with
        | some p => privileges ||| p.mask
        | none => privileges) m).Has p ↔
      m.Has p ∨ ∃ action ∈ actions, action.privilege = some p := by
    induction actions generalizing m with
    | nil => simp
    | cons action actions ih =>
      rw [List.foldl_cons, ih]
      cases haction : action.privilege with
      | none => simp [haction]
      | some q => simp [haction, or_assoc]
  exact (hfold 0).trans (or_iff_right Privileges.not_has_zero)

/-- One check of all privileges of a statement is the checks of each. -/
theorem checkTablePrivilege_iff_each {rbac : DuckLakeRbac} {context : RbacSession}
    {privilege : Privileges} (h : privilege.Known) {table : RbacTable} :
    rbac.checkTablePrivilege context privilege table = .ok () ↔
      ∀ p, privilege.Has p → rbac.checkTablePrivilege context p.mask table = .ok () := by
  simp only [DuckLakeRbac.checkTablePrivilege]
  by_cases hlocal : isTransactionLocal table.tableId = true
  · simp [hlocal]
  simp only [hlocal, Bool.false_eq_true, if_false, DuckLakeRbac.checkPrivilege_eq_ok_iff h,
    DuckLakeRbac.checkPrivilege_eq_ok_iff Privileges.known_mask, Privileges.has_mask, forall_eq']
  constructor
  · intro hall p hp hrestricts
    exact (hall hrestricts).imp_left fun hall => hall p hp
  · intro heach hrestricts
    by_cases hadmin : rbac.Granted context (some table.schemaId) (some table.tableId) .admin
    · exact .inr hadmin
    · exact .inl fun p hp => (heach p hp hrestricts).resolve_right hadmin

/-- A statement with several actions is planned when it deletes in one of them at most and the
session has the privilege of each. -/
theorem planMergeInto_eq_ok_iff {rbac : DuckLakeRbac} {context : RbacSession} {table : RbacTable}
    {actions : List MergeActionType} :
    planMergeInto rbac context table actions = .ok () ↔ updateDeleteCount actions ≤ 1 ∧
      ∀ action ∈ actions, ∀ p, action.privilege = some p →
        rbac.checkTablePrivilege context p.mask table = .ok () := by
  have hchecks : (∀ action ∈ actions, ∀ p, action.privilege = some p →
      rbac.checkTablePrivilege context p.mask table = .ok ()) ↔
      rbac.checkTablePrivilege context (mergePrivileges actions) table = .ok () := by
    rw [checkTablePrivilege_iff_each (known_mergePrivileges _)]
    simp only [has_mergePrivileges, forall_exists_index, and_imp]
    exact ⟨fun h p action haction hp => h action haction p hp,
      fun h action haction p hp => h p action haction hp⟩
  -- A statement without a privilege passes the check that is left out.
  have hnone (hzero : mergePrivileges actions = 0) :
      rbac.checkTablePrivilege context (mergePrivileges actions) table = .ok () :=
    (checkTablePrivilege_iff_each (known_mergePrivileges _)).2 fun p hp =>
      absurd hp ((known_mergePrivileges _).eq_zero_iff.1 hzero p)
  have hguard : (if mergePrivileges actions ≠ 0 then
      rbac.checkTablePrivilege context (mergePrivileges actions) table else .ok ()) =
      rbac.checkTablePrivilege context (mergePrivileges actions) table := by
    split
    · rfl
    · exact (hnone (not_not.1 ‹_›)).symm
  rw [hchecks, planMergeInto, hguard]
  cases hcheck : rbac.checkTablePrivilege context (mergePrivileges actions) table with
  | error e => exact iff_of_false nofun fun h => nomatch h.2
  | ok =>
    dsimp only
    split
    · exact iff_of_false nofun fun h => by omega
    · exact iff_of_true rfl ⟨by omega, rfl⟩

end DuckLake
