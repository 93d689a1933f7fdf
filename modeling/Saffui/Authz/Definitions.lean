import Saffui.Foundation.History
import Saffui.Authz.Manage
import Saffui.Authz.Relations.SchemaMeaning

/-!
# What the definitions of a realm hold together

`Consistent` is what every unit of work leaves of the schema, its kinds, the
relations kept, the policies and the roles and groups they name. Each of
these is written under the row of the definitions where its change could
break it; what is written without that row only shrinks what is constrained
or widens what is relied on, which is `Protected`.
-/

namespace Saffui.Authz
open Saffui.Foundation Saffui.Foundation.Language Saffui.Authz.Relations

/-- The schema of the realm, as its relations are decided by. -/
def Db.compiled (db : Db) : Option CompiledSchema := (Db.schema db).bind StoredSchema.open

/-- The kinds of relations the schema of the realm admits. -/
def Db.admitted (db : Db) : List AdmittedRelation :=
  (Db.compiled db).elim [] listAdmittedRelations

theorem open_of_compileSchema {stored : StoredSchema} {compiled : CompiledSchema}
    (compiles : compileSchema stored.source = .ok compiled)
    (form : stored.compiled = compiled.toJson) : stored.open = some compiled := by
  obtain ⟨-, _, schema, -, -, -, rfl, -⟩ := (compileSchema_eq_ok_iff _ _).mp compiles
  rw [StoredSchema.open, form, readCompiledSchema_toJson rfl]

/-- A kind a schema admits is told from its columns. -/
theorem columns_injective {source : String} {compiled : CompiledSchema}
    (compiles : compileSchema source = .ok compiled) {one : AdmittedRelation}
    (admitted : one ∈ listAdmittedRelations compiled) {columns : TupleColumns}
    (same : one.columns = columns.kind) : columns.tuple.kind = one := by
  obtain ⟨-, _, schema, -, -, formed, rfl, -⟩ := (compileSchema_eq_ok_iff _ _).mp compiles
  obtain ⟨found, allowed, typed, related, inside⟩ := (mem_listAdmittedRelations_iff _ _).mp admitted
  obtain ⟨type, member, -, rfl⟩ := (AbstractSchema.form_types_get? formed _ _).mp typed
  obtain ⟨subjects, declared, rfl⟩ :=
    (form_relations_get? (formed.membersOnce type member) _ _).mp related
  have named : one.subject.member ≠ some "" := by
    intro empty
    obtain ⟨target, targeted, -, has⟩ := formed.subjects type member _ subjects declared one.subject
      ((mem_sortSubjects _ _).mp inside)
    obtain ⟨clause, among, unnamed⟩ := has "" empty
    have name := formed.memberNames target targeted clause among
    rw [unnamed] at name
    cases name
  obtain ⟨objectType, relation, subjectType, memberName⟩ := one
  obtain ⟨rfl, rfl, rfl, sameMember⟩ := KindColumns.mk.inj same
  cases memberName with
  | none =>
    simp only [Option.getD_none] at sameMember
    simp [TupleColumns.tuple, RelationTuple.kind, ← sameMember]
  | some memberName =>
    simp only [Option.getD_some] at sameMember
    have some_name : memberName ≠ "" := fun empty => named (by simp [empty])
    simp [TupleColumns.tuple, RelationTuple.kind, ← sameMember, some_name]

/-- A policy the realm may keep: its type is not one the schema defines, and
what its conditions name is there. -/
def PolicyFits (db : Db) (policy : Policy) : Prop :=
  definesType (Db.schema db) policy.resourceType = false ∧
    ∃ conditions, policy.conditions = writeConditions conditions ∧
      (∀ role, .role role ∈ conditions → Db.holds db (.role role)) ∧
      ∀ group, .group group ∈ conditions → Db.holds db (.group group)

structure Consistent (db : Db) : Prop where
  schema : ∀ stored, Db.schema db = some stored → ∃ compiled,
    compileSchema stored.source = .ok compiled ∧ stored.compiled = compiled.toJson
  kinds : ∀ columns, Db.holds db (.kind columns) ↔
    columns ∈ (Db.admitted db).map AdmittedRelation.columns
  tuples : ∀ columns, Db.holds db (.tuple columns) → Db.holds db (.kind columns.kind)
  policies : ∀ id policy, Db.policy db id = some policy → PolicyFits db policy
  kept : ∀ clientId,
    (scan db (pickPolicy (ofClient clientId))).length ≤ MAX_POLICIES_PER_CLIENT
  applicable : ∀ clientId resourceType action,
    (scan db (pickPolicy (appliesTo clientId resourceType action))).length ≤
      MAX_APPLICABLE_POLICIES

section Moved

variable {before after : Db}

theorem PolicyFits.mono {policy : Policy} (fits : PolicyFits before policy)
    (schema : Db.schema after = Db.schema before)
    (roles : ∀ id, Db.holds before (.role id) → Db.holds after (.role id))
    (groups : ∀ id, Db.holds before (.group id) → Db.holds after (.group id)) :
    PolicyFits after policy := by
  obtain ⟨undefined, conditions, written, namedRoles, namedGroups⟩ := fits
  refine ⟨by rw [schema]; exact undefined, conditions, written, ?_, ?_⟩
  · exact fun role named => roles role (namedRoles role named)
  · exact fun group named => groups group (namedGroups group named)

theorem admitted_of_schema (schema : Db.schema after = Db.schema before) :
    Db.admitted after = Db.admitted before := by
  rw [Db.admitted, Db.admitted, Db.compiled, Db.compiled, schema]

/-- No policy more, none more is picked. -/
theorem scan_policies_le
    (policies : ∀ id policy, Db.policy after id = some policy → Db.policy before id = some policy)
    (test : Policy → Bool) :
    (scan after (pickPolicy test)).length ≤ (scan before (pickPolicy test)).length := by
  refine length_scan_le fun key row found picked => ?_
  cases key with
  | policy id => exact policies id row found
  | _ => cases picked

/-- Under the schema that was there, with no policy more. -/
theorem Consistent.moved (inv : Consistent before) (schema : Db.schema after = Db.schema before)
    (kinds : ∀ columns, Db.holds after (.kind columns) = Db.holds before (.kind columns))
    (tuples : ∀ columns, Db.holds after (.tuple columns) → Db.holds before (.kind columns.kind))
    (policies : ∀ id policy, Db.policy after id = some policy → Db.policy before id = some policy)
    (fits : ∀ id policy, Db.policy after id = some policy → PolicyFits after policy) :
    Consistent after where
  schema stored found := inv.schema stored (schema ▸ found)
  kinds columns := by
    rw [kinds, admitted_of_schema schema]
    exact inv.kinds columns
  tuples columns there := by
    rw [kinds]
    exact tuples columns there
  policies := fits
  kept clientId := (scan_policies_le policies _).trans (inv.kept clientId)
  applicable clientId resourceType action :=
    (scan_policies_le policies _).trans (inv.applicable clientId resourceType action)

end Moved

/-- How units that do not hold the row of the definitions move the storage. -/
structure Protected (before after : Db) : Prop where
  schema : Db.schema after = Db.schema before
  kinds : ∀ columns, Db.holds after (.kind columns) = Db.holds before (.kind columns)
  tuples : ∀ columns, Db.holds after (.tuple columns) → Db.holds before (.tuple columns)
  policies : ∀ id policy, Db.policy after id = some policy → Db.policy before id = some policy
  roles : ∀ id, Db.holds before (.role id) → Db.holds after (.role id)
  groups : ∀ id, Db.holds before (.group id) → Db.holds after (.group id)

namespace Protected

theorem refl (db : Db) : Protected db db :=
  ⟨rfl, fun _ => rfl, fun _ held => held, fun _ _ found => found, fun _ held => held,
    fun _ held => held⟩

theorem trans {first second third : Db} (one : Protected first second)
    (other : Protected second third) : Protected first third where
  schema := other.schema.trans one.schema
  kinds columns := (other.kinds columns).trans (one.kinds columns)
  tuples columns held := one.tuples columns (other.tuples columns held)
  policies id policy found := one.policies id policy (other.policies id policy found)
  roles id held := other.roles id (one.roles id held)
  groups id held := other.groups id (one.groups id held)

variable {before after : Db} (held : Protected before after)
include held

theorem scan_le (test : Policy → Bool) :
    (scan after (pickPolicy test)).length ≤ (scan before (pickPolicy test)).length :=
  scan_policies_le held.policies test

/-- What is written without the row of the definitions breaks nothing. -/
theorem consistent (inv : Consistent before) : Consistent after := by
  refine inv.moved held.schema held.kinds ?_ held.policies ?_
  · exact fun columns there => inv.tuples columns (held.tuples columns there)
  · intro id policy found
    have fits := inv.policies id policy (held.policies id policy found)
    exact fits.mono held.schema held.roles held.groups

end Protected

/-- An identifier names no policy, no role and no group. -/
structure AbsentId (id : Uuid) (db : Db) : Prop where
  policy : Db.policy db id = none
  role : Db.role db id = none
  group : Db.group db id = none

/-- A write that may be committed without the row of the definitions. -/
def IsFree : Write Row → Prop
  | ⟨.schema, _⟩ | ⟨.kind _, _⟩ => False
  | ⟨.tuple _, change⟩ => change = none
  | ⟨.policy _, change⟩ => change = none
  | ⟨.role _, change⟩ => change.isSome
  | ⟨.group _, change⟩ => change.isSome
  | _ => True

theorem Protected.apply {write : Write Row} (free : IsFree write) (db : Db) :
    Protected db (Write.apply db write) := by
  obtain ⟨key, change⟩ := write
  have other : ∀ one, one ≠ key →
      (Write.apply db ⟨key, change⟩).lookup one = db.lookup one :=
    fun one different => Write.lookup_apply_of_ne different db
  have gone : change = none → (Write.apply db ⟨key, change⟩).lookup key = none := by
    rintro rfl
    exact AList.lookup_erase key db
  have there : change.isSome → ((Write.apply db ⟨key, change⟩).lookup key).isSome := by
    intro kept
    obtain ⟨row, rfl⟩ := Option.isSome_iff_exists.mp kept
    exact Option.isSome_of_eq_some (AList.lookup_insert db)
  constructor
  · refine other Key.schema ?_
    rintro rfl
    exact free
  · intro columns
    rw [Db.holds, other, Db.holds]
    rintro rfl
    exact free
  · intro columns held
    by_cases here : Key.tuple columns = key
    · subst here
      rw [Db.holds, gone free] at held
      cases held
    · rwa [Db.holds, other _ here] at held
  · intro id policy found
    by_cases here : Key.policy id = key
    · subst here
      rw [Db.policy, gone free] at found
      cases found
    · rwa [Db.policy, other _ here] at found
  · intro id held
    by_cases here : Key.role id = key
    · subst here
      exact there free
    · rwa [Db.holds, other _ here]
  · intro id held
    by_cases here : Key.group id = key
    · subst here
      exact there free
    · rwa [Db.holds, other _ here]

theorem Protected.overlay {writes : List (Write Row)} (free : ∀ write ∈ writes, IsFree write)
    (db : Db) : Protected db (Foundation.overlay writes db) := by
  induction writes generalizing db with
  | nil => exact .refl db
  | cons write rest ih =>
    have first := Protected.apply (free write List.mem_cons_self) db
    exact first.trans (ih (fun one inside => free one (List.mem_cons_of_mem _ inside)) _)

/-- The identifier a write gives to a policy, a role or a group. -/
def names : Write Row → Option Uuid
  | ⟨.policy id, some _⟩ | ⟨.role id, some _⟩ | ⟨.group id, some _⟩ => some id
  | _ => none

/-- What is deleted is given no identifier. -/
theorem names_of_deleted {write : Write Row} (deleted : write.2 = none) : names write = none := by
  obtain ⟨key, change⟩ := write
  obtain rfl : change = none := deleted
  cases key <;> rfl

theorem lookup_overlay_of_not_names {id : Uuid} {key : Key}
    (about : key = .policy id ∨ key = .role id ∨ key = .group id) {writes : List (Write Row)}
    (others : ∀ write ∈ writes, names write ≠ some id) {db : Db} (absent : db.lookup key = none) :
    (overlay writes db).lookup key = none := by
  induction writes generalizing db with
  | nil => exact absent
  | cons write rest ih =>
    refine ih (fun one inside => others one (List.mem_cons_of_mem _ inside)) ?_
    obtain ⟨written, change⟩ := write
    by_cases here : key = written
    · subst here
      cases change with
      | none => exact AList.lookup_erase key db
      | some row =>
        have named := others _ List.mem_cons_self
        rcases about with rfl | rfl | rfl <;> exact absurd rfl named
    · rw [Write.lookup_apply_of_ne here, absent]

/-- Writes give no identifier but those they name. -/
theorem AbsentId.overlay {id : Uuid} {writes : List (Write Row)}
    (others : ∀ write ∈ writes, names write ≠ some id) {db : Db} (absent : AbsentId id db) :
    AbsentId id (Foundation.overlay writes db) where
  policy := lookup_overlay_of_not_names (Or.inl rfl) others absent.policy
  role := lookup_overlay_of_not_names (Or.inr (Or.inl rfl)) others absent.role
  group := lookup_overlay_of_not_names (Or.inr (Or.inr rfl)) others absent.group

/-- What the calls of a realm keep, whatever they commit in between. -/
def discipline : Discipline language where
  Inv := Consistent
  Le _ _ := True
  le_refl _ := trivial
  le_trans _ _ := trivial
  Guarded key before after := key = Key.definitions → Protected before after
  guarded_refl _ db _ := .refl db
  guarded_trans first second definitions := (first definitions).trans (second definitions)
  Absent := AbsentId

end Saffui.Authz
