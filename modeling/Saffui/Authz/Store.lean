import Saffui.Foundation.RelyGuarantee
import Saffui.Authz.Policy
import Saffui.Authz.Relations.Stored

/-!
# What a realm keeps of its authorization, and the statements over it

Source: `store/src/stores/{relations,policies,roles}.rs` and the migrations
`0027_roles.sql`, `0029_relations.sql` and `0030_policies.sql`. The storage is
that of one realm: every statement of the source names the tenant and the
realm of its unit of work, and row security holds it to them.

A key is the primary key of a row, or a rule of uniqueness beside it, which a
row of its table holds. `saffui_admit_relation` is three statements, each
with what it sees of its own, as `plpgsql` runs them. The chain of audit
events is not modelled: what a call appends to it is of tables of its own.
-/

namespace Saffui.Authz
open Saffui.Foundation Saffui.Authz.Relations

/-- A kind of relations, as the columns of `relation_kinds`. -/
structure KindColumns where
  objectType : String
  relation : String
  subjectType : String
  /-- Empty when the subject is the object itself. -/
  subjectMember : String
  deriving DecidableEq, Repr

/-- A relation, as the columns of `relation_tuples`. -/
structure TupleColumns where
  objectType : String
  relation : String
  objectId : String
  subjectType : String
  subjectId : String
  subjectMember : String
  deriving DecidableEq, Repr

def TupleColumns.kind (columns : TupleColumns) : KindColumns :=
  ⟨columns.objectType, columns.relation, columns.subjectType, columns.subjectMember⟩

def Relations.AdmittedRelation.columns (one : AdmittedRelation) : KindColumns :=
  ⟨one.objectType, one.relation, one.subject.objectType, one.subject.member.getD ""⟩

def Relations.RelationTuple.columns (tuple : RelationTuple) : TupleColumns :=
  ⟨tuple.object.objectType, tuple.relation, tuple.object.objectId, tuple.subject.object.objectType,
    tuple.subject.object.objectId, tuple.subject.member.getD ""⟩

/-- The relation a row is read as: an empty member is the subject itself. -/
def TupleColumns.tuple (columns : TupleColumns) : RelationTuple where
  object := ⟨columns.objectType, columns.objectId⟩
  relation := columns.relation
  subject := ⟨⟨columns.subjectType, columns.subjectId⟩,
    if columns.subjectMember = "" then none else some columns.subjectMember⟩

inductive Key where
  /-- The row of the realm in `authz_definitions`. -/
  | definitions
  | schema
  | kind (columns : KindColumns)
  | tuple (columns : TupleColumns)
  | policy (id : Uuid)
  /-- `authz_policies_name_taken` -/
  | policyName (clientId name : String)
  | role (id : Uuid)
  /-- `roles_name_taken` -/
  | roleName (clientId : Option String) (name : String)
  | group (id : Uuid)
  /-- `groups_name_taken` -/
  | groupName (name : String)
  | client (clientId : String)
  deriving DecidableEq

@[reducible]
def Row : Key → Type
  | .schema => StoredSchema
  | .tuple _ => Instant
  | .policy _ => Policy
  | .role _ => Role
  | .group _ => Group
  | .client _ => Client
  | .definitions | .kind _ | .policyName _ _ | .roleName _ _ | .groupName _ => Unit

abbrev Db := AList Row

namespace Db

variable (db : Db)

def schema : Option StoredSchema := db.lookup Key.schema

def policy (id : Uuid) : Option Policy := db.lookup (Key.policy id)

def role (id : Uuid) : Option Role := db.lookup (Key.role id)

def group (id : Uuid) : Option Group := db.lookup (Key.group id)

def client (clientId : String) : Option Client := db.lookup (Key.client clientId)

def holds (key : Key) : Bool := (db.lookup key).isSome

end Db

/-- What the storage finds of a relation about to be kept, before the
definitions are held. -/
structure Peek where
  admitted : Bool
  kept : Bool
  deriving DecidableEq, Repr

inductive Op where
  | lockDefinitions
  | hasPolicyForTypes (types : List String)
  | readRelationSchema
  | putRelationSchema (schema : StoredSchema)
  | deleteRelationKinds
  | insertRelationKinds (kinds : List AdmittedRelation)
  | deleteRelationsOfKinds (kinds : List AdmittedRelation)
  | deleteRelationsNotAdmitted (admitted : List AdmittedRelation)
  | peekRelation (tuple : RelationTuple)
  | readKind (tuple : RelationTuple)
  | insertRelation (tuple : RelationTuple) (writtenAt : Instant)
  | deleteRelation (tuple : RelationTuple)
  | readClient (clientId : String)
  | readRoles (ids : List Uuid)
  | readGroups (ids : List Uuid)
  | countPolicies (clientId : String) (most : Nat)
  | listApplicablePolicies (clientId resourceType action : String)
  | insertPolicy (policy : Policy)
  | deletePolicy (clientId : String) (id : Uuid)
  | isNamedByPolicy (condition : String) (id : Uuid)
  | insertRole (role : Role)
  | deleteRole (id : Uuid)
  | insertGroup (group : Group)
  | deleteGroup (id : Uuid)

abbrev Res : Op → Type
  | .readRelationSchema => Option StoredSchema
  | .putRelationSchema _ | .deleteRelationKinds => Unit
  | .deleteRelationsOfKinds _ | .deleteRelationsNotAdmitted _ | .countPolicies _ _ => Nat
  | .peekRelation _ => Peek
  | .readClient _ => Option Client
  | .readRoles _ => List Role
  | .readGroups _ => List Group
  | .listApplicablePolicies _ _ _ => List Policy
  | .lockDefinitions | .hasPolicyForTypes _ | .insertRelationKinds _ | .readKind _
  | .insertRelation _ _ | .deleteRelation _ | .insertPolicy _ | .deletePolicy _ _
  | .isNamedByPolicy _ _ | .insertRole _ | .deleteRole _ | .insertGroup _ | .deleteGroup _ => Bool

def pickPolicy (test : Policy → Bool) : (key : Key) → Row key → Option Policy
  | .policy _, policy => if test policy then some policy else none
  | _, _ => none

def pickRole (ids : List Uuid) : (key : Key) → Row key → Option Role
  | .role id, role => if id ∈ ids then some role else none
  | _, _ => none

def pickGroup (ids : List Uuid) : (key : Key) → Row key → Option Group
  | .group id, group => if id ∈ ids then some group else none
  | _, _ => none

def isKind (key : Key) (_ : Row key) : Bool :=
  match key with
  | .kind _ => true
  | _ => false

/-- Whether a row is a relation of a kind that passes a test. -/
def isTupleOf (test : KindColumns → Bool) (key : Key) (_ : Row key) : Bool :=
  match key with
  | .tuple columns => test columns.kind
  | _ => false

def ofClient (clientId : String) (policy : Policy) : Bool := policy.clientId = clientId

def appliesTo (clientId resourceType action : String) (policy : Policy) : Bool :=
  policy.clientId = clientId && policy.resourceType = resourceType && policy.action = action

/-- `conditions @> [{condition: id}]`: one of the conditions holds this
member, whatever else they hold. -/
def holdsCondition (condition : String) (id : Uuid) (document : Json) : Bool :=
  match document with
  | .array items => items.any fun item =>
    match item with
    | .object members => Json.field members condition = some (.string id.text)
    | _ => false
  | _ => false

/-- The keys of a policy of a client: its row, and its name. -/
def policyKeys (clientId : String) (id : Uuid) (db : Db) : List Key :=
  match Db.policy db id with
  | some policy =>
    if policy.clientId = clientId then [.policy id, .policyName policy.clientId policy.name] else []
  | none => []

def roleKeys (id : Uuid) (db : Db) : List Key :=
  match Db.role db id with
  | some role => [.role id, .roleName role.clientId role.name]
  | none => []

def groupKeys (id : Uuid) (db : Db) : List Key :=
  match Db.group db id with
  | some group => [.group id, .groupName group.name]
  | none => []

/-- The keys a statement writes, of what it sees at its start. -/
def written (op : Op) (seen : Db) : List Key :=
  match op with
  | .putRelationSchema _ => [.schema]
  | .deleteRelationKinds => keysWhere seen isKind
  | .insertRelationKinds kinds => kinds.map fun one => .kind one.columns
  | .deleteRelationsOfKinds kinds =>
    keysWhere seen (isTupleOf fun kind => kind ∈ kinds.map AdmittedRelation.columns)
  | .deleteRelationsNotAdmitted admitted =>
    keysWhere seen (isTupleOf fun kind => kind ∉ admitted.map AdmittedRelation.columns)
  | .insertRelation tuple _ => [.tuple tuple.columns]
  | .deleteRelation tuple =>
    if Db.holds seen (.tuple tuple.columns) then [.tuple tuple.columns] else []
  | .insertPolicy policy => [.policy policy.id, .policyName policy.clientId policy.name]
  | .deletePolicy clientId id => policyKeys clientId id seen
  | .insertRole role => [.role role.id, .roleName role.clientId role.name]
  | .deleteRole id => roleKeys id seen
  | .insertGroup group => [.group group.id, .groupName group.name]
  | .deleteGroup id => groupKeys id seen
  | _ => []

def locks (op : Op) (seen : Db) : List (Key × LockMode) :=
  match op with
  | .lockDefinitions =>
    if Db.holds seen .definitions then [(.definitions, .exclusive)] else []
  | op => (written op seen).map (·, .exclusive)

/-- A row of a rule of uniqueness, where it is written, and its name beside. -/
def insertNamed (key name : Key) (row : Row key) (taken : Row name) (now : Db) :
    List (Write Row) × Bool :=
  if Db.holds now name then ([], false)
  else ([⟨key, some row⟩, ⟨name, some taken⟩], true)

def run (op : Op) (seen now : Db) : List (Write Row) × Res op :=
  match op with
  | .lockDefinitions =>
    ([], Db.holds seen .definitions && Db.holds now .definitions)
  | .hasPolicyForTypes types =>
    ([], !(scan seen (pickPolicy fun policy => policy.resourceType ∈ types)).isEmpty)
  | .readRelationSchema => ([], Db.schema seen)
  | .putRelationSchema schema => ([⟨.schema, some schema⟩], ())
  | .deleteRelationKinds => (deleteEach (keysWhere seen isKind) now, ())
  | .insertRelationKinds kinds =>
    let keys := kinds.map fun one => Key.kind one.columns
    if keys.Nodup ∧ keys.all fun key => !Db.holds now key then
      (kinds.map fun one => ⟨.kind one.columns, some ()⟩, true)
    else ([], false)
  | .deleteRelationsOfKinds kinds =>
    let gone := deleteEach
      (keysWhere seen (isTupleOf fun kind => kind ∈ kinds.map AdmittedRelation.columns)) now
    (gone, gone.length)
  | .deleteRelationsNotAdmitted admitted =>
    let gone := deleteEach
      (keysWhere seen (isTupleOf fun kind => kind ∉ admitted.map AdmittedRelation.columns)) now
    (gone, gone.length)
  | .peekRelation tuple =>
    ([], ⟨Db.holds seen (.kind tuple.columns.kind), Db.holds seen (.tuple tuple.columns)⟩)
  | .readKind tuple => ([], Db.holds seen (.kind tuple.columns.kind))
  | .insertRelation tuple writtenAt =>
    if Db.holds now (.tuple tuple.columns) then ([], false)
    else ([⟨.tuple tuple.columns, some writtenAt⟩], true)
  | .deleteRelation tuple =>
    if Db.holds seen (.tuple tuple.columns) ∧ Db.holds now (.tuple tuple.columns) then
      ([⟨.tuple tuple.columns, none⟩], true)
    else ([], false)
  | .readClient clientId => ([], Db.client seen clientId)
  | .readRoles ids => ([], scan seen (pickRole ids))
  | .readGroups ids => ([], scan seen (pickGroup ids))
  | .countPolicies clientId most =>
    ([], (min most (scan seen (pickPolicy (ofClient clientId))).length : Nat))
  | .listApplicablePolicies clientId resourceType action =>
    ([], (scan seen (pickPolicy (appliesTo clientId resourceType action))).insertionSort
      fun left right => left.name ≤ right.name)
  | .insertPolicy policy =>
    insertNamed (.policy policy.id) (.policyName policy.clientId policy.name) policy () now
  | .deletePolicy clientId id =>
    let gone := deleteEach (policyKeys clientId id seen) now
    (gone, !gone.isEmpty)
  | .isNamedByPolicy condition id =>
    ([], !(scan seen (pickPolicy fun policy =>
      holdsCondition condition id policy.conditions)).isEmpty)
  | .insertRole role => insertNamed (.role role.id) (.roleName role.clientId role.name) role () now
  | .deleteRole id =>
    let gone := deleteEach (roleKeys id seen) now
    (gone, !gone.isEmpty)
  | .insertGroup group => insertNamed (.group group.id) (.groupName group.name) group () now
  | .deleteGroup id =>
    let gone := deleteEach (groupKeys id seen) now
    (gone, !gone.isEmpty)

theorem mem_insertNamed {key name : Key} {row : Row key} {taken : Row name} {now : Db}
    {write : Write Row} (inside : write ∈ (insertNamed key name row taken now).1) :
    write.1 = key ∨ write.1 = name := by
  unfold insertNamed at inside
  split at inside
  · cases inside
  · rcases List.mem_cons.mp inside with rfl | inside
    · exact Or.inl rfl
    · rw [List.mem_singleton.mp inside]
      exact Or.inr rfl

theorem run_written (op : Op) (seen now : Db) :
    ∀ write ∈ (run op seen now).1, write.1 ∈ written op seen := by
  intro write inside
  cases op with
  | putRelationSchema schema =>
    rw [List.mem_singleton.mp inside]
    exact List.mem_singleton_self _
  | deleteRelationKinds => exact mem_of_mem_deleteEach inside
  | insertRelationKinds kinds =>
    simp only [run] at inside
    split at inside
    · obtain ⟨one, there, rfl⟩ := List.mem_map.mp inside
      exact List.mem_map.mpr ⟨one, there, rfl⟩
    · cases inside
  | deleteRelationsOfKinds kinds => exact mem_of_mem_deleteEach inside
  | deleteRelationsNotAdmitted admitted => exact mem_of_mem_deleteEach inside
  | insertRelation tuple writtenAt =>
    simp only [run] at inside
    split at inside
    · cases inside
    · rw [List.mem_singleton.mp inside]
      exact List.mem_singleton_self _
  | deleteRelation tuple =>
    simp only [run] at inside
    split at inside
    · next there =>
      rw [List.mem_singleton.mp inside, written, if_pos there.1]
      exact List.mem_singleton_self _
    · cases inside
  | insertPolicy policy => simpa [written] using mem_insertNamed inside
  | deletePolicy clientId id => exact mem_of_mem_deleteEach inside
  | insertRole role => simpa [written] using mem_insertNamed inside
  | deleteRole id => exact mem_of_mem_deleteEach inside
  | insertGroup group => simpa [written] using mem_insertNamed inside
  | deleteGroup id => exact mem_of_mem_deleteEach inside
  | lockDefinitions | hasPolicyForTypes | readRelationSchema | peekRelation | readKind | readClient
  | readRoles | readGroups | countPolicies | listApplicablePolicies | isNamedByPolicy =>
    cases inside

theorem run_locked (op : Op) (seen now : Db) (write : Write Row)
    (inside : write ∈ (run op seen now).1) : (write.1, LockMode.exclusive) ∈ locks op seen := by
  have named := run_written op seen now write inside
  cases op with
  | lockDefinitions => cases inside
  | _ => exact List.mem_map.mpr ⟨write.1, named, rfl⟩

/-- Why a call was refused. -/
inductive Refusal where
  | failed (code : ErrorCode)
  /-- The faults of a schema. -/
  | faults (faults : SchemaFaults)

/-- The storage of a realm, the clock of the product, and its identifiers. -/
@[reducible]
def language : Language where
  Key := Key
  Row := Row
  Op := Op
  Res := Res
  locks := locks
  run := run
  run_locked := run_locked
  Ask := Unit
  Ans _ := Instant
  Id := Uuid
  Err := Refusal

end Saffui.Authz
