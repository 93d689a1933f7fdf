import Saffui.Authz.Store

/-!
# What an administrator writes of the authorization of a realm

Source: `write_relation_schema`, `write_relation` and `delete_relation` of
`saffui-core/src/authz/relations/mod.rs`, `create_policy`, `check_conditions`
and `delete_policy` of `policy.rs`, and what `roles.rs` creates and deletes.
Each is a program over the statements of `Saffui.Authz.Store`; one that
returns without a commit drops its unit of work.
-/

namespace Saffui.Authz
open Saffui.Foundation Saffui.Foundation.Language Saffui.Authz.Relations

abbrev Program := language.Prog

def fail {α : Type} (code : ErrorCode) : Program α := .fail (.failed code)

def statement (op : Op) : Program (Res op) := exec (L := language) op

def clock : Program Instant := inquire (L := language) ()

/-- Takes the row of the definitions, for update. A realm without it is
refused, never let through unlocked. -/
def lockDefinitions : Program Unit := do
  let taken : Bool ← statement .lockDefinitions
  if taken then pure () else fail .internal

/-- The schema of the realm in place of the one before, and its kinds in
place of theirs. -/
def putSchema (schema : StoredSchema) (admitted : List AdmittedRelation) : Program Unit := do
  let _ : Unit ← statement (.putRelationSchema schema)
  let _ : Unit ← statement .deleteRelationKinds
  let kept : Bool ← statement (.insertRelationKinds admitted)
  if kept then pure () else fail .conflict

/-- Removes the relations that do not outlive the schema they were kept
under. -/
def removeRelations (before : Option StoredSchema) (compiled : CompiledSchema) : Program Nat :=
  match before.map StoredSchema.open with
  | some (some before) =>
    let changed := listChangedRelations before compiled
    if changed.isEmpty then pure 0 else statement (.deleteRelationsOfKinds changed)
  | some none => statement (.deleteRelationsNotAdmitted (listAdmittedRelations compiled))
  | none => statement (.deleteRelationsNotAdmitted [])

def writeRelationSchema (source : String) : Program (CompiledSchema × Nat) := do
  let compiled ← ofExcept ((compileSchema source).mapError .faults)
  let writtenAt ← clock
  beginUnit
  lockDefinitions
  let taken : Bool ← statement (.hasPolicyForTypes compiled.types.keys)
  if taken then fail .resourceTypeTaken
  else do
    let before : Option StoredSchema ← statement .readRelationSchema
    putSchema ⟨source, compiled.toJson, writtenAt⟩ (listAdmittedRelations compiled)
    let removed ← removeRelations before compiled
    commitUnit
    return (compiled, removed)

/-- 1 to 128 letters, digits, dots, colons, at signs, hyphens or underscores. -/
def isObjectId (text : String) : Bool :=
  1 ≤ text.utf8ByteSize && text.utf8ByteSize ≤ 128 && text.toList.all fun character =>
    Text.isAsciiAlphanumeric character || character ∈ ['.', ':', '@', '_', '-']

def checkRelationNames (tuple : RelationTuple) : Except Refusal Unit :=
  if isSchemaName tuple.object.objectType && isObjectId tuple.object.objectId &&
      isSchemaName tuple.relation && isSchemaName tuple.subject.object.objectType &&
      isObjectId tuple.subject.object.objectId && tuple.subject.member.all isSchemaName then .ok ()
  else .error (.failed .relationInvalid)

/-- What the storage finds of a relation about to be kept. -/
inductive RelationAdmission where
  | refused
  | kept
  /-- New, and its kind admitted still under the definitions. -/
  | taken
  deriving DecidableEq, Repr

/-- `saffui_admit_relation`: a kind the schema refuses and a relation the
realm keeps already are answered without the row of the definitions. -/
def admitRelation (tuple : RelationTuple) : Program RelationAdmission := do
  let peek : Peek ← statement (.peekRelation tuple)
  if !peek.admitted then return .refused
  else if peek.kept then return .kept
  else do
    lockDefinitions
    let found : Bool ← statement (.readKind tuple)
    return if found then .taken else .refused

def writeRelation (tuple : RelationTuple) : Program Unit := do
  ofExcept (checkRelationNames tuple)
  beginUnit
  match ← admitRelation tuple with
  | .refused => fail .relationInvalid
  | .kept => return ()
  | .taken => do
    let writtenAt ← clock
    let kept : Bool ← statement (.insertRelation tuple writtenAt)
    if kept then commitUnit else pure ()

def deleteRelation (tuple : RelationTuple) : Program Unit := do
  beginUnit
  let removed : Bool ← statement (.deleteRelation tuple)
  if removed then commitUnit else fail .relationNotFound

/-- What is not written as a client identifier is never sent to the storage. -/
def readNamedClient (clientId : String) : Program (Option Client) :=
  match checkClientIdentifier clientId with
  | .error _ => return none
  | .ok () => statement (.readClient clientId)

/-- Every role named is there, of the realm or of the client itself. -/
def checkRoles (clientId : String) (roles : List Uuid) : Program Unit :=
  if roles.isEmpty then pure ()
  else do
    let found : List Role ← statement (.readRoles roles)
    let admitted := found.filter fun role => role.clientId.all fun owner => owner = clientId
    if admitted.length = roles.length then pure () else fail .policyInvalid

def checkGroups (groups : List Uuid) : Program Unit :=
  if groups.isEmpty then pure ()
  else do
    let found : List Group ← statement (.readGroups groups)
    if found.length = groups.length then pure () else fail .policyInvalid

def checkConditions (formats : Formats) (clientId : String) (conditions : List Condition) :
    Program Unit :=
  if conditions.isEmpty || conditions.length > MAX_CONDITIONS ||
      !conditions.all (isDecidable formats) then fail .policyInvalid
  else do
    checkRoles clientId (namedRoles conditions)
    checkGroups (namedGroups conditions)

structure NewPolicy where
  clientId : String
  name : String
  resourceType : String
  action : String
  effect : Effect
  combine : Combine
  conditions : Json

/-- What of a policy is told before the storage is asked: its names, the
length of its conditions, and what they read as. -/
def readNewPolicy (formats : Formats) (wanted : NewPolicy) : Except ErrorCode (List Condition) :=
  if [wanted.name, wanted.resourceType, wanted.action].all isRoleName ∧
      (wanted.conditions.write formats.writeFloat).utf8ByteSize ≤ MAX_CONDITIONS_BYTES then
    readConditions wanted.conditions
  else .error .policyInvalid

/-- Whether the schema a realm keeps decides a type by its relations. -/
def definesType (stored : Option StoredSchema) (resourceType : String) : Bool :=
  match stored.bind StoredSchema.open with
  | some schema => (schema.types.get? resourceType).isSome
  | none => false

def createPolicy (formats : Formats) (wanted : NewPolicy) : Program Policy := do
  let conditions ← ofExcept ((readNewPolicy formats wanted).mapError .failed)
  beginUnit
  lockDefinitions
  let client ← readNamedClient wanted.clientId
  if client.isNone then fail .clientNotFound
  else do
    checkConditions formats wanted.clientId conditions
    let stored : Option StoredSchema ← statement .readRelationSchema
    if definesType stored wanted.resourceType then fail .resourceTypeTaken
    else do
      let kept : Nat ← statement (.countPolicies wanted.clientId MAX_POLICIES_PER_CLIENT)
      if kept ≥ MAX_POLICIES_PER_CLIENT then fail .policyInvalid
      else do
        let applicable : List Policy ←
          statement (.listApplicablePolicies wanted.clientId wanted.resourceType wanted.action)
        if applicable.length ≥ MAX_APPLICABLE_POLICIES then fail .policyInvalid
        else do
          let id ← newId (L := language)
          let createdAt ← clock
          let policy : Policy :=
            { id, clientId := wanted.clientId, name := wanted.name
              resourceType := wanted.resourceType, action := wanted.action
              effect := wanted.effect, combine := wanted.combine
              conditions := writeConditions conditions, createdAt }
          let kept : Bool ← statement (.insertPolicy policy)
          if kept then do
            commitUnit
            return policy
          else fail .policyNameTaken

def deletePolicy (clientId : String) (id : Uuid) : Program Unit := do
  beginUnit
  let removed : Bool ← statement (.deletePolicy clientId id)
  if removed then commitUnit else fail .policyNotFound

structure NewRole where
  name : String
  /-- The client whose role it is. Absent, it is a role of the realm. -/
  clientId : Option String
  description : Option String

/-- Whether the client a role is of is there, when it is of one. -/
def requireClient : Option String → Program Unit
  | none => pure ()
  | some clientId => do
    let client ← readNamedClient clientId
    if client.isNone then fail .clientNotFound else pure ()

def createRole (wanted : NewRole) : Program Role :=
  if !isRoleName wanted.name then fail .roleNameInvalid
  else do
    let description ← ofExcept ((readRoleText wanted.description).mapError .failed)
    beginUnit
    requireClient wanted.clientId
    let id ← newId (L := language)
    let createdAt ← clock
    let role : Role :=
      { id, clientId := wanted.clientId, name := wanted.name, description, createdAt }
    let kept : Bool ← statement (.insertRole role)
    if kept then do
      commitUnit
      return role
    else fail .roleNameTaken

def deleteRole (role : Uuid) : Program Unit := do
  beginUnit
  lockDefinitions
  let named : Bool ← statement (.isNamedByPolicy "role" role)
  if named then fail .namedByPolicy
  else do
    let removed : Bool ← statement (.deleteRole role)
    if removed then commitUnit else fail .roleNotFound

structure NewGroup where
  name : String
  description : Option String

def createGroup (wanted : NewGroup) : Program Group :=
  if !isRoleName wanted.name then fail .groupNameInvalid
  else do
    let id ← newId (L := language)
    let description ← ofExcept ((readRoleText wanted.description).mapError .failed)
    let createdAt ← clock
    beginUnit
    let group : Group := { id, name := wanted.name, description, createdAt }
    let kept : Bool ← statement (.insertGroup group)
    if kept then do
      commitUnit
      return group
    else fail .groupNameTaken

def deleteGroup (group : Uuid) : Program Unit := do
  beginUnit
  lockDefinitions
  let named : Bool ← statement (.isNamedByPolicy "group" group)
  if named then fail .namedByPolicy
  else do
    let removed : Bool ← statement (.deleteGroup group)
    if removed then commitUnit else fail .groupNotFound

inductive Call where
  | writeRelationSchema (source : String)
  | writeRelation (tuple : RelationTuple)
  | deleteRelation (tuple : RelationTuple)
  | createPolicy (wanted : NewPolicy)
  | deletePolicy (clientId : String) (id : Uuid)
  | createRole (wanted : NewRole)
  | deleteRole (role : Uuid)
  | createGroup (wanted : NewGroup)
  | deleteGroup (group : Uuid)

inductive Answer where
  | written (schema : CompiledSchema) (removed : Nat)
  | policy (policy : Policy)
  | role (role : Role)
  | group (group : Group)
  | done

def Call.program (formats : Formats) : Call → Program Answer
  | .writeRelationSchema source => do
    let (schema, removed) ← Authz.writeRelationSchema source
    return .written schema removed
  | .writeRelation tuple => do
    Authz.writeRelation tuple
    return .done
  | .deleteRelation tuple => do
    Authz.deleteRelation tuple
    return .done
  | .createPolicy wanted => return .policy (← Authz.createPolicy formats wanted)
  | .deletePolicy clientId id => do
    Authz.deletePolicy clientId id
    return .done
  | .createRole wanted => return .role (← Authz.createRole wanted)
  | .deleteRole role => do
    Authz.deleteRole role
    return .done
  | .createGroup wanted => return .group (← Authz.createGroup wanted)
  | .deleteGroup group => do
    Authz.deleteGroup group
    return .done

/-- Everything an administrator may ask of a realm, in any order and at once. -/
def calls (formats : Formats) : language.Calls where
  Call := Call
  Answer := Answer
  program := Call.program formats

end Saffui.Authz
