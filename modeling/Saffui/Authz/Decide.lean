import Saffui.Authz.Relations.CheckSound
import Saffui.Authz.Manage
import Saffui.Login.Session
import Saffui.Tokens

/-!
# The point of decision

Source: `saffui-core/src/authz/decide.rs`, with `resolve_realm`,
`authenticate_client`, `read_live_subject`, `read_held_roles` and
`read_member_groups` as it calls them. A realm is what its tables hold, each
read of the storage a function of it; the `n`-th read fails where
`Around.failures n` says so, and the `n`-th reading of the clock is
`Around.now n`.
-/

namespace Saffui.Authz
open Saffui.Authz.Relations Saffui.Login Saffui.Tokens

/-- When a grant or a membership is one. -/
structure Validity where
  validFrom : Instant
  validUntil : Option Instant
  deriving DecidableEq, Repr

def Validity.covers (validity : Validity) (now : Instant) : Bool :=
  validity.validFrom ≤ now && validity.validUntil.all fun limit => limit > now

/-- Whose grant or membership it is, of what, and when. -/
structure Grant where
  holder : Uuid
  given : Uuid
  validity : Validity
  deriving DecidableEq, Repr

/-- A role a person holds at an instant, by one way. -/
structure HeldRole where
  role : Uuid
  clientId : Option String
  name : String
  /-- The group it comes through. -/
  through : Option Uuid
  ends : Option Instant
  deriving DecidableEq, Repr

structure GuardedSchema where
  compiled : Json
  guarded : Bool
  deriving DecidableEq

/-- What a realm keeps, as far as a decision reads it. -/
structure RealmState where
  enabled : Bool
  clients : List Client
  keys : List SigningKey
  sessions : List Session
  /-- The persons with a confirmed authenticator, and those with a key. -/
  confirmedAuthenticators : List Uuid
  securityKeys : List Uuid
  persons : List Person
  schema : Option StoredSchema
  /-- The types each client guards. -/
  guards : List (String × String)
  tuples : List RelationTuple
  policies : List Policy
  roles : List Role
  personRoles : List Grant
  groupMembers : List Grant
  groupRoles : List Grant

namespace RealmState

variable (state : RealmState)

def readClient (clientId : String) : Option Client :=
  state.clients.find? fun client => client.clientId = clientId

def readSession (id : Uuid) : Option ReadSession :=
  (state.sessions.find? fun session => session.id = id).map fun session =>
    ⟨session, session.person ∈ state.confirmedAuthenticators || session.person ∈ state.securityKeys⟩

def readPerson (id : Uuid) : Option Person := state.persons.find? fun person => person.id = id

def readGuardedSchema (objectType clientId : String) : Option GuardedSchema :=
  state.schema.map fun stored => ⟨stored.compiled, (objectType, clientId) ∈ state.guards⟩

def listApplicablePolicies (clientId resourceType action : String) : List Policy :=
  (state.policies.filter (appliesTo clientId resourceType action)).insertionSort
    fun left right => left.name ≤ right.name

/-- The earlier of two ends: an absent one is none. -/
def least : Option Instant → Option Instant → Option Instant
  | some one, some other => some (min one other)
  | some one, none => some one
  | none, other => other

/-- The role of a grant, where it is there, by the way it is held. -/
def holdRole (grant : Grant) (through : Option Uuid) (ends : Option Instant) : Option HeldRole :=
  (state.roles.find? fun role => role.id = grant.given).map fun role =>
    ⟨role.id, role.clientId, role.name, through, ends⟩

/-- The roles a person holds at an instant, once per way. -/
def heldRoles (person : Uuid) (now : Instant) : List HeldRole :=
  let granted := state.personRoles.filterMap fun grant =>
    if grant.holder = person ∧ grant.validity.covers now then
      state.holdRole grant none grant.validity.validUntil
    else none
  let throughGroups := state.groupMembers.flatMap fun membership =>
    if membership.holder = person ∧ membership.validity.covers now then
      state.groupRoles.filterMap fun grant =>
        if grant.holder = membership.given ∧ grant.validity.covers now then
          state.holdRole grant (some membership.given)
            (least membership.validity.validUntil grant.validity.validUntil)
        else none
    else []
  granted ++ throughGroups

def listHeldRoles (person : Uuid) (now : Instant) (most : Nat) : List HeldRole :=
  (state.heldRoles person now).take most

/-- The groups a person is a member of at an instant. -/
def memberGroups (person : Uuid) (now : Instant) : List Uuid :=
  let groups := state.groupMembers.filterMap fun membership =>
    if membership.holder = person ∧ membership.validity.covers now then some membership.given
    else none
  groups.insertionSort (· ≤ ·)

def listMemberGroups (person : Uuid) (now : Instant) (most : Nat) : List Uuid :=
  (state.memberGroups person now).take most

end RealmState

/-- The node: its settings, and the packages and ports it calls. -/
structure Node where
  publicOrigin : String
  sha256 : Bytes → Bytes
  packages : TokenPackages
  formats : Formats

/-- What a question meets: the clock, the reads that fail, and whether a
share of the node is free. -/
structure Around where
  now : Nat → Instant
  failures : Nat → Option StorageError
  shareIsFree : Bool

/-- How often the clock and the storage were asked so far. -/
structure Readings where
  clock : Nat
  storage : Nat
  deriving DecidableEq, Repr

abbrev AskM (α : Type) := Readings → Except ErrorCode (α × Readings)

def toCode : StorageError → ErrorCode
  | .unavailable _ => .storageUnavailable
  | .taken _ => .conflict
  | .failed => .internal

namespace AskM

def pure {α : Type} (value : α) : AskM α := fun readings => .ok (value, readings)

def bind {α β : Type} (first : AskM α) (next : α → AskM β) : AskM β := fun readings =>
  match first readings with
  | .ok (value, after) => next value after
  | .error code => .error code

instance : Monad AskM where
  pure := AskM.pure
  bind := AskM.bind

def fail {α : Type} (code : ErrorCode) : AskM α := fun _ => .error code

end AskM

/-- One reading of the clock. -/
def readClock (around : Around) : AskM Instant := fun readings =>
  .ok (around.now readings.clock, { readings with clock := readings.clock + 1 })

/-- One read of the storage, which may fail. -/
def readStorage {α : Type} (around : Around) (value : α) : AskM α := fun readings =>
  match around.failures readings.storage with
  | some error => .error (toCode error)
  | none => .ok (value, { readings with storage := readings.storage + 1 })

def PERSON_TYPE : String := "user"

def CLIENT_TYPE : String := "client"

def MAX_ATTRIBUTES_BYTES : Nat := 8 * 1024

def MAX_HELD : Nat := 1000

/-- What a client asks of the point of decision. -/
structure DecisionRequest where
  subjectToken : Option String
  action : String
  resourceType : String
  resourceId : Option String
  attributes : List (String × Json)

inductive Verdict where
  | permit
  | deny
  deriving DecidableEq, Repr

structure Decision where
  decision : Verdict
  reason : String
  /-- The policy that decided, when one did. -/
  policy : Option String
  deriving DecidableEq, Repr

def Decision.permit (reason : String) (policy : Option String) : Decision :=
  ⟨.permit, reason, policy⟩

def Decision.deny (reason : String) (policy : Option String) : Decision :=
  ⟨.deny, reason, policy⟩

structure Subject where
  /-- What the policies read of the subject, its roles and groups aside. -/
  facts : SubjectFacts
  object : ObjectRef
  /-- The person, when one presented the token. -/
  person : Option Uuid
  deriving DecidableEq, Repr

def Subject.ofPerson (person : Person) (claims : AccessTokenClaims) : Subject where
  facts :=
    { id := person.id.text, username := some person.username, email := person.email
      emailVerified := some person.emailVerified, clientId := claims.clientId
      scopes := claims.scopes, roles := [], groups := [] }
  object := ⟨PERSON_TYPE, person.id.text⟩
  person := some person.id

def Subject.ofClient (client : Client) (claims : AccessTokenClaims) : Subject where
  facts :=
    { id := client.clientId, username := none, email := none, emailVerified := none
      clientId := claims.clientId, scopes := claims.scopes, roles := [], groups := [] }
  object := ⟨CLIENT_TYPE, client.clientId⟩
  person := none

section Decide

variable (node : Node) (around : Around)

def readNamedClientOf (state : RealmState) (clientId : String) : AskM (Option Client) :=
  match checkClientIdentifier clientId with
  | .error _ => return none
  | .ok () => readStorage around (state.readClient clientId)

/-- A digest nothing matches. -/
def NO_DIGEST : Bytes := List.replicate 32 0

def authenticateClient (state : RealmState) (clientId : String) (presented : Bytes) :
    AskM Client := do
  let client ← readNamedClientOf around state clientId
  let expected := (client.bind Client.secretDigest).getD NO_DIGEST
  match client with
  | some client =>
    if node.sha256 presented = expected && client.enabled then return client
    else AskM.fail .clientAuthenticationFailed
  | none => AskM.fail .clientAuthenticationFailed

/-- What an access token says, `none` where it is not one. -/
def verifyAccessToken (state : RealmState) (issuer token : String) :
    AskM (Option AccessTokenClaims) := do
  let keys ← readStorage around state.keys
  match verifyCompact node.packages token keys with
  | none => return none
  | some verified =>
    if verified.tokenType ≠ some ACCESS_TOKEN_TYPE then return none
    else do
      let now ← readClock around
      return readClaims verified.claims issuer now

def readLiveSubject (state : RealmState) (session : Uuid) : AskM (Option (Session × Person)) := do
  let now ← readClock around
  let read ← readStorage around (state.readSession session)
  match read.filter fun known => stands known now with
  | none => return none
  | some read => do
    let person ← readStorage around (state.readPerson read.session.person)
    return (person.filter fun person => person.enabled).map fun person => (read.session, person)

/-- Who presented the token, as they are now. -/
def readSubject (state : RealmState) (issuer token : String) : AskM (Option Subject) := do
  match ← verifyAccessToken node around state issuer token with
  | none => return none
  | some claims =>
    match claims.session with
    | none => do
      let client ← readNamedClientOf around state claims.subject
      return (client.filter fun client => client.enabled).map fun client =>
        Subject.ofClient client claims
    | some session => do
      match ← readLiveSubject around state session with
      | none => return none
      | some (_, person) =>
        if person.id.text ≠ claims.subject then return none
        else return some (Subject.ofPerson person claims)

/-- What the schema of relations is to a type, for the client that asks. -/
inductive SchemaFor where
  /-- A schema that cannot be read decides nothing. -/
  | unreadable
  /-- The schema defines the type, and the client guards it. -/
  | relations (schema : CompiledSchema)
  | policies

/-- The schema of a form read. A form another version wrote is compiled again
from its source, which is read only then. -/
def openSchema (state : RealmState) (compiled : Json) : AskM (Option CompiledSchema) :=
  match readCompiledSchema compiled with
  | some schema => return some schema
  | none => do
    let stored ← readStorage around state.schema
    return stored.bind fun stored => (compileSchema stored.source).toOption

def readSchemaFor (state : RealmState) (clientId resourceType : String) : AskM SchemaFor := do
  match ← readStorage around (state.readGuardedSchema resourceType clientId) with
  | none => return .policies
  | some read =>
    match ← openSchema around state read.compiled with
    | none => return .unreadable
    | some schema =>
      if (schema.types.get? resourceType).isNone || !read.guarded then return .policies
      else return .relations schema

/-- The walk of a question, from where its readings stand. -/
def walk (state : RealmState) (schema : CompiledSchema) (object : ObjectRef) (action : String)
    (subject : ObjectRef) (deadline : Instant) : AskM Walk := fun readings =>
  let surroundings := Surroundings.ofKept state.tuples
    (fun reading => around.now (readings.clock + reading))
    fun reading => around.failures (readings.storage + reading)
  match walkRelations ⟨schema, subject, deadline, .ofSource, surroundings⟩ object action with
  | .ok walk => .ok (walk, readings)
  | .error (.storage error) => .error (toCode error)
  | .error .outOfFuel => .error .internal

def decideByRelations (state : RealmState) (schema : CompiledSchema) (request : DecisionRequest)
    (subject : ObjectRef) (deadline : Instant) : AskM Decision :=
  match request.resourceId.filter isObjectId with
  | none => AskM.fail .requestInvalid
  | some objectId =>
    if (schema.findMember request.resourceType request.action).isNone then
      return .deny "relation_unknown" none
    else do
      let object : ObjectRef := ⟨request.resourceType, objectId⟩
      match ← walk around state schema object request.action subject deadline with
      | .found => return .permit "relation" none
      | .notFound => return .deny "no_relation" none
      | .undecided limit => return .deny ("undecided_" ++ limit.name) none

def readHeldRoles (state : RealmState) (person : Uuid) (now : Instant) : AskM (List HeldRole) := do
  let held ← readStorage around (state.listHeldRoles person now (MAX_HELD + 1))
  if held.length > MAX_HELD then AskM.fail .heldTooMany else return held

def readMemberGroups (state : RealmState) (person : Uuid) (now : Instant) : AskM (List Uuid) := do
  let groups ← readStorage around (state.listMemberGroups person now (MAX_HELD + 1))
  if groups.length > MAX_HELD then AskM.fail .heldTooMany else return groups

/-- The roles held that tell the policies of a client something: those of the
realm, and its own. -/
def rolesFor (clientId : String) (held : List HeldRole) : List Uuid :=
  sortIds ((held.filter fun held => held.clientId.all fun owner => owner = clientId).map (·.role))

def readFacts (state : RealmState) (clientId : String) (subject : Subject) (now : Instant) :
    AskM SubjectFacts :=
  match subject.person with
  | none => return subject.facts
  | some person => do
    let held ← readHeldRoles around state person now
    let groups ← readMemberGroups around state person now
    return { subject.facts with roles := rolesFor clientId held, groups }

def decideByPolicies (state : RealmState) (clientId : String) (request : DecisionRequest)
    (subject : Subject) : AskM Decision := do
  let policies ← readStorage around
    (state.listApplicablePolicies clientId request.resourceType request.action)
  if policies.isEmpty then return .deny "no_policy" none
  else do
    let now ← readClock around
    let facts ← readFacts around state clientId subject now
    match weighPolicies node.formats policies ⟨facts, request.attributes, now⟩ with
    | .permit name => return .permit "policy" (some name)
    | .deny name => return .deny "policy" (some name)
    | .undecided name => return .deny "undecided" (some name)
    | .noPolicy => return .deny "no_policy" none

/-- Whether the attributes of a resource are small enough to be read. -/
def isSmall (attributes : List (String × Json)) : Bool :=
  ((Json.object attributes).write node.formats.writeFloat).utf8ByteSize ≤ MAX_ATTRIBUTES_BYTES

/-- 1 to 63 lowercase letters, digits or hyphens, no hyphen at either end. -/
def isRealmName (text : String) : Bool :=
  1 ≤ text.utf8ByteSize && text.utf8ByteSize ≤ 63 &&
    text.toList.all (fun character =>
      Text.isAsciiLowercase character || Text.isAsciiDigit character || character = '-') &&
    text.toList.head? ≠ some '-' && text.toList.getLast? ≠ some '-'

def resolveRealm (realms : String → Option RealmState) (realm : String) : AskM RealmState :=
  if !isRealmName realm then AskM.fail .realmNotFound
  else do
    match ← readStorage around (realms realm) with
    | some state => if state.enabled then return state else AskM.fail .realmNotFound
    | none => AskM.fail .realmNotFound

def nameIssuer (realm : String) : String := node.publicOrigin ++ "/realms/" ++ realm

/-- Decides whether the subject of a token may take an action on a resource,
for a client that authenticates. -/
def decide (realms : String → Option RealmState) (realm : String) (clientId : Option String)
    (clientSecret : Option Bytes) (request : DecisionRequest) : AskM Decision := do
  let asked ← readClock around
  let state ← resolveRealm around realms realm
  match clientId, clientSecret with
  | some clientId, some clientSecret => do
    readStorage around ()
    let client ← authenticateClient node around state clientId clientSecret
    match request.subjectToken with
    | none => AskM.fail .requestInvalid
    | some token =>
      if !isRoleName request.action || !isRoleName request.resourceType ||
          !isSmall node request.attributes then AskM.fail .requestInvalid
      else if !around.shareIsFree then AskM.fail .storageUnavailable
      else do
        match ← readSubject node around state (nameIssuer node realm) token with
        | none => return .deny "subject_unknown" none
        | some subject =>
          match ← readSchemaFor around state client.clientId request.resourceType with
          | .unreadable => return .deny "schema_unreadable" none
          | .relations schema =>
            decideByRelations around state schema request subject.object (asked + MAX_DURATION)
          | .policies => decideByPolicies node around state client.clientId request subject
  | _, _ => AskM.fail .clientAuthenticationFailed

end Decide

end Saffui.Authz
