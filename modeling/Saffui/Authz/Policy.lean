import Mathlib.Data.List.Infix
import Mathlib.Data.List.Dedup
import Mathlib.Data.List.Sort
import Mathlib.Data.Rat.Defs
import Mathlib.Algebra.Group.Int.Defs
import Saffui.Json
import Saffui.Authz.Roles

/-!
# Policies

Source: `saffui-core/src/authz/policy.rs`: what a policy holds, what it says
of a question and how the policies of a question are weighed. A policy that
cannot tell never permits.

`readConditions` is what `serde` derives to read a document of conditions: a
variant from an object of one member. What other crates make of texts is
given: `Formats.readInstant` reads an instant, `Formats.writeFloat` writes a
float.
-/

namespace Saffui.Authz
open Json

def MAX_CONDITIONS : Nat := 32

def MAX_POLICIES_PER_CLIENT : Nat := 200

def MAX_APPLICABLE_POLICIES : Nat := 16

def MAX_SAFE_INTEGER : Nat := 2 ^ 53 - 1

def MAX_CONDITIONS_BYTES : Nat := 16 * 1024

inductive Effect where
  | permit
  | deny
  deriving DecidableEq, Repr

/-- Whether every condition must hold, or one is enough. -/
inductive Combine where
  | all
  | any
  deriving DecidableEq, Repr

structure Policy where
  id : Uuid
  /-- The client that guards the resources. -/
  clientId : String
  name : String
  resourceType : String
  action : String
  effect : Effect
  combine : Combine
  /-- The conditions as they were written, read at each decision. -/
  conditions : Json
  createdAt : Instant

inductive SubjectAttribute where
  | id | username | email | emailVerified | clientId | scope
  deriving DecidableEq, Repr

inductive Operand where
  | subject (named : SubjectAttribute)
  /-- An attribute the client says the resource has. -/
  | resource (name : String)
  | value (value : Json)
  deriving DecidableEq

inductive Operator where
  | equals | contains | startsWith | endsWith | among | gt | gte | lt | lte
  /-- Whether the left operand is there at all. -/
  | present
  deriving DecidableEq, Repr

inductive Condition where
  | role (role : Uuid)
  | group (group : Uuid)
  | attributed (left : Operand) (operator : Operator) (right : Option Operand)
  /-- At or after the first bound and before the second, in RFC 3339. -/
  | time (notBefore notOnOrAfter : Option String)
  deriving DecidableEq

def SubjectAttribute.toJson : SubjectAttribute → Json
  | .id => .string "id"
  | .username => .string "username"
  | .email => .string "email"
  | .emailVerified => .string "email_verified"
  | .clientId => .string "client_id"
  | .scope => .string "scope"

def Operand.toJson : Operand → Json
  | .subject named => .object [("subject", named.toJson)]
  | .resource name => .object [("resource", .string name)]
  | .value given => .object [("value", given)]

def Operator.toJson : Operator → Json
  | .equals => .string "equals"
  | .contains => .string "contains"
  | .startsWith => .string "starts_with"
  | .endsWith => .string "ends_with"
  | .among => .string "in"
  | .gt => .string "gt"
  | .gte => .string "gte"
  | .lt => .string "lt"
  | .lte => .string "lte"
  | .present => .string "present"

/-- A member of an object, left out where it is absent. -/
def optionalMember (name : String) (value : Option Json) : List (String × Json) :=
  match value with
  | none => []
  | some value => [(name, value)]

def Condition.toJson : Condition → Json
  | .role id => .object [("role", .string id.text)]
  | .group id => .object [("group", .string id.text)]
  | .attributed left operator right =>
    .object [("attribute", .object ([("left", left.toJson), ("operator", operator.toJson)] ++
      optionalMember "right" (right.map Operand.toJson)))]
  | .time notBefore notOnOrAfter =>
    .object [("time", .object (optionalMember "not_before" (notBefore.map .string) ++
      optionalMember "not_on_or_after" (notOnOrAfter.map .string)))]

/-- The document of conditions, as `serde` writes it. -/
def writeConditions (conditions : List Condition) : Json :=
  .array (conditions.map Condition.toJson)

def SubjectAttribute.ofJson (document : Json) : Option SubjectAttribute :=
  match readUnitVariant document with
  | some "id" => some .id
  | some "username" => some .username
  | some "email" => some .email
  | some "email_verified" => some .emailVerified
  | some "client_id" => some .clientId
  | some "scope" => some .scope
  | _ => none

def Operand.ofJson (document : Json) : Option Operand :=
  match readVariant document with
  | some ("subject", some content) => (SubjectAttribute.ofJson content).map .subject
  | some ("resource", some (.string name)) => some (.resource name)
  | some ("value", some content) => some (.value content)
  | _ => none

def Operator.ofJson (document : Json) : Option Operator :=
  match readUnitVariant document with
  | some "equals" => some .equals
  | some "contains" => some .contains
  | some "starts_with" => some .startsWith
  | some "ends_with" => some .endsWith
  | some "in" => some .among
  | some "gt" => some .gt
  | some "gte" => some .gte
  | some "lt" => some .lt
  | some "lte" => some .lte
  | some "present" => some .present
  | _ => none

/-- An optional operand: absent, `null`, or one. -/
def readOptionalOperand : Option Json → Option (Option Operand)
  | none | some .null => some none
  | some document => (Operand.ofJson document).map some

def Condition.ofJson (document : Json) : Option Condition :=
  match readVariant document with
  | some ("role", some (.string text)) => (Uuid.parse text).map .role
  | some ("group", some (.string text)) => (Uuid.parse text).map .group
  | some ("attribute", some (.object members)) => do
    guard (holdsOnly ["left", "operator", "right"] members)
    return .attributed (← Operand.ofJson (← Json.field members "left"))
      (← Operator.ofJson (← Json.field members "operator"))
      (← readOptionalOperand (Json.field members "right"))
  | some ("time", some (.object members)) => do
    guard (holdsOnly ["not_before", "not_on_or_after"] members)
    return .time (← readOptionalText (Json.field members "not_before"))
      (← readOptionalText (Json.field members "not_on_or_after"))
  | _ => none

/-- Reads the conditions of a policy, as written. -/
def readConditions (document : Json) : Except ErrorCode (List Condition) :=
  match readList Condition.ofJson document with
  | some conditions => .ok conditions
  | none => .error .policyInvalid

theorem SubjectAttribute.ofJson_toJson (named : SubjectAttribute) :
    SubjectAttribute.ofJson named.toJson = some named := by
  cases named <;> rfl

theorem Operator.ofJson_toJson (operator : Operator) :
    Operator.ofJson operator.toJson = some operator := by
  cases operator <;> rfl

theorem Operand.ofJson_toJson (operand : Operand) :
    Operand.ofJson operand.toJson = some operand := by
  cases operand with
  | subject named =>
    simp [Operand.toJson, Operand.ofJson, readVariant, SubjectAttribute.ofJson_toJson]
  | resource name => rfl
  | value given => rfl

theorem readOptionalOperand_map (operand : Option Operand) :
    readOptionalOperand (operand.map Operand.toJson) = some operand := by
  cases operand with
  | none => rfl
  | some operand =>
    have read := operand.ofJson_toJson
    cases operand <;> simpa [readOptionalOperand, Operand.toJson] using read

theorem Condition.ofJson_toJson (condition : Condition) :
    Condition.ofJson condition.toJson = some condition := by
  cases condition with
  | role id => simp [Condition.toJson, Condition.ofJson, readVariant, Uuid.parse_text]
  | group id => simp [Condition.toJson, Condition.ofJson, readVariant, Uuid.parse_text]
  | attributed left operator right =>
    have read := readOptionalOperand_map right
    cases right <;>
      simp_all [Condition.toJson, Condition.ofJson, readVariant, Json.field, List.lookup_cons, List.lookup_nil,
        optionalMember, holdsOnly, Operand.ofJson_toJson, Operator.ofJson_toJson, guard]
  | time notBefore notOnOrAfter =>
    cases notBefore <;> cases notOnOrAfter <;>
      simp [Condition.toJson, Condition.ofJson, readVariant, Json.field, List.lookup_cons, List.lookup_nil,
        optionalMember, holdsOnly, readOptionalText, guard]

/-- Conditions read back from the document they were written as. -/
theorem readConditions_writeConditions (conditions : List Condition) :
    readConditions (writeConditions conditions) = .ok conditions := by
  have read : readList Condition.ofJson (writeConditions conditions) = some conditions :=
    readList_map fun condition _ => condition.ofJson_toJson
  rw [readConditions, read]

/-- What the `time` crate reads of a text in RFC 3339, and how `serde_json`
writes a float. -/
structure Formats where
  readInstant : String → Option Instant
  writeFloat : Rat → String

/-- What is known of a subject at the instant of a question. -/
structure SubjectFacts where
  id : String
  username : Option String
  email : Option String
  emailVerified : Option Bool
  clientId : String
  scopes : List String
  roles : List Uuid
  groups : List Uuid
  deriving DecidableEq, Repr

def SubjectFacts.read (facts : SubjectFacts) : SubjectAttribute → Option Json
  | .id => some (.string facts.id)
  | .username => facts.username.map .string
  | .email => facts.email.map .string
  | .emailVerified => facts.emailVerified.map .bool
  | .clientId => some (.string facts.clientId)
  | .scope => some (.array (facts.scopes.map .string))

/-- What a decision reads from. -/
structure Facts where
  subject : SubjectFacts
  resource : List (String × Json)
  now : Instant

/-- Whether a condition holds. What cannot be read is not taken for a no. -/
inductive Truth where
  | holds
  | fails
  | unknown
  deriving DecidableEq, Repr

def Truth.of (holds : Bool) : Truth := if holds then .holds else .fails

def readOperand (operand : Operand) (facts : Facts) : Option Json :=
  match operand with
  | .subject named => facts.subject.read named
  | .resource name => (Json.field facts.resource name).filter fun value => value ≠ .null
  | .value value => some value

/-- An integer as the nearest `f64`, of two as near the one with an even
significand. -/
def roundInteger (value : Nat) : Nat :=
  if value < 2 ^ 53 then value
  else
    let unit := 2 ^ (Nat.log2 value - 52)
    let below := value / unit
    let left := value % unit
    if 2 * left < unit ∨ (2 * left = unit ∧ below % 2 = 0) then below * unit
    else (below + 1) * unit

/-- What a number is worth as an `f64`. -/
def Number.asF64 : Number → Rat
  | .posInt value => roundInteger value
  | .negInt value => -(roundInteger (value + 1) : Rat)
  | .float worth => worth

def Number.isF64 : Number → Bool
  | .float _ => true
  | _ => false

/-- Two numbers are the same when they are worth the same, whatever their
writing. -/
def isSameValue (left right : Json) : Bool :=
  match left, right with
  | .number one, .number other =>
    if Number.isF64 one || Number.isF64 other then Number.asF64 one = Number.asF64 other
    else one = other
  | left, right => left = right

def asF64 : Json → Option Rat
  | .number value => some (Number.asF64 value)
  | _ => none

/-- What an operator answers of two values, when it can tell. -/
def compareValues (operator : Operator) (left right : Json) : Option Bool :=
  let texts := fun (test : List Char → List Char → Bool) => do
    return test (← left.asStr).toList (← right.asStr).toList
  let numbers := fun (test : Rat → Rat → Bool) => do
    return test (← asF64 left) (← asF64 right)
  match operator with
  | .equals => some (isSameValue left right)
  | .contains => texts fun whole part => decide (part <:+: whole)
  | .startsWith => texts fun whole part => decide (part <+: whole)
  | .endsWith => texts fun whole part => decide (part <:+ whole)
  | .among =>
    match left, right.asArray with
    | .string _, some list | .number _, some list | .bool _, some list =>
      some (list.any fun item => isSameValue item left)
    | _, _ => none
  | .gt => numbers fun one other => decide (one > other)
  | .gte => numbers fun one other => decide (one ≥ other)
  | .lt => numbers fun one other => decide (one < other)
  | .lte => numbers fun one other => decide (one ≤ other)
  | .present => none

def compare (operator : Operator) (left right : Option Json) : Truth :=
  if operator = .present then Truth.of left.isSome
  else
    match left, right with
    | some left, some right =>
      match compareValues operator left right with
      | some answer => Truth.of answer
      | none => .unknown
    | _, _ => .unknown

section Evaluation

variable (formats : Formats)

/-- A bound that is there reads, or nothing is told. -/
def readBound : Option String → Option (Option Instant)
  | none => some none
  | some text => (formats.readInstant text).map some

def evaluateCondition (condition : Condition) (facts : Facts) : Truth :=
  match condition with
  | .role role => Truth.of (facts.subject.roles.contains role)
  | .group group => Truth.of (facts.subject.groups.contains group)
  | .attributed left operator right =>
    compare operator (readOperand left facts) (right.bind fun right => readOperand right facts)
  | .time notBefore notOnOrAfter =>
    match readBound formats notBefore, readBound formats notOnOrAfter with
    | some bound, some limit =>
      Truth.of (bound.all (fun bound => bound ≤ facts.now) &&
        limit.all fun limit => facts.now < limit)
    | _, _ => .unknown

/-- What one policy says of a question. -/
inductive PolicyOutcome where
  | applies (effect : Effect)
  | notApplicable
  | undecided
  deriving DecidableEq, Repr

/-- What conditions say one after the other, `unknown` once one could not be
read: the first decisive one ends it. -/
def evaluateConditions (policy : Policy) (facts : Facts) : Bool → List Condition → PolicyOutcome
  | unknown, [] =>
    if unknown then .undecided
    else if policy.combine = .any then .notApplicable
    else .applies policy.effect
  | unknown, condition :: rest =>
    let decisive := if policy.combine = .all then Truth.fails else Truth.holds
    let truth := evaluateCondition formats condition facts
    if truth = decisive then
      if decisive = .holds then .applies policy.effect else .notApplicable
    else evaluateConditions policy facts (unknown || truth = .unknown) rest

def evaluatePolicy (policy : Policy) (facts : Facts) : PolicyOutcome :=
  match readConditions policy.conditions with
  | .error _ | .ok [] => .undecided
  | .ok conditions => evaluateConditions formats policy facts false conditions

/-- What the policies of a question say together. -/
inductive PolicyVerdict where
  | permit (name : String)
  | deny (name : String)
  | undecided (name : String)
  | noPolicy
  deriving DecidableEq, Repr

/-- Weighs policies one after the other, with the first that permitted and
the first that could not tell so far. -/
def weighPoliciesFrom (facts : Facts) (permitted undecided : Option String) :
    List Policy → PolicyVerdict
  | [] =>
    match undecided, permitted with
    | some name, _ => .undecided name
    | none, some name => .permit name
    | none, none => .noPolicy
  | policy :: rest =>
    match evaluatePolicy formats policy facts with
    | .applies .deny => .deny policy.name
    | .applies .permit => weighPoliciesFrom facts (permitted <|> some policy.name) undecided rest
    | .undecided => weighPoliciesFrom facts permitted (undecided <|> some policy.name) rest
    | .notApplicable => weighPoliciesFrom facts permitted undecided rest

def weighPolicies (policies : List Policy) (facts : Facts) : PolicyVerdict :=
  weighPoliciesFrom formats facts none none policies

/-- Policies permit only where one of them does, none denies and each could
tell. -/
theorem weighPoliciesFrom_permit {facts : Facts} {permitted undecided : Option String}
    {policies : List Policy} {name : String}
    (weighed : weighPoliciesFrom formats facts permitted undecided policies = .permit name) :
    undecided = none ∧
      (permitted.isSome ∨ ∃ policy ∈ policies,
        evaluatePolicy formats policy facts = .applies .permit) ∧
      ∀ policy ∈ policies, evaluatePolicy formats policy facts ≠ .applies .deny ∧
        evaluatePolicy formats policy facts ≠ .undecided := by
  induction policies generalizing permitted undecided with
  | nil =>
    cases undecided with
    | some _ => simp [weighPoliciesFrom] at weighed
    | none =>
      cases permitted with
      | none => simp [weighPoliciesFrom] at weighed
      | some _ => simp
  | cons policy rest ih =>
    unfold weighPoliciesFrom at weighed
    split at weighed
    · cases weighed
    · next outcome =>
      obtain ⟨told, -, others⟩ := ih weighed
      refine ⟨told, Or.inr ⟨policy, by simp, outcome⟩, List.forall_mem_cons.mpr ⟨?_, others⟩⟩
      simp [outcome]
    · obtain ⟨told, -⟩ := ih weighed
      cases undecided <;> simp at told
    · next outcome =>
      obtain ⟨told, granted, others⟩ := ih weighed
      refine ⟨told, ?_, List.forall_mem_cons.mpr ⟨by simp [outcome], others⟩⟩
      rcases granted with before | ⟨one, inside, applies⟩
      · exact Or.inl before
      · exact Or.inr ⟨one, List.mem_cons_of_mem _ inside, applies⟩

end Evaluation

/-- How the product is built: what an overflow does depends on it. -/
inductive Build where
  /-- Integers wrap. -/
  | release
  /-- An overflow panics. -/
  | debug
  deriving DecidableEq, Repr

/-- The least `i64`, which has no opposite among them. -/
def MIN_I64 : Int := -2 ^ 63

/-- `i64::abs`, nothing where it panics. -/
def absI64 (build : Build) (whole : Int) : Option Int :=
  if whole = MIN_I64 then
    match build with
    | .release => some whole
    | .debug => none
  else some whole.natAbs

mutual

/-- Whether a value stores and reads back as it was written, all the way
down; nothing where the check panics. -/
def checkStorable (build : Build) : Json → Option Bool
  | .null => some true
  | .bool _ => some true
  | .number kept =>
    match (Json.number kept).asI64 with
    | none => some false
    | some whole => (absI64 build whole).map fun magnitude => magnitude ≤ (MAX_SAFE_INTEGER : Int)
  | .string text => some !text.toList.any Text.isUnshowable
  | .array items => checkStorableItems build items
  | .object members => checkStorableMembers build members

def checkStorableItems (build : Build) : List Json → Option Bool
  | [] => some true
  | item :: items =>
    match checkStorable build item with
    | some true => checkStorableItems build items
    | other => other

def checkStorableMembers (build : Build) : List (String × Json) → Option Bool
  | [] => some true
  | (key, item) :: members =>
    if key.toList.any Text.isUnshowable then some false
    else
      match checkStorable build item with
      | some true => checkStorableMembers build members
      | other => other

end

/-- `is_storable_value` as the product runs it. -/
def isStorableValue (value : Json) : Bool := checkStorable .release value = some true

def isAttributeName (text : String) : Bool := isRoleName text

def Operand.isNamed : Operand → Bool
  | .resource name => isAttributeName name
  | .subject _ => true
  | .value given => isStorableValue given

/-- Whether a condition could be decided, as far as its own text tells. -/
def isDecidable (formats : Formats) : Condition → Bool
  | .role _ => true
  | .group _ => true
  | .attributed left operator right =>
    (operator == .present) == right.isNone && left.isNamed && right.all Operand.isNamed
  | .time notBefore notOnOrAfter =>
    match readBound formats notBefore, readBound formats notOnOrAfter with
    | some none, some none => false
    | some (some bound), some (some limit) => bound < limit
    | some _, some _ => true
    | _, _ => false

def Condition.asRole : Condition → Option Uuid
  | .role id => some id
  | _ => none

def Condition.asGroup : Condition → Option Uuid
  | .group id => some id
  | _ => none

/-- Identifiers in order and each once, as `sort_unstable` and `dedup` leave
them. -/
def sortIds (ids : List Uuid) : List Uuid := (ids.insertionSort (· ≤ ·)).dedup

/-- The roles conditions name. -/
def namedRoles (conditions : List Condition) : List Uuid :=
  sortIds (conditions.filterMap Condition.asRole)

/-- The groups conditions name. -/
def namedGroups (conditions : List Condition) : List Uuid :=
  sortIds (conditions.filterMap Condition.asGroup)

theorem mem_namedRoles {conditions : List Condition} {role : Uuid} :
    role ∈ namedRoles conditions ↔ .role role ∈ conditions := by
  rw [namedRoles, sortIds, List.mem_dedup, List.mem_insertionSort, List.mem_filterMap]
  constructor
  · rintro ⟨_ | _, inside, same⟩ <;> cases same
    exact inside
  · exact fun inside => ⟨_, inside, rfl⟩

theorem mem_namedGroups {conditions : List Condition} {group : Uuid} :
    group ∈ namedGroups conditions ↔ .group group ∈ conditions := by
  rw [namedGroups, sortIds, List.mem_dedup, List.mem_insertionSort, List.mem_filterMap]
  constructor
  · rintro ⟨_ | _, inside, same⟩ <;> cases same
    exact inside
  · exact fun inside => ⟨_, inside, rfl⟩

end Saffui.Authz
