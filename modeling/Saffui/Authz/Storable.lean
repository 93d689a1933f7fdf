import Saffui.Audit.Canonical
import Saffui.Authz.Policy

/-!
# Values a policy stores, and the event that tells of them

Source: `saffui-core/src/authz/policy.rs` (`is_storable_value`, and what
`create_policy` tells of a policy) against `audit/canonical.rs`. The two checks
of a number agree but at the least `i64`, whose absolute value is not one: the
product as it runs takes it, and the event of its policy has no canonical
form.
-/

namespace Saffui.Authz
open Json

/-- A number or a text of a value. -/
inductive Leaf where
  | number (value : Number)
  | text (value : String)
  deriving DecidableEq

mutual

/-- The numbers and the texts of a value, names included, in the order they
are checked. -/
def leaves : Json → List Leaf
  | .number kept => [.number kept]
  | .string text => [.text text]
  | .array items => leavesOfItems items
  | .object members => leavesOfMembers members
  | .null | .bool _ => []

def leavesOfItems : List Json → List Leaf
  | [] => []
  | item :: items => leaves item ++ leavesOfItems items

def leavesOfMembers : List (String × Json) → List Leaf
  | [] => []
  | (key, item) :: members => .text key :: leaves item ++ leavesOfMembers members

end

/-- What the check answers of one number or text. -/
def checkLeaf (build : Build) : Leaf → Option Bool
  | .number kept => checkStorable build (.number kept)
  | .text text => some !text.toList.any Text.isUnshowable

/-- Checks one after the other, up to the first that is not storable. -/
def checkLeaves (build : Build) : List Leaf → Option Bool
  | [] => some true
  | leaf :: rest =>
    match checkLeaf build leaf with
    | some true => checkLeaves build rest
    | other => other

theorem checkLeaves_append (build : Build) (first second : List Leaf) :
    checkLeaves build (first ++ second) =
      match checkLeaves build first with
      | some true => checkLeaves build second
      | other => other := by
  induction first with
  | nil => rfl
  | cons leaf rest ih =>
    rw [List.cons_append, checkLeaves, checkLeaves, ih]
    cases checkLeaf build leaf with
    | none => rfl
    | some answer => cases answer <;> rfl

/-- A value is checked leaf by leaf. -/
theorem checkStorable_eq (build : Build) (value : Json) :
    checkStorable build value = checkLeaves build (leaves value) := by
  induction value using Json.inductionOn with
  | null => rfl
  | bool value => rfl
  | number value =>
    rw [leaves, checkLeaves, checkLeaf]
    cases checkStorable build (.number value) with
    | none => rfl
    | some answer => cases answer <;> rfl
  | string text =>
    rw [leaves, checkLeaves, checkLeaf, checkStorable]
    cases text.toList.any Text.isUnshowable <;> rfl
  | array items ih =>
    rw [leaves, checkStorable]
    induction items with
    | nil => rfl
    | cons item items later =>
      obtain ⟨here, rest⟩ := List.forall_mem_cons.mp ih
      rw [leavesOfItems, checkStorableItems, checkLeaves_append, here]
      exact congrArg (fun checked => match checkLeaves build (leaves item) with
        | some true => checked
        | other => other) (later rest)
  | object members ih =>
    rw [leaves, checkStorable]
    induction members with
    | nil => rfl
    | cons member members later =>
      obtain ⟨here, rest⟩ := List.forall_mem_cons.mp ih
      rw [leavesOfMembers, checkStorableMembers, List.cons_append, checkLeaves, checkLeaf,
        checkLeaves_append, here, later rest]
      cases member.1.toList.any Text.isUnshowable <;> rfl

theorem mem_numbers_iff {value : Json} {number : Number} :
    number ∈ numbers value ↔ .number number ∈ leaves value := by
  induction value using Json.inductionOn with
  | null => simp [numbers, leaves]
  | bool value => simp [numbers, leaves]
  | number value => simp [numbers, leaves]
  | string text => simp [numbers, leaves]
  | array items ih =>
    rw [leaves, numbers]
    induction items with
    | nil => simp [numbersOfItems, leavesOfItems]
    | cons item items later =>
      obtain ⟨here, rest⟩ := List.forall_mem_cons.mp ih
      simp [numbersOfItems, leavesOfItems, here, later rest]
  | object members ih =>
    rw [leaves, numbers]
    induction members with
    | nil => simp [numbersOfMembers, leavesOfMembers]
    | cons member members later =>
      obtain ⟨here, rest⟩ := List.forall_mem_cons.mp ih
      simp [numbersOfMembers, leavesOfMembers, here, later rest]

/-- The least `i64`, as a number of JSON. -/
def leastNumber : Number := .negInt (2 ^ 63 - 1)

/-- A safe integer, or a text that can be shown. -/
def Leaf.isPlain : Leaf → Bool
  | .number kept => (Audit.magnitude kept).any (· ≤ Audit.MAX_SAFE_INTEGER)
  | .text shown => !shown.toList.any Text.isUnshowable

/-- Away from the least `i64` the absolute value is what it is. -/
theorem absI64_of_ne (build : Build) {whole : Int} (other : whole ≠ MIN_I64) :
    absI64 build whole = some (whole.natAbs : Int) := by
  unfold absI64
  rw [if_neg other]

/-- Away from the least `i64` the check answers what the canonical form takes,
however the product is built. -/
theorem checkLeaf_eq (build : Build) {leaf : Leaf} (other : leaf ≠ .number leastNumber) :
    checkLeaf build leaf = some leaf.isPlain := by
  cases leaf with
  | text shown => rfl
  | number kept =>
    rw [checkLeaf, checkStorable]
    cases kept with
    | float worth => rfl
    | posInt value =>
      by_cases small : value < 2 ^ 63
      · have away : (value : Int) ≠ MIN_I64 := by
          unfold MIN_I64
          omega
        simp only [asI64, if_pos small, absI64_of_ne build away, Option.map_some,
          Int.natAbs_natCast, Leaf.isPlain, Audit.magnitude, Option.any_some, Option.some.injEq,
          decide_eq_decide]
        exact Int.ofNat_le
      · have large : ¬ value ≤ Audit.MAX_SAFE_INTEGER := by
          unfold Audit.MAX_SAFE_INTEGER
          omega
        simp only [asI64, if_neg small, Leaf.isPlain, Audit.magnitude, Option.any_some,
          decide_eq_false large]
    | negInt value =>
      have away : -(value + 1 : Int) ≠ MIN_I64 := by
        intro same
        apply other
        unfold MIN_I64 at same
        have least : value = 2 ^ 63 - 1 := by omega
        rw [least, leastNumber]
      have size : (-(value + 1 : Int)).natAbs = value + 1 := by omega
      simp only [asI64, absI64_of_ne build away, Option.map_some, size, Leaf.isPlain,
        Audit.magnitude, Option.any_some, Option.some.injEq, decide_eq_decide]
      exact Int.ofNat_le

theorem checkLeaf_least : checkLeaf .debug (.number leastNumber) = none ∧
    checkLeaf .release (.number leastNumber) = some true := by
  decide

/-- The first number or text of a value that is not plain. -/
def firstLoose (value : Json) : Option Leaf := (leaves value).find? fun leaf => !leaf.isPlain

/-- What is asked of the check at a value: it does not panic, and what it
takes holds safe integers alone and has a canonical form. -/
structure Keeps (build : Build) (value : Json) : Prop where
  returns : checkStorable build value ≠ none
  safe : checkStorable build value = some true →
    (∀ number ∈ numbers value, Audit.IsSafe number) ∧
      ∃ bytes, Audit.canonicalize value = .ok bytes

theorem checkLeaves_plain (build : Build) {list : List Leaf} (plain : ∀ leaf ∈ list, leaf.isPlain) :
    checkLeaves build list = some true := by
  induction list with
  | nil => rfl
  | cons leaf rest ih =>
    obtain ⟨here, later⟩ := List.forall_mem_cons.mp plain
    have other : leaf ≠ .number leastNumber := by
      rintro rfl
      exact absurd here (by decide)
    rw [checkLeaves, checkLeaf_eq build other, here]
    exact ih later

/-- Past what is plain, the first other leaf decides. -/
theorem checkLeaves_loose (build : Build) {before after : List Leaf} {leaf : Leaf}
    (plain : ∀ leaf ∈ before, leaf.isPlain) (loose : checkLeaf build leaf ≠ some true) :
    checkLeaves build (before ++ leaf :: after) = checkLeaf build leaf := by
  rw [checkLeaves_append, checkLeaves_plain build plain]
  simp only [checkLeaves]

theorem isSafe_of_plain {number : Number} (plain : (Leaf.number number).isPlain) :
    Audit.IsSafe number := by
  cases known : Audit.magnitude number with
  | none => simp [Leaf.isPlain, known] at plain
  | some size =>
    simp only [Leaf.isPlain, known, Option.any_some, decide_eq_true_eq] at plain
    exact ⟨size, known, plain⟩

theorem canonicalize_of_safe {value : Json} (safe : ∀ number ∈ numbers value, Audit.IsSafe number) :
    ∃ bytes, Audit.canonicalize value = .ok bytes := by
  cases written : Audit.canonicalize value with
  | ok bytes => exact ⟨bytes, rfl⟩
  | error error =>
    obtain ⟨number, inside, loose⟩ := (Audit.canonicalize_refuses value).mp ⟨error, written⟩
    exact absurd (safe number inside) loose

/-- The check keeps its word at a value, however the product is built, unless
the first of its leaves that is not plain is the least `i64`. -/
theorem keeps_iff (value : Json) :
    (∀ build, Keeps build value) ↔ firstLoose value ≠ some (.number leastNumber) := by
  constructor
  · intro keeps first
    obtain ⟨loose, before, after, split, plain⟩ := List.find?_eq_some_iff_append.mp first
    have returns := (keeps .debug).returns
    rw [checkStorable_eq, split, checkLeaves_loose .debug (fun leaf inside => by
      simpa using plain leaf inside) (by rw [checkLeaf_least.1]; simp)] at returns
    exact returns checkLeaf_least.1
  · intro apart build
    cases first : firstLoose value with
    | none =>
      have plain : ∀ leaf ∈ leaves value, leaf.isPlain := by
        simpa [firstLoose] using first
      have safe : ∀ number ∈ numbers value, Audit.IsSafe number := fun number inside =>
        isSafe_of_plain (plain _ (mem_numbers_iff.mp inside))
      constructor
      · rw [checkStorable_eq, checkLeaves_plain build plain]
        simp
      · exact fun _ => ⟨safe, canonicalize_of_safe safe⟩
    | some leaf =>
      obtain ⟨loose, before, after, split, plain⟩ := List.find?_eq_some_iff_append.mp first
      have other : leaf ≠ .number leastNumber := by
        rintro rfl
        exact apart first
      have refused : checkLeaf build leaf = some false := by
        rw [checkLeaf_eq build other]
        simpa using loose
      have answer : checkStorable build value = some false := by
        rw [checkStorable_eq, split, checkLeaves_loose build (fun leaf inside => by
          simpa using plain leaf inside) (by rw [refused]; simp), refused]
      constructor
      · rw [answer]
        simp
      · rw [answer]
        simp

def Effect.name : Effect → String
  | .permit => "permit"
  | .deny => "deny"

def Combine.name : Combine → String
  | .all => "all"
  | .any => "any"

/-- What `create_policy` tells of a policy, and of the client that asked. -/
def tellPolicy (caller : String) (policy : Policy) : Json :=
  .object [("action", .string policy.action), ("actor", .object [("client_id", .string caller)]),
    ("client_id", .string policy.clientId), ("combine", .string policy.combine.name),
    ("conditions", policy.conditions), ("effect", .string policy.effect.name),
    ("name", .string policy.name), ("policy_id", .string policy.id.text),
    ("resource_type", .string policy.resourceType)]

/-- The values a condition was written with. -/
def Condition.literals : Condition → List Json
  | .attributed (.value left) _ (some (.value right)) => [left, right]
  | .attributed (.value left) _ _ => [left]
  | .attributed _ _ (some (.value right)) => [right]
  | _ => []

theorem numbers_condition (condition : Condition) :
    numbers condition.toJson = condition.literals.flatMap numbers := by
  have told (named : SubjectAttribute) : numbers named.toJson = [] := by
    cases named <;> rfl
  have spelled (operator : Operator) : numbers operator.toJson = [] := by
    cases operator <;> rfl
  cases condition with
  | role id => rfl
  | group id => rfl
  | time notBefore notOnOrAfter =>
    cases notBefore <;> cases notOnOrAfter <;> rfl
  | attributed left operator right =>
    cases left <;> rcases right with _ | _ | _ | _ <;>
      simp [Condition.toJson, Condition.literals, optionalMember, Operand.toJson, numbers,
        numbersOfMembers, told, spelled]

theorem numbers_tellPolicy (caller : String) {policy : Policy} {conditions : List Condition}
    (written : policy.conditions = writeConditions conditions) :
    numbers (tellPolicy caller policy) =
      conditions.flatMap fun condition => condition.literals.flatMap numbers := by
  simp only [tellPolicy, numbers, numbersOfMembers, written, writeConditions,
    Audit.numbersOfItems_eq, List.flatMap_map, numbers_condition, List.append_nil, List.nil_append]

theorem checkLeaf_of_taken {build : Build} {list : List Leaf}
    (taken : checkLeaves build list = some true) {leaf : Leaf} (inside : leaf ∈ list) :
    checkLeaf build leaf = some true := by
  induction list with
  | nil => cases inside
  | cons head rest ih =>
    rw [checkLeaves] at taken
    split at taken
    · next here =>
      rcases List.mem_cons.mp inside with rfl | later
      · exact here
      · exact ih taken later
    · next other => exact absurd taken other

/-- What the check takes in the product as it runs: safe integers, and the
least `i64`. -/
theorem safe_of_storable {value : Json} (storable : isStorableValue value) {number : Number}
    (inside : number ∈ numbers value) : Audit.IsSafe number ∨ number = leastNumber := by
  have taken : checkLeaves .release (leaves value) = some true := by
    rw [← checkStorable_eq]
    simpa [isStorableValue] using storable
  by_cases least : number = leastNumber
  · exact Or.inr least
  · have here := checkLeaf_of_taken taken (mem_numbers_iff.mp inside)
    rw [checkLeaf_eq .release (by simpa using least)] at here
    exact Or.inl (isSafe_of_plain (Option.some.inj here))

theorem literal_storable {formats : Formats} {condition : Condition}
    (admitted : isDecidable formats condition) {literal : Json}
    (inside : literal ∈ condition.literals) : isStorableValue literal := by
  cases condition with
  | role id => cases inside
  | group id => cases inside
  | time notBefore notOnOrAfter => cases inside
  | attributed left operator right =>
    cases left <;> rcases right with _ | _ | _ | _ <;>
      simp_all [Condition.literals, isDecidable, Operand.isNamed]
    rcases inside with rfl | rfl
    · exact admitted.1.2
    · exact admitted.2

theorem leastNumber_unsafe : ¬ Audit.IsSafe leastNumber := by
  rintro ⟨size, known, within⟩
  cases known
  exact absurd within (by decide)

/-- The event of a policy whose conditions were admitted is recorded unless a
value of them holds the least `i64`. -/
theorem recorded_iff {formats : Formats} {conditions : List Condition} {policy : Policy}
    (admitted : ∀ condition ∈ conditions, isDecidable formats condition)
    (written : policy.conditions = writeConditions conditions) (caller : String)
    (id tenant realm : Uuid) (instant : String) :
    (∃ bytes, Audit.canonicalize (Audit.envelope id tenant realm "policy.created" instant
      (tellPolicy caller policy)) = .ok bytes) ↔
    ∀ condition ∈ conditions, ∀ literal ∈ condition.literals,
      leastNumber ∉ numbers literal := by
  have held : numbers (Audit.envelope id tenant realm "policy.created" instant
      (tellPolicy caller policy)) =
      conditions.flatMap fun condition => condition.literals.flatMap numbers := by
    rw [← numbers_tellPolicy caller written]
    simp [Audit.envelope, numbers, numbersOfMembers]
  constructor
  · rintro ⟨bytes, recorded⟩ condition inside literal within least
    have safe := (Audit.canonicalize_accepts recorded fun _ => "").1
    apply leastNumber_unsafe
    apply safe
    rw [held]
    exact List.mem_flatMap.mpr ⟨condition, inside, List.mem_flatMap.mpr ⟨literal, within, least⟩⟩
  · intro none
    apply canonicalize_of_safe
    intro number inside
    rw [held] at inside
    obtain ⟨condition, here, inside⟩ := List.mem_flatMap.mp inside
    obtain ⟨literal, there, within⟩ := List.mem_flatMap.mp inside
    rcases safe_of_storable (literal_storable (admitted condition here) there) within with safe | least
    · exact safe
    · subst least
      exact absurd within (none condition here literal there)

/-- The check of values and the canonical form take the same integers away
from the least `i64`: there the check neither panics nor takes what has no
canonical form, and the event of every policy admitted is recorded; where the
least `i64` is reached it is not so. -/
theorem storable_values_are_recorded_iff (value : Json) (formats : Formats)
    (conditions : List Condition) (policy : Policy) (caller : String) (id tenant realm : Uuid)
    (instant : String) :
    ((∀ build, Keeps build value) ↔ firstLoose value ≠ some (.number leastNumber)) ∧
    ((∀ condition ∈ conditions, isDecidable formats condition) →
      policy.conditions = writeConditions conditions →
      ((∃ bytes, Audit.canonicalize (Audit.envelope id tenant realm "policy.created" instant
        (tellPolicy caller policy)) = .ok bytes) ↔
      ∀ condition ∈ conditions, ∀ literal ∈ condition.literals,
        leastNumber ∉ numbers literal)) := by
  refine ⟨keeps_iff value, ?_⟩
  intro admitted written
  exact recorded_iff admitted written caller id tenant realm instant

/-- A policy that compares an amount with the least `i64`. -/
def floorCondition : Condition :=
  .attributed (.resource "amount") .gte (some (.value (.number leastNumber)))

def floorPolicy : Policy where
  id := 9
  clientId := "ledger"
  name := "floor"
  resourceType := "account"
  action := "read"
  effect := .permit
  combine := .all
  conditions := writeConditions [floorCondition]
  createdAt := 0

def floorFormats : Formats where
  readInstant _ := none
  writeFloat worth := toString worth

/-- Its condition is admitted, its event has no canonical form, and the check
panics in a debug build. -/
theorem floorPolicy_unrecorded :
    isStorableValue (.number leastNumber) ∧ isDecidable floorFormats floorCondition ∧
      Audit.canonicalize (.number leastNumber) = .error .integerTooLarge ∧
      Audit.canonicalize (Audit.envelope 1 2 3 "policy.created" "2026-01-01T00:00:00Z"
        (tellPolicy "ledger" floorPolicy)) = .error .integerTooLarge ∧
      checkStorable .debug (.number leastNumber) = none := by
  refine ⟨by decide, by decide +kernel, by decide +kernel, by decide +kernel, by decide⟩

def amountCondition : Condition :=
  .attributed (.resource "amount") .gte (some (.value (.number (.posInt 7))))

theorem amountPolicy_recorded :
    ∃ bytes, Audit.canonicalize (Audit.envelope 1 2 3 "policy.created" "2026-01-01T00:00:00Z"
      (tellPolicy "ledger" { floorPolicy with conditions := writeConditions [amountCondition] })) =
        .ok bytes := by
  apply ((storable_values_are_recorded_iff .null floorFormats [amountCondition] _ _ _ _ _ _).2
    (by decide +kernel) rfl).mpr
  simp [amountCondition, Condition.literals, numbers, leastNumber]

end Saffui.Authz
