import Mathlib.Data.Rat.Cast.Order
import Saffui.Foundation.NearestEven
import Saffui.Authz.Manage

/-!
# What the operators of a condition can tell

Source: `saffui-core/src/authz/policy.rs` (`is_same_value`, `compare`,
`evaluate_condition`, `check_conditions`). `Equals` compares integers as they
are, and the orderings as the floats nearest to them: past 53 bits two integers
may be neither below, equal nor above one another. An operator tells of some
kinds of values only, and `check_conditions` does not look at them.
-/

namespace Saffui.Authz
open Foundation Json

/-- An integer as `serde_json` keeps it. -/
def ofInt : Int → Number
  | .ofNat value => .posInt value
  | .negSucc value => .negInt value

/-- An integer as the nearest `f64`. -/
def roundInt : Int → Int
  | .ofNat value => roundInteger value
  | .negSucc value => -(roundInteger (value + 1) : Int)

theorem roundInteger_eq (value : Nat) : roundInteger value = nearestEven 53 value := rfl

theorem roundInteger_mono {value other : Nat} (ordered : value ≤ other) :
    roundInteger value ≤ roundInteger other := by
  rw [roundInteger_eq, roundInteger_eq]
  exact nearestEven.mono (by decide) ordered

theorem roundInteger_safe {value : Nat} (small : value < 2 ^ 53) : roundInteger value = value :=
  nearestEven.eq_of_lt small

theorem roundInt_mono {one other : Int} (ordered : one ≤ other) : roundInt one ≤ roundInt other := by
  cases one with
  | ofNat value =>
    cases other with
    | ofNat limit => exact Int.ofNat_le.mpr (roundInteger_mono (Int.ofNat_le.mp ordered))
    | negSucc limit =>
      have reversed := lt_of_lt_of_le (Int.negSucc_lt_zero limit) (Int.natCast_nonneg value)
      exact absurd ordered (Int.not_le.mpr reversed)
  | negSucc value =>
    cases other with
    | ofNat limit =>
      have positive : (0 : Int) ≤ roundInteger limit := Int.natCast_nonneg _
      have negative : (0 : Int) ≤ roundInteger (value + 1) := Int.natCast_nonneg _
      simp only [roundInt]
      omega
    | negSucc limit =>
      have reversed : limit + 1 ≤ value + 1 := by omega
      exact Int.neg_le_neg (Int.ofNat_le.mpr (roundInteger_mono reversed))

theorem asF64_ofInt (value : Int) : Number.asF64 (ofInt value) = (roundInt value : Rat) := by
  cases value with
  | ofNat value => simp [ofInt, Number.asF64, roundInt]
  | negSucc value => simp [ofInt, Number.asF64, roundInt]

theorem ofInt_injective {one other : Int} (same : ofInt one = ofInt other) : one = other := by
  cases one <;> cases other <;> simp_all [ofInt]

/-- What an operator answers of two integers. -/
def between (operator : Operator) (one other : Int) : Truth :=
  compare operator (some (.number (ofInt one))) (some (.number (ofInt other)))

theorem of_eq_holds {answer : Bool} : Truth.of answer = .holds ↔ answer = true := by
  cases answer <;> simp [Truth.of]

theorem between_equals {one other : Int} : between .equals one other = .holds ↔ one = other := by
  have whole (value : Int) : Number.isF64 (ofInt value) = false := by
    cases value <;> rfl
  simp only [between, compare, compareValues, isSameValue, whole, reduceCtorEq, if_false,
    Bool.or_self, Bool.false_eq_true, of_eq_holds, decide_eq_true_eq]
  exact ⟨ofInt_injective, congrArg ofInt⟩

theorem between_lt {one other : Int} :
    between .lt one other = .holds ↔ roundInt one < roundInt other := by
  have told : between .lt one other =
      Truth.of (decide (Number.asF64 (ofInt one) < Number.asF64 (ofInt other))) := rfl
  rw [told, of_eq_holds, decide_eq_true_eq, asF64_ofInt, asF64_ofInt, Int.cast_lt]

theorem between_lte {one other : Int} :
    between .lte one other = .holds ↔ roundInt one ≤ roundInt other := by
  have told : between .lte one other =
      Truth.of (decide (Number.asF64 (ofInt one) ≤ Number.asF64 (ofInt other))) := rfl
  rw [told, of_eq_holds, decide_eq_true_eq, asF64_ofInt, asF64_ofInt, Int.cast_le]

theorem between_gt {one other : Int} :
    between .gt one other = .holds ↔ roundInt other < roundInt one := by
  have told : between .gt one other =
      Truth.of (decide (Number.asF64 (ofInt other) < Number.asF64 (ofInt one))) := rfl
  rw [told, of_eq_holds, decide_eq_true_eq, asF64_ofInt, asF64_ofInt, Int.cast_lt]

theorem between_gte {one other : Int} :
    between .gte one other = .holds ↔ roundInt other ≤ roundInt one := by
  have told : between .gte one other =
      Truth.of (decide (Number.asF64 (ofInt other) ≤ Number.asF64 (ofInt one))) := rfl
  rw [told, of_eq_holds, decide_eq_true_eq, asF64_ofInt, asF64_ofInt, Int.cast_le]

/-- The operators agree on two integers, and with their order. -/
structure Agree (one other : Int) : Prop where
  /-- One of the three holds, and no second. -/
  once : (between .lt one other = .holds ∨ between .equals one other = .holds ∨
      between .gt one other = .holds) ∧
    ¬ (between .lt one other = .holds ∧ between .equals one other = .holds) ∧
    ¬ (between .lt one other = .holds ∧ between .gt one other = .holds) ∧
    ¬ (between .equals one other = .holds ∧ between .gt one other = .holds)
  gte : between .gte one other = .holds ↔
    between .gt one other = .holds ∨ between .equals one other = .holds
  lte : between .lte one other = .holds ↔
    between .lt one other = .holds ∨ between .equals one other = .holds
  ordered : (between .lt one other = .holds ↔ one < other) ∧
    (between .equals one other = .holds ↔ one = other) ∧
    (between .gt one other = .holds ↔ other < one)

theorem agree_iff (one other : Int) :
    Agree one other ↔ (one = other ∨ roundInt one ≠ roundInt other) := by
  constructor
  · intro agree
    rcases agree.once.1 with lt | equals | gt
    · exact Or.inr (ne_of_lt (between_lt.mp lt))
    · exact Or.inl (between_equals.mp equals)
    · exact Or.inr (ne_of_gt (between_gt.mp gt))
  · intro apart
    have rounded : (one < other ∧ roundInt one < roundInt other) ∨
        (one = other ∧ roundInt one = roundInt other) ∨
        (other < one ∧ roundInt other < roundInt one) := by
      rcases lt_trichotomy one other with less | same | more
      · have mono := roundInt_mono less.le
        omega
      · exact Or.inr (Or.inl ⟨same, congrArg roundInt same⟩)
      · have mono := roundInt_mono more.le
        omega
    constructor <;>
      simp only [between_lt, between_lte, between_gt, between_gte, between_equals, true_and] <;>
      omega

/-- An integer rounds apart from another one of at most 53 bits. -/
theorem round_apart_of_safe {one other : Int} (safe : other.natAbs ≤ MAX_SAFE_INTEGER)
    (apart : one ≠ other) : roundInt one ≠ roundInt other := by
  have kept (value : Int) (small : value.natAbs ≤ MAX_SAFE_INTEGER) : roundInt value = value := by
    unfold MAX_SAFE_INTEGER at small
    cases value with
    | ofNat value =>
      rw [roundInt, roundInteger_safe (by simp only [Int.natAbs_ofNat'] at small; omega)]
      rfl
    | negSucc value =>
      rw [roundInt, roundInteger_safe (by simp only [Int.natAbs_negSucc] at small; omega)]
      rfl
  rw [kept other safe]
  by_cases small : one.natAbs ≤ MAX_SAFE_INTEGER
  · rw [kept one small]
    exact apart
  · unfold MAX_SAFE_INTEGER at safe small
    have high : roundInt (2 ^ 53) = 2 ^ 53 := by decide
    have low : roundInt (-2 ^ 53) = -2 ^ 53 := by decide
    rcases le_total 0 one with positive | negative
    · have above : roundInt (2 ^ 53) ≤ roundInt one := roundInt_mono (by omega)
      omega
    · have below : roundInt one ≤ roundInt (-2 ^ 53) := roundInt_mono (by omega)
      omega

/-- The operators agree on two integers where they are equal or round to
different floats, and only there; a literal of a policy is never too large for
that. -/
theorem operators_agree_iff (one other : Int) :
    (Agree one other ↔
      (one = other ∨ Number.asF64 (ofInt one) ≠ Number.asF64 (ofInt other))) ∧
    (other.natAbs ≤ MAX_SAFE_INTEGER → Agree one other) := by
  have rounded : Number.asF64 (ofInt one) ≠ Number.asF64 (ofInt other) ↔
      roundInt one ≠ roundInt other := by
    rw [asF64_ofInt, asF64_ofInt, ne_eq, Int.cast_inj]
  rw [rounded]
  refine ⟨agree_iff one other, fun safe => (agree_iff one other).mpr ?_⟩
  by_cases same : one = other
  · exact Or.inl same
  · exact Or.inr (round_apart_of_safe safe same)

/-- Neither below, equal nor above, although they are one apart. -/
theorem neighbours_disagree : ¬ Agree (2 ^ 53) (2 ^ 53 + 1) ∧
    between .lt (2 ^ 53) (2 ^ 53 + 1) = .fails ∧ between .equals (2 ^ 53) (2 ^ 53 + 1) = .fails ∧
    between .gt (2 ^ 53) (2 ^ 53 + 1) = .fails ∧ between .gte (2 ^ 53) (2 ^ 53 + 1) = .holds := by
  have lt : between .lt (2 ^ 53) (2 ^ 53 + 1) = .fails := by decide
  have equals : between .equals (2 ^ 53) (2 ^ 53 + 1) = .fails := by decide
  have gt : between .gt (2 ^ 53) (2 ^ 53 + 1) = .fails := by decide
  refine ⟨?_, lt, equals, gt, by decide⟩
  intro agree
  rcases agree.once.1 with holds | holds | holds
  · rw [lt] at holds
    cases holds
  · rw [equals] at holds
    cases holds
  · rw [gt] at holds
    cases holds

theorem smallIntegers_agree : Agree 100 7 := (operators_agree_iff 100 7).2 (by decide)

/-- Whether an operand reads as a text, of some subject and resource. -/
def Operand.mayBeText : Operand → Bool
  | .subject .emailVerified | .subject .scope => false
  | .subject _ | .resource _ | .value (.string _) => true
  | .value _ => false

def Operand.mayBeNumber : Operand → Bool
  | .resource _ | .value (.number _) => true
  | .subject _ | .value _ => false

/-- What the left of `In` is compared as. -/
def Operand.mayBeScalar : Operand → Bool
  | .subject .scope => false
  | .subject _ | .resource _ | .value (.string _) | .value (.number _) | .value (.bool _) => true
  | .value _ => false

def Operand.mayBeList : Operand → Bool
  | .subject .scope | .resource _ | .value (.array _) => true
  | .subject _ | .value _ => false

/-- One attribute of the resource on both sides. -/
def sameAttribute : Operand → Operand → Bool
  | .resource name, .resource other => name = other
  | _, _ => false

/-- Whether the operands of a condition may be of the kinds its operator tells
of. -/
def takes (left : Operand) : Operator → Option Operand → Bool
  | .present, _ => true
  | _, none => false
  | .equals, some _ => true
  | .contains, some right | .startsWith, some right | .endsWith, some right =>
    left.mayBeText && right.mayBeText
  | .among, some right =>
    left.mayBeScalar && right.mayBeList && !sameAttribute left right
  | .gt, some right | .gte, some right | .lt, some right | .lte, some right =>
    left.mayBeNumber && right.mayBeNumber

variable {formats : Formats} {facts : Facts}

theorem mayBeText_of_read {operand : Operand} {value : Json}
    (read : readOperand operand facts = some value) (text : value.asStr.isSome) :
    operand.mayBeText := by
  cases operand with
  | resource name => rfl
  | value given =>
    cases read
    cases value <;> simp_all [asStr, Operand.mayBeText]
  | subject named =>
    cases named with
    | emailVerified =>
      obtain ⟨answer, -, rfl⟩ := Option.map_eq_some_iff.mp read
      cases text
    | scope =>
      cases read
      cases text
    | id | username | email | clientId => rfl

theorem mayBeNumber_of_read {operand : Operand} {value : Json}
    (read : readOperand operand facts = some value) (number : (asF64 value).isSome) :
    operand.mayBeNumber := by
  cases operand with
  | resource name => rfl
  | value given =>
    cases read
    cases value <;> simp_all [asF64, Operand.mayBeNumber]
  | subject named =>
    cases named with
    | id | clientId | scope =>
      cases read
      cases number
    | username | email | emailVerified =>
      obtain ⟨answer, -, rfl⟩ := Option.map_eq_some_iff.mp read
      cases number

theorem mayBeList_of_read {operand : Operand} {value : Json}
    (read : readOperand operand facts = some value) (list : value.asArray.isSome) :
    operand.mayBeList := by
  cases operand with
  | resource name => rfl
  | value given =>
    cases read
    cases value <;> simp_all [asArray, Operand.mayBeList]
  | subject named =>
    cases named with
    | scope => rfl
    | id | clientId =>
      cases read
      cases list
    | username | email | emailVerified =>
      obtain ⟨answer, -, rfl⟩ := Option.map_eq_some_iff.mp read
      cases list

/-- A text, a number or an answer. -/
def isScalar : Json → Bool
  | .string _ | .number _ | .bool _ => true
  | .null | .array _ | .object _ => false

theorem mayBeScalar_of_read {operand : Operand} {value : Json}
    (read : readOperand operand facts = some value) (scalar : isScalar value) :
    operand.mayBeScalar := by
  cases operand with
  | resource name => rfl
  | value given =>
    cases read
    cases value <;> simp_all [isScalar, Operand.mayBeScalar]
  | subject named =>
    cases named with
    | scope =>
      cases read
      cases scalar
    | id | username | email | emailVerified | clientId => rfl

theorem among_isSome {left right : Json} :
    (compareValues .among left right).isSome ↔ isScalar left ∧ right.asArray.isSome := by
  cases left <;> cases list : right.asArray <;> simp [compareValues, isScalar, list]

theorem texts_isSome {operator : Operator} {left right : Json}
    (texts : operator = .contains ∨ operator = .startsWith ∨ operator = .endsWith) :
    (compareValues operator left right).isSome ↔ left.asStr.isSome ∧ right.asStr.isSome := by
  rcases texts with rfl | rfl | rfl <;>
    cases first : left.asStr <;> cases second : right.asStr <;>
    simp [compareValues, first, second]

theorem numbers_isSome {operator : Operator} {left right : Json}
    (orders : operator = .gt ∨ operator = .gte ∨ operator = .lt ∨ operator = .lte) :
    (compareValues operator left right).isSome ↔
      (asF64 left).isSome ∧ (asF64 right).isSome := by
  rcases orders with rfl | rfl | rfl | rfl <;>
    cases first : asF64 left <;> cases second : asF64 right <;>
    simp [compareValues, first, second]

/-- A comparison tells where both operands read and its operator takes what
they read as. -/
theorem compare_ne_unknown {operator : Operator} {left right : Option Json}
    (other : operator ≠ .present) :
    compare operator left right ≠ .unknown ↔
      ∃ first second, left = some first ∧ right = some second ∧
        (compareValues operator first second).isSome := by
  unfold compare
  rw [if_neg other]
  cases left with
  | none => simp
  | some first =>
    cases right with
    | none => simp
    | some second =>
      cases answer : compareValues operator first second with
      | none => simp [answer]
      | some told => cases told <;> simp [answer, Truth.of]

theorem takes_of_told {left right : Operand} {operator : Operator} {first second : Json}
    (readLeft : readOperand left facts = some first)
    (readRight : readOperand right facts = some second)
    (told : (compareValues operator first second).isSome) : takes left operator (some right) := by
  cases operator with
  | present => rfl
  | equals => rfl
  | contains | startsWith | endsWith =>
    obtain ⟨one, two⟩ := (texts_isSome (by simp)).mp told
    simp [takes, mayBeText_of_read readLeft one, mayBeText_of_read readRight two]
  | gt | gte | lt | lte =>
    obtain ⟨one, two⟩ := (numbers_isSome (by simp)).mp told
    simp [takes, mayBeNumber_of_read readLeft one, mayBeNumber_of_read readRight two]
  | among =>
    obtain ⟨scalar, list⟩ := among_isSome.mp told
    have apart : sameAttribute left right = false := by
      cases left <;> cases right <;> simp only [sameAttribute, decide_eq_false_iff_not]
      rintro rfl
      rw [readLeft] at readRight
      cases readRight
      cases first <;> simp_all [isScalar, asArray]
    simp [takes, mayBeScalar_of_read readLeft scalar, mayBeList_of_read readRight list, apart]

/-- A subject of whom everything is known. -/
def knownSubject : SubjectFacts := ⟨"", some "", some "", some true, "", [], [], []⟩

/-- What a resource holds for an operand to read a value. -/
def attributesOf (value : Json) : Operand → List (String × Json)
  | .resource name => [(name, value)]
  | .subject _ | .value _ => []

/-- Facts under which the attributes of the resource that two operands name
are these. -/
def factsOf (left right : Operand) (first second : Json) : Facts :=
  ⟨knownSubject, attributesOf first left ++ attributesOf second right, 0⟩

theorem read_left {name : String} {right : Operand} {first second : Json}
    (there : first ≠ .null) :
    readOperand (.resource name) (factsOf (.resource name) right first second) = some first := by
  simp [readOperand, factsOf, attributesOf, Json.field, there]

theorem read_right {name : String} {left : Operand} {first second : Json}
    (there : second ≠ .null) (apart : sameAttribute left (.resource name) = false) :
    readOperand (.resource name) (factsOf left (.resource name) first second) = some second := by
  cases left with
  | resource other =>
    have different : (name == other) = false := by
      simp only [sameAttribute, decide_eq_false_iff_not] at apart
      exact beq_false_of_ne (Ne.symm apart)
    simp [readOperand, factsOf, attributesOf, Json.field, List.lookup_cons, different, there]
  | subject named => simp [readOperand, factsOf, attributesOf, Json.field, there]
  | value given => simp [readOperand, factsOf, attributesOf, Json.field, there]

/-- Where both sides may read one kind of value, there are facts under which
both do. -/
theorem told_alike {left right : Operand} {operator : Operator} {sample : Json}
    {isKind : Json → Bool} {mayBe : Operand → Bool} (other : operator ≠ .present)
    (there : sample ≠ .null) (kind : isKind sample)
    (known : ∀ operand, mayBe operand → (∃ name, operand = .resource name) ∨
      ∀ facts : Facts, facts.subject = knownSubject →
        ∃ value, readOperand operand facts = some value ∧ isKind value)
    (tells : ∀ one two, isKind one → isKind two → (compareValues operator one two).isSome)
    (first : mayBe left) (second : mayBe right) :
    ∃ facts, evaluateCondition formats (.attributed left operator (some right)) facts ≠ .unknown := by
  refine ⟨factsOf left right sample sample, ?_⟩
  have reads (operand : Operand) (may : mayBe operand)
      (named : ∀ name, operand = .resource name →
        readOperand operand (factsOf left right sample sample) = some sample) :
      ∃ value, readOperand operand (factsOf left right sample sample) = some value ∧
        isKind value := by
    rcases known operand may with ⟨name, same⟩ | always
    · exact ⟨sample, named name same, kind⟩
    · exact always _ rfl
  obtain ⟨one, readOne, kindOne⟩ := reads left first fun name same => by
    subst same
    exact read_left there
  obtain ⟨two, readTwo, kindTwo⟩ := reads right second fun name same => by
    subst same
    cases shared : sameAttribute left (.resource name) with
    | false => exact read_right there shared
    | true =>
      cases left <;> simp only [sameAttribute, decide_eq_true_eq, Bool.false_eq_true] at shared
      subst shared
      exact read_left there
  rw [evaluateCondition, compare_ne_unknown other]
  exact ⟨one, two, readOne, by simpa using readTwo, tells one two kindOne kindTwo⟩

theorem known_text (operand : Operand) (may : operand.mayBeText) :
    (∃ name, operand = .resource name) ∨ ∀ facts : Facts, facts.subject = knownSubject →
      ∃ value, readOperand operand facts = some value ∧ value.asStr.isSome := by
  cases operand with
  | resource name => exact Or.inl ⟨name, rfl⟩
  | value given =>
    refine Or.inr fun facts _ => ⟨given, rfl, ?_⟩
    cases given <;> simp_all [Operand.mayBeText, asStr]
  | subject named =>
    refine Or.inr fun facts known => ?_
    cases named <;>
      simp_all [Operand.mayBeText, readOperand, SubjectFacts.read, knownSubject, asStr]

theorem known_number (operand : Operand) (may : operand.mayBeNumber) :
    (∃ name, operand = .resource name) ∨ ∀ facts : Facts, facts.subject = knownSubject →
      ∃ value, readOperand operand facts = some value ∧ (asF64 value).isSome := by
  cases operand with
  | resource name => exact Or.inl ⟨name, rfl⟩
  | value given =>
    refine Or.inr fun facts _ => ⟨given, rfl, ?_⟩
    cases given <;> simp_all [Operand.mayBeNumber, asF64]
  | subject named => cases may

theorem known_any (operand : Operand) :
    (∃ name, operand = .resource name) ∨ ∀ facts : Facts, facts.subject = knownSubject →
      ∃ value, readOperand operand facts = some value ∧ true := by
  cases operand with
  | resource name => exact Or.inl ⟨name, rfl⟩
  | value given => exact Or.inr fun facts _ => ⟨given, rfl, rfl⟩
  | subject named =>
    refine Or.inr fun facts known => ?_
    cases named <;> simp [readOperand, SubjectFacts.read, known, knownSubject]

theorem told_among {left right : Operand} (scalar : left.mayBeScalar) (list : right.mayBeList)
    (apart : sameAttribute left right = false) :
    ∃ facts, evaluateCondition formats (.attributed left .among (some right)) facts ≠ .unknown := by
  refine ⟨factsOf left right (.bool true) (.array []), ?_⟩
  have readLeft : ∃ value, readOperand left (factsOf left right (.bool true) (.array [])) =
      some value ∧ isScalar value := by
    cases left with
    | resource name => exact ⟨_, read_left (by simp), rfl⟩
    | value given =>
      refine ⟨given, rfl, ?_⟩
      cases given <;> simp_all [Operand.mayBeScalar, isScalar]
    | subject named =>
      cases named <;>
        simp_all [Operand.mayBeScalar, readOperand, SubjectFacts.read, factsOf, knownSubject,
          isScalar]
  have readRight : ∃ value, readOperand right (factsOf left right (.bool true) (.array [])) =
      some value ∧ value.asArray.isSome := by
    cases right with
    | resource name => exact ⟨_, read_right (by simp) apart, rfl⟩
    | value given =>
      refine ⟨given, rfl, ?_⟩
      cases given <;> simp_all [Operand.mayBeList, asArray]
    | subject named =>
      cases named <;>
        simp_all [Operand.mayBeList, readOperand, SubjectFacts.read, factsOf, knownSubject, asArray]
  obtain ⟨first, readFirst, isOne⟩ := readLeft
  obtain ⟨second, readSecond, isList⟩ := readRight
  rw [evaluateCondition, compare_ne_unknown (by decide)]
  exact ⟨first, second, readFirst, by simpa using readSecond, among_isSome.mpr ⟨isOne, isList⟩⟩

theorem told_of_takes {left right : Operand} {operator : Operator}
    (may : takes left operator (some right)) (other : operator ≠ .present) :
    ∃ facts, evaluateCondition formats (.attributed left operator (some right)) facts ≠ .unknown := by
  cases operator with
  | present => exact absurd rfl other
  | equals =>
    exact @told_alike formats left right .equals (.bool true) (fun _ => true) (fun _ => true)
      (by decide) (by simp) rfl (fun one _ => known_any one) (fun _ _ _ _ => rfl) rfl rfl
  | contains | startsWith | endsWith =>
    simp only [takes, Bool.and_eq_true] at may
    exact told_alike (by decide) (by simp : Json.string "" ≠ .null) rfl known_text
      (fun one two first second => (texts_isSome (by simp)).mpr ⟨first, second⟩) may.1 may.2
  | gt | gte | lt | lte =>
    simp only [takes, Bool.and_eq_true] at may
    exact told_alike (by decide) (by simp : Json.number (.posInt 0) ≠ .null) rfl known_number
      (fun one two first second => (numbers_isSome (by simp)).mpr ⟨first, second⟩) may.1 may.2
  | among =>
    simp only [takes, Bool.and_eq_true, Bool.not_eq_true'] at may
    exact told_among may.1.1 may.1.2 may.2

/-- A condition that `check_conditions` admits can ever be told exactly where
its operator takes what its operands may be. -/
theorem admitted_conditions_tell_iff (formats : Formats) (left : Operand) (operator : Operator)
    (right : Option Operand) (admitted : isDecidable formats (.attributed left operator right)) :
    (∃ facts, evaluateCondition formats (.attributed left operator right) facts ≠ .unknown) ↔
      takes left operator right := by
  by_cases present : operator = .present
  · subst present
    have told : takes left .present right := by cases right <;> rfl
    simp only [told, iff_true]
    refine ⟨factsOf left left .null .null, ?_⟩
    simp only [evaluateCondition, compare, if_true]
    cases (readOperand left (factsOf left left .null .null)).isSome <;> simp [Truth.of]
  · cases right with
    | none =>
      simp [isDecidable, present] at admitted
    | some right =>
      constructor
      · rintro ⟨facts, told⟩
        rw [evaluateCondition, compare_ne_unknown present] at told
        obtain ⟨first, second, readFirst, readSecond, answers⟩ := told
        exact takes_of_told readFirst (by simpa using readSecond) answers
      · intro may
        exact told_of_takes may present

/-- An age compared with a text. -/
def ageCondition : Condition :=
  .attributed (.resource "age") .gte (some (.value (.string "18")))

def writtenFormats : Formats where
  readInstant _ := none
  writeFloat worth := toString worth

/-- It is admitted, and nothing the resource holds lets it be told. -/
theorem ageCondition_never_told :
    checkConditions writtenFormats "mail" [ageCondition] = pure () ∧
      ∀ facts, evaluateCondition writtenFormats ageCondition facts = .unknown := by
  refine ⟨by rfl, ?_⟩
  intro facts
  by_contra told
  rw [ageCondition, evaluateCondition, ← ne_eq, compare_ne_unknown (by decide)] at told
  obtain ⟨first, second, readFirst, readSecond, answers⟩ := told
  have may := takes_of_told readFirst (by simpa using readSecond) answers
  exact absurd may (by decide)

theorem adultCondition_told : ∃ facts, evaluateCondition writtenFormats
    (.attributed (.resource "age") .gte (some (.value (.number (.posInt 18))))) facts ≠ .unknown :=
  (admitted_conditions_tell_iff writtenFormats _ _ _ (by decide)).mpr (by decide)

end Saffui.Authz
