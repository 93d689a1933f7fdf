import Saffui.Foundation.Kleene
import Saffui.Authz.Policy

/-!
# What policies say, whatever is not known

Source: `saffui-core/src/authz/policy.rs` (`evaluate_policy`,
`weigh_policies`). A policy says the Kleene conjunction or disjunction of its
conditions, although its loop stops at the first decisive one: an answer given
while a condition cannot be read is the answer whichever way that condition
turns out, and no order of policies or of conditions changes what they say
together.
-/

namespace Saffui.Authz
open Foundation

/-- What is known of a truth. -/
def Truth.known : Truth → Option Bool
  | .holds => some true
  | .fails => some false
  | .unknown => none

/-- A truth that says what another could not tell, or says the same. -/
def Truth.Resolves (truth resolved : Truth) : Prop := truth ≠ .unknown → resolved = truth

/-- The loop of `evaluate_policy` over the truths of its conditions. -/
def judgeTruths (policy : Policy) : Bool → List Truth → PolicyOutcome
  | unknown, [] =>
    if unknown then .undecided
    else if policy.combine = .any then .notApplicable
    else .applies policy.effect
  | unknown, truth :: rest =>
    let decisive := if policy.combine = .all then Truth.fails else Truth.holds
    if truth = decisive then
      if decisive = .holds then .applies policy.effect else .notApplicable
    else judgeTruths policy (unknown || truth = .unknown) rest

/-- What a policy says when its conditions turn out as given. -/
def evaluateResolved (policy : Policy) (truths : List Truth) : PolicyOutcome :=
  match readConditions policy.conditions with
  | .error _ | .ok [] => .undecided
  | .ok _ => judgeTruths policy false truths

/-- The truths of the conditions of a policy, none where they do not read. -/
def readTruths (formats : Formats) (facts : Facts) (policy : Policy) : List Truth :=
  match readConditions policy.conditions with
  | .error _ => []
  | .ok conditions => conditions.map fun condition => evaluateCondition formats condition facts

/-- What a policy says of an answer of its conditions together. -/
def Policy.outcome (policy : Policy) : Option Bool → PolicyOutcome
  | some true => .applies policy.effect
  | some false => .notApplicable
  | none => .undecided

/-- The answer of one condition that ends the loop. -/
def Combine.decisive : Combine → Bool
  | .all => false
  | .any => true

variable {formats : Formats} {facts : Facts} {policy : Policy}

theorem evaluateConditions_eq (unknown : Bool) (conditions : List Condition) :
    evaluateConditions formats policy facts unknown conditions =
      judgeTruths policy unknown
        (conditions.map fun condition => evaluateCondition formats condition facts) := by
  induction conditions generalizing unknown with
  | nil => rfl
  | cons condition rest ih => simp only [evaluateConditions, List.map_cons, judgeTruths, ih]

theorem evaluatePolicy_eq (policy : Policy) :
    evaluatePolicy formats policy facts =
      evaluateResolved policy (readTruths formats facts policy) := by
  unfold evaluatePolicy evaluateResolved readTruths
  cases readConditions policy.conditions with
  | error refused => rfl
  | ok conditions =>
    cases conditions with
    | nil => rfl
    | cons first rest => exact evaluateConditions_eq false (first :: rest)

theorem Truth.known_resolves {truth resolved : Truth} (resolves : truth.Resolves resolved) :
    Kleene.Settles truth.known resolved.known := by
  intro answer known
  have told : truth ≠ .unknown := by
    intro unknown
    rw [unknown] at known
    cases known
  rw [resolves told, known]

/-- The loop computes the Kleene conjunction or disjunction of the truths,
with one more unknown where one was met before. -/
theorem judgeTruths_eq (unknown : Bool) (truths : List Truth) :
    judgeTruths policy unknown truths =
      policy.outcome (Kleene.join policy.combine.decisive
        ((if unknown then [none] else []) ++ truths.map Truth.known)) := by
  induction truths generalizing unknown with
  | nil =>
    cases unknown <;> cases combined : policy.combine <;>
      simp [judgeTruths, combined, Kleene.join, Combine.decisive, Policy.outcome]
  | cons truth rest ih =>
    rw [judgeTruths, ih]
    cases unknown <;> cases combined : policy.combine <;> cases truth <;>
      simp [Kleene.join, Combine.decisive, Policy.outcome, Truth.known]

theorem outcome_of_resolved {truths resolved : List Truth}
    (each : List.Forall₂ Truth.Resolves truths resolved)
    (decided : evaluateResolved policy truths ≠ .undecided) :
    evaluateResolved policy resolved = evaluateResolved policy truths := by
  unfold evaluateResolved at decided ⊢
  split
  · rfl
  · rfl
  · next conditions nonempty read =>
    rw [read] at decided
    have settled : List.Forall₂ Kleene.Settles (truths.map Truth.known)
        (resolved.map Truth.known) := by
      rw [List.forall₂_map_left_iff, List.forall₂_map_right_iff]
      exact each.imp fun _ _ => Truth.known_resolves
    have kept := @Kleene.join_settles policy.combine.decisive _ _ settled
    rw [judgeTruths_eq] at decided
    simp only [judgeTruths_eq, Bool.false_eq_true, if_false, List.nil_append] at decided ⊢
    cases joined : Kleene.join policy.combine.decisive (truths.map Truth.known) with
    | none => simp [joined, Policy.outcome] at decided
    | some answer => rw [kept answer joined]

/-- A policy whose conditions were written in another order. -/
def Policy.Reordered (policy other : Policy) : Prop :=
  ∃ items others : List Json, items.Perm others ∧ policy.conditions = .array items ∧
    other = { policy with conditions := .array others }

/-- Documents read in another order are what they were, in that order. -/
theorem mapM_perm {α β : Type} {read : α → Option β} {items others : List α}
    (perm : items.Perm others) {values : List β} (all : items.mapM read = some values) :
    ∃ rearranged, values.Perm rearranged ∧ others.mapM read = some rearranged := by
  induction perm generalizing values with
  | nil => exact ⟨values, List.Perm.refl _, all⟩
  | cons item _ ih =>
    rw [List.mapM_cons] at all ⊢
    obtain ⟨value, here, all⟩ := Option.bind_eq_some_iff.mp all
    obtain ⟨rest, later, same⟩ := Option.bind_eq_some_iff.mp all
    obtain ⟨rearranged, perm, read⟩ := ih later
    cases same
    exact ⟨value :: rearranged, perm.cons value, by simp [here, read]⟩
  | swap one other rest =>
    simp only [List.mapM_cons] at all ⊢
    obtain ⟨second, there, all⟩ := Option.bind_eq_some_iff.mp all
    obtain ⟨tail, all, same⟩ := Option.bind_eq_some_iff.mp all
    obtain ⟨first, here, all⟩ := Option.bind_eq_some_iff.mp all
    obtain ⟨last, later, tailed⟩ := Option.bind_eq_some_iff.mp all
    cases tailed
    cases same
    exact ⟨first :: second :: last, List.Perm.swap _ _ _, by simp [here, there, later]⟩
  | trans _ _ ih₁ ih₂ =>
    obtain ⟨middle, perm, read⟩ := ih₁ all
    obtain ⟨rearranged, further, last⟩ := ih₂ read
    exact ⟨rearranged, perm.trans further, last⟩

/-- What a verdict says, without the policy it names. -/
inductive VerdictClass where
  | permit
  | deny
  | undecided
  | noPolicy
  deriving DecidableEq, Repr

def PolicyVerdict.verdictClass : PolicyVerdict → VerdictClass
  | .permit _ => .permit
  | .deny _ => .deny
  | .undecided _ => .undecided
  | .noPolicy => .noPolicy

/-- The loop of `weigh_policies` over what each policy says. -/
def weighOutcomes (permitted undecided : Option String) :
    List (String × PolicyOutcome) → PolicyVerdict
  | [] =>
    match undecided, permitted with
    | some name, _ => .undecided name
    | none, some name => .permit name
    | none, none => .noPolicy
  | (name, outcome) :: rest =>
    match outcome with
    | .applies .deny => .deny name
    | .applies .permit => weighOutcomes (permitted <|> some name) undecided rest
    | .undecided => weighOutcomes permitted (undecided <|> some name) rest
    | .notApplicable => weighOutcomes permitted undecided rest

/-- What policies say together when their conditions turn out as given. -/
def weighResolved (judged : List (Policy × List Truth)) : PolicyVerdict :=
  weighOutcomes none none (judged.map fun one => (one.1.name, evaluateResolved one.1 one.2))

/-- What outcomes weigh, in any order. -/
def weighClass (outcomes : List PolicyOutcome) : VerdictClass :=
  if .applies .deny ∈ outcomes then .deny
  else if .undecided ∈ outcomes then .undecided
  else if .applies .permit ∈ outcomes then .permit
  else .noPolicy

theorem weighClass_congr {outcomes others : List PolicyOutcome}
    (same : ∀ outcome ≠ .notApplicable, outcome ∈ outcomes ↔ outcome ∈ others) :
    weighClass outcomes = weighClass others := by
  unfold weighClass
  simp only [same _ (by simp : PolicyOutcome.applies _ ≠ .notApplicable),
    same .undecided (by simp)]

theorem weighPoliciesFrom_eq (permitted undecided : Option String) (policies : List Policy) :
    weighPoliciesFrom formats facts permitted undecided policies =
      weighOutcomes permitted undecided
        (policies.map fun policy => (policy.name, evaluatePolicy formats policy facts)) := by
  induction policies generalizing permitted undecided with
  | nil => rfl
  | cons policy rest ih =>
    rw [weighPoliciesFrom, List.map_cons]
    split <;> next outcome => simp only [outcome, weighOutcomes, ih]

theorem weighOutcomes_class (permitted undecided : Option String)
    (outcomes : List (String × PolicyOutcome)) :
    (weighOutcomes permitted undecided outcomes).verdictClass =
      weighClass ((if permitted.isSome then [.applies .permit] else []) ++
        (if undecided.isSome then [.undecided] else []) ++ outcomes.map Prod.snd) := by
  induction outcomes generalizing permitted undecided with
  | nil =>
    cases permitted <;> cases undecided <;>
      simp [weighOutcomes, weighClass, PolicyVerdict.verdictClass]
  | cons head rest ih =>
    obtain ⟨name, outcome⟩ := head
    unfold weighOutcomes
    split
    · simp [weighClass, PolicyVerdict.verdictClass]
    all_goals
      rw [ih]
      apply weighClass_congr
      intro outcome told
      cases permitted <;> cases undecided <;> simp [or_left_comm, told]

theorem weighPolicies_class (policies : List Policy) :
    (weighPolicies formats policies facts).verdictClass =
      weighClass (policies.map fun policy => evaluatePolicy formats policy facts) := by
  rw [weighPolicies, weighPoliciesFrom_eq, weighOutcomes_class]
  simp [Function.comp_def]

theorem weighClass_resolved {outcomes resolved : List PolicyOutcome}
    (each : List.Forall₂ (fun outcome told => outcome ≠ .undecided → told = outcome)
      outcomes resolved)
    (decided : weighClass outcomes ≠ .undecided) : weighClass resolved = weighClass outcomes := by
  by_cases denied : PolicyOutcome.applies .deny ∈ outcomes
  · have still : PolicyOutcome.applies .deny ∈ resolved := by
      clear decided
      induction each with
      | nil => exact denied
      | cons here _ ih =>
        rcases List.mem_cons.mp denied with same | later
        · subst same
          rw [here (by simp)]
          exact List.mem_cons_self
        · exact List.mem_cons_of_mem _ (ih later)
    rw [weighClass, weighClass, if_pos denied, if_pos still]
  · have told : PolicyOutcome.undecided ∉ outcomes := by
      intro inside
      apply decided
      rw [weighClass, if_neg denied, if_pos inside]
    have same : resolved = outcomes := by
      clear decided denied
      induction each with
      | nil => rfl
      | cons here _ ih =>
        obtain ⟨first, rest⟩ := not_or.mp (mt List.mem_cons.mpr told)
        rw [here (Ne.symm first), ih rest]
    rw [same]

/-- A policy written in another order says the same. -/
theorem evaluatePolicy_reordered {other : Policy} (reordered : policy.Reordered other) :
    evaluatePolicy formats other facts = evaluatePolicy formats policy facts := by
  obtain ⟨items, others, perm, written, rfl⟩ := reordered
  have read : ∀ documents : List Json, readConditions (.array documents) =
      (documents.mapM Condition.ofJson).elim (.error .policyInvalid) .ok := by
    intro documents
    rw [readConditions, Json.readList]
    cases documents.mapM Condition.ofJson <;> rfl
  simp only [evaluatePolicy, written, read]
  cases all : items.mapM Condition.ofJson with
  | none =>
    have none : others.mapM Condition.ofJson = none := by
      rw [Option.eq_none_iff_forall_ne_some]
      intro rearranged same
      obtain ⟨back, -, again⟩ := mapM_perm perm.symm same
      rw [all] at again
      cases again
    rw [none]
    rfl
  | some conditions =>
    obtain ⟨rearranged, shuffled, same⟩ := mapM_perm perm all
    rw [same]
    simp only [Option.elim_some]
    cases conditions with
    | nil =>
      cases shuffled.nil_eq
      rfl
    | cons head tail =>
      cases rearranged with
      | nil => exact absurd shuffled.eq_nil (by simp)
      | cons first rest =>
        simp only [evaluateConditions_eq, judgeTruths_eq, Bool.false_eq_true, if_false,
          List.nil_append]
        have joined := @Kleene.join_perm policy.combine.decisive _ _
          ((shuffled.map fun condition => evaluateCondition formats condition facts).map Truth.known)
        rw [joined]
        rfl

theorem weighPolicies_resolved {policies : List Policy} {judged : List (Policy × List Truth)}
    (each : List.Forall₂ (fun policy (one : Policy × List Truth) => one.1 = policy ∧
      List.Forall₂ Truth.Resolves (readTruths formats facts policy) one.2) policies judged)
    (decided : (weighPolicies formats policies facts).verdictClass ≠ .undecided) :
    (weighResolved judged).verdictClass = (weighPolicies formats policies facts).verdictClass := by
  have weighed : (weighResolved judged).verdictClass =
      weighClass (judged.map fun one => evaluateResolved one.1 one.2) := by
    rw [weighResolved, weighOutcomes_class]
    simp [Function.comp_def]
  rw [weighPolicies_class] at decided ⊢
  rw [weighed]
  apply weighClass_resolved _ decided
  rw [List.forall₂_map_left_iff, List.forall₂_map_right_iff]
  apply each.imp
  intro policy one resolved told
  obtain ⟨same, truths⟩ := resolved
  rw [same]
  rw [evaluatePolicy_eq] at told ⊢
  exact outcome_of_resolved truths told

/-- Policies rearranged, and the conditions of each. -/
def Rearranged (policies others : List Policy) : Prop :=
  ∃ shuffled : List Policy, policies.Perm shuffled ∧
    List.Forall₂ (fun policy other => other = policy ∨ policy.Reordered other) shuffled others

theorem weighPolicies_rearranged {policies others : List Policy}
    (rearranged : Rearranged policies others) :
    (weighPolicies formats others facts).verdictClass =
      (weighPolicies formats policies facts).verdictClass := by
  obtain ⟨shuffled, perm, each⟩ := rearranged
  have same : others.map (fun policy => evaluatePolicy formats policy facts) =
      shuffled.map fun policy => evaluatePolicy formats policy facts := by
    clear perm
    induction each with
    | nil => rfl
    | cons here _ ih =>
      rw [List.map_cons, List.map_cons, ih]
      rcases here with same | reordered
      · rw [same]
      · rw [evaluatePolicy_reordered reordered]
  rw [weighPolicies_class, weighPolicies_class, same]
  apply weighClass_congr
  intro outcome _
  exact (perm.map _).symm.mem_iff

/-- A policy that answers while some of its conditions cannot be read gives
the answer of every way they may turn out, policies together do too, and the
order of neither policies nor conditions is heard. -/
theorem policies_say_what_they_know (formats : Formats) (policies : List Policy) (facts : Facts) :
    (∀ (policy : Policy) (resolved : List Truth),
      List.Forall₂ Truth.Resolves (readTruths formats facts policy) resolved →
      evaluatePolicy formats policy facts ≠ .undecided →
      evaluateResolved policy resolved = evaluatePolicy formats policy facts) ∧
    (∀ judged : List (Policy × List Truth),
      List.Forall₂ (fun policy (one : Policy × List Truth) => one.1 = policy ∧
        List.Forall₂ Truth.Resolves (readTruths formats facts policy) one.2) policies judged →
      (weighPolicies formats policies facts).verdictClass ≠ .undecided →
      (weighResolved judged).verdictClass =
        (weighPolicies formats policies facts).verdictClass) ∧
    ∀ others : List Policy, Rearranged policies others →
      (weighPolicies formats others facts).verdictClass =
        (weighPolicies formats policies facts).verdictClass := by
  refine ⟨?_, fun _ => weighPolicies_resolved, fun _ => weighPolicies_rearranged⟩
  intro policy resolved each decided
  rw [evaluatePolicy_eq] at decided ⊢
  exact outcome_of_resolved each decided

/-- Readers of a role, or of a resource whose tier the client tells. -/
def tierPolicy : Policy where
  id := 7
  clientId := "mail"
  name := "readers"
  resourceType := "folder"
  action := "read"
  effect := .permit
  combine := .any
  conditions := writeConditions
    [.attributed (.resource "tier") .equals (some (.value (.string "open"))), .role 1]
  createdAt := 0

def readerFacts : Facts where
  subject := ⟨"ada", none, none, none, "mail", [], [1], []⟩
  resource := []
  now := 0

/-- Neither bound nor float stands in the policy. -/
def tierFormats : Formats where
  readInstant _ := none
  writeFloat worth := toString worth

/-- The tier is not told, and the policy permits where it would not be open. -/
theorem tierPolicy_permits :
    readTruths tierFormats readerFacts tierPolicy = [.unknown, .holds] ∧
      (weighResolved [(tierPolicy, [.fails, .holds])]).verdictClass = .permit := by
  have read : readConditions tierPolicy.conditions =
      .ok [.attributed (.resource "tier") .equals (some (.value (.string "open"))), .role 1] :=
    readConditions_writeConditions _
  have truths : readTruths tierFormats readerFacts tierPolicy = [.unknown, .holds] := by
    rw [readTruths, read]
    rfl
  have permits : (weighPolicies tierFormats [tierPolicy] readerFacts).verdictClass = .permit := by
    rw [weighPolicies_class]
    simp only [List.map_cons, List.map_nil, evaluatePolicy, read]
    rfl
  refine ⟨truths, ?_⟩
  rw [← permits]
  apply (policies_say_what_they_know tierFormats [tierPolicy] readerFacts).2.1
  · apply List.Forall₂.cons _ List.Forall₂.nil
    rw [truths]
    exact ⟨rfl, .cons (fun told => absurd rfl told) (.cons (fun _ => rfl) .nil)⟩
  · rw [permits]
    decide

end Saffui.Authz
