import Mathlib.Order.Monotone.Basic
import Saffui.Authz.DecideSound

/-!
# Decisions amid writes

A unit of work reads committed: each read of a walk sees the relations kept
when it starts, and other units write and delete relations meanwhile. Rules
have no negation, so what a walk finds stands over the relations kept at one
time or another of the walk. It need not stand over those kept at any one
time: the halves of an intersection may be read apart.
-/

namespace Saffui.Authz
open Saffui.Foundation Saffui.Authz.Relations Saffui.Login Saffui.Tokens

/-- A unit that writes a relation, or deletes one. -/
inductive Commits : List RelationTuple → List RelationTuple → Prop where
  | written {kept : List RelationTuple} {tuple : RelationTuple} (new : tuple ∉ kept) :
      Commits kept (tuple :: kept)
  | deleted {kept : List RelationTuple} {tuple : RelationTuple} (known : tuple ∈ kept) :
      Commits kept (kept.erase tuple)

/-- The relations kept while a walk goes on, commit by commit, and after
which of the commits each read of the walk starts. -/
structure Timeline where
  kept : Nat → List RelationTuple
  /-- How many units had committed when the walk started, and when it ended. -/
  start : Nat
  finish : Nat
  seen : Nat → Nat
  commits : ∀ instant, instant < finish → Commits (kept instant) (kept (instant + 1))
  ordered : Monotone seen
  within : ∀ reading, start ≤ seen reading ∧ seen reading ≤ finish

/-- The relations kept at some time of the walk. -/
def Timeline.everKept (timeline : Timeline) : Set RelationTuple :=
  {tuple | ∃ instant, timeline.start ≤ instant ∧ instant ≤ timeline.finish ∧
    tuple ∈ timeline.kept instant}

section Amid

variable (node : Node) (around : Around) (timeline : Timeline)

/-- A storage under which units commit: each read sees what is kept then. -/
def surroundingsAmid (now : Nat → Instant) (failures : Nat → Option StorageError) : Surroundings where
  now := now
  listRelationSubjects reading object relation limit :=
    match failures reading with
    | some error => .error error
    | none => .ok ((listKept (timeline.kept (timeline.seen reading)) object relation).take limit)

def walkAmid (schema : CompiledSchema) (object : ObjectRef) (action : String) (subject : ObjectRef)
    (deadline : Instant) : AskM Walk := fun readings =>
  let surroundings := surroundingsAmid timeline
    (fun reading => around.now (readings.clock + reading))
    fun reading => around.failures (readings.storage + reading)
  match walkRelations ⟨schema, subject, deadline, .ofSource, surroundings⟩ object action with
  | .ok walk => .ok (walk, readings)
  | .error (.storage error) => .error (toCode error)
  | .error .outOfFuel => .error .internal

/-- `decideByRelations`, by a walk of the object asked of. -/
def decideByWalk (schema : CompiledSchema) (request : DecisionRequest)
    (walkOf : ObjectRef → AskM Walk) : AskM Decision :=
  match request.resourceId.filter isObjectId with
  | none => AskM.fail .requestInvalid
  | some objectId =>
    if (schema.findMember request.resourceType request.action).isNone then
      return .deny "relation_unknown" none
    else do
      let object : ObjectRef := ⟨request.resourceType, objectId⟩
      match ← walkOf object with
      | .found => return .permit "relation" none
      | .notFound => return .deny "no_relation" none
      | .undecided limit => return .deny ("undecided_" ++ limit.name) none

theorem decideByRelations_eq (state : RealmState) (schema : CompiledSchema) (request : DecisionRequest)
    (subject : ObjectRef) (deadline : Instant) :
    decideByRelations around state schema request subject deadline = decideByWalk schema request
      fun object => walk around state schema object request.action subject deadline := rfl

/-- `decide`, by what decides by relations. -/
def decideWith
    (byRelations : RealmState → CompiledSchema → DecisionRequest → ObjectRef → Instant → AskM Decision)
    (realms : String → Option RealmState) (realm : String) (clientId : Option String)
    (clientSecret : Option Bytes) (request : DecisionRequest) : AskM Decision := do
  let asked ← readClock around
  let state ← resolveRealm around realms realm
  match clientId, clientSecret with
  | some clientId, some clientSecret => do
    readStorage around ()
    let client ← authenticateClient node around state clientId clientSecret
    match request.subjectToken with
    | none => AskM.fail .requestInvalid
    | some token =>
      if !isRoleName request.action || !isRoleName request.resourceType ||
          !isSmall node request.attributes then AskM.fail .requestInvalid
      else if !around.shareIsFree then AskM.fail .storageUnavailable
      else do
        match ← readSubject node around state (nameIssuer node realm) token with
        | none => return .deny "subject_unknown" none
        | some subject =>
          match ← readSchemaFor around state client.clientId request.resourceType with
          | .unreadable => return .deny "schema_unreadable" none
          | .relations schema =>
            byRelations state schema request subject.object (asked + MAX_DURATION)
          | .policies => decideByPolicies node around state client.clientId request subject
  | _, _ => AskM.fail .clientAuthenticationFailed

theorem decide_eq : decide node around = decideWith node around (decideByRelations around) := rfl

/-- `decide`, while other units write and delete relations. -/
def decideAmid : (String → Option RealmState) → String → Option String → Option Bytes →
    DecisionRequest → AskM Decision :=
  decideWith node around fun _ schema request subject deadline => decideByWalk schema request
    fun object => walkAmid around timeline schema object request.action subject deadline

end Amid

section Supports

variable (asked : Question) (kept : Set RelationTuple)

/-- Every subject a read of the question answers is one of a relation kept. -/
def ReadsWithin : Prop :=
  ∀ reading object relation limit subjects,
    asked.around.listRelationSubjects reading object relation limit = .ok subjects →
    ∀ named ∈ subjects, (⟨object, relation, named⟩ : RelationTuple) ∈ kept

/-- What the walker knows found stands. -/
def FoundStands (walker : Walker) : Prop :=
  ∀ place, walker.find place = some .found → place ∈ asked.schema.stands kept asked.subject

/-- A computation that finds is right, and keeps what is known right. -/
def Supports (computation : WalkM Walk) (claim : Prop) : Prop :=
  ∀ before after walk, FoundStands asked kept before → computation before = .ok (walk, after) →
    FoundStands asked kept after ∧ (walk = .found → claim)

variable {asked kept}

theorem FoundStands.of_known {before after : Walker} (stood : FoundStands asked kept before)
    (same : after.known = before.known) : FoundStands asked kept after := by
  intro place found
  rw [Walker.find, same] at found
  exact stood place found

theorem supports_pure {walk : Walk} {claim : Prop} (right : walk = .found → claim) :
    Supports asked kept (pure walk) claim := by
  intro before after answer stood ran
  obtain ⟨rfl, rfl⟩ := WalkM.pure_eq_ok ran
  exact ⟨stood, right⟩

theorem Supports.mono {computation : WalkM Walk} {claim other : Prop}
    (supports : Supports asked kept computation claim) (weaker : claim → other) :
    Supports asked kept computation other := by
  intro before after walk stood ran
  obtain ⟨still, right⟩ := supports before after walk stood ran
  exact ⟨still, fun found => weaker (right found)⟩

theorem Supports.then {first : WalkM Walk} {next : Walk → WalkM Walk} {claim : Prop}
    (here : Supports asked kept first claim)
    (there : ∀ walk, (walk = .found → claim) → Supports asked kept (next walk) claim) :
    Supports asked kept (first >>= next) claim := by
  intro before after walk stood ran
  obtain ⟨answer, between, started, ran⟩ := WalkM.bind_eq_ok ran
  obtain ⟨still, right⟩ := here before between answer stood started
  exact there answer right between after walk still ran

theorem foldUnion_ne_found {walks : List Walk} (unfound : .found ∉ walks) :
    foldUnion walks ≠ .found := by
  have right : (foldUnion walks).Right (.found ∈ walks) := by
    apply foldUnion_right id
    intro none_found inside
    cases none_found _ inside
  exact fun found => unfound (right.1 found)

theorem supports_walkEach {α : Type} {enter : α → WalkM Walk} {stands : α → Prop} :
    ∀ list : List α, (∀ next ∈ list, Supports asked kept (enter next) (stands next)) →
      ∀ walks, .found ∉ walks →
        Supports asked kept (walkEach enter list walks) (∃ next ∈ list, stands next)
  | [], _, walks, unfound => by
    unfold walkEach
    exact supports_pure fun found => absurd found (foldUnion_ne_found unfound)
  | next :: rest, each, walks, unfound => by
    unfold walkEach
    apply ((each next (by simp)).mono fun stood => ⟨next, by simp, stood⟩).then
    intro walk right
    split
    · next found => exact supports_pure fun _ => right found
    · next missed =>
      apply (supports_walkEach rest
        (fun other inside => each other (List.mem_cons_of_mem _ inside)) _ _).mono
      · rintro ⟨other, inside, stood⟩
        exact ⟨other, List.mem_cons_of_mem _ inside, stood⟩
      · simpa [unfound] using Ne.symm missed

theorem listRelationSubjects_within (reads : ReadsWithin asked kept) {object : ObjectRef}
    {relation : String} {limit : Nat} {subjects : List SubjectRef} {before after : Walker}
    (ran : listRelationSubjects asked object relation limit before = .ok (subjects, after)) :
    after.known = before.known ∧
      ∀ named ∈ subjects, (⟨object, relation, named⟩ : RelationTuple) ∈ kept := by
  unfold listRelationSubjects at ran
  rw [WalkM.read_bind, WalkM.modify_bind] at ran
  generalize answered :
    asked.around.listRelationSubjects before.storageReadings object relation limit = answer at ran
  cases answer with
  | ok read =>
    obtain ⟨rfl, rfl⟩ := WalkM.pure_eq_ok ran
    exact ⟨rfl, reads _ _ _ _ _ answered⟩
  | error error => cases ran

theorem readSubjects_within (reads : ReadsWithin asked kept) {object : ObjectRef} {relation : String}
    {subjects : Subjects} {before after : Walker}
    (ran : readSubjects asked object relation before = .ok (subjects, after)) :
    after.known = before.known ∧ ∀ read, subjects = .read read →
      ∀ named ∈ read, (⟨object, relation, named⟩ : RelationTuple) ∈ kept := by
  unfold readSubjects at ran
  rw [WalkM.modify_bind, WalkM.read_bind] at ran
  split at ran
  · obtain ⟨rfl, rfl⟩ := WalkM.pure_eq_ok ran
    exact ⟨rfl, by simp⟩
  obtain ⟨early, timed, checked, ran⟩ := WalkM.bind_eq_ok ran
  have first := checkTime_known checked
  cases early with
  | some limit =>
    obtain ⟨rfl, rfl⟩ := WalkM.pure_eq_ok ran
    exact ⟨first, by simp⟩
  | none =>
    obtain ⟨listed, read, listing, ran⟩ := WalkM.bind_eq_ok ran
    obtain ⟨second, inside⟩ := listRelationSubjects_within reads listing
    have known := second.trans first
    split at ran
    · obtain ⟨rfl, rfl⟩ := WalkM.pure_eq_ok ran
      exact ⟨known, by simp⟩
    obtain ⟨late, last, checked, ran⟩ := WalkM.bind_eq_ok ran
    have third := (checkTime_known checked).trans known
    cases late with
    | some limit =>
      obtain ⟨rfl, rfl⟩ := WalkM.pure_eq_ok ran
      exact ⟨third, by simp⟩
    | none =>
      obtain ⟨rfl, rfl⟩ := WalkM.pure_eq_ok ran
      refine ⟨third, ?_⟩
      rintro _ ⟨⟩
      exact inside

theorem supports_of_readSubjects (reads : ReadsWithin asked kept) {object : ObjectRef}
    {relation : String} {next : Subjects → WalkM Walk} {claim : Prop}
    (bounded : ∀ limit, next (.bound limit) = pure (.undecided limit))
    (read : ∀ subjects, (∀ named ∈ subjects, (⟨object, relation, named⟩ : RelationTuple) ∈ kept) →
      Supports asked kept (next (.read subjects)) claim) :
    Supports asked kept (readSubjects asked object relation >>= next) claim := by
  intro before after walk stood ran
  obtain ⟨subjects, between, listed, ran⟩ := WalkM.bind_eq_ok ran
  obtain ⟨known, inside⟩ := readSubjects_within reads listed
  have still := stood.of_known known
  cases subjects with
  | bound limit =>
    rw [bounded] at ran
    obtain ⟨rfl, rfl⟩ := WalkM.pure_eq_ok ran
    exact ⟨still, by simp⟩
  | read subjects => exact read subjects (inside subjects rfl) between after walk still ran

variable {enter : ObjectRef → String → Nat → WalkM Walk} (reads : ReadsWithin asked kept)
  (enters : ∀ object member depth, Supports asked kept (enter object member depth)
    ((object, member) ∈ asked.schema.stands kept asked.subject))
include reads enters

theorem supports_walkRelation {object : ObjectRef} {relation : String}
    {allowed : List AllowedSubject}
    (found : asked.schema.findMember object.objectType relation = some (.relation allowed))
    (depth : Nat) :
    Supports asked kept (walkRelation enter asked object relation depth)
      (namedBy kept asked.subject (asked.schema.stands kept asked.subject) allowed object
        relation) := by
  unfold walkRelation
  rw [found]
  apply supports_of_readSubjects reads (fun _ => rfl)
  intro subjects inside
  simp only
  split
  · next direct =>
    obtain ⟨⟨object_, member_⟩, listed, itself⟩ := List.any_eq_true.mp direct
    simp only [Bool.and_eq_true, Option.isNone_iff_eq_none, beq_iff_eq] at itself
    obtain ⟨rfl, rfl⟩ := itself
    rw [List.mem_filter, admits_iff] at listed
    exact supports_pure fun _ => Or.inl ⟨inside _ listed.1, listed.2⟩
  · apply (supports_walkEach (listMembers (subjects.filter (admits allowed)))
      (fun named _ => enters named.1 named.2 (depth + 1)) [] (by simp)).mono
    rintro ⟨⟨target, member⟩, listed, stood⟩
    rw [mem_listMembers_iff, List.mem_filter, admits_iff] at listed
    exact Or.inr ⟨target, member, inside _ listed.1, listed.2, stood⟩

theorem supports_walkArrow (object : ObjectRef) (relation member : String) (depth : Nat) :
    Supports asked kept (walkArrow enter asked object relation member depth)
      (∃ target, asked.schema.leadsTo kept object relation target ∧
        (target, member) ∈ asked.schema.stands kept asked.subject) := by
  unfold walkArrow
  split
  · next allowed found =>
    apply supports_of_readSubjects reads (fun _ => rfl)
    intro subjects inside
    apply (supports_walkEach (listObjects allowed subjects)
      (fun target _ => enters target member (depth + 1)) [] (by simp)).mono
    rintro ⟨target, listed, stood⟩
    simp only [listObjects, List.mem_map, List.mem_filter, Bool.and_eq_true,
      Option.isNone_iff_eq_none, List.any_eq_true, beq_iff_eq] at listed
    obtain ⟨⟨_, _⟩, ⟨read, rfl, ⟨_, _⟩, admitted, rfl, rfl⟩, rfl⟩ := listed
    exact ⟨_, ⟨allowed, found, inside _ read, admitted⟩, stood⟩
  · exact supports_pure (by simp)

set_option linter.unusedSectionVars false

mutual

theorem supports_walkRule (object : ObjectRef) :
    ∀ (rule : Rule) (depth : Nat), Supports asked kept (walkRule enter asked object rule depth)
      (rule.holds (asked.schema.leadsTo kept) (asked.schema.stands kept asked.subject) object)
  | .computed member, depth => by
    simpa only [walkRule, Rule.holds] using enters object member (depth + 1)
  | .arrow relation member, depth => by
    simpa only [walkRule, Rule.holds] using
      supports_walkArrow reads enters object relation member depth
  | .union rules, depth => by
    simpa only [walkRule, Rule.holds] using supports_walkSum object rules (depth + 1) [] (by simp)
  | .intersection [], _ => by
    rw [walkRule]
    exact supports_pure (by simp)
  | .intersection (rule :: rules), depth => by
    rw [walkRule]
    exact (supports_walkIntersection object (rule :: rules) (depth + 1) none).mono
      fun held => ⟨by simp, held.2⟩

theorem supports_walkSum (object : ObjectRef) :
    ∀ (rules : List Rule) (depth : Nat) (walks : List Walk), .found ∉ walks →
      Supports asked kept (walkSum enter asked object rules depth walks)
        (Rule.holdsSome (asked.schema.leadsTo kept) (asked.schema.stands kept asked.subject)
          object rules)
  | [], _, walks, unfound => by
    rw [walkSum]
    exact supports_pure fun found => absurd found (foldUnion_ne_found unfound)
  | rule :: rules, depth, walks, unfound => by
    rw [walkSum]
    apply ((supports_walkRule object rule depth).mono Or.inl).then
    intro walk right
    split
    · next found => exact supports_pure fun _ => right found
    · next missed =>
      exact (supports_walkSum object rules depth _
        (by simpa [unfound] using Ne.symm missed)).mono Or.inr

/-- An intersection is found where each of its rules was. -/
theorem supports_walkIntersection (object : ObjectRef) :
    ∀ (rules : List Rule) (depth : Nat) (undecided : Option WalkLimit),
      Supports asked kept (walkIntersection enter asked object rules depth undecided)
        (undecided = none ∧ Rule.holdsEvery (asked.schema.leadsTo kept)
          (asked.schema.stands kept asked.subject) object rules)
  | [], _, undecided => by
    rw [walkIntersection]
    cases undecided with
    | none => exact supports_pure fun _ => ⟨rfl, trivial⟩
    | some limit => exact supports_pure (by simp)
  | rule :: rules, depth, undecided => by
    intro before after walk stood ran
    rw [walkIntersection] at ran
    obtain ⟨here, between, walked, ran⟩ := WalkM.bind_eq_ok ran
    obtain ⟨still, right⟩ := supports_walkRule object rule depth before between here stood walked
    cases here with
    | notFound =>
      obtain ⟨rfl, rfl⟩ := WalkM.pure_eq_ok ran
      exact ⟨still, by simp⟩
    | undecided limit =>
      obtain ⟨ended, rest⟩ := supports_walkIntersection object rules depth (some limit)
        between after walk still ran
      exact ⟨ended, fun found => nomatch (rest found).1⟩
    | found =>
      obtain ⟨ended, rest⟩ := supports_walkIntersection object rules depth undecided
        between after walk still ran
      exact ⟨ended, fun found => ⟨(rest found).1, right rfl, (rest found).2⟩⟩

end

theorem supports_walkKind (object : ObjectRef) (member : String) (depth : Nat) :
    Supports asked kept (walkKind enter asked object member depth)
      ((object, member) ∈ asked.schema.stands kept asked.subject) := by
  rw [CompiledSchema.mem_stands_iff, CompiledSchema.derives, walkKind]
  cases found : asked.schema.findMember object.objectType member with
  | none => exact supports_pure (by simp)
  | some kind =>
    cases kind with
    | relation allowed => exact supports_walkRelation reads enters found depth
    | permission rule => exact supports_walkRule reads enters object rule depth

omit enters

theorem supports_walkMember : ∀ (fuel : Nat) (object : ObjectRef) (member : String) (depth : Nat),
    Supports asked kept (walkMember asked fuel object member depth)
      ((object, member) ∈ asked.schema.stands kept asked.subject)
  | 0, _, _, _ => by
    intro before after walk _ ran
    cases ran
  | fuel + 1, object, member, depth => by
    intro before after walk stood ran
    unfold walkMember at ran
    rw [WalkM.modify_bind, WalkM.read_bind] at ran
    split at ran
    · obtain ⟨rfl, rfl⟩ := WalkM.pure_eq_ok ran
      exact ⟨stood.of_known rfl, by simp⟩
    obtain ⟨late, timed, checked, ran⟩ := WalkM.bind_eq_ok ran
    have known := checkTime_known checked
    have now : FoundStands asked kept timed := stood.of_known known
    cases late with
    | some limit =>
      obtain ⟨rfl, rfl⟩ := WalkM.pure_eq_ok ran
      exact ⟨now, by simp⟩
    | none =>
      simp only at ran
      split at ran
      · obtain ⟨rfl, rfl⟩ := WalkM.pure_eq_ok ran
        exact ⟨now, by simp⟩
      rw [WalkM.read_bind] at ran
      cases told : timed.find (object, member) with
      | some known =>
        rw [told] at ran
        obtain ⟨rfl, rfl⟩ := WalkM.pure_eq_ok ran
        exact ⟨now, fun found => now _ (found ▸ told)⟩
      | none =>
        rw [told] at ran
        obtain ⟨entered, inside, entering, ran⟩ := WalkM.bind_eq_ok ran
        have still := now.of_known (enter_known entering)
        split at ran
        · obtain ⟨rfl, rfl⟩ := WalkM.pure_eq_ok ran
          exact ⟨still, by simp⟩
        · obtain ⟨answer, walked, kind, ran⟩ := WalkM.bind_eq_ok ran
          obtain ⟨learnt, right⟩ := supports_walkKind reads (supports_walkMember fuel) object member
            depth _ _ _ still kind
          rw [leave, WalkM.modify_bind] at ran
          obtain ⟨rfl, rfl⟩ := WalkM.pure_eq_ok ran
          refine ⟨?_, right⟩
          intro place found
          rw [Walker.find, List.lookup_cons] at found
          split at found
          · next same =>
            rw [beq_iff_eq.mp same]
            exact right (Option.some.inj found)
          · exact learnt place found

/-- What a walk finds stands over every relation its reads may have seen. -/
theorem walkRelations_supported {object : ObjectRef} {member : String}
    (answered : walkRelations asked object member = .ok .found) :
    (object, member) ∈ asked.schema.stands kept asked.subject := by
  unfold walkRelations at answered
  cases walked : walkMember asked (asked.bounds.maxDepth + 2) object member 0 Walker.start with
  | error stop => rw [walked] at answered; cases answered
  | ok ended =>
    rw [walked] at answered
    have nothing : FoundStands asked kept Walker.start := by
      intro place found
      simp [Walker.find, Walker.start] at found
    exact (supports_walkMember reads _ object member 0 _ ended.2 ended.1 nothing walked).2
      (Except.ok.inj answered)

end Supports

section Permits

variable {node : Node} {around : Around} {timeline : Timeline} {before after : Readings}

/-- A walk amid writes stands over any relations that hold all it saw. -/
theorem walkAmid_supported {schema : CompiledSchema} {object subject : ObjectRef} {action : String}
    {deadline : Instant}
    (ran : walkAmid around timeline schema object action subject deadline before =
      .ok (.found, after)) (kept : Set RelationTuple)
    (all : ∀ reading, ∀ tuple ∈ timeline.kept (timeline.seen reading), tuple ∈ kept) :
    (object, action) ∈ schema.stands kept subject := by
  unfold walkAmid at ran
  dsimp only at ran
  split at ran
  · next walk answered =>
    obtain ⟨rfl, -⟩ := Prod.mk.inj (Except.ok.inj ran)
    refine walkRelations_supported ?_ answered
    intro reading object relation limit subjects listed named inside
    dsimp only [surroundingsAmid] at listed
    split at listed
    · cases listed
    · obtain rfl := Except.ok.inj listed
      apply all reading
      rw [← mem_listKept_iff]
      exact List.mem_of_mem_take inside
  · cases ran
  · cases ran

theorem onward_walkAmid (schema : CompiledSchema) (object : ObjectRef) (action : String)
    (subject : ObjectRef) (deadline : Instant) :
    Onward (walkAmid around timeline schema object action subject deadline) := by
  intro before value after ran
  unfold walkAmid at ran
  dsimp only at ran
  split at ran
  · cases ran
    exact le_rfl
  · cases ran
  · cases ran

theorem onward_decideByWalk (schema : CompiledSchema) (request : DecisionRequest)
    {walkOf : ObjectRef → AskM Walk} (onward : ∀ object, Onward (walkOf object)) :
    Onward (decideByWalk schema request walkOf) := by
  unfold decideByWalk
  split
  · exact onward_fail _
  · refine onward_ite (onward_pure _) ((onward _).bind fun told => ?_)
    cases told <;> exact onward_pure _

theorem decideByWalk_ok {schema : CompiledSchema} {request : DecisionRequest}
    {walkOf : ObjectRef → AskM Walk}
    (ran : decideByWalk schema request walkOf before = .ok (.permit "relation" none, after)) :
    ∃ objectId between, request.resourceId = some objectId ∧
      walkOf ⟨request.resourceType, objectId⟩ before = .ok (.found, between) := by
  unfold decideByWalk at ran
  cases named : request.resourceId.filter isObjectId with
  | none =>
    rw [named] at ran
    cases ran
  | some objectId =>
    rw [named] at ran
    dsimp only at ran
    split at ran
    · cases AskM.pure_eq_ok ran
    · obtain ⟨told, walked, walking, ran⟩ := AskM.bind_eq_ok ran
      refine ⟨objectId, walked, (Option.filter_eq_some_iff.mp named).1, ?_⟩
      cases told with
      | found => exact walking
      | notFound => cases AskM.pure_eq_ok ran
      | undecided limit => cases AskM.pure_eq_ok ran

theorem decideByPolicies_reason {state : RealmState} {clientId : String} {request : DecisionRequest}
    {subject : Subject} {decision : Decision}
    (ran : decideByPolicies node around state clientId request subject before =
      .ok (decision, after)) : decision ≠ .permit "relation" none := by
  obtain ⟨policies, listed, -, ran⟩ := AskM.bind_eq_ok ran
  split at ran
  · rw [AskM.pure_eq_ok ran]
    simp [Decision.deny, Decision.permit]
  · obtain ⟨now, clocked, -, ran⟩ := AskM.bind_eq_ok ran
    obtain ⟨facts, read, -, ran⟩ := AskM.bind_eq_ok ran
    generalize weighPolicies node.formats policies ⟨facts, request.attributes, now⟩ = verdict at ran
    cases verdict <;>
      · rw [AskM.pure_eq_ok ran]
        simp [Decision.deny, Decision.permit]

theorem Timeline.kept_subset (timeline : Timeline)
    (grows : ∀ instant, timeline.start ≤ instant → instant < timeline.finish →
      timeline.kept instant ⊆ timeline.kept (instant + 1))
    {instant : Nat} (late : timeline.start ≤ instant) (early : instant ≤ timeline.finish) :
    timeline.kept instant ⊆ timeline.kept timeline.finish := by
  obtain ⟨more, ends⟩ := Nat.exists_eq_add_of_le early
  induction more generalizing instant with
  | zero => simp [ends]
  | succ more ih =>
    have here := grows instant late (by omega)
    exact List.Subset.trans here (ih (by omega) (by omega) (by omega))

theorem Timeline.subset_kept (timeline : Timeline)
    (shrinks : ∀ instant, timeline.start ≤ instant → instant < timeline.finish →
      timeline.kept (instant + 1) ⊆ timeline.kept instant)
    {instant : Nat} (late : timeline.start ≤ instant) (early : instant ≤ timeline.finish) :
    timeline.kept instant ⊆ timeline.kept timeline.start := by
  obtain ⟨more, rfl⟩ := Nat.exists_eq_add_of_le late
  induction more with
  | zero => exact List.Subset.refl _
  | succ more ih =>
    have here := shrinks (timeline.start + more) (by omega) (by omega)
    exact List.Subset.trans here (ih (by omega) (by omega))

end Permits

/-- A permit by relations, while other units write and delete relations, is
one of a subject that stands over the relations kept at some time of the
walk; over those kept at its end, where relations were only written
meanwhile, and over those kept at its start, where they were only deleted. -/
theorem decideAmid_permit_stands {node : Node} {around : Around} {timeline : Timeline}
    {realms : String → Option RealmState} {realm : String} {clientId : Option String}
    {clientSecret : Option Bytes} {request : DecisionRequest} {before after : Readings}
    (answered : decideAmid node around timeline realms realm clientId clientSecret request before =
      .ok (.permit "relation" none, after)) :
    ∃ state client token claims subject schema objectId, realms realm = some state ∧
      clientId = some client ∧ request.subjectToken = some token ∧
      Verified node around state before after (nameIssuer node realm) token claims ∧
      Live around state before after claims subject ∧ Defines state client request.resourceType schema ∧
      request.resourceId = some objectId ∧
      (⟨request.resourceType, objectId⟩, request.action) ∈
        schema.stands timeline.everKept subject.object ∧
      ((∀ instant, timeline.start ≤ instant → instant < timeline.finish →
          timeline.kept instant ⊆ timeline.kept (instant + 1)) →
        (⟨request.resourceType, objectId⟩, request.action) ∈
          schema.stands {tuple | tuple ∈ timeline.kept timeline.finish} subject.object) ∧
      ((∀ instant, timeline.start ≤ instant → instant < timeline.finish →
          timeline.kept (instant + 1) ⊆ timeline.kept instant) →
        (⟨request.resourceType, objectId⟩, request.action) ∈
          schema.stands {tuple | tuple ∈ timeline.kept timeline.start} subject.object) := by
  obtain ⟨asked, clocked, clock, ran⟩ := AskM.bind_eq_ok answered
  obtain ⟨state, located, locate, ran⟩ := AskM.bind_eq_ok ran
  obtain ⟨known, enabled⟩ := resolveRealm_ok locate
  cases clientId with
  | none => cases ran
  | some named =>
    cases clientSecret with
    | none => cases ran
    | some presented =>
      obtain ⟨⟨⟩, begun, begin, ran⟩ := AskM.bind_eq_ok ran
      obtain ⟨client, identified, identify, ran⟩ := AskM.bind_eq_ok ran
      have authenticated := authenticateClient_ok identify
      have opened : before.Follows identified := calc
        before.clock ≤ clocked.clock := onward_readClock around _ _ _ clock
        _ ≤ located.clock := onward_resolveRealm around _ _ _ _ _ locate
        _ ≤ begun.clock := onward_readStorage around _ _ _ _ begin
        _ ≤ identified.clock := onward_authenticateClient node around state _ _ _ _ _ identify
      have same : client.clientId = named := by simpa using List.find?_some authenticated.known
      cases given : request.subjectToken with
      | none =>
        rw [given] at ran
        cases ran
      | some token =>
        rw [given] at ran
        dsimp only at ran
        split at ran
        · cases ran
        split at ran
        · cases ran
        obtain ⟨found, looked, look, ran⟩ := AskM.bind_eq_ok ran
        cases found with
        | none => cases AskM.pure_eq_ok ran
        | some subject =>
          obtain ⟨claims, verified, live⟩ := readSubject_ok look
          obtain ⟨schemaFor, schemed, scheming, ran⟩ := AskM.bind_eq_ok ran
          cases schemaFor with
          | unreadable => cases AskM.pure_eq_ok ran
          | policies => exact absurd rfl (decideByPolicies_reason ran)
          | relations schema =>
            have ended := (onward_readSchemaFor around state _ _ _ _ _ scheming).trans
              (onward_decideByWalk schema request
                (fun object => onward_walkAmid schema object _ _ _) _ _ _ ran)
            obtain ⟨objectId, walked, asked, walking⟩ := decideByWalk_ok ran
            have defines := (readSchemaFor_ok scheming).1 schema rfl
            rw [same] at defines
            have stood := walkAmid_supported walking
            refine ⟨state, named, token, claims, subject, schema, objectId, known, rfl, rfl,
              verified.widen opened ended, live.widen opened ended, defines, asked, ?_, ?_, ?_⟩
            · apply stood
              intro reading tuple inside
              exact ⟨_, (timeline.within reading).1, (timeline.within reading).2, inside⟩
            · intro grows
              apply stood
              intro reading tuple inside
              exact timeline.kept_subset grows (timeline.within reading).1 (timeline.within reading).2
                inside
            · intro shrinks
              apply stood
              intro reading tuple inside
              exact timeline.subset_kept shrinks (timeline.within reading).1
                (timeline.within reading).2 inside

/-- Folders whose viewers are both their readers and their members. -/
def bothSchema : CompiledSchema where
  version := COMPILED_VERSION
  types := (SortedMap.empty.insert "client" ObjectType.default).insert "folder"
    { relations := (SortedMap.empty.insert "member" [⟨"client", none⟩]).insert "reader"
        [⟨"client", none⟩]
      permissions := SortedMap.empty.insert "view"
        (.intersection [.computed "reader", .computed "member"]) }

def bothState : RealmState := { ownState with
  schema := some ⟨"", bothSchema.toJson, 0⟩
  guards := [("folder", "mail")] }

def bothRealms (realm : String) : Option RealmState := if realm = "r" then some bothState else none

def mailReads : RelationTuple := ⟨⟨"folder", "f"⟩, "reader", ⟨⟨"client", "mail"⟩, none⟩⟩

def mailJoined : RelationTuple := ⟨⟨"folder", "f"⟩, "member", ⟨⟨"client", "mail"⟩, none⟩⟩

/-- `mail` is made a reader of the folder no more, and a member of it then. -/
def mailMoves : Timeline where
  kept
    | 0 => [mailReads]
    | 1 => []
    | _ => [mailJoined]
  start := 0
  finish := 2
  seen reading := if reading = 0 then 0 else 2
  commits := by
    rintro (_ | _ | instant) early
    · exact @Commits.deleted [mailReads] mailReads (by simp)
    · exact .written (by simp)
    · omega
  ordered := by
    intro first second before
    dsimp only
    split
    · omega
    · split <;> omega
  within reading := by
    split <;> omega

def viewFolder : DecisionRequest := { readOwnFolder with action := "view", resourceId := some "f" }

theorem viewFolder_subject : readSubject mailNode calm bothState "http://id/realms/r" mailToken ⟨1, 3⟩ =
    .ok (some mailSubject, ⟨2, 5⟩) := by
  have verified : verifyAccessToken mailNode calm bothState "http://id/realms/r" mailToken ⟨1, 3⟩ =
      .ok (some ⟨"mail", "mail", [], "t", 1, 99, none⟩, ⟨2, 4⟩) := by
    have listed : readStorage calm bothState.keys ⟨1, 3⟩ = .ok (ownState.keys, ⟨1, 4⟩) := rfl
    rw [verifyAccessToken, AskM.bind_ok listed, mailToken_verified]
    rfl
  rw [readSubject, AskM.bind_ok verified]
  rfl

theorem bothState_defines : Defines bothState "mail" "folder" bothSchema where
  kept := by
    change StoredSchema.open ⟨"", bothSchema.toJson, 0⟩ = some bothSchema
    rw [StoredSchema.open, readCompiledSchema_toJson rfl]
  defined := by decide
  guarded := by decide

theorem viewFolder_permitted : decideAmid mailNode calm mailMoves bothRealms "r" (some "mail")
    (some (textBytes "s3cret")) viewFolder ⟨0, 0⟩ = .ok (.permit "relation" none, ⟨2, 6⟩) := by
  have clocked : readClock calm ⟨0, 0⟩ = .ok (50000000, ⟨1, 0⟩) := rfl
  have located : resolveRealm calm bothRealms "r" ⟨1, 0⟩ = .ok (bothState, ⟨1, 1⟩) := rfl
  have begun : readStorage calm () ⟨1, 1⟩ = .ok ((), ⟨1, 2⟩) := rfl
  have proven : authenticateClient mailNode calm bothState "mail" (textBytes "s3cret") ⟨1, 2⟩ =
      .ok (⟨"mail", some mailSecretDigest, true, false, [], false, [], true⟩, ⟨1, 3⟩) := rfl
  have askable : (!isRoleName viewFolder.action || !isRoleName viewFolder.resourceType ||
      !isSmall mailNode viewFolder.attributes) = false := by decide
  have token : viewFolder.subjectToken = some mailToken := rfl
  have share : calm.shareIsFree = true := rfl
  have schemaFor : readSchemaFor calm bothState "mail" viewFolder.resourceType ⟨2, 5⟩ =
      .ok (.relations bothSchema, ⟨2, 6⟩) := by
    have read : readStorage calm (bothState.readGuardedSchema viewFolder.resourceType "mail") ⟨2, 5⟩ =
        .ok (some ⟨bothSchema.toJson, true⟩, ⟨2, 6⟩) := rfl
    have opened : openSchema calm bothState bothSchema.toJson ⟨2, 6⟩ = .ok (some bothSchema, ⟨2, 6⟩) := by
      rw [openSchema, readCompiledSchema_toJson rfl]
      rfl
    rw [readSchemaFor, AskM.bind_ok read]
    dsimp only
    rw [AskM.bind_ok opened]
    rfl
  have walked : decideByWalk bothSchema viewFolder (fun object => walkAmid calm mailMoves bothSchema
      object viewFolder.action mailSubject.object (50000000 + MAX_DURATION)) ⟨2, 6⟩ =
      .ok (.permit "relation" none, ⟨2, 6⟩) := by
    decide
  rw [decideAmid, decideWith, AskM.bind_ok clocked, AskM.bind_ok located]
  dsimp only
  rw [AskM.bind_ok begun, AskM.bind_ok proven, token]
  dsimp only
  have issuer : nameIssuer mailNode "r" = "http://id/realms/r" := rfl
  rw [askable, share, if_neg (by decide), if_neg (by decide), issuer,
    AskM.bind_ok viewFolder_subject]
  dsimp only
  rw [AskM.bind_ok schemaFor]
  exact walked

theorem mailMoves_never_stands (instant : Nat) :
    ((⟨"folder", "f"⟩, "view") : Place) ∉
      bothSchema.stands {tuple | tuple ∈ mailMoves.kept instant} mailSubject.object := by
  have refused : ∀ kept : List RelationTuple,
      walkRelations ⟨bothSchema, mailSubject.object, 0, .ofSource,
        .ofKept kept (fun _ => 0) (fun _ => none)⟩ ⟨"folder", "f"⟩ "view" = .ok .notFound →
      ((⟨"folder", "f"⟩, "view") : Place) ∉
        bothSchema.stands {tuple | tuple ∈ kept} mailSubject.object := fun kept missed =>
    (walkRelations_right (readsFrom_ofKept _ _ _ _ _ _) missed).2 rfl
  rcases instant with _ | _ | instant
  · exact refused [mailReads] (by decide)
  · exact refused [] (by decide)
  · exact refused [mailJoined] (by decide)

/-- A walk of an intersection reads `mail` a reader before it is none, and a
member once it is one: the permit rests on two halves that no committed
state held together. -/
theorem viewFolder_never_supported :
    (∃ after, decideAmid mailNode calm mailMoves bothRealms "r" (some "mail")
      (some (textBytes "s3cret")) viewFolder ⟨0, 0⟩ = .ok (.permit "relation" none, after)) ∧
    (∃ before after, readSubject mailNode calm bothState (nameIssuer mailNode "r") mailToken before =
      .ok (some mailSubject, after)) ∧
    Defines bothState "mail" viewFolder.resourceType bothSchema ∧
    ¬ ∃ instant, mailMoves.start ≤ instant ∧ instant ≤ mailMoves.finish ∧
      (⟨viewFolder.resourceType, "f"⟩, viewFolder.action) ∈
        bothSchema.stands {tuple | tuple ∈ mailMoves.kept instant} mailSubject.object := by
  refine ⟨⟨_, viewFolder_permitted⟩, ⟨_, _, viewFolder_subject⟩, bothState_defines, ?_⟩
  rintro ⟨instant, -, -, stood⟩
  exact mailMoves_never_stands instant stood

/-- It stands over the two halves together. -/
theorem viewFolder_stands_over_both : ∃ subject schema,
    ((⟨"folder", "f"⟩, "view") : Place) ∈ CompiledSchema.stands schema mailMoves.everKept subject := by
  obtain ⟨_, _, _, _, subject, schema, _, _, _, _, _, _, _, asked, stood, _⟩ :=
    decideAmid_permit_stands viewFolder_permitted
  cases asked
  exact ⟨subject.object, schema, stood⟩

end Saffui.Authz
