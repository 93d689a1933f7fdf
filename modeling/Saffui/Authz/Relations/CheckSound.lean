import Mathlib.Data.List.Sort
import Mathlib.Data.Prod.Lex
import Saffui.Authz.Relations.Denotation
import Saffui.Authz.Relations.Check

/-!
# A walk never answers wrongly

Over a fixed set of relations kept, a walk that answers `found` is right, and
so is one that answers `notFound`, whatever the clock says, wherever a bound
falls and whatever the walk remembers. The reason is local: a cut loop and a
bound answer `undecided`, which no fold of the walk turns into another answer
without a member that answered by itself. So every answer kept in `known` is
right without regard to what was being walked when it was found.
-/

namespace Saffui.Authz.Relations
open Saffui.Foundation

/-- The order of `list_relation_subjects`: by type, identifier and member,
the subject itself, written as an empty member, first. -/
def SubjectRef.le (left right : SubjectRef) : Bool :=
  decide (toLex (left.object.objectType, toLex (left.object.objectId, left.member.getD "")) ≤
    toLex (right.object.objectType, toLex (right.object.objectId, right.member.getD "")))

/-- The subjects a relation of an object names among the relations kept. -/
def listKept (kept : List RelationTuple) (object : ObjectRef) (relation : String) :
    List SubjectRef :=
  ((kept.filter fun tuple => tuple.object == object && tuple.relation == relation).map
    (·.subject)).insertionSort fun left right => left.le right

theorem mem_listKept_iff (kept : List RelationTuple) (object : ObjectRef) (relation : String)
    (subject : SubjectRef) :
    subject ∈ listKept kept object relation ↔
      (⟨object, relation, subject⟩ : RelationTuple) ∈ kept := by
  simp only [listKept, List.mem_insertionSort, List.mem_map, List.mem_filter, Bool.and_eq_true,
    beq_iff_eq]
  constructor
  · rintro ⟨⟨_, _, _⟩, ⟨inside, rfl, rfl⟩, rfl⟩
    exact inside
  · intro inside
    exact ⟨_, ⟨inside, rfl, rfl⟩, rfl⟩

/-- A storage that keeps a fixed list of relations, behind any clock, and
fails at the reads `failures` names. -/
def Surroundings.ofKept (kept : List RelationTuple) (now : Nat → Instant)
    (failures : Nat → Option StorageError) : Surroundings where
  now := now
  listRelationSubjects reading object relation limit :=
    match failures reading with
    | some error => .error error
    | none => .ok ((listKept kept object relation).take limit)

/-- An answer is right about a claim: what cannot be told is not wrong. -/
def Walk.Right (walk : Walk) (claim : Prop) : Prop :=
  (walk = .found → claim) ∧ (walk = .notFound → ¬ claim)

theorem Walk.right_undecided (limit : WalkLimit) (claim : Prop) :
    (Walk.undecided limit).Right claim := by
  simp [Walk.Right]

theorem Walk.Right.congr {walk : Walk} {claim other : Prop} (right : walk.Right claim)
    (same : claim ↔ other) : walk.Right other := by
  rwa [Walk.Right, ← same]

private theorem foldUnion_go_found :
    ∀ (walks : List Walk) (undecided : Option WalkLimit),
      foldUnion.go undecided walks = .found → .found ∈ walks
  | [], undecided, folded => by cases undecided <;> simp [foldUnion.go] at folded
  | .found :: _, _, _ => by simp
  | .undecided limit :: rest, _, folded =>
    List.mem_cons_of_mem _ (foldUnion_go_found rest (some limit) folded)
  | .notFound :: rest, undecided, folded =>
    List.mem_cons_of_mem _ (foldUnion_go_found rest undecided folded)

private theorem foldUnion_go_notFound :
    ∀ (walks : List Walk) (undecided : Option WalkLimit),
      foldUnion.go undecided walks = .notFound →
      undecided = none ∧ ∀ walk ∈ walks, walk = .notFound
  | [], undecided, folded => by cases undecided <;> simp_all [foldUnion.go]
  | .found :: _, _, folded => by simp [foldUnion.go] at folded
  | .undecided limit :: rest, _, folded => by
    have impossible := (foldUnion_go_notFound rest (some limit) folded).1
    simp at impossible
  | .notFound :: rest, undecided, folded => by
    obtain ⟨told, all⟩ := foldUnion_go_notFound rest undecided folded
    exact ⟨told, by simpa using all⟩

/-- A fold is right about a disjunction whose parts the walks are right about. -/
theorem foldUnion_right {walks : List Walk} {claim : Prop}
    (some_found : .found ∈ walks → claim) (none_found : (∀ walk ∈ walks, walk = .notFound) → ¬ claim) :
    (foldUnion walks).Right claim :=
  ⟨fun folded => some_found (foldUnion_go_found walks none folded),
    fun folded => none_found (foldUnion_go_notFound walks none folded).2⟩

section Walking

variable (asked : Question) (kept : List RelationTuple)

/-- What the subject of the question stands in, over the relations kept. -/
def Question.stands : Set Place := asked.schema.stands {tuple | tuple ∈ kept} asked.subject

/-- The storage of the question answers from the relations kept. -/
def Question.ReadsFrom : Prop :=
  ∀ reading object relation limit subjects,
    asked.around.listRelationSubjects reading object relation limit = .ok subjects →
    subjects = (listKept kept object relation).take limit

/-- Every answer the walker remembers is right. -/
def Walker.Remembers (walker : Walker) : Prop :=
  ∀ key walk, walker.find key = some walk → walk.Right (key ∈ asked.stands kept)

/-- A computation keeps what is remembered right, and answers a claim rightly. -/
def Answers (computation : WalkM Walk) (claim : Prop) : Prop :=
  ∀ before after walk, before.Remembers asked kept → computation before = .ok (walk, after) →
    after.Remembers asked kept ∧ walk.Right claim

variable {asked kept}

theorem Answers.congr {computation : WalkM Walk} {claim other : Prop}
    (answers : Answers asked kept computation claim) (same : claim ↔ other) :
    Answers asked kept computation other := by
  intro before after walk remembers ran
  obtain ⟨still, right⟩ := answers before after walk remembers ran
  exact ⟨still, right.congr same⟩

theorem answers_pure {walk : Walk} {claim : Prop} (right : walk.Right claim) :
    Answers asked kept (pure walk) claim := by
  intro before after answer remembers ran
  obtain ⟨rfl, rfl⟩ := WalkM.pure_eq_ok ran
  exact ⟨remembers, right⟩

/-- Counting, reading the clock and entering change nothing remembered. -/
theorem Walker.Remembers.of_known {before after : Walker}
    (remembers : before.Remembers asked kept) (same : after.known = before.known) :
    after.Remembers asked kept := by
  intro key walk found
  apply remembers key walk
  simpa only [Walker.find, same] using found

theorem checkTime_known {before after : Walker} {limit : Option WalkLimit}
    (ran : checkTime asked before = .ok (limit, after)) : after.known = before.known := by
  unfold checkTime at ran
  rw [WalkM.read_bind, WalkM.modify_bind] at ran
  obtain ⟨-, rfl⟩ := WalkM.pure_eq_ok ran
  rfl

theorem enter_known {key : ObjectRef × String} {before after : Walker} {entered : Bool}
    (ran : enter key before = .ok (entered, after)) : after.known = before.known := by
  unfold enter at ran
  rw [WalkM.read_bind] at ran
  split at ran
  · obtain ⟨-, rfl⟩ := WalkM.pure_eq_ok ran
    rfl
  · rw [WalkM.modify_bind] at ran
    obtain ⟨-, rfl⟩ := WalkM.pure_eq_ok ran
    rfl

theorem listRelationSubjects_ok (reads : asked.ReadsFrom kept) {object : ObjectRef}
    {relation : String} {limit : Nat} {subjects : List SubjectRef} {before after : Walker}
    (ran : listRelationSubjects asked object relation limit before = .ok (subjects, after)) :
    after.known = before.known ∧ subjects = (listKept kept object relation).take limit := by
  unfold listRelationSubjects at ran
  rw [WalkM.read_bind, WalkM.modify_bind] at ran
  generalize answered :
    asked.around.listRelationSubjects before.storageReadings object relation limit = answer at ran
  cases answer with
  | ok read =>
    obtain ⟨rfl, rfl⟩ := WalkM.pure_eq_ok ran
    exact ⟨rfl, reads _ _ _ _ _ answered⟩
  | error error => cases ran

/-- A read that meets no bound reads every subject the relation names. -/
theorem readSubjects_ok (reads : asked.ReadsFrom kept) {object : ObjectRef} {relation : String}
    {subjects : Subjects} {before after : Walker}
    (ran : readSubjects asked object relation before = .ok (subjects, after)) :
    after.known = before.known ∧
      ∀ read, subjects = .read read → read = listKept kept object relation := by
  unfold readSubjects at ran
  rw [WalkM.modify_bind, WalkM.read_bind] at ran
  split at ran
  · obtain ⟨rfl, rfl⟩ := WalkM.pure_eq_ok ran
    exact ⟨rfl, by simp⟩
  · obtain ⟨early, timed, checked, ran⟩ := WalkM.bind_eq_ok ran
    have timed_known := checkTime_known checked
    split at ran
    · obtain ⟨rfl, rfl⟩ := WalkM.pure_eq_ok ran
      exact ⟨timed_known, by simp⟩
    · obtain ⟨listed, after_read, listed_ok, ran⟩ := WalkM.bind_eq_ok ran
      obtain ⟨read_known, listed_eq⟩ := listRelationSubjects_ok reads listed_ok
      have known := read_known.trans timed_known
      split at ran
      · obtain ⟨rfl, rfl⟩ := WalkM.pure_eq_ok ran
        exact ⟨known, by simp⟩
      · next within =>
        obtain ⟨late, last, checked, ran⟩ := WalkM.bind_eq_ok ran
        have last_known := (checkTime_known checked).trans known
        split at ran
        · obtain ⟨rfl, rfl⟩ := WalkM.pure_eq_ok ran
          exact ⟨last_known, by simp⟩
        · obtain ⟨rfl, rfl⟩ := WalkM.pure_eq_ok ran
          refine ⟨last_known, ?_⟩
          rintro read ⟨⟩
          rw [listed_eq]
          apply List.take_of_length_le
          rw [listed_eq, List.length_take] at within
          omega

/-- Walking each of a list answers whether one of them stands, after walks
that found nothing yet. -/
theorem walkEach_answers {α : Type} {enter : α → WalkM Walk} {stands : α → Prop} :
    ∀ list : List α, (∀ next ∈ list, Answers asked kept (enter next) (stands next)) →
      ∀ (walks : List Walk) (earlier : Prop), .found ∉ walks →
      ((∀ walk ∈ walks, walk = .notFound) → ¬ earlier) →
      Answers asked kept (walkEach enter list walks) (earlier ∨ ∃ next ∈ list, stands next)
  | [], _, walks, earlier, unfound, refuted => by
    refine (answers_pure (foldUnion_right (fun found => absurd found unfound) refuted)).congr ?_
    simp
  | next :: rest, each, walks, earlier, unfound, refuted => by
    intro before after walk remembers ran
    unfold walkEach at ran
    obtain ⟨here, between, entered, ran⟩ := WalkM.bind_eq_ok ran
    obtain ⟨still, right⟩ := each next (by simp) before between here remembers entered
    split at ran
    · next found =>
      obtain ⟨rfl, rfl⟩ := WalkM.pure_eq_ok ran
      exact ⟨still, fun _ => Or.inr ⟨next, by simp, right.1 found⟩, by simp⟩
    · next notHere =>
      have tail := walkEach_answers rest
        (fun other inside => each other (List.mem_cons_of_mem _ inside))
        (walks ++ [here]) (earlier ∨ stands next)
        (by simpa [unfound] using Ne.symm notHere)
        (by
          intro none_found
          have refused := right.2 (none_found here (by simp))
          have before_refused := refuted fun walk inside => none_found walk (by simp [inside])
          simp [refused, before_refused])
      refine (tail.congr ?_) between after walk still ran
      simp only [List.mem_cons, exists_eq_or_imp]
      tauto

theorem walkEach_answers_of_nil {α : Type} {enter : α → WalkM Walk} {stands : α → Prop}
    {list : List α} (each : ∀ next ∈ list, Answers asked kept (enter next) (stands next)) :
    Answers asked kept (walkEach enter list []) (∃ next ∈ list, stands next) :=
  (walkEach_answers list each [] False (by simp) (by simp)).congr (by simp)

/-- What a way into the members of objects answers, when it is a walk. -/
def Enters (asked : Question) (kept : List RelationTuple)
    (enter : ObjectRef → String → Nat → WalkM Walk) : Prop :=
  ∀ object member depth, Answers asked kept (enter object member depth)
    ((object, member) ∈ asked.stands kept)

/-- A computation that first reads subjects answers what its continuation
answers of all of them. -/
theorem answers_of_readSubjects (reads : asked.ReadsFrom kept) {object : ObjectRef}
    {relation : String} {next : Subjects → WalkM Walk} {claim : Prop}
    (bounded : ∀ limit, next (.bound limit) = pure (.undecided limit))
    (read : Answers asked kept (next (.read (listKept kept object relation))) claim) :
    Answers asked kept (readSubjects asked object relation >>= next) claim := by
  intro before after walk remembers ran
  obtain ⟨subjects, between, listed, ran⟩ := WalkM.bind_eq_ok ran
  obtain ⟨known, all⟩ := readSubjects_ok reads listed
  have still := remembers.of_known known
  cases subjects with
  | bound limit =>
    rw [bounded] at ran
    obtain ⟨rfl, rfl⟩ := WalkM.pure_eq_ok ran
    exact ⟨still, Walk.right_undecided limit claim⟩
  | read subjects =>
    rw [all subjects rfl] at ran
    exact read between after walk still ran

theorem mem_listMembers_iff (admitted : List SubjectRef) (object : ObjectRef) (member : String) :
    (object, member) ∈ listMembers admitted ↔ (⟨object, some member⟩ : SubjectRef) ∈ admitted := by
  simp only [listMembers, List.mem_filterMap, Option.map_eq_some_iff, Prod.mk.injEq]
  constructor
  · rintro ⟨⟨found, member_⟩, inside, _, rfl, rfl, rfl⟩
    exact inside
  · intro inside
    exact ⟨_, inside, _, rfl, rfl, rfl⟩

theorem walkRelation_answers (reads : asked.ReadsFrom kept)
    {enter : ObjectRef → String → Nat → WalkM Walk} (enters : Enters asked kept enter)
    {object : ObjectRef} {relation : String} {allowed : List AllowedSubject}
    (found : asked.schema.findMember object.objectType relation = some (.relation allowed))
    (depth : Nat) :
    Answers asked kept (walkRelation enter asked object relation depth)
      (namedBy {tuple | tuple ∈ kept} asked.subject (asked.stands kept) allowed object
        relation) := by
  unfold walkRelation
  rw [found]
  refine answers_of_readSubjects reads (fun _ => rfl) ?_
  simp only
  split
  · next direct =>
    obtain ⟨⟨object_, member_⟩, inside, itself⟩ := List.any_eq_true.mp direct
    simp only [Bool.and_eq_true, Option.isNone_iff_eq_none, beq_iff_eq] at itself
    obtain ⟨rfl, rfl⟩ := itself
    rw [List.mem_filter, mem_listKept_iff, admits_iff] at inside
    exact answers_pure ⟨fun _ => Or.inl inside, by simp⟩
  · next indirect =>
    refine (walkEach_answers_of_nil fun named _ => enters named.1 named.2 (depth + 1)).congr ?_
    simp only [Prod.exists, mem_listMembers_iff, List.mem_filter, mem_listKept_iff, admits_iff]
    constructor
    · rintro ⟨target, member, ⟨tuple, admitted⟩, stands⟩
      exact Or.inr ⟨target, member, tuple, admitted, stands⟩
    · rintro (⟨tuple, admitted⟩ | ⟨target, member, tuple, admitted, stands⟩)
      · refine absurd (List.any_eq_true.mpr ⟨⟨asked.subject, none⟩, ?_, by simp⟩) indirect
        rw [List.mem_filter, mem_listKept_iff, admits_iff]
        exact ⟨tuple, admitted⟩
      · exact ⟨target, member, ⟨tuple, admitted⟩, stands⟩

theorem mem_listObjects_iff (allowed : List AllowedSubject) (kept : List RelationTuple)
    (object : ObjectRef) (relation : String) (target : ObjectRef) :
    target ∈ listObjects allowed (listKept kept object relation) ↔
      relatesTo {tuple | tuple ∈ kept} allowed object relation target := by
  simp only [listObjects, List.mem_map, List.mem_filter, mem_listKept_iff, Bool.and_eq_true,
    Option.isNone_iff_eq_none, List.any_eq_true, beq_iff_eq, relatesTo]
  constructor
  · rintro ⟨⟨_, _⟩, ⟨tuple, rfl, ⟨_, _⟩, admitted, rfl, rfl⟩, rfl⟩
    exact ⟨tuple, admitted⟩
  · rintro ⟨tuple, admitted⟩
    exact ⟨⟨target, none⟩, ⟨tuple, rfl, _, admitted, rfl, rfl⟩, rfl⟩

theorem walkArrow_answers (reads : asked.ReadsFrom kept)
    {enter : ObjectRef → String → Nat → WalkM Walk} (enters : Enters asked kept enter)
    (object : ObjectRef) (relation member : String) (depth : Nat) :
    Answers asked kept (walkArrow enter asked object relation member depth)
      (∃ target, asked.schema.leadsTo {tuple | tuple ∈ kept} object relation target ∧
        (target, member) ∈ asked.stands kept) := by
  unfold walkArrow
  split
  · next allowed found =>
    refine answers_of_readSubjects reads (fun _ => rfl) ?_
    refine (walkEach_answers_of_nil fun next _ => enters next member (depth + 1)).congr ?_
    simp only [mem_listObjects_iff, CompiledSchema.leadsTo, found, Option.some.injEq,
      MemberKind.relation.injEq, exists_eq_left']
  · next unrelated =>
    refine answers_pure ⟨by simp, fun _ => ?_⟩
    rintro ⟨target, ⟨allowed, found, _⟩, _⟩
    exact unrelated allowed found

mutual

/-- A rule is walked to whether it holds of the object. -/
theorem walkRule_answers (reads : asked.ReadsFrom kept)
    {enter : ObjectRef → String → Nat → WalkM Walk} (enters : Enters asked kept enter)
    (object : ObjectRef) :
    ∀ (rule : Rule) (depth : Nat), Answers asked kept (walkRule enter asked object rule depth)
      (rule.holds (asked.schema.leadsTo {tuple | tuple ∈ kept}) (asked.stands kept) object)
  | .computed member, depth => by
    simpa only [walkRule, Rule.holds] using enters object member (depth + 1)
  | .arrow relation member, depth => by
    simpa only [walkRule, Rule.holds] using
      walkArrow_answers reads enters object relation member depth
  | .union rules, depth => by
    rw [walkRule]
    exact (walkSum_answers reads enters object rules (depth + 1) [] False (by simp)
      (by simp)).congr (by simp [Rule.holds])
  | .intersection [], _ => by
    rw [walkRule]
    exact answers_pure ⟨by simp, by simp [Rule.holds]⟩
  | .intersection (rule :: rules), depth => by
    rw [walkRule]
    exact (walkIntersection_answers reads enters object (rule :: rules) (depth + 1) none True
      (by simp)).congr (by simp [Rule.holds])

theorem walkSum_answers (reads : asked.ReadsFrom kept)
    {enter : ObjectRef → String → Nat → WalkM Walk} (enters : Enters asked kept enter)
    (object : ObjectRef) :
    ∀ (rules : List Rule) (depth : Nat) (walks : List Walk) (earlier : Prop), .found ∉ walks →
      ((∀ walk ∈ walks, walk = .notFound) → ¬ earlier) →
      Answers asked kept (walkSum enter asked object rules depth walks)
        (earlier ∨ Rule.holdsSome (asked.schema.leadsTo {tuple | tuple ∈ kept})
          (asked.stands kept) object rules)
  | [], _, walks, earlier, unfound, refuted => by
    rw [walkSum]
    exact (answers_pure (foldUnion_right (fun found => absurd found unfound) refuted)).congr
      (by simp [Rule.holdsSome])
  | rule :: rules, depth, walks, earlier, unfound, refuted => by
    intro before after walk remembers ran
    rw [walkSum] at ran
    obtain ⟨here, between, walked, ran⟩ := WalkM.bind_eq_ok ran
    obtain ⟨still, right⟩ :=
      walkRule_answers reads enters object rule depth before between here remembers walked
    split at ran
    · next found =>
      obtain ⟨rfl, rfl⟩ := WalkM.pure_eq_ok ran
      exact ⟨still, fun _ => Or.inr (Or.inl (right.1 found)), by simp⟩
    · next notHere =>
      refine ((walkSum_answers reads enters object rules depth (walks ++ [here])
        (earlier ∨ rule.holds (asked.schema.leadsTo {tuple | tuple ∈ kept}) (asked.stands kept)
          object) (by simpa [unfound] using Ne.symm notHere) ?_).congr ?_)
        between after walk still ran
      · intro none_found
        have refused := right.2 (none_found here (by simp))
        have before_refused := refuted fun walk inside => none_found walk (by simp [inside])
        simp [refused, before_refused]
      · simp only [Rule.holdsSome]
        tauto

/-- The walks of an intersection so far found nothing missing: they all
found, unless one could not tell. -/
theorem walkIntersection_answers (reads : asked.ReadsFrom kept)
    {enter : ObjectRef → String → Nat → WalkM Walk} (enters : Enters asked kept enter)
    (object : ObjectRef) :
    ∀ (rules : List Rule) (depth : Nat) (undecided : Option WalkLimit) (earlier : Prop),
      (undecided = none → earlier) →
      Answers asked kept (walkIntersection enter asked object rules depth undecided)
        (earlier ∧ Rule.holdsEvery (asked.schema.leadsTo {tuple | tuple ∈ kept})
          (asked.stands kept) object rules)
  | [], _, undecided, earlier, held => by
    rw [walkIntersection]
    refine answers_pure ?_
    cases undecided with
    | none => exact ⟨fun _ => ⟨held rfl, trivial⟩, by simp⟩
    | some limit => exact Walk.right_undecided limit _
  | rule :: rules, depth, undecided, earlier, held => by
    intro before after walk remembers ran
    rw [walkIntersection] at ran
    obtain ⟨here, between, walked, ran⟩ := WalkM.bind_eq_ok ran
    obtain ⟨still, right⟩ :=
      walkRule_answers reads enters object rule depth before between here remembers walked
    have regroup : ∀ first second third : Prop,
        ((first ∧ second) ∧ third) ↔ (first ∧ second ∧ third) := by tauto
    cases here with
    | notFound =>
      obtain ⟨rfl, rfl⟩ := WalkM.pure_eq_ok ran
      exact ⟨still, by simp, fun _ both => right.2 rfl both.2.1⟩
    | undecided limit =>
      exact ((walkIntersection_answers reads enters object rules depth (some limit)
        (earlier ∧ rule.holds (asked.schema.leadsTo {tuple | tuple ∈ kept}) (asked.stands kept)
          object) (by simp)).congr (regroup _ _ _)) between after walk still ran
    | found =>
      exact ((walkIntersection_answers reads enters object rules depth undecided
        (earlier ∧ rule.holds (asked.schema.leadsTo {tuple | tuple ∈ kept}) (asked.stands kept)
          object) (fun none => ⟨held none, right.1 rfl⟩)).congr (regroup _ _ _))
        between after walk still ran

end

theorem answers_of_checkTime {next : Option WalkLimit → WalkM Walk} {claim : Prop}
    (late : ∀ limit, next (some limit) = pure (.undecided limit))
    (within : Answers asked kept (next none) claim) :
    Answers asked kept (checkTime asked >>= next) claim := by
  intro before after walk remembers ran
  obtain ⟨limit, between, checked, ran⟩ := WalkM.bind_eq_ok ran
  have still := remembers.of_known (checkTime_known checked)
  cases limit with
  | some limit =>
    rw [late] at ran
    obtain ⟨rfl, rfl⟩ := WalkM.pure_eq_ok ran
    exact ⟨still, Walk.right_undecided limit claim⟩
  | none => exact within between after walk still ran

/-- Leaving a member with a right answer keeps what is remembered right. -/
theorem Walker.Remembers.leave {before after : Walker} {key : ObjectRef × String} {walk : Walk}
    (remembers : before.Remembers asked kept) (right : walk.Right (key ∈ asked.stands kept))
    (known : after.known = (key, walk) :: before.known) : after.Remembers asked kept := by
  intro other answer found
  rw [Walker.find, known, List.lookup_cons] at found
  split at found
  · next same =>
    obtain rfl := Option.some.inj found
    rwa [beq_iff_eq.mp same]
  · exact remembers other answer found

/-- What a member derives is what the walk of its kind answers. -/
theorem walkKind_answers (reads : asked.ReadsFrom kept)
    {enter : ObjectRef → String → Nat → WalkM Walk} (enters : Enters asked kept enter)
    (object : ObjectRef) (member : String) (depth : Nat) :
    Answers asked kept (walkKind enter asked object member depth)
      ((object, member) ∈ asked.stands kept) := by
  rw [Question.stands, CompiledSchema.mem_stands_iff, CompiledSchema.derives, walkKind]
  cases found : asked.schema.findMember object.objectType member with
  | none => exact answers_pure ⟨by simp, by simp⟩
  | some kind =>
    cases kind with
    | relation allowed => exact walkRelation_answers reads enters found depth
    | permission rule => exact walkRule_answers reads enters object rule depth

/-- Entering a member that is not being walked, walking its kind and leaving
it answers what stands, and so does cutting the loop. -/
theorem walkMember_answers (reads : asked.ReadsFrom kept) :
    ∀ fuel, Enters asked kept (walkMember asked fuel)
  | 0 => by
    intro object member depth before after walk _ ran
    cases ran
  | fuel + 1 => by
    intro object member depth before after walk remembers ran
    unfold walkMember at ran
    rw [WalkM.modify_bind, WalkM.read_bind] at ran
    split at ran
    · obtain ⟨rfl, rfl⟩ := WalkM.pure_eq_ok ran
      exact ⟨remembers.of_known rfl, Walk.right_undecided _ _⟩
    · have counted : ({ before with steps := before.steps + 1 } : Walker).Remembers asked kept :=
        remembers.of_known rfl
      refine answers_of_checkTime ?_ ?_ _ after walk counted ran
      · exact fun _ => rfl
      clear ran counted
      intro before after walk remembers ran
      simp only at ran
      split at ran
      · obtain ⟨rfl, rfl⟩ := WalkM.pure_eq_ok ran
        exact ⟨remembers, Walk.right_undecided _ _⟩
      · rw [WalkM.read_bind] at ran
        cases told : before.find (object, member) with
        | some known =>
          rw [told] at ran
          obtain ⟨rfl, rfl⟩ := WalkM.pure_eq_ok ran
          exact ⟨remembers, remembers _ _ told⟩
        | none =>
          rw [told] at ran
          obtain ⟨entered, inside, enters, ran⟩ := WalkM.bind_eq_ok ran
          have still := remembers.of_known (enter_known enters)
          split at ran
          · obtain ⟨rfl, rfl⟩ := WalkM.pure_eq_ok ran
            exact ⟨still, Walk.right_undecided _ _⟩
          · obtain ⟨answer, walked, kind, ran⟩ := WalkM.bind_eq_ok ran
            obtain ⟨learnt, right⟩ := walkKind_answers reads (walkMember_answers reads fuel)
              object member depth _ _ _ still kind
            rw [leave, WalkM.modify_bind] at ran
            obtain ⟨rfl, rfl⟩ := WalkM.pure_eq_ok ran
            exact ⟨learnt.leave right rfl, right⟩

theorem readsFrom_ofKept (schema : CompiledSchema) (subject : ObjectRef) (deadline : Instant)
    (bounds : Bounds) (now : Nat → Instant) (failures : Nat → Option StorageError) :
    Question.ReadsFrom ⟨schema, subject, deadline, bounds, .ofKept kept now failures⟩ kept := by
  intro reading object relation limit subjects answered
  simp only [Surroundings.ofKept] at answered
  split at answered
  · cases answered
  · exact (Except.ok.inj answered).symm

/-- The answer of a whole walk is right. -/
theorem walkRelations_right (reads : asked.ReadsFrom kept) {object : ObjectRef} {member : String}
    {walk : Walk} (answered : walkRelations asked object member = .ok walk) :
    walk.Right ((object, member) ∈ asked.stands kept) := by
  unfold walkRelations at answered
  cases walked : walkMember asked (asked.bounds.maxDepth + 2) object member 0 Walker.start with
  | error stop => rw [walked] at answered; cases answered
  | ok ended =>
    rw [walked] at answered
    obtain rfl : ended.1 = walk := Except.ok.inj answered
    have nothing : Walker.start.Remembers asked kept := by
      intro key walk found
      simp [Walker.find, Walker.start] at found
    exact (walkMember_answers reads _ object member 0 _ ended.2 ended.1 nothing walked).2

end Walking

section Fuel

/-- A computation stops without an answer only where the storage failed: it
never runs out of fuel. -/
def StopsByStorage (asked : Question) {α : Type} (computation : WalkM α) : Prop :=
  ∀ walker stop, computation walker = .error stop → ∃ error, stop = .storage error ∧
    ∃ reading object relation limit,
      asked.around.listRelationSubjects reading object relation limit = .error error

variable {asked : Question}

theorem stops_pure {α : Type} (value : α) : StopsByStorage asked (pure value : WalkM α) := by
  rintro walker stop ⟨⟩

theorem stops_bind {α β : Type} {first : WalkM α} {next : α → WalkM β} (start : StopsByStorage asked first)
    (rest : ∀ value, StopsByStorage asked (next value)) : StopsByStorage asked (first >>= next) := by
  intro walker stop ran
  change WalkM.bind first next walker = _ at ran
  unfold WalkM.bind at ran
  split at ran
  · next value after _ => exact rest value after stop ran
  · next why stopped =>
    obtain rfl := Except.error.inj ran
    exact start walker _ stopped

theorem stops_read : StopsByStorage asked WalkM.read := by
  rintro walker stop ⟨⟩

theorem stops_modify (change : Walker → Walker) : StopsByStorage asked (WalkM.modify change) := by
  rintro walker stop ⟨⟩

theorem stops_checkTime : StopsByStorage asked (checkTime asked) :=
  stops_bind stops_read fun _ => stops_bind (stops_modify _) fun _ => stops_pure _

theorem stops_listRelationSubjects (object : ObjectRef) (relation : String) (limit : Nat) :
    StopsByStorage asked (listRelationSubjects asked object relation limit) := by
  refine stops_bind stops_read fun walker => stops_bind (stops_modify _) fun _ => ?_
  split
  · exact stops_pure _
  · next error failed =>
    rintro walker stop ⟨⟩
    exact ⟨error, rfl, _, _, _, _, failed⟩

theorem stops_readSubjects (object : ObjectRef) (relation : String) :
    StopsByStorage asked (readSubjects asked object relation) := by
  refine stops_bind (stops_modify _) fun _ => stops_bind stops_read fun walker => ?_
  split
  · exact stops_pure _
  · refine stops_bind stops_checkTime fun early => ?_
    split
    · exact stops_pure _
    · refine stops_bind (stops_listRelationSubjects object relation _) fun subjects => ?_
      split
      · exact stops_pure _
      · refine stops_bind stops_checkTime fun late => ?_
        split <;> exact stops_pure _

theorem stops_walkEach {α : Type} {enter : α → WalkM Walk} (enters : ∀ next, StopsByStorage asked (enter next)) :
    ∀ (list : List α) (walks : List Walk), StopsByStorage asked (walkEach enter list walks)
  | [], _ => stops_pure _
  | next :: rest, walks => by
    refine stops_bind (enters next) fun walk => ?_
    split
    · exact stops_pure _
    · exact stops_walkEach enters rest _

variable {enter : ObjectRef → String → Nat → WalkM Walk} {depth : Nat}

theorem stops_walkRelation (enters : ∀ object member, StopsByStorage asked (enter object member (depth + 1)))
    (object : ObjectRef) (relation : String) :
    StopsByStorage asked (walkRelation enter asked object relation depth) := by
  unfold walkRelation
  split
  · refine stops_bind (stops_readSubjects object relation) fun subjects => ?_
    split
    · exact stops_pure _
    · simp only
      split
      · exact stops_pure _
      · exact stops_walkEach (fun named : ObjectRef × String => enters named.1 named.2) _ _
  · exact stops_pure _

theorem stops_walkArrow (enters : ∀ object member, StopsByStorage asked (enter object member (depth + 1)))
    (object : ObjectRef) (relation member : String) :
    StopsByStorage asked (walkArrow enter asked object relation member depth) := by
  unfold walkArrow
  split
  · refine stops_bind (stops_readSubjects object relation) fun subjects => ?_
    split
    · exact stops_pure _
    · exact stops_walkEach (fun next => enters next member) _ _
  · exact stops_pure _

mutual

theorem stops_walkRule (object : ObjectRef) :
    ∀ (rule : Rule) (depth : Nat),
      (∀ deeper, depth < deeper → ∀ object member, StopsByStorage asked (enter object member deeper)) →
      StopsByStorage asked (walkRule enter asked object rule depth)
  | .computed member, depth, enters => by
    rw [walkRule]
    exact enters _ (by omega) object member
  | .arrow relation member, depth, enters => by
    rw [walkRule]
    exact stops_walkArrow (enters _ (by omega)) object relation member
  | .union rules, depth, enters => by
    rw [walkRule]
    exact stops_walkSum object rules (depth + 1) [] fun deeper below => enters deeper (by omega)
  | .intersection [], _, _ => by
    rw [walkRule]
    exact stops_pure _
  | .intersection (rule :: rules), depth, enters => by
    rw [walkRule]
    exact stops_walkIntersection object (rule :: rules) (depth + 1) none
      fun deeper below => enters deeper (by omega)

theorem stops_walkSum (object : ObjectRef) :
    ∀ (rules : List Rule) (depth : Nat) (walks : List Walk),
      (∀ deeper, depth < deeper → ∀ object member, StopsByStorage asked (enter object member deeper)) →
      StopsByStorage asked (walkSum enter asked object rules depth walks)
  | [], _, _, _ => by
    rw [walkSum]
    exact stops_pure _
  | rule :: rules, depth, walks, enters => by
    rw [walkSum]
    refine stops_bind (stops_walkRule object rule depth enters) fun walk => ?_
    split
    · exact stops_pure _
    · exact stops_walkSum object rules depth _ enters

theorem stops_walkIntersection (object : ObjectRef) :
    ∀ (rules : List Rule) (depth : Nat) (undecided : Option WalkLimit),
      (∀ deeper, depth < deeper → ∀ object member, StopsByStorage asked (enter object member deeper)) →
      StopsByStorage asked (walkIntersection enter asked object rules depth undecided)
  | [], _, _, _ => by
    rw [walkIntersection]
    exact stops_pure _
  | rule :: rules, depth, undecided, enters => by
    rw [walkIntersection]
    refine stops_bind (stops_walkRule object rule depth enters) fun walk => ?_
    cases walk with
    | notFound => exact stops_pure _
    | undecided limit => exact stops_walkIntersection object rules depth _ enters
    | found => exact stops_walkIntersection object rules depth _ enters

end

/-- The depth bound ends a walk before its fuel does. -/
theorem stops_walkMember :
    ∀ (fuel : Nat) (object : ObjectRef) (member : String) (depth : Nat),
      asked.bounds.maxDepth + 2 ≤ fuel + depth → 0 < fuel →
      StopsByStorage asked (walkMember asked fuel object member depth)
  | fuel + 1, object, member, depth, enough, _ => by
    unfold walkMember
    refine stops_bind (stops_modify _) fun _ => stops_bind stops_read fun walker => ?_
    split
    · exact stops_pure _
    refine stops_bind stops_checkTime fun late => ?_
    split
    · exact stops_pure _
    split
    · exact stops_pure _
    next shallow =>
    refine stops_bind stops_read fun walker => ?_
    split
    · exact stops_pure _
    refine stops_bind ?_ fun entered => ?_
    · refine stops_bind stops_read fun walker => ?_
      split
      · exact stops_pure _
      · exact stops_bind (stops_modify _) fun _ => stops_pure _
    split
    · exact stops_pure _
    have enters : ∀ deeper, depth < deeper → ∀ object member,
        StopsByStorage asked (walkMember asked fuel object member deeper) := fun deeper below object member =>
      stops_walkMember fuel object member deeper (by omega) (by omega)
    refine stops_bind ?_ fun walk => stops_bind (stops_modify _) fun _ => stops_pure _
    unfold walkKind
    split
    · exact stops_pure _
    · exact stops_walkRelation (enters _ (by omega)) object member
    · exact stops_walkRule object _ depth enters

/-- A walk with a storage that answers always answers. -/
theorem walkRelations_stops {object : ObjectRef} {member : String} {stop : WalkStop}
    (stopped : walkRelations asked object member = .error stop) :
    ∃ error, stop = .storage error ∧ ∃ reading object relation limit,
      asked.around.listRelationSubjects reading object relation limit = .error error := by
  unfold walkRelations at stopped
  cases walked : walkMember asked (asked.bounds.maxDepth + 2) object member 0 Walker.start with
  | error why =>
    rw [walked] at stopped
    obtain rfl : why = stop := Except.error.inj stopped
    exact stops_walkMember (asked.bounds.maxDepth + 2) object member 0 (by omega) (by omega) _ _
      walked
  | ok ended => rw [walked] at stopped; cases stopped

end Fuel

/-- Whatever the schema, the relations kept, the clock, the failures of the
storage and the bounds, a walk that answers `found` or `notFound` agrees with
the least fixed point over the relations the schema admits; and two walks
that differ, differ by what one of them could not tell. -/
theorem walkRelations_agrees_with_stands (schema : CompiledSchema) (kept : List RelationTuple)
    (subject object : ObjectRef) (member : String) (deadline : Instant) (bounds : Bounds)
    (now : Nat → Instant) (failures : Nat → Option StorageError) (walk : Walk)
    (answered : walkRelations ⟨schema, subject, deadline, bounds, .ofKept kept now failures⟩
      object member = .ok walk) :
    (walk = .found → (object, member) ∈ schema.stands (schema.admitted {tuple | tuple ∈ kept})
      subject) ∧
    (walk = .notFound → (object, member) ∉ schema.stands (schema.admitted {tuple | tuple ∈ kept})
      subject) ∧
    ∀ (otherDeadline : Instant) (otherBounds : Bounds) (otherNow : Nat → Instant)
      (otherFailures : Nat → Option StorageError) (other : Walk),
      walkRelations ⟨schema, subject, otherDeadline, otherBounds,
        .ofKept kept otherNow otherFailures⟩ object member = .ok other →
      other = walk ∨ (∃ limit, walk = .undecided limit) ∨ ∃ limit, other = .undecided limit := by
  rw [CompiledSchema.stands_admitted]
  have right := walkRelations_right (readsFrom_ofKept schema subject deadline bounds now failures)
    answered
  refine ⟨right.1, right.2, ?_⟩
  intro otherDeadline otherBounds otherNow otherFailures other otherAnswered
  have otherRight := walkRelations_right
    (readsFrom_ofKept schema subject otherDeadline otherBounds otherNow otherFailures) otherAnswered
  cases walk with
  | undecided limit => exact Or.inr (Or.inl ⟨limit, rfl⟩)
  | found =>
    cases other with
    | undecided limit => exact Or.inr (Or.inr ⟨limit, rfl⟩)
    | found => exact Or.inl rfl
    | notFound => exact absurd (right.1 rfl) (otherRight.2 rfl)
  | notFound =>
    cases other with
    | undecided limit => exact Or.inr (Or.inr ⟨limit, rfl⟩)
    | found => exact absurd (otherRight.1 rfl) (right.2 rfl)
    | notFound => exact Or.inl rfl

/-- Folders whose viewers are users and the viewers of other folders. -/
def folderSchema : CompiledSchema where
  version := COMPILED_VERSION
  types := (SortedMap.empty.insert "user" ObjectType.default).insert "folder"
    { relations := SortedMap.empty.insert "viewer" [⟨"folder", some "viewer"⟩, ⟨"user", none⟩]
      permissions := .empty }

/-- Two folders that share their viewers in a loop, one of them with a user. -/
def loopedFolders : List RelationTuple :=
  [⟨⟨"folder", "a"⟩, "viewer", ⟨⟨"folder", "b"⟩, some "viewer"⟩⟩,
    ⟨⟨"folder", "b"⟩, "viewer", ⟨⟨"folder", "a"⟩, some "viewer"⟩⟩,
    ⟨⟨"folder", "b"⟩, "viewer", ⟨⟨"user", "u"⟩, none⟩⟩]

/-- Around the loop of folders the walk finds the user it should. -/
theorem looped_folders_agree :
    walkRelations ⟨folderSchema, ⟨"user", "u"⟩, MAX_DURATION, .ofSource,
      .ofKept loopedFolders (fun _ => 0) (fun _ => none)⟩ ⟨"folder", "a"⟩ "viewer" = .ok .found ∧
    ((⟨"folder", "a"⟩, "viewer") : Place) ∈ folderSchema.stands
      (folderSchema.admitted {tuple | tuple ∈ loopedFolders}) ⟨"user", "u"⟩ := by
  have found : walkRelations ⟨folderSchema, ⟨"user", "u"⟩, MAX_DURATION, .ofSource,
      .ofKept loopedFolders (fun _ => 0) (fun _ => none)⟩ ⟨"folder", "a"⟩ "viewer" = .ok .found := by
    decide +kernel
  exact ⟨found, (walkRelations_agrees_with_stands _ _ _ _ _ _ _ _ _ _ found).1 rfl⟩

end Saffui.Authz.Relations
