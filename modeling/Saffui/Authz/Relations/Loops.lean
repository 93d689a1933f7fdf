import Saffui.Authz.Relations.Limits
import Saffui.Authz.Relations.SchemaMeaning

/-!
# A walk comes back only around a loop of relations

What is being walked is a chain: each member was entered from the one below,
as a member its rule is computed from on the same object, or along a relation
kept and admitted. A compiled schema has no permission computed from itself,
so a chain that comes back to a member leaves its object on the way, and the
relations it went along form a loop of objects.
-/

namespace Saffui.Authz.Relations
open Saffui.Foundation Relation

section Chains

variable (schema : CompiledSchema) (kept : Set RelationTuple)

/-- A relation kept, of those the schema admits, leads from an object to the
object of its subject. -/
def CompiledSchema.relates (object next : ObjectRef) : Prop :=
  ∃ tuple ∈ schema.admitted kept, tuple.object = object ∧ tuple.subject.object = next

/-- A permission of a type is computed from a member of the same object. -/
def CompiledSchema.computes (objectType permission member : String) : Prop :=
  ∃ rule, schema.findMember objectType permission = some (.permission rule) ∧
    member ∈ rule.collect

/-- How a walk goes from one member to another. -/
inductive CompiledSchema.Enters : Place → Place → Prop where
  | computed {object : ObjectRef} {member next : String}
      (computes : schema.computes object.objectType member next) : Enters (object, member) (object, next)
  | related {object target : ObjectRef} {member next : String}
      (relates : schema.relates kept object target) : Enters (object, member) (target, next)

variable {schema kept}

/-- A way between members leaves the object along relations, or stays on it
along what its permissions are computed from. -/
theorem CompiledSchema.leaves_or_computes {place next : Place}
    (way : TransGen (schema.Enters kept) place next) :
    TransGen (schema.relates kept) place.1 next.1 ∨
      (place.1 = next.1 ∧ TransGen (schema.computes place.1.objectType) place.2 next.2) := by
  induction way with
  | single first =>
    cases first with
    | computed computes => exact Or.inr ⟨rfl, .single computes⟩
    | related relates => exact Or.inl (.single relates)
  | tail _ last ih =>
    cases last with
    | computed computes =>
      rcases ih with left | ⟨same, computed⟩
      · exact Or.inl left
      · exact Or.inr ⟨same, computed.tail (same ▸ computes)⟩
    | related relates =>
      rcases ih with left | ⟨same, _⟩
      · exact Or.inl (left.tail relates)
      · exact Or.inl (.single (same ▸ relates))

/-- Where no permission computes itself, a way back goes around objects. -/
theorem CompiledSchema.relates_around
    (acyclic : ∀ objectType member, ¬ TransGen (schema.computes objectType) member member)
    {place : Place} (way : TransGen (schema.Enters kept) place place) :
    TransGen (schema.relates kept) place.1 place.1 := by
  rcases CompiledSchema.leaves_or_computes way with left | ⟨-, computed⟩
  · exact left
  · exact absurd computed (acyclic _ _)

/-- The members being walked, the last entered first. -/
def CompiledSchema.Chained (schema : CompiledSchema) (kept : Set RelationTuple)
    (walking : List Place) : Prop :=
  walking.IsChain fun next place => schema.Enters kept place next

theorem CompiledSchema.Chained.way {walking : List Place} {last : Place}
    (chained : schema.Chained kept (last :: walking)) {place : Place}
    (inside : place ∈ last :: walking) : ReflTransGen (schema.Enters kept) place last := by
  induction walking generalizing last with
  | nil =>
    obtain rfl := List.mem_singleton.mp inside
    exact .refl
  | cons below walking ih =>
    have parts := List.isChain_cons_cons.mp chained
    rcases List.mem_cons.mp inside with rfl | deeper
    · exact .refl
    · exact (ih parts.2 deeper).tail parts.1

end Chains

/-- No permission of a compiled schema is computed from itself. -/
theorem compileSchema_acyclic {source : String} {schema : CompiledSchema}
    (compiled : compileSchema source = .ok schema) (objectType member : String) :
    ¬ TransGen (schema.computes objectType) member member := by
  obtain ⟨-, tokens, written, -, -, formed, rfl, -⟩ :=
    (compileSchema_eq_ok_iff source schema).mp compiled
  intro around
  by_cases declared : ∃ type ∈ written, type.name = objectType
  · obtain ⟨type, inside, named⟩ := declared
    refine formed.acyclic type inside member (TransGen.mono ?_ _ _ around)
    rintro permission next ⟨rule, found, computed⟩
    obtain ⟨formula, ⟨other, there, same, clause⟩, rfl⟩ :=
      (AbstractSchema.findMember_permission_iff formed _ _ _).mp found
    obtain rfl := formed.type_unique there inside (same.trans named.symm)
    exact ⟨formula, clause, (mem_collect_rule _ _).mp computed⟩
  · obtain ⟨next, ⟨rule, found, -⟩, -⟩ := TransGen.head'_iff.mp around
    obtain ⟨formula, ⟨type, inside, named, -⟩, -⟩ :=
      (AbstractSchema.findMember_permission_iff formed _ _ _).mp found
    exact declared ⟨type, inside, named⟩

/-- The loops of a walk, alone. -/
def isLoop (limit : WalkLimit) : Bool := limit = .cycle

/-- No member is known as cut by a loop. -/
def Walker.LoopFree (walker : Walker) : Prop :=
  ∀ place, walker.find place ≠ some (.undecided .cycle)

/-- From where `walking` is being walked, a computation watched for loops does
what it does unwatched, comes back to there, and answers what is `good`. -/
def Straight {α : Type} (walking : List Place) (good : α → Prop) (watched plain : WalkM α) : Prop :=
  ∀ before, before.walking = walking → before.LoopFree →
    watched before = plain before ∧ ∀ value after, plain before = .ok (value, after) →
      after.walking = walking ∧ after.LoopFree ∧ good value

/-- An answer that is not the one of a loop. -/
def Uncut (walk : Walk) : Prop := walk ≠ .undecided .cycle

section Straight

variable {walking : List Place} {asked : Question} {kept : List RelationTuple}

theorem straight_pure {α : Type} {good : α → Prop} {value : α} (fine : good value) :
    Straight walking good (pure value) (pure value) := by
  intro before walked free
  refine ⟨rfl, fun answer after ran => ?_⟩
  obtain ⟨rfl, rfl⟩ := WalkM.pure_eq_ok ran
  exact ⟨walked, free, fine⟩

theorem Straight.bind {α β : Type} {middle : α → Prop} {good : β → Prop} {first second : WalkM α}
    {next rest : α → WalkM β} (here : Straight walking middle first second)
    (there : ∀ value, middle value → Straight walking good (next value) (rest value)) :
    Straight walking good (first >>= next) (second >>= rest) := by
  intro before walked free
  obtain ⟨same, kept⟩ := here before walked free
  constructor
  · change WalkM.bind first next before = WalkM.bind second rest before
    unfold WalkM.bind
    rw [same]
    split
    · next value after ran =>
      obtain ⟨still, clean, fine⟩ := kept value after ran
      exact (there value fine after still clean).1
    · rfl
  · intro value after ran
    obtain ⟨between, state, started, ran⟩ := WalkM.bind_eq_ok ran
    obtain ⟨still, clean, fine⟩ := kept between state started
    exact (there between fine state still clean).2 value after ran

theorem straight_watchLimit {limit : WalkLimit} (apart : limit ≠ .cycle) :
    Straight walking Uncut (watchLimit isLoop limit) (pure (.undecided limit)) := by
  have unwatched : watchLimit isLoop limit = pure (.undecided limit) := by
    simp [watchLimit, isLoop, apart]
  rw [unwatched]
  exact straight_pure (by simpa [Uncut] using apart)

private theorem foldUnion_go_uncut :
    ∀ (walks : List Walk) (undecided : Option WalkLimit), undecided ≠ some .cycle →
      (∀ walk ∈ walks, Uncut walk) → Uncut (foldUnion.go undecided walks)
  | [], undecided, apart, _ => by
    cases undecided with
    | none => simp [foldUnion.go, Uncut]
    | some limit => simpa [foldUnion.go, Uncut] using apart
  | .found :: _, _, _, _ => by simp [foldUnion.go, Uncut]
  | .undecided limit :: rest, _, _, uncut =>
    foldUnion_go_uncut rest (some limit) (by simpa [Uncut] using uncut (.undecided limit) (by simp))
      fun walk inside => uncut walk (by simp [inside])
  | .notFound :: rest, undecided, apart, uncut =>
    foldUnion_go_uncut rest undecided apart fun walk inside => uncut walk (by simp [inside])

theorem foldUnion_uncut {walks : List Walk} (uncut : ∀ walk ∈ walks, Uncut walk) :
    Uncut (foldUnion walks) :=
  foldUnion_go_uncut walks none (by simp) uncut

theorem straight_walkEach {α : Type} {enter other : α → WalkM Walk} :
    ∀ list : List α, (∀ next ∈ list, Straight walking Uncut (enter next) (other next)) →
      ∀ walks : List Walk, (∀ walk ∈ walks, Uncut walk) →
      Straight walking Uncut (walkEach enter list walks) (walkEach other list walks)
  | [], _, walks, uncut => straight_pure (foldUnion_uncut uncut)
  | next :: rest, each, walks, uncut => by
    apply Straight.bind (each next (by simp))
    intro walk fine
    split
    · exact straight_pure (by simp [Uncut])
    · apply straight_walkEach rest fun one inside => each one (List.mem_cons_of_mem _ inside)
      intro one inside
      rcases List.mem_append.mp inside with earlier | last
      · exact uncut one earlier
      · rwa [List.mem_singleton.mp last]

theorem straight_readSubjects (reads : asked.ReadsFrom kept) (object : ObjectRef)
    (relation : String) :
    Straight walking (fun subjects => subjects ≠ .bound .cycle ∧
        ∀ read, subjects = .read read → read = listKept kept object relation)
      (readSubjects asked object relation) (readSubjects asked object relation) := by
  intro before walked free
  refine ⟨rfl, fun subjects after ran => ?_⟩
  obtain ⟨known, all⟩ := readSubjects_ok reads ran
  obtain ⟨unchanged, straight⟩ := readSubjects_walking ran
  refine ⟨unchanged.trans walked, ?_, straight, all⟩
  intro place
  rw [Walker.find, known]
  exact free place

theorem straight_checkTime :
    Straight walking (fun limit => ∀ met ∈ limit, met = WalkLimit.duration)
      (checkTime asked) (checkTime asked) := by
  intro before walked free
  refine ⟨rfl, fun limit after ran => ?_⟩
  obtain ⟨unchanged, late⟩ := checkTime_walking ran
  refine ⟨unchanged.trans walked, ?_, late⟩
  intro place
  rw [Walker.find, checkTime_known ran]
  exact free place

variable {watched plain : ObjectRef → String → Nat → WalkM Walk} {object : ObjectRef}
  {member : String}
  (reads : asked.ReadsFrom kept)
  (enters : ∀ target next depth,
    asked.schema.Enters {tuple | tuple ∈ kept} (object, member) (target, next) →
    Straight walking Uncut (watched target next depth) (plain target next depth))
include reads enters

/-- A relation is walked along relations kept and admitted. -/
theorem straight_watchRelation (relation : String) (depth : Nat) :
    Straight walking Uncut (watchRelation isLoop watched asked object relation depth)
      (walkRelation plain asked object relation depth) := by
  unfold watchRelation walkRelation
  cases found : asked.schema.findMember object.objectType relation with
  | none => exact straight_pure (by simp [Uncut])
  | some kind =>
    cases kind with
    | permission rule => exact straight_pure (by simp [Uncut])
    | relation allowed =>
      apply Straight.bind (straight_readSubjects reads object relation)
      rintro (subjects | limit) ⟨apart, all⟩
      · simp only
        split
        · exact straight_pure (by simp [Uncut])
        · apply straight_walkEach _ _ _ (by simp)
          intro named inside
          apply enters
          rw [all subjects rfl, mem_listMembers_iff, List.mem_filter, mem_listKept_iff,
            admits_iff] at inside
          exact .related ⟨_, (CompiledSchema.mem_admitted_iff found inside.2).mpr inside.1, rfl, rfl⟩
      · exact straight_watchLimit (by simpa using apart)

theorem straight_watchArrow (relation next : String) (depth : Nat) :
    Straight walking Uncut (watchArrow isLoop watched asked object relation next depth)
      (walkArrow plain asked object relation next depth) := by
  unfold watchArrow walkArrow
  cases found : asked.schema.findMember object.objectType relation with
  | none => exact straight_pure (by simp [Uncut])
  | some kind =>
    cases kind with
    | permission rule => exact straight_pure (by simp [Uncut])
    | relation allowed =>
      apply Straight.bind (straight_readSubjects reads object relation)
      rintro (subjects | limit) ⟨apart, all⟩
      · apply straight_walkEach _ _ _ (by simp)
        intro target inside
        apply enters
        rw [all subjects rfl, mem_listObjects_iff] at inside
        exact .related ⟨_, (CompiledSchema.mem_admitted_iff found inside.2).mpr inside.1, rfl, rfl⟩
      · exact straight_watchLimit (by simpa using apart)

set_option linter.unusedSectionVars false

mutual

theorem straight_watchRule :
    ∀ rule : Rule, (∀ next ∈ rule.collect, asked.schema.computes object.objectType member next) →
      ∀ depth, Straight walking Uncut (watchRule isLoop watched asked object rule depth)
        (walkRule plain asked object rule depth)
  | .computed next, computes, depth => by
    rw [watchRule, walkRule]
    exact enters object next (depth + 1) (.computed (computes next (by simp [Rule.collect])))
  | .arrow relation next, _, depth => by
    rw [watchRule, walkRule]
    exact straight_watchArrow reads enters relation next depth
  | .union rules, computes, depth => by
    rw [watchRule, walkRule]
    exact straight_watchSum rules computes (depth + 1) [] (by simp)
  | .intersection [], _, _ => by
    rw [watchRule, walkRule]
    exact straight_pure (by simp [Uncut])
  | .intersection (rule :: rules), computes, depth => by
    rw [watchRule, walkRule]
    exact straight_watchIntersection (rule :: rules) computes (depth + 1) none (by simp)

theorem straight_watchSum :
    ∀ rules : List Rule, (∀ next ∈ Rule.collectAll rules,
      asked.schema.computes object.objectType member next) →
      ∀ depth walks, (∀ walk ∈ walks, Uncut walk) →
      Straight walking Uncut (watchSum isLoop watched asked object rules depth walks)
        (walkSum plain asked object rules depth walks)
  | [], _, _, walks, uncut => by
    rw [watchSum, walkSum]
    exact straight_pure (foldUnion_uncut uncut)
  | rule :: rules, computes, depth, walks, uncut => by
    rw [watchSum, walkSum]
    obtain ⟨here, there⟩ := List.forall_mem_append.mp computes
    apply Straight.bind (straight_watchRule rule here depth)
    intro walk fine
    split
    · exact straight_pure (by simp [Uncut])
    · apply straight_watchSum rules there depth
      intro one inside
      rcases List.mem_append.mp inside with earlier | last
      · exact uncut one earlier
      · rwa [List.mem_singleton.mp last]

theorem straight_watchIntersection :
    ∀ rules : List Rule, (∀ next ∈ Rule.collectAll rules,
      asked.schema.computes object.objectType member next) →
      ∀ depth undecided, undecided ≠ some .cycle →
      Straight walking Uncut (watchIntersection isLoop watched asked object rules depth undecided)
        (walkIntersection plain asked object rules depth undecided)
  | [], _, _, undecided, apart => by
    rw [watchIntersection, walkIntersection]
    cases undecided with
    | none => exact straight_pure (by simp [Uncut])
    | some limit => exact straight_pure (by simpa [Uncut] using apart)
  | rule :: rules, computes, depth, undecided, apart => by
    rw [watchIntersection, walkIntersection]
    obtain ⟨here, there⟩ := List.forall_mem_append.mp computes
    apply Straight.bind (straight_watchRule rule here depth)
    intro walk fine
    cases walk with
    | notFound => exact straight_pure (by simp [Uncut])
    | undecided limit =>
      exact straight_watchIntersection rules there depth _ (by simpa [Uncut] using fine)
    | found => exact straight_watchIntersection rules there depth _ apart

end

theorem straight_watchKind (depth : Nat) :
    Straight walking Uncut (watchKind isLoop watched asked object member depth)
      (walkKind plain asked object member depth) := by
  unfold watchKind walkKind
  cases found : asked.schema.findMember object.objectType member with
  | none => exact straight_pure (by simp [Uncut])
  | some kind =>
    cases kind with
    | relation allowed => exact straight_watchRelation reads enters member depth
    | permission rule =>
      exact straight_watchRule reads enters rule (fun next inside => ⟨rule, found, inside⟩) depth

omit reads enters

theorem straight_read : Straight walking (fun walker => walker.LoopFree) WalkM.read WalkM.read := by
  intro before walked free
  refine ⟨rfl, ?_⟩
  rintro value after ⟨⟩
  exact ⟨walked, free, free⟩

theorem straight_step : Straight walking (fun _ => True)
    (WalkM.modify fun walker => { walker with steps := walker.steps + 1 })
    (WalkM.modify fun walker => { walker with steps := walker.steps + 1 }) := by
  intro before walked free
  refine ⟨rfl, ?_⟩
  rintro value after ⟨⟩
  exact ⟨walked, free, trivial⟩

/-- A member that is not being walked is entered, walked on top of what is,
and left. -/
theorem straight_enter {place : Place} (fresh : place ∉ walking) {watched plain cut other : WalkM Walk}
    (inside : Straight (place :: walking) Uncut watched plain) :
    Straight walking Uncut
      (do if !(← enter place) then cut
          else do
            let walk ← watched
            leave place walk
            return walk)
      (do if !(← enter place) then other
          else do
            let walk ← plain
            leave place walk
            return walk) := by
  rintro before rfl free
  rw [enter_bind, enter_bind, if_neg fresh, if_neg fresh]
  obtain ⟨same, kept⟩ := inside { before with walking := place :: before.walking } rfl free
  constructor
  · change WalkM.bind watched _ _ = WalkM.bind plain _ _
    unfold WalkM.bind
    rw [same]
  · intro value after ran
    obtain ⟨walk, walked, started, ran⟩ := WalkM.bind_eq_ok ran
    obtain ⟨still, clean, fine⟩ := kept walk walked started
    rw [leave_bind] at ran
    obtain ⟨rfl, rfl⟩ := WalkM.pure_eq_ok ran
    refine ⟨by simp [still], ?_, fine⟩
    intro one told
    rw [Walker.find, List.lookup_cons] at told
    split at told
    · exact fine (Option.some.inj told)
    · exact clean one told

/-- Where the relations form no loop of objects, no member is met while it is
being walked. -/
theorem straight_watchMember (reads : asked.ReadsFrom kept)
    (acyclic : ∀ objectType member, ¬ TransGen (asked.schema.computes objectType) member member)
    (open_ended : ∀ object, ¬ TransGen (asked.schema.relates {tuple | tuple ∈ kept}) object object) :
    ∀ (fuel : Nat) (object : ObjectRef) (member : String) (depth : Nat) (walking : List Place),
      asked.schema.Chained {tuple | tuple ∈ kept} ((object, member) :: walking) →
      Straight walking Uncut (watchMember isLoop asked fuel object member depth)
        (walkMember asked fuel object member depth)
  | 0, _, _, _, _, _ => by
    intro before _ _
    refine ⟨rfl, ?_⟩
    rintro value after ⟨⟩
  | fuel + 1, object, member, depth, walking, chained => by
    have fresh : (object, member) ∉ walking := by
      intro back
      cases walking with
      | nil => cases back
      | cons last below =>
        have parts := List.isChain_cons_cons.mp chained
        have around : TransGen (asked.schema.Enters {tuple | tuple ∈ kept})
            (object, member) (object, member) :=
          TransGen.tail' (CompiledSchema.Chained.way parts.2 back) parts.1
        exact open_ended object (CompiledSchema.relates_around acyclic around)
    have deeper : ∀ target next depth,
        asked.schema.Enters {tuple | tuple ∈ kept} (object, member) (target, next) →
        Straight ((object, member) :: walking) Uncut (watchMember isLoop asked fuel target next depth)
          (walkMember asked fuel target next depth) := fun target next depth entered =>
      straight_watchMember reads acyclic open_ended fuel target next depth _
        (List.isChain_cons_cons.mpr ⟨entered, chained⟩)
    unfold watchMember walkMember
    apply Straight.bind straight_step
    intro _ _
    apply Straight.bind straight_read
    intro walker free
    split
    · exact straight_watchLimit (by decide)
    apply Straight.bind straight_checkTime
    intro late timed
    cases late with
    | some limit => exact straight_watchLimit (by rw [timed limit rfl]; decide)
    | none =>
      simp only
      split
      · exact straight_watchLimit (by decide)
      apply Straight.bind straight_read
      intro walker free
      cases told : walker.find (object, member) with
      | some known => exact straight_pure fun cut => free _ (cut ▸ told)
      | none => exact straight_enter fresh (straight_watchKind reads deeper depth)

end Straight

/-- A walk over a compiled schema meets a loop only where the relations kept,
of those the schema admits, lead from an object back to it. -/
theorem compiled_walk_loops_only_around_objects (source : String) (schema : CompiledSchema)
    (kept : List RelationTuple) (subject object : ObjectRef) (member : String) (deadline : Instant)
    (bounds : Bounds) (now : Nat → Instant) (failures : Nat → Option StorageError)
    (compiled : compileSchema source = .ok schema)
    (looped : Question.Meets ⟨schema, subject, deadline, bounds, .ofKept kept now failures⟩
        isLoop object member ∨
      walkRelations ⟨schema, subject, deadline, bounds, .ofKept kept now failures⟩ object member =
        .ok (.undecided .cycle)) :
    ∃ around, TransGen (schema.relates {tuple | tuple ∈ kept}) around around := by
  by_contra none_around
  have reads := @readsFrom_ofKept kept schema subject deadline bounds now failures
  have straight := straight_watchMember reads (compileSchema_acyclic compiled)
    (fun object around => none_around ⟨object, around⟩) (bounds.maxDepth + 2) object member 0 []
    (.singleton _) Walker.start rfl (by simp [Walker.LoopFree, Walker.find, Walker.start])
  rcases looped with stopped | answered
  · have unfuelled : walkRelations ⟨schema, subject, deadline, bounds, .ofKept kept now failures⟩
        object member = .error .outOfFuel := by
      unfold walkRelations
      rw [← straight.1, stopped]
      rfl
    obtain ⟨error, impossible, -⟩ := walkRelations_stops unfuelled
    cases impossible
  · unfold walkRelations at answered
    cases walked : walkMember ⟨schema, subject, deadline, bounds, .ofKept kept now failures⟩
        (bounds.maxDepth + 2) object member 0 Walker.start with
    | error stop => rw [walked] at answered; cases answered
    | ok ended =>
      rw [walked] at answered
      exact (straight.2 ended.1 ended.2 walked).2.2 (Except.ok.inj answered)

/-- Folders that may be viewed by the viewers of other folders. -/
def folderText : String :=
  "definition user \x7b\x7d\ndefinition folder \x7b\nrelation viewer: user | folder#viewer\n\x7d"

/-- Two folders that share their viewers in a loop are one of objects. -/
theorem folderText_loops : ∃ schema, compileSchema folderText = .ok schema ∧
    ∃ around, TransGen (schema.relates {tuple | tuple ∈ loopedFolders}) around around := by
  have compiled : compileSchema folderText = .ok folderSchema := by decide +kernel
  have answered : walkRelations ⟨folderSchema, ⟨"user", "w"⟩, MAX_DURATION, .ofSource,
      .ofKept loopedFolders (fun _ => 0) (fun _ => none)⟩ ⟨"folder", "a"⟩ "viewer" =
      .ok (.undecided .cycle) := by decide +kernel
  exact ⟨folderSchema, compiled, compiled_walk_loops_only_around_objects _ _ _ _ _ _ _ _ _ _
    compiled (Or.inr answered)⟩

end Saffui.Authz.Relations
