import Saffui.Authz.Relations.CheckSound

/-!
# The limits a walk meets

A walk answers `undecided` where it meets a limit, and goes on: a limit met
on one way is forgotten when another way finds the subject. To say which
limits a walk met, the walk is watched: it is the walk of `Check`, but that
it stops where it meets a limit watched for. A walk watched that stops so met
one, as the walk itself never runs out of fuel.
-/

namespace Saffui.Authz.Relations

section Watched

variable (limits : WalkLimit → Bool)

/-- Stops at a limit watched for, and is undecided by another. -/
def watchLimit (limit : WalkLimit) : WalkM Walk :=
  if limits limit then WalkM.stop .outOfFuel else pure (.undecided limit)

def watchRelation (enter : ObjectRef → String → Nat → WalkM Walk) (asked : Question)
    (object : ObjectRef) (relation : String) (depth : Nat) : WalkM Walk := do
  match asked.schema.findMember object.objectType relation with
  | some (.relation allowed) =>
    match ← readSubjects asked object relation with
    | .bound limit => watchLimit limits limit
    | .read subjects =>
      let admitted := subjects.filter (admits allowed)
      if admitted.any (fun named => named.member.isNone && named.object == asked.subject) then
        return .found
      walkEach (fun (named : ObjectRef × String) => enter named.1 named.2 (depth + 1))
        (listMembers admitted) []
  | _ => return .notFound

def watchArrow (enter : ObjectRef → String → Nat → WalkM Walk) (asked : Question)
    (object : ObjectRef) (relation member : String) (depth : Nat) : WalkM Walk := do
  match asked.schema.findMember object.objectType relation with
  | some (.relation allowed) =>
    match ← readSubjects asked object relation with
    | .bound limit => watchLimit limits limit
    | .read subjects =>
      walkEach (fun next => enter next member (depth + 1)) (listObjects allowed subjects) []
  | _ => return .notFound

mutual

def watchRule (enter : ObjectRef → String → Nat → WalkM Walk) (asked : Question)
    (object : ObjectRef) : Rule → Nat → WalkM Walk
  | .computed member, depth => enter object member (depth + 1)
  | .arrow relation member, depth => watchArrow limits enter asked object relation member depth
  | .union rules, depth => watchSum enter asked object rules (depth + 1) []
  | .intersection [], _ => return .notFound
  | .intersection (rule :: rules), depth =>
    watchIntersection enter asked object (rule :: rules) (depth + 1) none

def watchSum (enter : ObjectRef → String → Nat → WalkM Walk) (asked : Question)
    (object : ObjectRef) : List Rule → Nat → List Walk → WalkM Walk
  | [], _, walks => return foldUnion walks
  | rule :: rules, depth, walks => do
    let walk ← watchRule enter asked object rule depth
    if walk = .found then
      return .found
    watchSum enter asked object rules depth (walks ++ [walk])

def watchIntersection (enter : ObjectRef → String → Nat → WalkM Walk) (asked : Question)
    (object : ObjectRef) : List Rule → Nat → Option WalkLimit → WalkM Walk
  | [], _, undecided => return undecided.elim .found .undecided
  | rule :: rules, depth, undecided => do
    match ← watchRule enter asked object rule depth with
    | .notFound => return .notFound
    | .undecided limit => watchIntersection enter asked object rules depth (some limit)
    | .found => watchIntersection enter asked object rules depth undecided

end

def watchKind (enter : ObjectRef → String → Nat → WalkM Walk) (asked : Question)
    (object : ObjectRef) (member : String) (depth : Nat) : WalkM Walk :=
  match asked.schema.findMember object.objectType member with
  | none => pure .notFound
  | some (.relation _) => watchRelation limits enter asked object member depth
  | some (.permission rule) => watchRule limits enter asked object rule depth

def watchMember (asked : Question) : Nat → ObjectRef → String → Nat → WalkM Walk
  | 0, _, _, _ => WalkM.stop .outOfFuel
  | fuel + 1, object, member, depth => do
    WalkM.modify fun walker => { walker with steps := walker.steps + 1 }
    let walker ← WalkM.read
    if walker.steps > asked.bounds.maxSteps then
      watchLimit limits .steps
    else match ← checkTime asked with
    | some limit => watchLimit limits limit
    | none =>
      if depth > asked.bounds.maxDepth then
        watchLimit limits .depth
      else do
        let walker ← WalkM.read
        match walker.find (object, member) with
        | some known => return known
        | none =>
          if !(← enter (object, member)) then
            watchLimit limits .cycle
          else do
            let walk ← watchKind limits (watchMember asked fuel) asked object member depth
            leave (object, member) walk
            return walk

end Watched

/-- A walk meets one of the limits: watched for them, it stops. -/
def Question.Meets (asked : Question) (limits : WalkLimit → Bool) (object : ObjectRef)
    (member : String) : Prop :=
  watchMember limits asked (asked.bounds.maxDepth + 2) object member 0 Walker.start =
    .error .outOfFuel

instance (asked : Question) (limits : WalkLimit → Bool) (object : ObjectRef) (member : String) :
    Decidable (asked.Meets limits object member) := by
  unfold Question.Meets
  infer_instance

/-- A computation watched stops, or does what it does unwatched. -/
def StopsOrSame {α : Type} (watched plain : WalkM α) : Prop :=
  ∀ walker, watched walker = .error .outOfFuel ∨ watched walker = plain walker

section StopsOrSame

variable {limits : WalkLimit → Bool} {asked : Question}
  {watched plain : ObjectRef → String → Nat → WalkM Walk}

theorem StopsOrSame.refl {α : Type} (computation : WalkM α) :
    StopsOrSame computation computation := fun _ => Or.inr rfl

theorem StopsOrSame.bind {α β : Type} {first second : WalkM α} {next rest : α → WalkM β}
    (here : StopsOrSame first second) (there : ∀ value, StopsOrSame (next value) (rest value)) :
    StopsOrSame (first >>= next) (second >>= rest) := by
  intro walker
  change WalkM.bind first next walker = _ ∨ WalkM.bind first next walker = WalkM.bind second rest walker
  unfold WalkM.bind
  rcases here walker with stopped | same
  · exact Or.inl (by rw [stopped])
  · rw [same]
    split
    · exact there _ _
    · exact Or.inr rfl

theorem stopsOrSame_watchLimit (limit : WalkLimit) :
    StopsOrSame (watchLimit limits limit) (pure (.undecided limit)) := by
  unfold watchLimit
  split
  · exact fun _ => Or.inl rfl
  · exact .refl _

theorem stopsOrSame_walkEach {α : Type} {enter other : α → WalkM Walk}
    (each : ∀ next, StopsOrSame (enter next) (other next)) :
    ∀ (list : List α) (walks : List Walk),
      StopsOrSame (walkEach enter list walks) (walkEach other list walks)
  | [], _ => .refl _
  | next :: rest, walks => by
    apply StopsOrSame.bind (each next)
    intro walk
    split
    · exact .refl _
    · exact stopsOrSame_walkEach each rest _

section Entered

variable (enters : ∀ object member depth,
  StopsOrSame (watched object member depth) (plain object member depth))
include enters

theorem stopsOrSame_watchRelation (object : ObjectRef) (relation : String) (depth : Nat) :
    StopsOrSame (watchRelation limits watched asked object relation depth)
      (walkRelation plain asked object relation depth) := by
  unfold watchRelation walkRelation
  cases asked.schema.findMember object.objectType relation with
  | none => exact .refl _
  | some kind =>
    cases kind with
    | permission rule => exact .refl _
    | relation allowed =>
      apply StopsOrSame.bind (.refl _)
      intro subjects
      cases subjects with
      | bound limit => exact stopsOrSame_watchLimit limit
      | read subjects =>
        simp only
        split
        · exact .refl _
        · exact stopsOrSame_walkEach
            (fun named : ObjectRef × String => enters named.1 named.2 (depth + 1)) _ _

theorem stopsOrSame_watchArrow (object : ObjectRef) (relation member : String) (depth : Nat) :
    StopsOrSame (watchArrow limits watched asked object relation member depth)
      (walkArrow plain asked object relation member depth) := by
  unfold watchArrow walkArrow
  cases asked.schema.findMember object.objectType relation with
  | none => exact .refl _
  | some kind =>
    cases kind with
    | permission rule => exact .refl _
    | relation allowed =>
      apply StopsOrSame.bind (.refl _)
      intro subjects
      cases subjects with
      | bound limit => exact stopsOrSame_watchLimit limit
      | read subjects =>
        exact stopsOrSame_walkEach (fun next => enters next member (depth + 1)) _ _

set_option linter.unusedSectionVars false

mutual

theorem stopsOrSame_watchRule (object : ObjectRef) :
    ∀ (rule : Rule) (depth : Nat), StopsOrSame (watchRule limits watched asked object rule depth)
      (walkRule plain asked object rule depth)
  | .computed member, depth => by
    rw [watchRule, walkRule]
    exact enters object member (depth + 1)
  | .arrow relation member, depth => by
    rw [watchRule, walkRule]
    exact stopsOrSame_watchArrow enters object relation member depth
  | .union rules, depth => by
    rw [watchRule, walkRule]
    exact stopsOrSame_watchSum object rules (depth + 1) []
  | .intersection [], _ => by
    rw [watchRule, walkRule]
    exact .refl _
  | .intersection (rule :: rules), depth => by
    rw [watchRule, walkRule]
    exact stopsOrSame_watchIntersection object (rule :: rules) (depth + 1) none

theorem stopsOrSame_watchSum (object : ObjectRef) :
    ∀ (rules : List Rule) (depth : Nat) (walks : List Walk),
      StopsOrSame (watchSum limits watched asked object rules depth walks)
        (walkSum plain asked object rules depth walks)
  | [], _, _ => by
    rw [watchSum, walkSum]
    exact .refl _
  | rule :: rules, depth, walks => by
    rw [watchSum, walkSum]
    apply StopsOrSame.bind (stopsOrSame_watchRule object rule depth)
    intro walk
    split
    · exact .refl _
    · exact stopsOrSame_watchSum object rules depth _

theorem stopsOrSame_watchIntersection (object : ObjectRef) :
    ∀ (rules : List Rule) (depth : Nat) (undecided : Option WalkLimit),
      StopsOrSame (watchIntersection limits watched asked object rules depth undecided)
        (walkIntersection plain asked object rules depth undecided)
  | [], _, _ => by
    rw [watchIntersection, walkIntersection]
    exact .refl _
  | rule :: rules, depth, undecided => by
    rw [watchIntersection, walkIntersection]
    apply StopsOrSame.bind (stopsOrSame_watchRule object rule depth)
    intro walk
    cases walk with
    | notFound => exact .refl _
    | undecided limit => exact stopsOrSame_watchIntersection object rules depth _
    | found => exact stopsOrSame_watchIntersection object rules depth _

end

theorem stopsOrSame_watchKind (object : ObjectRef) (member : String) (depth : Nat) :
    StopsOrSame (watchKind limits watched asked object member depth)
      (walkKind plain asked object member depth) := by
  unfold watchKind walkKind
  cases asked.schema.findMember object.objectType member with
  | none => exact .refl _
  | some kind =>
    cases kind with
    | relation allowed => exact stopsOrSame_watchRelation enters object member depth
    | permission rule => exact stopsOrSame_watchRule enters object rule depth

end Entered

/-- A walk watched goes as the walk does, up to where it stops. -/
theorem stopsOrSame_watchMember :
    ∀ (fuel : Nat) (object : ObjectRef) (member : String) (depth : Nat),
      StopsOrSame (watchMember limits asked fuel object member depth)
        (walkMember asked fuel object member depth)
  | 0, _, _, _ => .refl _
  | fuel + 1, object, member, depth => by
    unfold watchMember walkMember
    apply StopsOrSame.bind (.refl _)
    intro _
    apply StopsOrSame.bind (.refl _)
    intro walker
    split
    · exact stopsOrSame_watchLimit .steps
    apply StopsOrSame.bind (.refl _)
    intro late
    cases late with
    | some limit => exact stopsOrSame_watchLimit limit
    | none =>
      simp only
      split
      · exact stopsOrSame_watchLimit .depth
      apply StopsOrSame.bind (.refl _)
      intro walker
      cases walker.find (object, member) with
      | some known => exact .refl _
      | none =>
        apply StopsOrSame.bind (.refl _)
        intro entered
        cases entered with
        | false => exact stopsOrSame_watchLimit .cycle
        | true =>
          exact StopsOrSame.bind
            (stopsOrSame_watchKind (stopsOrSame_watchMember fuel) object member depth)
            fun walk => .refl _

end StopsOrSame

/-- A walk that answers and meets none of the limits answers watched for them. -/
theorem watched_of_not_meets {asked : Question} {limits : WalkLimit → Bool} {object : ObjectRef}
    {member : String} {walk : Walk} (answered : walkRelations asked object member = .ok walk)
    (met : ¬ asked.Meets limits object member) :
    ∃ after, watchMember limits asked (asked.bounds.maxDepth + 2) object member 0 Walker.start =
      .ok (walk, after) := by
  have same := Or.resolve_left
    (stopsOrSame_watchMember (asked.bounds.maxDepth + 2) object member 0 Walker.start) met
  unfold walkRelations at answered
  rw [← same] at answered
  generalize watchMember limits asked (asked.bounds.maxDepth + 2) object member 0 Walker.start =
    ended at answered ⊢
  cases ended with
  | error stop => cases answered
  | ok ended => exact ⟨ended.2, by rw [← Except.ok.inj answered]⟩

section Frames

variable {asked : Question} {kept : List RelationTuple} {before after : Walker}

theorem checkTime_walking {limit : Option WalkLimit}
    (ran : checkTime asked before = .ok (limit, after)) :
    after.walking = before.walking ∧ ∀ met ∈ limit, met = .duration := by
  unfold checkTime at ran
  rw [WalkM.read_bind, WalkM.modify_bind] at ran
  obtain ⟨rfl, rfl⟩ := WalkM.pure_eq_ok ran
  constructor
  · rfl
  · intro met told
    split at told
    · exact (Option.some.inj told).symm
    · cases told

theorem listRelationSubjects_walking {object : ObjectRef} {relation : String} {limit : Nat}
    {subjects : List SubjectRef}
    (ran : listRelationSubjects asked object relation limit before = .ok (subjects, after)) :
    after.walking = before.walking := by
  unfold listRelationSubjects at ran
  rw [WalkM.read_bind, WalkM.modify_bind] at ran
  generalize asked.around.listRelationSubjects before.storageReadings object relation limit =
    answer at ran
  cases answer with
  | ok read =>
    obtain ⟨-, rfl⟩ := WalkM.pure_eq_ok ran
    rfl
  | error error => cases ran

/-- A read is no loop: it leaves what is walked, and meets another limit. -/
theorem readSubjects_walking {object : ObjectRef} {relation : String} {subjects : Subjects}
    (ran : readSubjects asked object relation before = .ok (subjects, after)) :
    after.walking = before.walking ∧ subjects ≠ .bound .cycle := by
  unfold readSubjects at ran
  rw [WalkM.modify_bind, WalkM.read_bind] at ran
  split at ran
  · obtain ⟨rfl, rfl⟩ := WalkM.pure_eq_ok ran
    exact ⟨rfl, by simp⟩
  obtain ⟨early, timed, checked, ran⟩ := WalkM.bind_eq_ok ran
  have first := checkTime_walking checked
  cases early with
  | some limit =>
    obtain ⟨rfl, rfl⟩ := WalkM.pure_eq_ok ran
    exact ⟨first.1, by simp [first.2 limit rfl]⟩
  | none =>
    obtain ⟨listed, read, listing, ran⟩ := WalkM.bind_eq_ok ran
    have second := (listRelationSubjects_walking listing).trans first.1
    split at ran
    · obtain ⟨rfl, rfl⟩ := WalkM.pure_eq_ok ran
      exact ⟨second, by simp⟩
    obtain ⟨late, last, checked, ran⟩ := WalkM.bind_eq_ok ran
    have third := checkTime_walking checked
    cases late with
    | some limit =>
      obtain ⟨rfl, rfl⟩ := WalkM.pure_eq_ok ran
      exact ⟨third.1.trans second, by simp [third.2 limit rfl]⟩
    | none =>
      obtain ⟨rfl, rfl⟩ := WalkM.pure_eq_ok ran
      exact ⟨third.1.trans second, by simp⟩

/-- A member is entered when it is not being walked, and is on top then. -/
theorem enter_bind {α : Type} (key : ObjectRef × String) (next : Bool → WalkM α) (walker : Walker) :
    (enter key >>= next) walker = if key ∈ walker.walking then next false walker
      else next true { walker with walking := key :: walker.walking } := by
  change WalkM.bind (enter key) next walker = _
  unfold WalkM.bind enter
  rw [WalkM.read_bind]
  by_cases walked : key ∈ walker.walking
  · simp only [walked, if_true]
    rfl
  · simp only [walked, if_false]
    rfl

theorem leave_bind {α : Type} (key : ObjectRef × String) (walk : Walk) (next : Unit → WalkM α)
    (walker : Walker) : (leave key walk >>= next) walker = next () { walker with
      walking := walker.walking.erase key, known := (key, walk) :: walker.known } := rfl

end Frames

end Saffui.Authz.Relations
