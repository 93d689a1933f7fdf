import Saffui.Ports
import Saffui.Authz.Relations.Model

/-!
# The walk over the relations kept

Source: `saffui-core/src/authz/relations/check.rs`. A walk is the recursion
of `walk_member`, `walk_relation` and `walk_rule` over one `Walker`, with the
clock and the storage as parameters: `Surroundings.now n` is what the `n`-th
reading of the clock gives, and the `n`-th read of the storage answers
`Surroundings.listRelationSubjects n`. The constants of the source are the
fields of `Bounds.ofSource`; the walk is defined for any bounds.

The recursion is on a fuel that `walkRelations` sets past the depth bound.
The depth is checked as the source checks it, and running out of fuel is an
outcome of its own, which `walkRelations` never has.
-/

namespace Saffui.Authz.Relations

inductive WalkLimit where
  | depth | reads | fanout | duration
  /-- The walk came back to where it was: the relations kept form a loop. -/
  | cycle
  | steps
  deriving DecidableEq, Repr

def WalkLimit.name : WalkLimit → String
  | .depth => "depth"
  | .reads => "reads"
  | .fanout => "fanout"
  | .duration => "duration"
  | .cycle => "cycle"
  | .steps => "steps"

/-- What a walk found. -/
inductive Walk where
  | found
  | notFound
  /-- It could not tell. A decision refuses, and says why. -/
  | undecided (limit : WalkLimit)
  deriving DecidableEq, Repr

/-- How deep a walk goes, how often it reads, how many subjects it reads at
once and how many members it enters before it gives up. -/
structure Bounds where
  maxDepth : Nat
  maxReads : Nat
  maxFanout : Nat
  maxSteps : Nat
  deriving DecidableEq, Repr

def Bounds.ofSource : Bounds where
  maxDepth := 64
  maxReads := 1000
  maxFanout := 1000
  maxSteps := 10000

/-- How long a walk takes before it gives up: 100 milliseconds. -/
def MAX_DURATION : Instant := 100000

/-- The clock and the storage around a walk. -/
structure Surroundings where
  now : Nat → Instant
  listRelationSubjects :
    Nat → ObjectRef → String → Nat → Except StorageError (List SubjectRef)

/-- What one walk is asked, and what it may spend. -/
structure Question where
  schema : CompiledSchema
  subject : ObjectRef
  deadline : Instant
  bounds : Bounds
  around : Surroundings

structure Walker where
  reads : Nat
  steps : Nat
  /-- What this walk found of each member, an undecided answer too. -/
  known : List ((ObjectRef × String) × Walk)
  /-- What is being walked now. -/
  walking : List (ObjectRef × String)
  /-- How often the clock and the storage were asked so far. -/
  clockReadings : Nat
  storageReadings : Nat
  deriving DecidableEq, Repr

def Walker.start : Walker := ⟨0, 0, [], [], 0, 0⟩

/-- Why a walk has no answer. -/
inductive WalkStop where
  | storage (error : StorageError)
  | outOfFuel
  deriving DecidableEq, Repr

abbrev WalkM (α : Type) := Walker → Except WalkStop (α × Walker)

namespace WalkM

def pure {α : Type} (value : α) : WalkM α := fun walker => .ok (value, walker)

def bind {α β : Type} (first : WalkM α) (next : α → WalkM β) : WalkM β := fun walker =>
  match first walker with
  | .ok (value, after) => next value after
  | .error stop => .error stop

instance : Monad WalkM where
  pure := WalkM.pure
  bind := WalkM.bind

def modify (change : Walker → Walker) : WalkM Unit := fun walker => .ok ((), change walker)

def read : WalkM Walker := fun walker => .ok (walker, walker)

def stop {α : Type} (why : WalkStop) : WalkM α := fun _ => .error why

/-- A computation that answers answered at each of its steps. -/
theorem bind_eq_ok {α β : Type} {first : WalkM α} {next : α → WalkM β} {before after : Walker}
    {value : β} (answered : (first >>= next) before = .ok (value, after)) :
    ∃ middle between, first before = .ok (middle, between) ∧
      next middle between = .ok (value, after) := by
  change WalkM.bind first next before = _ at answered
  unfold WalkM.bind at answered
  split at answered
  · next middle between ran => exact ⟨middle, between, ran, answered⟩
  · cases answered

theorem pure_eq_ok {α : Type} {given value : α} {before after : Walker}
    (answered : (Pure.pure given : WalkM α) before = .ok (value, after)) :
    value = given ∧ after = before := by
  change Except.ok (given, before) = _ at answered
  simp only [Except.ok.injEq, Prod.mk.injEq] at answered
  exact ⟨answered.1.symm, answered.2.symm⟩

/-- Reading and counting always answer: they are run, not taken apart. -/
@[simp]
theorem read_bind {α : Type} (next : Walker → WalkM α) (walker : Walker) :
    (WalkM.read >>= next) walker = next walker walker := rfl

@[simp]
theorem modify_bind {α : Type} (change : Walker → Walker) (next : Unit → WalkM α)
    (walker : Walker) : (WalkM.modify change >>= next) walker = next () (change walker) := rfl

end WalkM

/-- Folds the walks of a sum: one found is enough. -/
def foldUnion (walks : List Walk) : Walk :=
  let rec go (undecided : Option WalkLimit) : List Walk → Walk
    | [] => undecided.elim .notFound .undecided
    | .found :: _ => .found
    | .undecided limit :: rest => go (some limit) rest
    | .notFound :: rest => go undecided rest
  go none walks

def checkTime (asked : Question) : WalkM (Option WalkLimit) := do
  let walker ← WalkM.read
  WalkM.modify fun walker => { walker with clockReadings := walker.clockReadings + 1 }
  return if asked.around.now walker.clockReadings > asked.deadline then some .duration else none

/-- What one read of a walk found: the subjects, or the bound it reached
before or around the read. -/
inductive Subjects where
  | read (subjects : List SubjectRef)
  | bound (limit : WalkLimit)
  deriving DecidableEq, Repr

/-- One read of the storage, which may fail. -/
def listRelationSubjects (asked : Question) (object : ObjectRef) (relation : String)
    (limit : Nat) : WalkM (List SubjectRef) := do
  let walker ← WalkM.read
  WalkM.modify fun walker => { walker with storageReadings := walker.storageReadings + 1 }
  match asked.around.listRelationSubjects walker.storageReadings object relation limit with
  | .ok subjects => return subjects
  | .error error => WalkM.stop (.storage error)

/-- Reads the subjects a relation of an object names, within the bounds. -/
def readSubjects (asked : Question) (object : ObjectRef) (relation : String) :
    WalkM Subjects := do
  WalkM.modify fun walker => { walker with reads := walker.reads + 1 }
  let walker ← WalkM.read
  if walker.reads > asked.bounds.maxReads then
    return .bound .reads
  match ← checkTime asked with
  | some limit => return .bound limit
  | none =>
    let subjects ← listRelationSubjects asked object relation (asked.bounds.maxFanout + 1)
    if subjects.length > asked.bounds.maxFanout then
      return .bound .fanout
    -- Around the read too: a slow storage is a slow walk.
    match ← checkTime asked with
    | some limit => return .bound limit
    | none => return .read subjects

/-- Walks each of a list in turn, stops at the first found, and folds what
the others answered. -/
def walkEach {α : Type} (enter : α → WalkM Walk) : List α → List Walk → WalkM Walk
  | [], walks => return foldUnion walks
  | next :: rest, walks => do
    let walk ← enter next
    if walk = .found then
      return .found
    walkEach enter rest (walks ++ [walk])

/-- The members an admitted subject leads on to. -/
def listMembers (admitted : List SubjectRef) : List (ObjectRef × String) :=
  admitted.filterMap fun named => named.member.map fun member => (named.object, member)

/-- Whether the subject is named by a relation of the object, itself or as a
member of what it names. A subject the schema does not admit is not walked. -/
def walkRelation (walkMember : ObjectRef → String → Nat → WalkM Walk) (asked : Question)
    (object : ObjectRef) (relation : String) (depth : Nat) : WalkM Walk := do
  match asked.schema.findMember object.objectType relation with
  | some (.relation allowed) =>
    match ← readSubjects asked object relation with
    | .bound limit => return .undecided limit
    | .read subjects =>
      let admitted := subjects.filter (admits allowed)
      if admitted.any (fun named => named.member.isNone && named.object == asked.subject) then
        return .found
      walkEach (fun (named : ObjectRef × String) => walkMember named.1 named.2 (depth + 1))
        (listMembers admitted) []
  | _ => return .notFound

/-- The objects an arrow leads to among the subjects a relation names. -/
def listObjects (allowed : List AllowedSubject) (subjects : List SubjectRef) : List ObjectRef :=
  (subjects.filter fun named => named.member.isNone && allowed.any fun subject =>
    subject.member.isNone && subject.objectType == named.object.objectType).map (·.object)

def walkArrow (walkMember : ObjectRef → String → Nat → WalkM Walk) (asked : Question)
    (object : ObjectRef) (relation member : String) (depth : Nat) : WalkM Walk := do
  match asked.schema.findMember object.objectType relation with
  | some (.relation allowed) =>
    match ← readSubjects asked object relation with
    | .bound limit => return .undecided limit
    | .read subjects =>
      walkEach (fun next => walkMember next member (depth + 1)) (listObjects allowed subjects) []
  | _ => return .notFound

mutual

def walkRule (walkMember : ObjectRef → String → Nat → WalkM Walk) (asked : Question)
    (object : ObjectRef) : Rule → Nat → WalkM Walk
  | .computed member, depth => walkMember object member (depth + 1)
  | .arrow relation member, depth => walkArrow walkMember asked object relation member depth
  | .union rules, depth => walkSum walkMember asked object rules (depth + 1) []
  -- An intersection of nothing finds nothing: the parser never writes one,
  -- and a stored form is not trusted to be its work.
  | .intersection [], _ => return .notFound
  | .intersection (rule :: rules), depth =>
    walkIntersection walkMember asked object (rule :: rules) (depth + 1) none

def walkSum (walkMember : ObjectRef → String → Nat → WalkM Walk) (asked : Question)
    (object : ObjectRef) : List Rule → Nat → List Walk → WalkM Walk
  | [], _, walks => return foldUnion walks
  | rule :: rules, depth, walks => do
    let walk ← walkRule walkMember asked object rule depth
    if walk = .found then
      return .found
    walkSum walkMember asked object rules depth (walks ++ [walk])

def walkIntersection (walkMember : ObjectRef → String → Nat → WalkM Walk) (asked : Question)
    (object : ObjectRef) : List Rule → Nat → Option WalkLimit → WalkM Walk
  | [], _, undecided => return undecided.elim .found .undecided
  | rule :: rules, depth, undecided => do
    match ← walkRule walkMember asked object rule depth with
    | .notFound => return .notFound
    | .undecided limit => walkIntersection walkMember asked object rules depth (some limit)
    | .found => walkIntersection walkMember asked object rules depth undecided

end

/-- Walks a member as the schema has it. -/
def walkKind (walkMember : ObjectRef → String → Nat → WalkM Walk) (asked : Question)
    (object : ObjectRef) (member : String) (depth : Nat) : WalkM Walk :=
  match asked.schema.findMember object.objectType member with
  | none => pure .notFound
  | some (.relation _) => walkRelation walkMember asked object member depth
  | some (.permission rule) => walkRule walkMember asked object rule depth

/-- What a walk already found of a member. -/
def Walker.find (walker : Walker) (key : ObjectRef × String) : Option Walk :=
  walker.known.lookup key

/-- Enters a member unless it is being walked, and says whether it did. -/
def enter (key : ObjectRef × String) : WalkM Bool := do
  let walker ← WalkM.read
  if key ∈ walker.walking then
    return false
  WalkM.modify fun walker => { walker with walking := key :: walker.walking }
  return true

/-- Leaves a member, its answer known from then on. -/
def leave (key : ObjectRef × String) (walk : Walk) : WalkM Unit :=
  WalkM.modify fun walker =>
    { walker with walking := walker.walking.erase key, known := (key, walk) :: walker.known }

def walkMember (asked : Question) : Nat → ObjectRef → String → Nat → WalkM Walk
  | 0, _, _, _ => WalkM.stop .outOfFuel
  | fuel + 1, object, member, depth => do
    WalkM.modify fun walker => { walker with steps := walker.steps + 1 }
    let walker ← WalkM.read
    if walker.steps > asked.bounds.maxSteps then
      return .undecided .steps
    -- At each member, not only around a read: a walk that never reads still
    -- meets its deadline.
    match ← checkTime asked with
    | some limit => return .undecided limit
    | none =>
      if depth > asked.bounds.maxDepth then
        return .undecided .depth
      let walker ← WalkM.read
      match walker.find (object, member) with
      | some known => return known
      | none =>
        if !(← enter (object, member)) then
          return .undecided .cycle
        let walk ← walkKind (walkMember asked fuel) asked object member depth
        leave (object, member) walk
        return walk

/-- Tells whether the subject stands in `member` of `object`. -/
def walkRelations (asked : Question) (object : ObjectRef) (member : String) :
    Except WalkStop Walk :=
  (walkMember asked (asked.bounds.maxDepth + 2) object member 0 Walker.start).map Prod.fst

end Saffui.Authz.Relations
