import Mathlib.Logic.Relation
import Saffui.Authz.Relations.Limits

/-!
# The walk, await by await

`walk_member`, `walk_relation` and `walk_rule` call each other and await the
answer. Here what awaits is a stack of frames, and a walk goes from one state to
the next, so that a property of all of a walk is one of the states it passes
through, up to its answer or to a failure of the storage. The recursion of
`Check` is what the states compute.
-/

namespace Saffui.Authz.Relations

/-- What awaits the answer of a walk. -/
inductive Frame where
  /-- `walk_member`, awaiting the body of a member it entered. -/
  | member (place : Place)
  /-- The loop of a relation or of an arrow, with the members still to walk. -/
  | each (rest : List Place) (depth : Nat) (walks : List Walk)
  | union (object : ObjectRef) (rest : List Rule) (depth : Nat) (walks : List Walk)
  | intersection (object : ObjectRef) (rest : List Rule) (depth : Nat)
    (undecided : Option WalkLimit)

/-- What the subjects of a relation are read for. -/
inductive Goal where
  | relation
  | arrow (member : String)

inductive Control where
  | member (place : Place) (depth : Nat)
  /-- A member was entered: its body is evaluated. -/
  | body (place : Place) (depth : Nat)
  | rule (object : ObjectRef) (rule : Rule) (depth : Nat)
  | read (place : Place) (allowed : List AllowedSubject) (goal : Goal) (depth : Nat)
  /-- The storage is asked. -/
  | ask (place : Place) (allowed : List AllowedSubject) (goal : Goal) (depth : Nat)
  | listed (subjects : List SubjectRef) (allowed : List AllowedSubject) (goal : Goal)
    (depth : Nat)
  | answer (walk : Walk)
  | failed (error : StorageError)

structure State where
  control : Control
  stack : List Frame
  walker : Walker
  /-- The members whose body was evaluated so far, each with its depth. -/
  evaluated : List (Place × Nat)

namespace State

def start (object : ObjectRef) (member : String) : State :=
  { control := .member (object, member) 0, stack := [], walker := .start, evaluated := [] }

def goTo (state : State) (control : Control) : State := { state with control }

def push (state : State) (frame : Frame) : State := { state with stack := frame :: state.stack }

def stepped (state : State) : State :=
  { state with walker := { state.walker with steps := state.walker.steps + 1 } }

def ticked (state : State) : State :=
  { state with walker := { state.walker with clockReadings := state.walker.clockReadings + 1 } }

def readOnce (state : State) : State :=
  { state with walker := { state.walker with reads := state.walker.reads + 1 } }

def askedOnce (state : State) : State :=
  { state with walker :=
    { state.walker with storageReadings := state.walker.storageReadings + 1 } }

/-- Enters a member, whose body is evaluated from then on. -/
def entered (state : State) (place : Place) (depth : Nat) : State :=
  { control := .body place depth, stack := .member place :: state.stack,
    walker := { state.walker with walking := place :: state.walker.walking },
    evaluated := (place, depth) :: state.evaluated }

/-- Leaves a member, its answer known from then on. -/
def left (state : State) (place : Place) (walk : Walk) : State :=
  { state with walker := { state.walker with
    walking := state.walker.walking.erase place,
    known := (place, walk) :: state.walker.known } }

end State

section Step

variable (asked : Question)

/-- What `check_time` tells of the next reading of the clock. -/
def State.isLate (state : State) : Bool :=
  asked.around.now state.walker.clockReadings > asked.deadline

def stepMember (state : State) (place : Place) (depth : Nat) : State :=
  let state := state.stepped
  if state.walker.steps > asked.bounds.maxSteps then state.goTo (.answer (.undecided .steps))
  else if state.isLate asked then state.ticked.goTo (.answer (.undecided .duration))
  else
    let state := state.ticked
    if depth > asked.bounds.maxDepth then state.goTo (.answer (.undecided .depth))
    else match state.walker.find place with
      | some known => state.goTo (.answer known)
      | none =>
        if place ∈ state.walker.walking then state.goTo (.answer (.undecided .cycle))
        else state.entered place depth

/-- The head of the loop over the members a relation or an arrow leads to. -/
def nextEach (state : State) (depth : Nat) (walks : List Walk) : List Place → State
  | [] => state.goTo (.answer (foldUnion walks))
  | next :: rest => (state.push (.each rest depth walks)).goTo (.member next (depth + 1))

def nextUnion (state : State) (object : ObjectRef) (depth : Nat) (walks : List Walk) :
    List Rule → State
  | [] => state.goTo (.answer (foldUnion walks))
  | rule :: rest => (state.push (.union object rest depth walks)).goTo (.rule object rule depth)

def nextIntersection (state : State) (object : ObjectRef) (depth : Nat)
    (undecided : Option WalkLimit) : List Rule → State
  | [] => state.goTo (.answer (undecided.elim .found .undecided))
  | rule :: rest =>
    (state.push (.intersection object rest depth undecided)).goTo (.rule object rule depth)

/-- Only a relation is read: anything else finds nothing. -/
def stepRelation (state : State) (place : Place) (goal : Goal) (depth : Nat) : State :=
  match asked.schema.findMember place.1.objectType place.2 with
  | some (.relation allowed) => state.goTo (.read place allowed goal depth)
  | _ => state.goTo (.answer .notFound)

def stepBody (state : State) (place : Place) (depth : Nat) : State :=
  match asked.schema.findMember place.1.objectType place.2 with
  | none => state.goTo (.answer .notFound)
  | some (.relation _) => stepRelation asked state place .relation depth
  | some (.permission rule) => state.goTo (.rule place.1 rule depth)

def stepRule (state : State) (object : ObjectRef) (depth : Nat) : Rule → State
  | .computed member => state.goTo (.member (object, member) (depth + 1))
  | .arrow relation member => stepRelation asked state (object, relation) (.arrow member) depth
  | .union rules => nextUnion state object (depth + 1) [] rules
  | .intersection [] => state.goTo (.answer .notFound)
  | .intersection (rule :: rules) =>
    nextIntersection state object (depth + 1) none (rule :: rules)

/-- `read_subjects`, up to where it asks the storage. -/
def stepRead (state : State) (place : Place) (allowed : List AllowedSubject) (goal : Goal)
    (depth : Nat) : State :=
  let state := state.readOnce
  if state.walker.reads > asked.bounds.maxReads then state.goTo (.answer (.undecided .reads))
  else if state.isLate asked then state.ticked.goTo (.answer (.undecided .duration))
  else state.ticked.goTo (.ask place allowed goal depth)

def stepAsk (state : State) (place : Place) (allowed : List AllowedSubject) (goal : Goal)
    (depth : Nat) : State :=
  match asked.around.listRelationSubjects state.walker.storageReadings place.1 place.2
      (asked.bounds.maxFanout + 1) with
  | .ok subjects => state.askedOnce.goTo (.listed subjects allowed goal depth)
  | .error error => state.askedOnce.goTo (.failed error)

/-- What is walked of the subjects read. -/
def proceed (state : State) (allowed : List AllowedSubject) (depth : Nat)
    (subjects : List SubjectRef) : Goal → State
  | .relation =>
    let admitted := subjects.filter (admits allowed)
    if admitted.any (fun named => named.member.isNone && named.object == asked.subject) then
      state.goTo (.answer .found)
    else nextEach state depth [] (listMembers admitted)
  | .arrow member =>
    nextEach state depth [] ((listObjects allowed subjects).map fun next => (next, member))

/-- `read_subjects`, once the storage answered. -/
def stepListed (state : State) (subjects : List SubjectRef) (allowed : List AllowedSubject)
    (goal : Goal) (depth : Nat) : State :=
  if subjects.length > asked.bounds.maxFanout then state.goTo (.answer (.undecided .fanout))
  else if state.isLate asked then state.ticked.goTo (.answer (.undecided .duration))
  else proceed asked state.ticked allowed depth subjects goal

/-- Hands an answer to what awaits it. -/
def resume (state : State) (walk : Walk) : Frame → State
  | .member place => (state.left place walk).goTo (.answer walk)
  | .each rest depth walks =>
    if walk = .found then state.goTo (.answer .found)
    else nextEach state depth (walks ++ [walk]) rest
  | .union object rest depth walks =>
    if walk = .found then state.goTo (.answer .found)
    else nextUnion state object depth (walks ++ [walk]) rest
  | .intersection object rest depth undecided =>
    match walk with
    | .notFound => state.goTo (.answer .notFound)
    | .undecided limit => nextIntersection state object depth (some limit) rest
    | .found => nextIntersection state object depth undecided rest

/-- The next state, until an answer nothing awaits or a failure of the storage. -/
def step (state : State) : Option State :=
  match state.control with
  | .member place depth => some (stepMember asked state place depth)
  | .body place depth => some (stepBody asked state place depth)
  | .rule object rule depth => some (stepRule asked state object depth rule)
  | .read place allowed goal depth => some (stepRead asked state place allowed goal depth)
  | .ask place allowed goal depth => some (stepAsk asked state place allowed goal depth)
  | .listed subjects allowed goal depth =>
    some (stepListed asked state subjects allowed goal depth)
  | .answer walk =>
    match state.stack with
    | [] => none
    | frame :: stack => some (resume { state with stack } walk frame)
  | .failed _ => none

/-- The states a walk passes through from a state on. -/
abbrev Steps : State → State → Prop :=
  Relation.ReflTransGen fun state next => step asked state = some next

/-- What a walk that ended came to. -/
def State.outcome (state : State) : Option (Except WalkStop Walk) :=
  match state.control, state.stack with
  | .answer walk, [] => some (.ok walk)
  | .failed error, _ => some (.error (.storage error))
  | _, _ => none

end Step

section Kept

variable {asked : Question}

/-- The members being walked, as the stack has them. -/
def Frame.place : Frame → Option Place
  | .member place => some place
  | _ => none

/-- What no step of a walk breaks. -/
structure State.Inv (asked : Question) (state : State) : Prop where
  walking : state.walker.walking = state.stack.filterMap Frame.place
  once : (state.evaluated.map Prod.fst).Nodup
  /-- A body was evaluated of each member known or being walked, and of no other. -/
  told : (state.evaluated.map Prod.fst).Perm
    (state.walker.known.map Prod.fst ++ state.walker.walking)
  shallow : ∀ entry ∈ state.evaluated, entry.2 ≤ asked.bounds.maxDepth
  reads : state.walker.storageReadings ≤ state.walker.reads
  asks : state.walker.storageReadings ≤ asked.bounds.maxReads
  /-- Each time the storage is asked was counted before, within the bound. -/
  asking : ∀ place allowed goal depth, state.control = .ask place allowed goal depth →
    state.walker.storageReadings < state.walker.reads ∧
      state.walker.reads ≤ asked.bounds.maxReads

namespace State.Inv

variable {state : State}

theorem start (object : ObjectRef) (member : String) : (State.start object member).Inv asked where
  walking := rfl
  once := List.nodup_nil
  told := .refl _
  shallow := nofun
  reads := Nat.le_refl _
  asks := Nat.zero_le _
  asking := nofun

/-- Going on to anything but a question to the storage. -/
theorem goTo (inv : state.Inv asked) {control : Control}
    (other : ∀ place allowed goal depth, control ≠ .ask place allowed goal depth) :
    (state.goTo control).Inv asked :=
  ⟨inv.walking, inv.once, inv.told, inv.shallow, inv.reads, inv.asks,
    fun place allowed goal depth same => absurd same (other place allowed goal depth)⟩

/-- A frame that is no member's changes nothing of what is being walked. -/
theorem push (inv : state.Inv asked) {frame : Frame} (loop : frame.place = none) :
    (state.push frame).Inv asked :=
  have walking : state.walker.walking = (frame :: state.stack).filterMap Frame.place := by
    rw [List.filterMap_cons_none loop, inv.walking]
  { inv with walking }

theorem stepped (inv : state.Inv asked) : state.stepped.Inv asked := { inv with }

theorem ticked (inv : state.Inv asked) : state.ticked.Inv asked := { inv with }

theorem readOnce (inv : state.Inv asked) {control : Control}
    (other : ∀ place allowed goal depth, control ≠ .ask place allowed goal depth) :
    (state.readOnce.goTo control).Inv asked :=
  { inv with
    reads := Nat.le_succ_of_le inv.reads
    asking := fun place allowed goal depth same => absurd same (other place allowed goal depth) }

end State.Inv

theorem Walker.find_eq_none_iff {walker : Walker} {place : Place} :
    walker.find place = none ↔ place ∉ walker.known.map Prod.fst := by
  rw [Walker.find, List.lookup_eq_none_iff, List.mem_map]
  constructor
  · rintro absent ⟨entry, inside, rfl⟩
    simpa using absent entry inside
  · intro absent entry inside
    simpa using fun same : place = entry.1 => absent ⟨entry, inside, same.symm⟩

namespace State.Inv

variable {state : State}

/-- A member is entered when it is neither known nor being walked: its body was
never evaluated. -/
theorem entered (inv : state.Inv asked) {place : Place} {depth : Nat}
    (unknown : state.walker.find place = none) (fresh : place ∉ state.walker.walking)
    (shallow : depth ≤ asked.bounds.maxDepth) : (state.entered place depth).Inv asked := by
  have absent : place ∉ state.evaluated.map Prod.fst := by
    rw [inv.told.mem_iff, List.mem_append, not_or]
    exact ⟨Walker.find_eq_none_iff.mp unknown, fresh⟩
  constructor
  · have same : (state.entered place depth).stack.filterMap Frame.place =
        place :: state.stack.filterMap Frame.place := rfl
    rw [same, ← inv.walking]
    rfl
  · exact List.nodup_cons.mpr ⟨absent, inv.once⟩
  · exact (inv.told.cons place).trans List.perm_middle.symm
  · intro entry inside
    rcases List.mem_cons.mp inside with rfl | before
    · exact shallow
    · exact inv.shallow entry before
  · exact inv.reads
  · exact inv.asks
  · exact nofun

/-- A member is left when the frame on top is its own: it is known then, and
walked no more. -/
theorem left {stack : List Frame} {place : Place} {walk : Walk}
    (inv : (State.mk state.control (.member place :: stack) state.walker state.evaluated).Inv asked) :
    (({ state with stack }.left place walk).goTo (.answer walk)).Inv asked := by
  have top : state.walker.walking = place :: stack.filterMap Frame.place := inv.walking
  have rest : state.walker.walking.erase place = stack.filterMap Frame.place := by
    rw [top, List.erase_cons_head]
  constructor
  · exact rest
  · exact inv.once
  · have told := inv.told
    simp only [top] at told
    change (state.evaluated.map Prod.fst).Perm
      ((place :: state.walker.known.map Prod.fst) ++ state.walker.walking.erase place)
    rw [rest]
    exact told.trans List.perm_middle
  · exact inv.shallow
  · exact inv.reads
  · exact inv.asks
  · exact nofun

/-- The frame on top is no member's, and is taken off. -/
theorem pop {stack : List Frame} {frame : Frame} (loop : frame.place = none)
    (inv : (State.mk state.control (frame :: stack) state.walker state.evaluated).Inv asked) :
    ({ state with stack } : State).Inv asked :=
  have walking : state.walker.walking = stack.filterMap Frame.place := by
    have all := inv.walking
    rwa [List.filterMap_cons_none loop] at all
  { inv with walking }

theorem stepMember (inv : state.Inv asked) (place : Place) (depth : Nat) :
    (stepMember asked state place depth).Inv asked := by
  have counted := inv.stepped
  unfold Relations.stepMember
  simp only
  split
  · exact counted.goTo (by simp)
  split
  · exact counted.ticked.goTo (by simp)
  split
  · exact counted.ticked.goTo (by simp)
  next within =>
  split
  · exact counted.ticked.goTo (by simp)
  next unknown =>
  split
  · exact counted.ticked.goTo (by simp)
  next fresh => exact counted.ticked.entered unknown fresh (Nat.le_of_not_lt within)

theorem nextEach (inv : state.Inv asked) (depth : Nat) (walks : List Walk) (rest : List Place) :
    (nextEach state depth walks rest).Inv asked := by
  cases rest with
  | nil => exact inv.goTo (by simp)
  | cons next rest => exact (inv.push rfl).goTo (by simp)

theorem nextUnion (inv : state.Inv asked) (object : ObjectRef) (depth : Nat) (walks : List Walk)
    (rest : List Rule) : (nextUnion state object depth walks rest).Inv asked := by
  cases rest with
  | nil => exact inv.goTo (by simp)
  | cons rule rest => exact (inv.push rfl).goTo (by simp)

theorem nextIntersection (inv : state.Inv asked) (object : ObjectRef) (depth : Nat)
    (undecided : Option WalkLimit) (rest : List Rule) :
    (nextIntersection state object depth undecided rest).Inv asked := by
  cases rest with
  | nil => exact inv.goTo (by simp)
  | cons rule rest => exact (inv.push rfl).goTo (by simp)

theorem stepRelation (inv : state.Inv asked) (place : Place) (goal : Goal) (depth : Nat) :
    (stepRelation asked state place goal depth).Inv asked := by
  unfold Relations.stepRelation
  split <;> exact inv.goTo (by simp)

theorem stepBody (inv : state.Inv asked) (place : Place) (depth : Nat) :
    (stepBody asked state place depth).Inv asked := by
  unfold Relations.stepBody
  split
  · exact inv.goTo (by simp)
  · exact inv.stepRelation place .relation depth
  · exact inv.goTo (by simp)

theorem stepRule (inv : state.Inv asked) (object : ObjectRef) (depth : Nat) (rule : Rule) :
    (stepRule asked state object depth rule).Inv asked := by
  unfold Relations.stepRule
  split
  · exact inv.goTo (by simp)
  · exact inv.stepRelation _ _ depth
  · exact inv.nextUnion object (depth + 1) [] _
  · exact inv.goTo (by simp)
  · exact inv.nextIntersection object (depth + 1) none _

theorem stepRead (inv : state.Inv asked) (place : Place) (allowed : List AllowedSubject)
    (goal : Goal) (depth : Nat) : (stepRead asked state place allowed goal depth).Inv asked := by
  unfold Relations.stepRead
  simp only
  split
  · exact inv.readOnce (by simp)
  next within =>
  split
  · have late : (state.readOnce.goTo (.answer (.undecided .duration))).Inv asked :=
      inv.readOnce (by simp)
    exact late.ticked
  · have before := inv.reads
    exact { inv with
      reads := Nat.le_succ_of_le inv.reads
      asking := fun _ _ _ _ _ => ⟨Nat.lt_succ_of_le before, Nat.le_of_not_lt within⟩ }

/-- The storage is asked once more, as was counted. -/
theorem askedOnce (inv : state.Inv asked) (control : Control)
    (other : ∀ place allowed goal depth, control ≠ .ask place allowed goal depth)
    (counted : state.walker.storageReadings < state.walker.reads ∧
      state.walker.reads ≤ asked.bounds.maxReads) :
    (state.askedOnce.goTo control).Inv asked :=
  { inv with
    reads := counted.1
    asks := Nat.le_trans counted.1 counted.2
    asking := fun place allowed goal depth same => absurd same (other place allowed goal depth) }

theorem proceed (inv : state.Inv asked) (allowed : List AllowedSubject) (depth : Nat)
    (subjects : List SubjectRef) (goal : Goal) :
    (proceed asked state allowed depth subjects goal).Inv asked := by
  cases goal with
  | relation =>
    simp only [Relations.proceed]
    split
    · exact inv.goTo (by simp)
    · exact inv.nextEach depth [] _
  | arrow member => exact inv.nextEach depth [] _

theorem stepListed (inv : state.Inv asked) (subjects : List SubjectRef)
    (allowed : List AllowedSubject) (goal : Goal) (depth : Nat) :
    (stepListed asked state subjects allowed goal depth).Inv asked := by
  unfold Relations.stepListed
  split
  · exact inv.goTo (by simp)
  · split
    · exact inv.ticked.goTo (by simp)
    · exact inv.ticked.proceed allowed depth subjects goal

theorem resume {stack : List Frame} {frame : Frame} (walk : Walk)
    (inv : (State.mk state.control (frame :: stack) state.walker state.evaluated).Inv asked) :
    (resume { state with stack } walk frame).Inv asked := by
  cases frame with
  | member place => exact inv.left
  | each rest depth walks =>
    have below := inv.pop rfl
    simp only [Relations.resume]
    split
    · exact below.goTo (by simp)
    · exact below.nextEach depth _ rest
  | union object rest depth walks =>
    have below := inv.pop rfl
    simp only [Relations.resume]
    split
    · exact below.goTo (by simp)
    · exact below.nextUnion object depth _ rest
  | intersection object rest depth undecided =>
    have below := inv.pop rfl
    cases walk with
    | notFound => exact below.goTo (by simp)
    | undecided limit => exact below.nextIntersection object depth (some limit) rest
    | found => exact below.nextIntersection object depth undecided rest

/-- No step breaks what every state keeps. -/
theorem step {next : State} (inv : state.Inv asked) (stepped : step asked state = some next) :
    next.Inv asked := by
  obtain ⟨control, stack, walker, evaluated⟩ := state
  cases control with
  | member place depth => exact Option.some.inj stepped ▸ inv.stepMember place depth
  | body place depth => exact Option.some.inj stepped ▸ inv.stepBody place depth
  | rule object rule depth => exact Option.some.inj stepped ▸ inv.stepRule object depth rule
  | read place allowed goal depth =>
    exact Option.some.inj stepped ▸ inv.stepRead place allowed goal depth
  | ask place allowed goal depth =>
    have counted := inv.asking place allowed goal depth rfl
    rw [← Option.some.inj stepped]
    unfold stepAsk
    split
    · exact inv.askedOnce _ (by simp) counted
    · exact inv.askedOnce _ (by simp) counted
  | listed subjects allowed goal depth =>
    exact Option.some.inj stepped ▸ inv.stepListed subjects allowed goal depth
  | answer walk =>
    cases stack with
    | nil => cases stepped
    | cons frame stack => exact Option.some.inj stepped ▸ inv.resume walk
  | failed error => cases stepped

theorem of_steps {next : State} (inv : state.Inv asked) (steps : Steps asked state next) :
    next.Inv asked := by
  induction steps with
  | refl => exact inv
  | tail _ stepped ih => exact ih.step stepped

end State.Inv

end Kept

section Computed

variable {asked : Question}

/-- From a state, a walk comes to the answer or the failure of a computation,
with the stack as it says. -/
def Reaches (asked : Question) (state : State) (stack : List Frame) :
    Except WalkStop (Walk × Walker) → Prop
  | .ok (walk, after) =>
    ∃ evaluated, Steps asked state { control := .answer walk, stack, walker := after, evaluated }
  | .error (.storage error) => ∃ last, Steps asked state last ∧ last.control = .failed error
  | .error .outOfFuel => True

variable {state next : State} {stack inner : List Frame}

theorem Reaches.of_step {ended : Except WalkStop (Walk × Walker)}
    (stepped : step asked state = some next) (reaches : Reaches asked next stack ended) :
    Reaches asked state stack ended := by
  match ended, reaches with
  | .ok (walk, after), ⟨evaluated, steps⟩ => exact ⟨evaluated, .head stepped steps⟩
  | .error (.storage error), ⟨last, steps, failed⟩ => exact ⟨last, .head stepped steps, failed⟩
  | .error .outOfFuel, _ => trivial

theorem reaches_answer (walk : Walk) (walker : Walker) (evaluated : List (Place × Nat)) :
    Reaches asked { control := .answer walk, stack, walker, evaluated } stack
      ((pure walk : WalkM Walk) walker) :=
  ⟨evaluated, .refl⟩

/-- A walk comes to what two computations in a row do, the second from the
answer of the first. -/
theorem Reaches.bind {first : WalkM Walk} {rest : Walk → WalkM Walk} {walker : Walker}
    (begins : Reaches asked state inner (first walker))
    (goes : ∀ walk after evaluated,
      Reaches asked { control := .answer walk, stack := inner, walker := after, evaluated } stack
        (rest walk after)) :
    Reaches asked state stack ((first >>= rest) walker) := by
  change Reaches asked state stack (WalkM.bind first rest walker)
  unfold WalkM.bind
  match answered : first walker, begins with
  | .ok (walk, after), ⟨evaluated, steps⟩ =>
    simp only
    have later := goes walk after evaluated
    match ended : rest walk after, later with
    | .ok (value, last), ⟨told, more⟩ => exact ⟨told, steps.trans more⟩
    | .error (.storage error), ⟨last, more, failed⟩ => exact ⟨last, steps.trans more, failed⟩
    | .error .outOfFuel, _ => trivial
  | .error (.storage error), ⟨last, steps, failed⟩ => exact ⟨last, steps, failed⟩
  | .error .outOfFuel, _ => trivial

variable {enter : ObjectRef → String → Nat → WalkM Walk} {walker : Walker}
  {evaluated : List (Place × Nat)}

/-- Each member is entered as a walk enters it. -/
def EntersAs (asked : Question) (enter : ObjectRef → String → Nat → WalkM Walk) : Prop :=
  ∀ (place : Place) depth stack walker evaluated,
    Reaches asked { control := .member place depth, stack, walker, evaluated } stack
      (enter place.1 place.2 depth walker)

theorem reaches_each (enters : EntersAs asked enter) (depth : Nat) (rest : List Place)
    (walks : List Walk) (control : Control) (walker : Walker) (evaluated : List (Place × Nat)) :
    Reaches asked (nextEach { control, stack, walker, evaluated } depth walks rest) stack
      (walkEach (fun place : Place => enter place.1 place.2 (depth + 1)) rest walks walker) := by
  induction rest generalizing walks control walker evaluated with
  | nil => exact reaches_answer _ _ _
  | cons next rest ih =>
    refine (enters next (depth + 1) (.each rest depth walks :: stack) walker evaluated).bind ?_
    intro walk after evaluated
    refine .of_step rfl ?_
    simp only [resume]
    split
    · exact reaches_answer _ _ _
    · exact ih _ _ _ _

theorem walkEach_map {α β : Type} (change : α → β) (enter : β → WalkM Walk) (list : List α)
    (walks : List Walk) :
    walkEach enter (list.map change) walks = walkEach (fun next => enter (change next)) list walks := by
  induction list generalizing walks with
  | nil => rfl
  | cons next rest ih => simp only [List.map_cons, walkEach, ih]

theorem checkTime_eq (walker : Walker) :
    checkTime asked walker = .ok
      (if asked.around.now walker.clockReadings > asked.deadline then some .duration else none,
        { walker with clockReadings := walker.clockReadings + 1 }) := rfl

theorem listRelationSubjects_eq (object : ObjectRef) (relation : String) (limit : Nat)
    (walker : Walker) :
    listRelationSubjects asked object relation limit walker =
      match asked.around.listRelationSubjects walker.storageReadings object relation limit with
      | .ok subjects =>
        .ok (subjects, { walker with storageReadings := walker.storageReadings + 1 })
      | .error error => .error (.storage error) := by
  unfold listRelationSubjects
  rw [WalkM.read_bind, WalkM.modify_bind]
  cases asked.around.listRelationSubjects walker.storageReadings object relation limit <;> rfl

/-- What `read_subjects` does, written out. -/
theorem readSubjects_eq (object : ObjectRef) (relation : String) (walker : Walker) :
    readSubjects asked object relation walker =
      (let counted := { walker with reads := walker.reads + 1 }
      let timed := { counted with clockReadings := walker.clockReadings + 1 }
      if walker.reads + 1 > asked.bounds.maxReads then .ok (.bound .reads, counted)
      else if asked.around.now walker.clockReadings > asked.deadline then
        .ok (.bound .duration, timed)
      else match asked.around.listRelationSubjects walker.storageReadings object relation
          (asked.bounds.maxFanout + 1) with
        | .error error => .error (.storage error)
        | .ok subjects =>
          let read := { timed with storageReadings := walker.storageReadings + 1 }
          let last := { read with clockReadings := walker.clockReadings + 2 }
          if subjects.length > asked.bounds.maxFanout then .ok (.bound .fanout, read)
          else if asked.around.now (walker.clockReadings + 1) > asked.deadline then
            .ok (.bound .duration, last)
          else .ok (.read subjects, last)) := by
  unfold readSubjects
  rw [WalkM.modify_bind, WalkM.read_bind]
  simp only
  by_cases spent : walker.reads + 1 > asked.bounds.maxReads
  · rw [if_pos spent, if_pos spent]
    rfl
  rw [if_neg spent, if_neg spent]
  change WalkM.bind (checkTime asked) _ _ = _
  rw [WalkM.bind, checkTime_eq]
  by_cases late : asked.around.now walker.clockReadings > asked.deadline
  · simp only [if_pos late]
    rfl
  simp only [if_neg late]
  change WalkM.bind (listRelationSubjects asked object relation _) _ _ = _
  rw [WalkM.bind, listRelationSubjects_eq]
  cases asked.around.listRelationSubjects walker.storageReadings object relation
    (asked.bounds.maxFanout + 1) with
  | error error => rfl
  | ok subjects =>
    simp only
    by_cases wide : subjects.length > asked.bounds.maxFanout
    · rw [if_pos wide, if_pos wide]
      rfl
    rw [if_neg wide, if_neg wide]
    change WalkM.bind (checkTime asked) _ _ = _
    rw [WalkM.bind, checkTime_eq]
    by_cases last : asked.around.now (walker.clockReadings + 1) > asked.deadline
    · simp only [if_pos last]
      rfl
    · simp only [if_neg last]
      rfl

/-- The subjects of a relation are read, a bound is met, or the storage fails. -/
theorem reaches_read {place : Place} {allowed : List AllowedSubject} {goal : Goal} {depth : Nat}
    {rest : Subjects → WalkM Walk} (walker : Walker) (evaluated : List (Place × Nat))
    (bound : ∀ limit, rest (.bound limit) = pure (.undecided limit))
    (read : ∀ subjects control walker evaluated,
      Reaches asked (proceed asked { control, stack, walker, evaluated } allowed depth subjects goal)
        stack (rest (.read subjects) walker)) :
    Reaches asked { control := .read place allowed goal depth, stack, walker, evaluated } stack
      ((readSubjects asked place.1 place.2 >>= rest) walker) := by
  refine .of_step rfl ?_
  change Reaches asked _ stack (WalkM.bind _ rest walker)
  unfold WalkM.bind
  rw [readSubjects_eq, stepRead]
  by_cases spent : walker.reads + 1 > asked.bounds.maxReads
  · simp only [State.readOnce, spent, if_true, bound]
    exact reaches_answer _ _ _
  by_cases late : asked.around.now walker.clockReadings > asked.deadline
  · simp only [State.readOnce, State.isLate, spent, late, decide_true, if_true, if_false, bound]
    exact reaches_answer _ _ _
  simp only [State.readOnce, State.isLate, spent, late, decide_false, Bool.false_eq_true, if_false]
  refine .of_step rfl ?_
  simp only [stepAsk]
  change Reaches asked (match asked.around.listRelationSubjects walker.storageReadings _ _ _ with
    | .ok _ => _
    | .error _ => _) _ _
  cases asked.around.listRelationSubjects walker.storageReadings place.1 place.2
    (asked.bounds.maxFanout + 1) with
  | error error => exact ⟨_, .refl, rfl⟩
  | ok subjects =>
    refine .of_step rfl ?_
    change Reaches asked (if subjects.length > asked.bounds.maxFanout then _
      else if decide (asked.around.now (walker.clockReadings + 1) > asked.deadline) = true then _
      else _) _ _
    by_cases wide : subjects.length > asked.bounds.maxFanout
    · simp only [wide, if_true, bound]
      exact reaches_answer _ _ _
    by_cases last : asked.around.now (walker.clockReadings + 1) > asked.deadline
    · simp only [wide, last, decide_true, if_true, if_false, bound]
      exact reaches_answer _ _ _
    · simp only [wide, last, decide_false, Bool.false_eq_true, if_false]
      exact read _ _ _ _

theorem reaches_relation (enters : EntersAs asked enter) (place : Place) (depth : Nat)
    (control : Control) (walker : Walker) (evaluated : List (Place × Nat)) :
    Reaches asked
      (stepRelation asked { control, stack, walker, evaluated } place .relation depth) stack
      (walkRelation enter asked place.1 place.2 depth walker) := by
  unfold stepRelation walkRelation
  cases asked.schema.findMember place.1.objectType place.2 with
  | none => exact reaches_answer _ _ _
  | some kind =>
    cases kind with
    | permission rule => exact reaches_answer _ _ _
    | relation allowed =>
      refine reaches_read walker evaluated (fun limit => rfl) ?_
      intro subjects control walker evaluated
      simp only [proceed]
      split
      · exact reaches_answer _ _ _
      · exact reaches_each enters depth _ [] _ _ _

theorem reaches_arrow (enters : EntersAs asked enter) (object : ObjectRef)
    (relation member : String) (depth : Nat) (control : Control) (walker : Walker)
    (evaluated : List (Place × Nat)) :
    Reaches asked
      (stepRelation asked { control, stack, walker, evaluated } (object, relation) (.arrow member)
        depth) stack
      (walkArrow enter asked object relation member depth walker) := by
  unfold stepRelation walkArrow
  cases asked.schema.findMember object.objectType relation with
  | none => exact reaches_answer _ _ _
  | some kind =>
    cases kind with
    | permission rule => exact reaches_answer _ _ _
    | relation allowed =>
      refine reaches_read walker evaluated (fun limit => rfl) ?_
      intro subjects control walker evaluated
      have each : Reaches asked _ stack _ := reaches_each enters depth
        ((listObjects allowed subjects).map fun next => (next, member)) [] control walker evaluated
      rw [walkEach_map] at each
      exact each

mutual

theorem reaches_rule (enters : EntersAs asked enter) (object : ObjectRef) :
    ∀ (rule : Rule) (depth : Nat) (stack : List Frame) (control : Control) (walker : Walker)
      (evaluated : List (Place × Nat)),
      Reaches asked (stepRule asked { control, stack, walker, evaluated } object depth rule) stack
        (walkRule enter asked object rule depth walker)
  | .computed member, depth, stack, _, walker, evaluated => by
    rw [walkRule]
    exact enters (object, member) (depth + 1) stack walker evaluated
  | .arrow relation member, depth, stack, control, walker, evaluated => by
    rw [walkRule]
    exact reaches_arrow enters object relation member depth control walker evaluated
  | .union rules, depth, stack, control, walker, evaluated => by
    rw [walkRule]
    exact reaches_union enters object rules (depth + 1) [] stack control walker evaluated
  | .intersection [], _, _, _, _, _ => by
    rw [walkRule]
    exact reaches_answer _ _ _
  | .intersection (rule :: rules), depth, stack, control, walker, evaluated => by
    rw [walkRule]
    exact reaches_intersection enters object (rule :: rules) (depth + 1) none stack control walker
      evaluated

theorem reaches_union (enters : EntersAs asked enter) (object : ObjectRef) :
    ∀ (rules : List Rule) (depth : Nat) (walks : List Walk) (stack : List Frame)
      (control : Control) (walker : Walker) (evaluated : List (Place × Nat)),
      Reaches asked (nextUnion { control, stack, walker, evaluated } object depth walks rules) stack
        (walkSum enter asked object rules depth walks walker)
  | [], _, _, _, _, _, _ => by
    rw [walkSum]
    exact reaches_answer _ _ _
  | rule :: rules, depth, walks, stack, control, walker, evaluated => by
    have first := reaches_rule enters object rule depth (.union object rules depth walks :: stack)
      (.rule object rule depth) walker evaluated
    rw [walkSum]
    refine Reaches.bind (.of_step rfl first) ?_
    intro walk after evaluated
    refine .of_step rfl ?_
    simp only [resume]
    split
    · exact reaches_answer _ _ _
    · exact reaches_union enters object rules depth _ stack _ _ _

theorem reaches_intersection (enters : EntersAs asked enter) (object : ObjectRef) :
    ∀ (rules : List Rule) (depth : Nat) (undecided : Option WalkLimit) (stack : List Frame)
      (control : Control) (walker : Walker) (evaluated : List (Place × Nat)),
      Reaches asked (nextIntersection { control, stack, walker, evaluated } object depth undecided
        rules) stack (walkIntersection enter asked object rules depth undecided walker)
  | [], _, _, _, _, _, _ => by
    rw [walkIntersection]
    exact reaches_answer _ _ _
  | rule :: rules, depth, undecided, stack, control, walker, evaluated => by
    have first := reaches_rule enters object rule depth
      (.intersection object rules depth undecided :: stack) (.rule object rule depth) walker evaluated
    rw [walkIntersection]
    refine Reaches.bind (.of_step rfl first) ?_
    intro walk after evaluated
    refine .of_step rfl ?_
    cases walk with
    | notFound => exact reaches_answer _ _ _
    | undecided limit => exact reaches_intersection enters object rules depth _ stack _ _ _
    | found => exact reaches_intersection enters object rules depth _ stack _ _ _

end

theorem reaches_body (enters : EntersAs asked enter) (place : Place) (depth : Nat)
    (control : Control) (walker : Walker) (evaluated : List (Place × Nat)) :
    Reaches asked (stepBody asked { control, stack, walker, evaluated } place depth) stack
      (walkKind enter asked place.1 place.2 depth walker) := by
  unfold stepBody walkKind
  cases asked.schema.findMember place.1.objectType place.2 with
  | none => exact reaches_answer _ _ _
  | some kind =>
    cases kind with
    | relation allowed => exact reaches_relation enters place depth _ _ _
    | permission rule =>
      exact .of_step rfl (reaches_rule enters place.1 rule depth stack _ walker evaluated)

/-- A walk from a member does what the recursion does from it. -/
theorem entersAs_walkMember (fuel : Nat) : EntersAs asked (walkMember asked fuel) := by
  induction fuel with
  | zero => exact fun _ _ _ _ _ => trivial
  | succ fuel ih =>
    intro place depth stack walker evaluated
    refine .of_step rfl ?_
    unfold walkMember
    rw [WalkM.modify_bind, WalkM.read_bind]
    change Reaches asked (if walker.steps + 1 > asked.bounds.maxSteps then _
      else if decide (asked.around.now walker.clockReadings > asked.deadline) = true then _
      else _) _ _
    by_cases tired : walker.steps + 1 > asked.bounds.maxSteps
    · simp only [tired, if_true]
      exact reaches_answer _ _ _
    simp only [tired, if_false]
    change Reaches asked _ stack (WalkM.bind (checkTime asked) _ _)
    rw [WalkM.bind, checkTime_eq]
    by_cases late : asked.around.now walker.clockReadings > asked.deadline
    · simp only [late, decide_true, if_true]
      exact reaches_answer _ _ _
    simp only [late, decide_false, Bool.false_eq_true, if_false]
    by_cases deep : depth > asked.bounds.maxDepth
    · simp only [deep, if_true]
      exact reaches_answer _ _ _
    simp only [deep, if_false]
    rw [WalkM.read_bind]
    simp only [Walker.find, State.ticked, State.stepped]
    cases walker.known.lookup place with
    | some known => exact reaches_answer _ _ _
    | none =>
      simp only
      rw [enter_bind]
      by_cases again : place ∈ walker.walking
      · simp only [again, if_true]
        exact reaches_answer _ _ _
      simp only [again, if_false]
      refine Reaches.bind (.of_step rfl (reaches_body ih place depth _ _ _)) ?_
      intro walk after evaluated
      exact .of_step rfl (reaches_answer _ _ _)

/-- A walk ends, in an answer or in a failure of the storage, as the recursion
says: the depth of its members bounds it, whatever the clock. -/
theorem walk_ends (object : ObjectRef) (member : String) :
    ∃ last, Steps asked (.start object member) last ∧ step asked last = none ∧
      last.outcome = some (walkRelations asked object member) := by
  have reaches := @entersAs_walkMember asked (asked.bounds.maxDepth + 2) (object, member) 0
    [] .start []
  have stops := @stops_walkMember asked (asked.bounds.maxDepth + 2) object member 0
    (by omega) (by omega) .start
  unfold walkRelations
  match ended : walkMember asked (asked.bounds.maxDepth + 2) object member 0 .start, reaches with
  | .ok (walk, after), ⟨evaluated, steps⟩ => exact ⟨_, steps, rfl, rfl⟩
  | .error (.storage error), ⟨last, steps, failed⟩ =>
    refine ⟨last, steps, ?_, ?_⟩
    · rw [step, failed]
    · rw [State.outcome, failed]
      rfl
  | .error .outOfFuel, _ =>
    obtain ⟨error, same, -⟩ := stops _ ended
    cases same

end Computed

/-- What a state of a walk is told by its stack and by what it did so far. -/
structure State.Sound (asked : Question) (state : State) : Prop where
  /-- What is being walked is what is on the stack. -/
  walking : state.walker.walking = state.stack.filterMap Frame.place
  apart : ∀ place ∈ state.walker.walking, state.walker.find place = none
  /-- The body of a member is evaluated once at most. -/
  once : (state.evaluated.map Prod.fst).Nodup
  shallow : ∀ entry ∈ state.evaluated, entry.2 ≤ asked.bounds.maxDepth
  asks : state.walker.storageReadings ≤ asked.bounds.maxReads

theorem State.Inv.sound {asked : Question} {state : State} (inv : state.Inv asked) :
    state.Sound asked := by
  refine ⟨inv.walking, ?_, inv.once, inv.shallow, inv.asks⟩
  intro place walked
  have nodup := inv.told.nodup_iff.mp inv.once
  rw [Walker.find_eq_none_iff]
  exact fun known => (List.nodup_append.mp nodup).2.2 place known place walked rfl

/-- Through every state of a walk, up to its answer or to a failure of the
storage: what is being walked is on the stack and not known, no member is walked
twice or too deep, and the storage is asked within its bound. Every walk ends. -/
theorem walk_keeps_its_bounds (asked : Question) (object : ObjectRef) (member : String) :
    (∀ state, Steps asked (.start object member) state → state.Sound asked) ∧
    ∃ last, step asked last = none ∧ last.outcome = some (walkRelations asked object member) ∧
      ∀ state, Steps asked (.start object member) state → Steps asked state last := by
  constructor
  · intro state steps
    exact ((State.Inv.start object member).of_steps steps).sound
  · obtain ⟨last, reached, stuck, outcome⟩ := @walk_ends asked object member
    refine ⟨last, stuck, outcome, ?_⟩
    intro state steps
    have determined : Relator.RightUnique fun state next => step asked state = some next :=
      fun _ _ _ one other => Option.some.inj (one.symm.trans other)
    rcases Relation.ReflTransGen.total_of_right_unique determined steps reached with on | back
    · exact on
    · rcases back.cases_head with same | ⟨next, stepped, -⟩
      · exact same ▸ .refl
      · rw [stuck] at stepped
        cases stepped

end Saffui.Authz.Relations
