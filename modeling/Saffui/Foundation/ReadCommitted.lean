import Saffui.Foundation.Rows

/-!
# Programs over a storage whose units of work are READ COMMITTED

A `Language` says what a storage holds and what its statements do. A program
runs statements in units of work, asks its surroundings and mints
identifiers; a world runs any number of programs at once. Their steps
interleave in any order:

* a statement `start`s, which fixes what it sees: the storage as the last
  unit committed it, through the writes of its own unit;
* it `finish`es once no other unit holds a row it locks against it. Its rows
  are those it saw; what it decides and writes of each it reads again as the
  row then stands;
* a unit commits its writes at once, or is dropped without trace; its locks
  last until then;
* a program stops at any point without an answer, as one whose storage fails
  or whose caller is gone, its open unit dropped.

Under `Mode.atomic` nothing commits between the start and the end of a
statement; `Mode.waiting` lets a statement wait with what it saw at its start.
-/

namespace Saffui.Foundation

inductive LockMode where
  | share
  | exclusive
  deriving DecidableEq, Repr

/-- What a storage holds, and what its statements do. -/
structure Language where
  Key : Type
  Row : Key → Type
  [keyEq : DecidableEq Key]
  Op : Type
  Res : Op → Type
  /-- The rows a statement locks, of those it sees at its start. -/
  locks : Op → AList Row → List (Key × LockMode)
  /-- What a statement writes and answers, from what it saw at its start and
  what is there once it holds its rows. -/
  run : (op : Op) → (seen now : AList Row) → List (Write Row) × Res op
  /-- A statement writes only rows it locked for itself. -/
  run_locked : ∀ op seen now, ∀ write ∈ (run op seen now).1,
    (write.1, LockMode.exclusive) ∈ locks op seen
  /-- What a program asks its surroundings, and what they may answer. -/
  Ask : Type
  Ans : Ask → Type
  Id : Type
  [idEq : DecidableEq Id]
  Err : Type

attribute [instance] Language.keyEq Language.idEq

namespace Language

variable (L : Language)

abbrev Db := AList L.Row

/-- A program: what a call does to the storage, step by step. -/
inductive Prog (α : Type) where
  | done (answer : α)
  /-- It ends in an error, its open unit dropped. -/
  | fail (error : L.Err)
  | statement (op : L.Op) (next : L.Res op → Prog α)
  | ask (question : L.Ask) (next : L.Ans question → Prog α)
  | mint (next : L.Id → Prog α)
  | begin (next : Prog α)
  | commit (next : Prog α)
  | drop (next : Prog α)

variable {L} {α β : Type}

namespace Prog

def bind : L.Prog α → (α → L.Prog β) → L.Prog β
  | done answer, rest => rest answer
  | fail error, _ => fail error
  | statement op next, rest => statement op fun result => bind (next result) rest
  | ask question next, rest => ask question fun answer => bind (next answer) rest
  | mint next, rest => mint fun id => bind (next id) rest
  | begin next, rest => begin (bind next rest)
  | commit next, rest => commit (bind next rest)
  | drop next, rest => drop (bind next rest)

instance : Monad L.Prog where
  pure := done
  bind := bind

end Prog

/-- Runs one statement of the open unit. -/
def exec (op : L.Op) : L.Prog (L.Res op) := .statement op .done

def inquire (question : L.Ask) : L.Prog (L.Ans question) := .ask question .done

def newId : L.Prog L.Id := .mint .done

def beginUnit : L.Prog Unit := .begin (.done ())

def commitUnit : L.Prog Unit := .commit (.done ())

def dropUnit : L.Prog Unit := .drop (.done ())

/-- The answer of a check, or the end of the program in its error. -/
def ofExcept : Except L.Err α → L.Prog α
  | .ok answer => .done answer
  | .error error => .fail error

/-- From when to when a statement ran, counted in units committed. -/
structure Span where
  started : Nat
  finished : Nat

/-- A statement that ran: when; the storage as it saw it at its start and as
it found it at its end; what its own unit had written before it; and what it
answered. -/
structure Event (L : Language) where
  op : L.Op
  span : Span
  wrote : List (Write L.Row)
  snapshot : L.Db
  now : L.Db
  result : L.Res op

def Event.started (event : L.Event) : Nat := event.span.started

def Event.finished (event : L.Event) : Nat := event.span.finished

/-- What the statement saw at its start, its own unit's writes with it. -/
def Event.seen (event : L.Event) : L.Db := overlay event.wrote event.snapshot

/-- What the statement found once it held its rows. -/
def Event.found (event : L.Event) : L.Db := overlay event.wrote event.now

/-- A unit that ended, and what ran in it. -/
structure Ended (L : Language) where
  committed : Bool
  events : List L.Event

/-- What a program did so far: in its open unit, and in those before it. -/
structure Work (L : Language) where
  writes : List (Write L.Row)
  locks : List (L.Key × LockMode)
  minted : List L.Id
  /-- The identifiers minted in the open unit. -/
  drawn : List L.Id
  events : List L.Event
  ended : List L.Ended

namespace Work

def fresh : L.Work := ⟨[], [], [], [], [], []⟩

/-- The event of a statement that ends in this unit. -/
def event (work : L.Work) (op : L.Op) (span : Span) (snapshot now : L.Db) : L.Event where
  op := op
  span := span
  wrote := work.writes
  snapshot := snapshot
  now := now
  result := (L.run op (overlay work.writes snapshot) (overlay work.writes now)).2

/-- The unit once a statement of it ran. -/
def ran (work : L.Work) (op : L.Op) (span : Span) (snapshot now : L.Db) : L.Work :=
  { work with
    writes := work.writes ++ (L.run op (overlay work.writes snapshot) (overlay work.writes now)).1
    locks := work.locks ++ L.locks op (overlay work.writes snapshot)
    events := work.events ++ [work.event op span snapshot now] }

/-- The unit ended: its locks are given back, and what it wrote with it. -/
def finish (work : L.Work) (committed : Bool) : L.Work :=
  { work with
    writes := [], locks := [], drawn := [], events := []
    ended := work.ended ++ [⟨committed, work.events⟩] }

def mint (work : L.Work) (id : L.Id) : L.Work :=
  { work with minted := id :: work.minted, drawn := id :: work.drawn }

end Work

/-- What a statement saw at its start. -/
structure Waiting (L : Language) where
  started : Nat
  snapshot : L.Db

/-- The span of a statement that ends now. -/
def Waiting.span (waiting : L.Waiting) (finished : Nat) : Span := ⟨waiting.started, finished⟩

inductive Mode where
  | waiting
  | atomic
  deriving DecidableEq, Repr

/-- The calls a world runs, each a program. -/
structure Calls (L : Language) where
  Call : Type
  Answer : Type
  program : Call → L.Prog Answer

variable (C : L.Calls)

/-- A unit that committed, of which call, and what it made of the storage. -/
structure Commit where
  pid : Nat
  call : C.Call
  work : L.Work
  before : L.Db
  after : L.Db

structure Proc where
  call : C.Call
  prog : L.Prog C.Answer
  work : L.Work
  waiting : Option L.Waiting

/-- A call that ended with an answer, what it did, and the storage as it then
stood. -/
structure Answered where
  pid : Nat
  call : C.Call
  answer : C.Answer
  work : L.Work
  db : L.Db

structure World where
  db : L.Db
  /-- The units committed so far, the newest first. -/
  past : List (Commit C)
  /-- Every call that came, in their order; `none` once it is over. -/
  procs : List (Option (Proc C))
  /-- Every identifier minted so far, or there from the start. -/
  minted : List L.Id
  /-- Every statement that ran, in a unit that committed or not. -/
  ran : List L.Event
  answered : List (Answered C)

/-- One step of a world. -/
inductive Label where
  | call (call : C.Call)
  | start (pid : Nat)
  | finish (pid : Nat)
  | ask (pid : Nat) (surroundings : (question : L.Ask) → L.Ans question)
  | mint (pid : Nat) (id : L.Id)
  /-- Begins, commits or drops a unit, or answers. -/
  | turn (pid : Nat)
  | stop (pid : Nat)

variable {C}

namespace World

def initial (db : L.Db) (minted : List L.Id) : World C := ⟨db, [], [], minted, [], []⟩

def proc? (world : World C) (pid : Nat) : Option (Proc C) := world.procs[pid]?.join

def setProc (world : World C) (pid : Nat) (proc : Option (Proc C)) : World C :=
  { world with procs := world.procs.set pid proc }

/-- Two locks of different units on one row: only shares go together. -/
def conflicts (held wanted : L.Key × LockMode) : Bool :=
  held.1 = wanted.1 && (held.2 = .exclusive || wanted.2 = .exclusive)

/-- Whether no other unit holds a row against the locks wanted. -/
def isFree (world : World C) (pid : Nat) (wanted : List (L.Key × LockMode)) : Bool :=
  (List.range world.procs.length).all fun other =>
    other == pid || match world.proc? other with
      | none => true
      | some proc => proc.work.locks.all fun held => wanted.all fun want => !conflicts held want

def startStatement (world : World C) (pid : Nat) : Option (World C) :=
  match world.proc? pid with
  | some { call, prog := .statement op next, work, waiting := none } =>
    some (world.setProc pid (some {
      call, work, prog := .statement op next, waiting := some ⟨world.past.length, world.db⟩ }))
  | _ => none

def finishStatement (mode : Mode) (world : World C) (pid : Nat) : Option (World C) :=
  match world.proc? pid with
  | some { call, prog := .statement op next, work, waiting := some waiting } =>
    if (mode = .atomic → waiting.started = world.past.length) ∧
        world.isFree pid (L.locks op (overlay work.writes waiting.snapshot)) then
      some { world.setProc pid (some {
          call
          prog := next
            (L.run op (overlay work.writes waiting.snapshot) (overlay work.writes world.db)).2
          work := work.ran op (waiting.span world.past.length) waiting.snapshot world.db
          waiting := none }) with
        ran := work.event op (waiting.span world.past.length) waiting.snapshot world.db ::
          world.ran }
    else none
  | _ => none

def askSurroundings (world : World C) (pid : Nat)
    (surroundings : (question : L.Ask) → L.Ans question) : Option (World C) :=
  match world.proc? pid with
  | some { call, prog := .ask question next, work, .. } =>
    some (world.setProc pid (some {
      call, work, prog := next (surroundings question), waiting := none }))
  | _ => none

def mintId (world : World C) (pid : Nat) (id : L.Id) : Option (World C) :=
  match world.proc? pid with
  | some { call, prog := .mint next, work, .. } =>
    if id ∈ world.minted then none
    else some { world.setProc pid
        (some { call, prog := next id, work := work.mint id, waiting := none }) with
      minted := id :: world.minted }
  | _ => none

/-- The writes of a unit become the storage. -/
def commit (world : World C) (pid : Nat) (call : C.Call) (work : L.Work) : World C :=
  { world with
    db := overlay work.writes world.db
    past := ⟨pid, call, work, world.db, overlay work.writes world.db⟩ :: world.past }

def takeTurn (world : World C) (pid : Nat) : Option (World C) :=
  match world.proc? pid with
  | some { call, prog := .begin next, work, .. } =>
    some (world.setProc pid
      (some { call, prog := next, work := work.finish false, waiting := none }))
  | some { call, prog := .drop next, work, .. } =>
    some (world.setProc pid
      (some { call, prog := next, work := work.finish false, waiting := none }))
  | some { call, prog := .commit next, work, .. } =>
    some ((world.commit pid call work).setProc pid
      (some { call, prog := next, work := work.finish true, waiting := none }))
  | some { call, prog := .done answer, work, .. } =>
    some { world.setProc pid none with
      answered := ⟨pid, call, answer, work, world.db⟩ :: world.answered }
  | some { prog := .fail _, .. } => some (world.setProc pid none)
  | _ => none

/-- What a world becomes by one step, where the step can be taken. -/
def step (mode : Mode) (world : World C) : Label C → Option (World C)
  | .call call => some { world with
      procs := world.procs ++ [some ⟨call, C.program call, .fresh, none⟩] }
  | .start pid => world.startStatement pid
  | .finish pid => world.finishStatement mode pid
  | .ask pid surroundings => world.askSurroundings pid surroundings
  | .mint pid id => world.mintId pid id
  | .turn pid => world.takeTurn pid
  | .stop pid => some (world.setProc pid none)

/-- Runs a world by a list of steps, none skipped. -/
def run (mode : Mode) (world : World C) : List (Label C) → Option (World C)
  | [] => some world
  | label :: labels => (world.step mode label).bind fun next => next.run mode labels

end World

/-- A world some run of calls leads to, from a storage and the identifiers in
it. -/
inductive Reachable (C : L.Calls) (mode : Mode) (start : L.Db) (ids : List L.Id) :
    World C → Prop where
  | initial : Reachable C mode start ids (.initial start ids)
  | step {before after : World C} {label : Label C} (reached : Reachable C mode start ids before)
      (stepped : before.step mode label = some after) : Reachable C mode start ids after

theorem Reachable.of_run {mode : Mode} {start : L.Db} {ids : List L.Id} {labels : List (Label C)}
    {before after : World C} (reached : Reachable C mode start ids before)
    (ran : before.run mode labels = some after) : Reachable C mode start ids after := by
  induction labels generalizing before with
  | nil =>
    obtain rfl := Option.some.inj ran
    exact reached
  | cons label labels ih =>
    obtain ⟨next, stepped, ran⟩ := Option.bind_eq_some_iff.mp ran
    exact ih (reached.step stepped) ran

/-- What a step does, one case for each kind of program it advances. -/
inductive World.Stepped (mode : Mode) (world : World C) : World C → Prop where
  | called (call : C.Call) :
      Stepped mode world { world with
        procs := world.procs ++ [some ⟨call, C.program call, .fresh, none⟩] }
  | started {pid : Nat} {call : C.Call} {op : L.Op} {next : L.Res op → L.Prog C.Answer}
      {work : L.Work} (running : world.proc? pid = some ⟨call, .statement op next, work, none⟩) :
      Stepped mode world (world.setProc pid
        (some ⟨call, .statement op next, work, some ⟨world.past.length, world.db⟩⟩))
  | finished {pid : Nat} {call : C.Call} {op : L.Op} {next : L.Res op → L.Prog C.Answer}
      {work : L.Work} {waiting : L.Waiting}
      (running : world.proc? pid = some ⟨call, .statement op next, work, some waiting⟩)
      (atomic : mode = .atomic → waiting.started = world.past.length)
      (free : world.isFree pid (L.locks op (overlay work.writes waiting.snapshot)) = true) :
      Stepped mode world { world.setProc pid (some ⟨call,
          next (work.event op (waiting.span world.past.length) waiting.snapshot world.db).result,
          work.ran op (waiting.span world.past.length) waiting.snapshot world.db, none⟩) with
        ran := work.event op (waiting.span world.past.length) waiting.snapshot world.db ::
          world.ran }
  | asked {pid : Nat} {call : C.Call} {question : L.Ask} {next : L.Ans question → L.Prog C.Answer}
      {work : L.Work} {waiting : Option L.Waiting} (answer : L.Ans question)
      (running : world.proc? pid = some ⟨call, .ask question next, work, waiting⟩) :
      Stepped mode world (world.setProc pid (some ⟨call, next answer, work, none⟩))
  | minted {pid : Nat} {call : C.Call} {next : L.Id → L.Prog C.Answer} {work : L.Work}
      {waiting : Option L.Waiting} {id : L.Id}
      (running : world.proc? pid = some ⟨call, .mint next, work, waiting⟩)
      (new : id ∉ world.minted) :
      Stepped mode world { world.setProc pid (some ⟨call, next id, work.mint id, none⟩) with
        minted := id :: world.minted }
  | begun {pid : Nat} {call : C.Call} {next : L.Prog C.Answer} {work : L.Work}
      {waiting : Option L.Waiting}
      (running : world.proc? pid = some ⟨call, .begin next, work, waiting⟩) :
      Stepped mode world (world.setProc pid (some ⟨call, next, work.finish false, none⟩))
  | dropped {pid : Nat} {call : C.Call} {next : L.Prog C.Answer} {work : L.Work}
      {waiting : Option L.Waiting}
      (running : world.proc? pid = some ⟨call, .drop next, work, waiting⟩) :
      Stepped mode world (world.setProc pid (some ⟨call, next, work.finish false, none⟩))
  | committed {pid : Nat} {call : C.Call} {next : L.Prog C.Answer} {work : L.Work}
      {waiting : Option L.Waiting}
      (running : world.proc? pid = some ⟨call, .commit next, work, waiting⟩) :
      Stepped mode world ((world.commit pid call work).setProc pid
        (some ⟨call, next, work.finish true, none⟩))
  | answered {pid : Nat} {call : C.Call} {answer : C.Answer} {work : L.Work}
      {waiting : Option L.Waiting}
      (running : world.proc? pid = some ⟨call, .done answer, work, waiting⟩) :
      Stepped mode world { world.setProc pid none with
        answered := ⟨pid, call, answer, work, world.db⟩ :: world.answered }
  | stopped (pid : Nat) : Stepped mode world (world.setProc pid none)

theorem World.stepped_of_step {mode : Mode} {world after : World C} {label : Label C}
    (stepped : world.step mode label = some after) : world.Stepped mode after := by
  cases label with
  | call call =>
    obtain rfl := Option.some.inj stepped
    exact .called call
  | start pid =>
    simp only [World.step, World.startStatement] at stepped
    split at stepped
    · next running =>
      obtain rfl := Option.some.inj stepped
      exact .started running
    · cases stepped
  | finish pid =>
    simp only [World.step, World.finishStatement] at stepped
    split at stepped
    · next running =>
      split at stepped
      · next ready =>
        obtain rfl := Option.some.inj stepped
        exact .finished running ready.1 ready.2
      · cases stepped
    · cases stepped
  | ask pid surroundings =>
    simp only [World.step, World.askSurroundings] at stepped
    split at stepped
    · next running =>
      obtain rfl := Option.some.inj stepped
      exact .asked _ running
    · cases stepped
  | mint pid id =>
    simp only [World.step, World.mintId] at stepped
    split at stepped
    · next running =>
      split at stepped
      · cases stepped
      · next new =>
        obtain rfl := Option.some.inj stepped
        exact .minted running new
    · cases stepped
  | turn pid =>
    simp only [World.step, World.takeTurn] at stepped
    split at stepped
    · next running =>
      obtain rfl := Option.some.inj stepped
      exact .begun running
    · next running =>
      obtain rfl := Option.some.inj stepped
      exact .dropped running
    · next running =>
      obtain rfl := Option.some.inj stepped
      exact .committed running
    · next running =>
      obtain rfl := Option.some.inj stepped
      exact .answered running
    · obtain rfl := Option.some.inj stepped
      exact .stopped pid
    · cases stepped
  | stop pid =>
    obtain rfl := Option.some.inj stepped
    exact .stopped pid

/-- What holds at the start and is kept by every step holds of every world
reached. -/
theorem Reachable.invariant {mode : Mode} {start : L.Db} {ids : List L.Id} {holds : World C → Prop}
    (begins : holds (.initial start ids))
    (keeps : ∀ before after, holds before → before.Stepped mode after → holds after)
    {world : World C} (reached : Reachable C mode start ids world) : holds world := by
  induction reached with
  | initial => exact begins
  | step _ stepped ih => exact keeps _ _ ih (World.stepped_of_step stepped)

end Language

end Saffui.Foundation
