import Saffui.Foundation.Traces
import Saffui.Foundation.History

/-!
# The statements of a program and what they answered

A `Log` is what a program did, with no storage in it: the statements of its
open unit and of those before, each with its answer, and what it drew in the
open unit. `Prog.logs` follows a program through every answer a statement may
give; its rules make of a program a formula about lists. What is shown so of
every call holds of every unit a run commits.
-/

namespace Saffui.Foundation.Language

variable {L : Language} {C : L.Calls} {α β : Type}

/-- A statement, and its answer. -/
abbrev Told (L : Language) := Σ op : L.Op, L.Res op

def Event.told (event : L.Event) : L.Told := ⟨event.op, event.result⟩

structure Log (L : Language) where
  /-- The units that ended, whether each committed, and its statements. -/
  ended : List (Bool × List L.Told)
  script : List L.Told
  drawn : List L.Id

namespace Log

def fresh : L.Log := ⟨[], [], []⟩

def ran (log : L.Log) (op : L.Op) (result : L.Res op) : L.Log :=
  { log with script := log.script ++ [⟨op, result⟩] }

def drew (log : L.Log) (id : L.Id) : L.Log := { log with drawn := id :: log.drawn }

def finish (log : L.Log) (committed : Bool) : L.Log :=
  ⟨log.ended ++ [(committed, log.script)], [], []⟩

/-- Every statement so far, in their order. -/
def told (log : L.Log) : List L.Told := log.ended.flatMap Prod.snd ++ log.script

section Fields

variable (log : L.Log) (op : L.Op) (result : L.Res op) (id : L.Id) (committed : Bool)

@[simp]
theorem script_ran : (log.ran op result).script = log.script ++ [⟨op, result⟩] := rfl

@[simp]
theorem ended_ran : (log.ran op result).ended = log.ended := rfl

@[simp]
theorem drawn_ran : (log.ran op result).drawn = log.drawn := rfl

@[simp]
theorem told_ran : (log.ran op result).told = log.told ++ [⟨op, result⟩] := by
  simp [told]

@[simp]
theorem script_drew : (log.drew id).script = log.script := rfl

@[simp]
theorem ended_drew : (log.drew id).ended = log.ended := rfl

@[simp]
theorem drawn_drew : (log.drew id).drawn = id :: log.drawn := rfl

@[simp]
theorem told_drew : (log.drew id).told = log.told := rfl

@[simp]
theorem script_finish : (log.finish committed).script = [] := rfl

@[simp]
theorem ended_finish :
    (log.finish committed).ended = log.ended ++ [(committed, log.script)] := rfl

@[simp]
theorem drawn_finish : (log.finish committed).drawn = [] := rfl

@[simp]
theorem told_finish : (log.finish committed).told = log.told := by
  simp [told]

@[simp]
theorem script_fresh : (fresh : L.Log).script = [] := rfl

@[simp]
theorem ended_fresh : (fresh : L.Log).ended = [] := rfl

@[simp]
theorem told_fresh : (fresh : L.Log).told = [] := rfl

end Fields

end Log

/-- What a program did, as its log. -/
def Work.log (work : L.Work) : L.Log where
  ended := work.ended.map fun unit => (unit.committed, unit.events.map Event.told)
  script := work.events.map Event.told
  drawn := work.drawn

theorem Work.log_ran (work : L.Work) (op : L.Op) (span : Span) (snapshot now : L.Db) :
    (work.ran op span snapshot now).log =
      work.log.ran op (work.event op span snapshot now).result := by
  simp [Work.log, Work.ran, Log.ran, Event.told, Work.event]

theorem Work.log_mint (work : L.Work) (id : L.Id) : (work.mint id).log = work.log.drew id := rfl

theorem Work.log_finish (work : L.Work) (committed : Bool) :
    (work.finish committed).log = work.log.finish committed := by
  simp [Work.log, Work.finish, Log.finish]

theorem Work.told_log (work : L.Work) : work.log.told = work.told.map Event.told := by
  simp [Work.log, Log.told, Work.told, List.flatMap_map, List.map_flatMap]

/-- A statement of a log is one that ran. -/
theorem Work.exists_of_mem_script {work : L.Work} {one : L.Told} (inside : one ∈ work.log.script) :
    ∃ event ∈ work.events, event.told = one :=
  List.mem_map.mp inside

theorem Work.exists_of_mem_told {work : L.Work} {one : L.Told} (inside : one ∈ work.log.told) :
    ∃ event ∈ work.told, event.told = one := by
  rw [Work.told_log] at inside
  exact List.mem_map.mp inside

/-- Two statements of a log in their order are two that ran so. -/
theorem exists_of_sublist_map {events : List L.Event} {first second : L.Told}
    (ordered : [first, second].Sublist (events.map Event.told)) :
    ∃ one other, [one, other].Sublist events ∧ one.told = first ∧ other.told = second := by
  obtain ⟨pair, sub, same⟩ := List.sublist_map_iff.mp ordered
  match pair, same with
  | [one, other], same =>
    simp only [List.map_cons, List.map_nil, List.cons.injEq, and_true] at same
    exact ⟨one, other, sub, same.1.symm, same.2.symm⟩

/-- A statement of a unit before which it only read. -/
def Leads (reads : L.Op → Bool) (one : L.Told) (script : List L.Told) : Prop :=
  ∃ earlier later, script = earlier ++ one :: later ∧ ∀ read ∈ earlier, reads read.1 = true

theorem Leads.mem {reads : L.Op → Bool} {one : L.Told} {script : List L.Told}
    (leads : Leads reads one script) : one ∈ script := by
  obtain ⟨earlier, later, rfl, -⟩ := leads
  simp

theorem Leads.head {reads : L.Op → Bool} {one : L.Told} {script : List L.Told} :
    Leads reads one (one :: script) :=
  ⟨[], script, rfl, by simp⟩

theorem Leads.cons {reads : L.Op → Bool} {one read : L.Told} {script : List L.Told}
    (reading : reads read.1 = true) (leads : Leads reads one script) :
    Leads reads one (read :: script) := by
  obtain ⟨earlier, later, rfl, only⟩ := leads
  exact ⟨read :: earlier, later, rfl, List.forall_mem_cons.mpr ⟨reading, only⟩⟩

theorem Work.exists_of_leads {work : L.Work} {reads : L.Op → Bool} {one : L.Told}
    (leads : Leads reads one work.log.script) :
    ∃ earlier event later, work.events = earlier ++ event :: later ∧ event.told = one ∧
      ∀ read ∈ earlier, reads read.op = true := by
  obtain ⟨before, after, split, reading⟩ := leads
  obtain ⟨earlier, rest, events, same, tail⟩ := List.map_eq_append_iff.mp split
  obtain ⟨event, later, rfl, told, -⟩ := List.map_eq_cons_iff.mp tail
  refine ⟨earlier, event, later, events, told, ?_⟩
  intro read inside
  exact reading read.told (same ▸ List.mem_map_of_mem inside)

namespace Prog

/-- Whatever it is answered, each commit of a program finds its log as `guar`
has it, and its end as `post` has it. -/
def logs (guar : L.Log → Prop) : L.Prog α → (α → L.Log → Prop) → L.Log → Prop
  | done answer, post, log => post answer log
  | fail _, _, _ => True
  | statement op next, post, log => ∀ result, (next result).logs guar post (log.ran op result)
  | ask _ next, post, log => ∀ answer, (next answer).logs guar post log
  | mint next, post, log => ∀ id, (next id).logs guar post (log.drew id)
  | begin next, post, log => next.logs guar post (log.finish false)
  | drop next, post, log => next.logs guar post (log.finish false)
  | commit next, post, log => guar log ∧ next.logs guar post (log.finish true)

variable {guar : L.Log → Prop} {post : α → L.Log → Prop} {log : L.Log}

@[simp]
theorem logs_pure {answer : α} :
    (Pure.pure answer : L.Prog α).logs guar post log = post answer log := rfl

@[simp]
theorem logs_fail {error : L.Err} : (fail error : L.Prog α).logs guar post log = True := rfl

@[simp]
theorem logs_bind {prog : L.Prog α} {rest : α → L.Prog β} {post : β → L.Log → Prop} :
    (prog >>= rest).logs guar post log =
      prog.logs guar (fun answer log => (rest answer).logs guar post log) log := by
  change (prog.bind rest).logs guar post log = _
  induction prog generalizing log with
  | done answer => rfl
  | fail error => rfl
  | statement op next ih => exact forall_congr fun result => ih result
  | ask question next ih => exact forall_congr fun answer => ih answer
  | mint next ih => exact forall_congr fun id => ih id
  | begin next ih => exact ih
  | drop next ih => exact ih
  | commit next ih => exact congrArg (guar log ∧ ·) ih

@[simp]
theorem logs_beginUnit {post : Unit → L.Log → Prop} :
    beginUnit.logs guar post log = post () (log.finish false) := rfl

@[simp]
theorem logs_dropUnit {post : Unit → L.Log → Prop} :
    dropUnit.logs guar post log = post () (log.finish false) := rfl

@[simp]
theorem logs_commitUnit {post : Unit → L.Log → Prop} :
    commitUnit.logs guar post log = (guar log ∧ post () (log.finish true)) := rfl

/-- What is shown of the logs of a program is so of what it runs. -/
theorem tells_of_logs {prog : L.Prog α} {work : L.Work} (holds : prog.logs guar post work.log) :
    prog.tells (fun work => guar work.log) (fun answer work => post answer work.log) work := by
  induction prog generalizing work with
  | done answer => exact tells_done holds
  | fail error => exact tells_fail
  | statement op next ih =>
    apply tells_statement
    intro span snapshot now
    apply ih
    rw [Work.log_ran]
    exact holds _
  | ask question next ih => exact tells_ask fun answer => ih answer (holds answer)
  | mint next ih => exact tells_mint fun id => ih id (holds id)
  | begin next ih => exact tells_begin (ih (by rw [Work.log_finish]; exact holds))
  | drop next ih => exact tells_drop (ih (by rw [Work.log_finish]; exact holds))
  | commit next ih => exact tells_commit holds.1 (ih (by rw [Work.log_finish]; exact holds.2))

end Prog

/-- What a development shows of the logs of its calls. -/
structure Logs (C : L.Calls) where
  guar : C.Call → L.Log → Prop
  post : C.Call → C.Answer → L.Log → Prop
  calls : ∀ call, (C.program call).logs (guar call) (post call) .fresh

def Logs.traces (logs : Logs C) : Traces C where
  guar call work := logs.guar call work.log
  post call answer work := logs.post call answer work.log
  calls call := Prog.tells_of_logs (logs.calls call)

/-- The log of every unit committed and of every answer given is as shown. -/
theorem Reachable.logged (logs : Logs C) {mode : Mode} {start : L.Db} {ids : List L.Id}
    {world : World C} (reached : Reachable C mode start ids world) :
    (∀ commit ∈ world.past, logs.guar commit.call commit.work.log) ∧
      ∀ answered ∈ world.answered, logs.post answered.call answered.answer answered.work.log :=
  reached.traced logs.traces

/-- The first statement of a call finds nothing its unit wrote. -/
structure Work.Begun (work : L.Work) : Prop where
  idle : work.told = [] → work.writes = []
  first : ∀ first rest, work.told = first :: rest → first.wrote = []

theorem Work.Begun.ran {work : L.Work} (begun : work.Begun) (op : L.Op) (span : Span)
    (snapshot now : L.Db) : (work.ran op span snapshot now).Begun where
  idle none_told := by
    rw [Work.told_ran] at none_told
    simp at none_told
  first first rest split := by
    rw [Work.told_ran] at split
    cases earlier : work.told with
    | nil =>
      rw [earlier] at split
      obtain ⟨rfl, -⟩ := List.cons.inj split
      exact begun.idle earlier
    | cons one others =>
      rw [earlier] at split
      obtain ⟨rfl, -⟩ := List.cons.inj split
      exact begun.first one others earlier

theorem Work.Begun.finish {work : L.Work} (begun : work.Begun) (committed : Bool) :
    (work.finish committed).Begun where
  idle _ := rfl
  first first rest split := begun.first first rest (by rwa [Work.told_finish] at split)

theorem Prog.tells_begun (prog : L.Prog α) {work : L.Work} (begun : work.Begun) :
    prog.tells (fun work => work.Begun) (fun _ work => work.Begun) work := by
  induction prog generalizing work with
  | done answer => exact tells_done begun
  | fail error => exact tells_fail
  | statement op next ih =>
    exact tells_statement fun span snapshot now => ih _ (begun.ran op span snapshot now)
  | ask question next ih => exact tells_ask fun answer => ih answer begun
  | mint next ih => exact tells_mint fun id => ih id ⟨begun.idle, begun.first⟩
  | begin next ih => exact tells_begin (ih (begun.finish false))
  | drop next ih => exact tells_drop (ih (begun.finish false))
  | commit next ih => exact tells_commit begun (ih (begun.finish true))

def Traces.begun (C : L.Calls) : Traces C where
  guar _ work := work.Begun
  post _ _ work := work.Begun
  calls call := Prog.tells_begun (C.program call) ⟨fun _ => rfl, nofun⟩

theorem Reachable.begun {mode : Mode} {start : L.Db} {ids : List L.Id} {world : World C}
    (reached : Reachable C mode start ids world) {commit : Commit C} (inside : commit ∈ world.past) :
    commit.work.Begun :=
  (reached.traced (Traces.begun C)).1 commit inside

end Saffui.Foundation.Language
