import Mathlib.Tactic.Common
import Saffui.Foundation.RelyGuarantee

/-!
# What a run leaves behind

Facts of every run, whatever its calls are: the units committed follow one
another, each from the storage the one before it left; every statement that
ran saw a storage some of them had left, and found one no older; the units
an answer speaks of are among those committed. `Proof.le_of_committed` orders
what a discipline moves in one direction along the units of a run.
-/

namespace Saffui.Foundation.Language

variable {L : Language} {C : L.Calls}

/-- The storage the newest of some units left, or the one they started from. -/
def dbOf (start : L.Db) : List (Commit C) → L.Db
  | [] => start
  | commit :: _ => commit.after

/-- The storage after the first units of a run, as many as asked. -/
def dbAt (start : L.Db) (past : List (Commit C)) (units : Nat) : L.Db :=
  dbOf start (past.drop (past.length - units))

/-- Each unit starts from what the one before it left. -/
def Chained (start : L.Db) : List (Commit C) → Prop
  | [] => True
  | commit :: older => commit.before = dbOf start older ∧ Chained start older

section DbAt

variable (start : L.Db) (past : List (Commit C)) (commit : Commit C)

theorem dbAt_length : dbAt start past past.length = dbOf start past := by
  simp [dbAt]

theorem dbAt_cons {units : Nat} (within : units ≤ past.length) :
    dbAt start (commit :: past) units = dbAt start past units := by
  unfold dbAt
  rw [List.length_cons, Nat.succ_sub within, List.drop_succ_cons]

theorem dbAt_append (newer older : List (Commit C)) {units : Nat} (within : units ≤ older.length) :
    dbAt start (newer ++ older) units = dbAt start older units := by
  induction newer with
  | nil => rfl
  | cons commit newer ih =>
    rw [List.cons_append, dbAt_cons start _ commit (by simp; omega), ih]

end DbAt

/-- A statement that ran answered what it does on a storage that was there at
its start and one that was there no earlier. -/
structure Event.Faithful (mode : Mode) (start : L.Db) (past : List (Commit C)) (event : L.Event) :
    Prop where
  started : event.started ≤ event.finished
  finished : event.finished ≤ past.length
  snapshot : event.snapshot = dbAt start past event.started
  now : event.now = dbAt start past event.finished
  atomic : mode = .atomic → event.finished = event.started
  result : event.result = (L.run event.op event.seen event.found).2

theorem Event.Faithful.cons {mode : Mode} {start : L.Db} {past : List (Commit C)} {event : L.Event}
    (faithful : event.Faithful mode start past) (commit : Commit C) :
    event.Faithful mode start (commit :: past) where
  started := faithful.started
  finished := Nat.le_succ_of_le faithful.finished
  snapshot := by
    have within := Nat.le_trans faithful.started faithful.finished
    rw [dbAt_cons start past commit within, faithful.snapshot]
  now := by rw [dbAt_cons start past commit faithful.finished, faithful.now]
  atomic := faithful.atomic
  result := faithful.result

/-- One statement ended before another started. -/
def Event.Before (first second : L.Event) : Prop := first.finished ≤ second.started

/-- Every statement a program ran so far, in their order. -/
def Work.told (work : L.Work) : List L.Event := work.ended.flatMap Ended.events ++ work.events

theorem Work.mem_told_of_mem {work : L.Work} {event : L.Event} (inside : event ∈ work.events) :
    event ∈ work.told :=
  List.mem_append_right _ inside

theorem Work.told_ran (work : L.Work) (op : L.Op) (span : Span) (snapshot now : L.Db) :
    (work.ran op span snapshot now).told = work.told ++ [work.event op span snapshot now] := by
  simp [Work.told, Work.ran]

theorem Work.told_finish (work : L.Work) (committed : Bool) :
    (work.finish committed).told = work.told := by
  simp [Work.told, Work.finish]

/-- The statements of a program ran, one after the other, and its units
committed are among those of the run. -/
structure ProcHistory (mode : Mode) (start : L.Db) (world : World C) (pid : Nat) (proc : Proc C) :
    Prop where
  waiting : ∀ waiting ∈ proc.waiting, waiting.started ≤ world.past.length ∧
    waiting.snapshot = dbAt start world.past waiting.started ∧
    ∀ event ∈ proc.work.told, event.finished ≤ waiting.started
  events : ∀ event ∈ proc.work.told, event ∈ world.ran
  ordered : proc.work.told.Pairwise Event.Before
  ended : ∀ unit ∈ proc.work.ended, unit.committed = true → ∃ commit ∈ world.past,
    commit.pid = pid ∧ commit.call = proc.call ∧ commit.work.events = unit.events

/-- What a run leaves behind. -/
structure WorldHistory (mode : Mode) (start : L.Db) (world : World C) : Prop where
  db : world.db = dbOf start world.past
  chained : Chained start world.past
  ran : ∀ event ∈ world.ran, event.Faithful mode start world.past
  procs : ∀ pid proc, world.proc? pid = some proc → ProcHistory mode start world pid proc
  /-- A unit committed what ran before it did. -/
  past : ∀ newer commit older, world.past = newer ++ commit :: older →
    ∀ event ∈ commit.work.told, event ∈ world.ran ∧ event.Faithful mode start older
  ordered : ∀ commit ∈ world.past, commit.work.told.Pairwise Event.Before
  /-- The units a call committed before are among those before it. -/
  earlier : ∀ newer commit older, world.past = newer ++ commit :: older →
    ∀ unit ∈ commit.work.ended, unit.committed = true → ∃ one ∈ older,
      one.pid = commit.pid ∧ one.call = commit.call ∧ one.work.events = unit.events
  written : ∀ commit ∈ world.past, commit.after = overlay commit.work.writes commit.before
  answered : ∀ answered ∈ world.answered, ∀ unit ∈ answered.work.ended, unit.committed = true →
    ∃ commit ∈ world.past, commit.pid = answered.pid ∧ commit.call = answered.call ∧
      commit.work.events = unit.events

namespace WorldHistory

variable {mode : Mode} {start : L.Db} {world : World C} {pid : Nat}

theorem initial (start : L.Db) (ids : List L.Id) :
    WorldHistory mode start (.initial start ids : World C) where
  db := rfl
  chained := trivial
  ran event inside := by simp [World.initial] at inside
  procs pid proc running := by simp [World.proc?, World.initial] at running
  past newer commit older split := by simp [World.initial] at split
  ordered commit inside := by simp [World.initial] at inside
  earlier newer commit older split := by simp [World.initial] at split
  written commit inside := by simp [World.initial] at inside
  answered answered inside := by simp [World.initial] at inside

theorem setProc (history : WorldHistory mode start world) {moved : Option (Proc C)}
    (told : ∀ proc ∈ moved, ProcHistory mode start world pid proc) :
    WorldHistory mode start (world.setProc pid moved) where
  db := history.db
  chained := history.chained
  ran := history.ran
  past := history.past
  ordered := history.ordered
  earlier := history.earlier
  written := history.written
  answered := history.answered
  procs other proc looked := by
    have held : ProcHistory mode start world other proc := by
      rcases World.proc?_setProc_eq_some looked with ⟨rfl, here⟩ | ⟨-, there⟩
      · exact told proc here
      · exact history.procs other proc there
    exact ⟨held.waiting, held.events, held.ordered, held.ended⟩

/-- The end of a unit moves its events to the units ended. -/
theorem finish {proc : Proc C} (told : ProcHistory mode start world pid proc)
    {prog : L.Prog C.Answer} :
    ProcHistory mode start world pid ⟨proc.call, prog, proc.work.finish false, none⟩ where
  waiting := by simp
  events := by
    rw [Work.told_finish]
    exact told.events
  ordered := by
    rw [Work.told_finish]
    exact told.ordered
  ended unit inside committed := by
    simp only [Work.finish, List.mem_append, List.mem_singleton] at inside
    rcases inside with earlier | rfl
    · exact told.ended unit earlier committed
    · cases committed

/-- A statement that ends joins what ran. -/
theorem finished (history : WorldHistory mode start world) {call : C.Call} {op : L.Op}
    {next : L.Res op → L.Prog C.Answer} {work : L.Work} {waiting : L.Waiting}
    (running : world.proc? pid = some ⟨call, .statement op next, work, some waiting⟩)
    (atomic : mode = .atomic → waiting.started = world.past.length) {prog : L.Prog C.Answer} :
    WorldHistory mode start { world.setProc pid (some ⟨call, prog,
        work.ran op (waiting.span world.past.length) waiting.snapshot world.db, none⟩) with
      ran := work.event op (waiting.span world.past.length) waiting.snapshot world.db ::
        world.ran } := by
  let event := work.event op (waiting.span world.past.length) waiting.snapshot world.db
  have told := history.procs _ _ running
  obtain ⟨started, snapshot, later⟩ := told.waiting waiting rfl
  have faithful : event.Faithful mode start world.past := by
    have now : world.db = dbAt start world.past world.past.length := by
      rw [dbAt_length]
      exact history.db
    exact ⟨started, Nat.le_refl _, snapshot, now, fun single => (atomic single).symm, rfl⟩
  have wider : WorldHistory mode start { world with ran := event :: world.ran } :=
    { history with
      ran := by
        intro one inside
        rcases List.mem_cons.mp inside with rfl | earlier
        · exact faithful
        · exact history.ran one earlier
      procs := fun other proc there =>
        have held := history.procs other proc there
        ⟨held.waiting, fun one inside => List.mem_cons_of_mem _ (held.events one inside),
          held.ordered, held.ended⟩
      past := fun newer commit older split one inside =>
        have held := history.past newer commit older split one inside
        ⟨List.mem_cons_of_mem _ held.1, held.2⟩ }
  refine wider.setProc ?_
  rintro proc ⟨⟩
  refine ⟨by simp, ?_, ?_, told.ended⟩
  · intro one inside
    rw [Work.told_ran, List.mem_append, List.mem_singleton] at inside
    rcases inside with earlier | rfl
    · exact List.mem_cons_of_mem _ (told.events one earlier)
    · exact List.mem_cons_self
  · rw [Work.told_ran, List.pairwise_append]
    refine ⟨told.ordered, List.pairwise_singleton _ _, ?_⟩
    intro one inside last here
    rw [List.mem_singleton.mp here]
    exact later one inside

/-- A unit that commits joins the units of the run, with what its call
committed before. -/
theorem committed (history : WorldHistory mode start world) {call : C.Call}
    {next : L.Prog C.Answer} {work : L.Work} {waiting : Option L.Waiting}
    (running : world.proc? pid = some ⟨call, .commit next, work, waiting⟩) :
    WorldHistory mode start ((world.commit pid call work).setProc pid
      (some ⟨call, next, work.finish true, none⟩)) := by
  have told := history.procs _ _ running
  let commit : Commit C := ⟨pid, call, work, world.db, overlay work.writes world.db⟩
  have heads : ∀ {newer one older}, (world.commit pid call work).past = newer ++ one :: older →
      (newer = [] ∧ one = commit ∧ older = world.past) ∨
        ∃ rest, newer = commit :: rest ∧ world.past = rest ++ one :: older := by
    intro newer one older split
    cases newer with
    | nil =>
      obtain ⟨rfl, rfl⟩ : commit = one ∧ world.past = older := by
        simpa [World.commit, commit] using split
      exact Or.inl ⟨rfl, rfl, rfl⟩
    | cons head rest =>
      obtain ⟨rfl, tail⟩ : commit = head ∧ world.past = rest ++ one :: older := by
        simpa [World.commit, commit] using split
      exact Or.inr ⟨rest, rfl, tail⟩
  have wider : WorldHistory mode start (world.commit pid call work) :=
    { db := rfl
      chained := ⟨history.db, history.chained⟩
      ran := fun event inside => (history.ran event inside).cons commit
      procs := by
        intro other proc there
        have held := history.procs other proc there
        refine ⟨?_, held.events, held.ordered, ?_⟩
        · intro waiting inside
          obtain ⟨started, snapshot, later⟩ := held.waiting waiting inside
          refine ⟨Nat.le_succ_of_le started, ?_, later⟩
          rw [snapshot]
          exact (dbAt_cons start world.past commit started).symm
        · intro unit inside committed
          obtain ⟨one, there, same⟩ := held.ended unit inside committed
          exact ⟨one, List.mem_cons_of_mem _ there, same⟩
      past := by
        intro newer one older split event inside
        rcases heads split with ⟨-, rfl, rfl⟩ | ⟨rest, -, tail⟩
        · exact ⟨told.events event inside, history.ran event (told.events event inside)⟩
        · exact history.past rest one older tail event inside
      ordered := by
        intro one inside
        rcases List.mem_cons.mp inside with rfl | earlier
        · exact told.ordered
        · exact history.ordered one earlier
      earlier := by
        intro newer one older split
        rcases heads split with ⟨-, rfl, rfl⟩ | ⟨rest, -, tail⟩
        · exact told.ended
        · exact history.earlier rest one older tail
      written := by
        intro one inside
        rcases List.mem_cons.mp inside with rfl | earlier
        · rfl
        · exact history.written one earlier
      answered := by
        intro answered inside unit there committed
        obtain ⟨one, among, same⟩ := history.answered answered inside unit there committed
        exact ⟨one, List.mem_cons_of_mem _ among, same⟩ }
  refine wider.setProc ?_
  rintro proc ⟨⟩
  refine ⟨by simp, ?_, ?_, ?_⟩
  · rw [Work.told_finish]
    exact told.events
  · rw [Work.told_finish]
    exact told.ordered
  · intro unit inside committed
    simp only [Work.finish, List.mem_append, List.mem_singleton] at inside
    rcases inside with earlier | rfl
    · obtain ⟨one, there, same⟩ := told.ended unit earlier committed
      exact ⟨one, List.mem_cons_of_mem _ there, same⟩
    · exact ⟨commit, List.mem_cons_self, rfl, rfl, rfl⟩

theorem called (history : WorldHistory mode start world) (call : C.Call) :
    WorldHistory mode start { world with
      procs := world.procs ++ [some ⟨call, C.program call, .fresh, none⟩] } := by
  refine { history with procs := ?_ }
  intro pid proc running
  by_cases inside : pid < world.procs.length
  · have held := history.procs pid proc (by
      simpa [World.proc?, List.getElem?_append_left inside] using running)
    exact ⟨held.waiting, held.events, held.ordered, held.ended⟩
  · have new : proc = ⟨call, C.program call, .fresh, none⟩ := by
      simp only [World.proc?, List.getElem?_append_right (Nat.le_of_not_lt inside)] at running
      rcases Nat.eq_zero_or_pos (pid - world.procs.length) with zero | positive
      · simpa [zero] using running.symm
      · simp [List.getElem?_eq_none (l := [some (Proc.mk call (C.program call) Work.fresh none)])
          (i := pid - world.procs.length) (by simp; omega)] at running
    subst new
    exact ⟨by simp, by simp [Work.told, Work.fresh], by simp [Work.told, Work.fresh],
      by simp [Work.fresh]⟩

theorem stepped {after : World C} (history : WorldHistory mode start world)
    (step : world.Stepped mode after) : WorldHistory mode start after := by
  cases step with
  | called call => exact history.called call
  | started running =>
    have told := history.procs _ _ running
    refine history.setProc ?_
    rintro proc ⟨⟩
    refine ⟨?_, told.events, told.ordered, told.ended⟩
    rintro waiting ⟨⟩
    refine ⟨Nat.le_refl _, by rw [dbAt_length]; exact history.db, ?_⟩
    exact fun event inside => (history.ran event (told.events event inside)).finished
  | finished running atomic free => exact history.finished running atomic
  | asked answer running =>
    have told := history.procs _ _ running
    refine history.setProc ?_
    rintro proc ⟨⟩
    exact ⟨by simp, told.events, told.ordered, told.ended⟩
  | minted running new =>
    rename_i pid call next work waiting id
    have told := history.procs _ _ running
    have wider : WorldHistory mode start { world with minted := id :: world.minted } :=
      { history with
        procs := fun other proc there =>
          have held := history.procs other proc there
          ⟨held.waiting, held.events, held.ordered, held.ended⟩ }
    refine wider.setProc ?_
    rintro proc ⟨⟩
    exact ⟨by simp, told.events, told.ordered, told.ended⟩
  | begun running =>
    refine history.setProc ?_
    rintro proc ⟨⟩
    exact finish (history.procs _ _ running)
  | dropped running =>
    refine history.setProc ?_
    rintro proc ⟨⟩
    exact finish (history.procs _ _ running)
  | committed running => exact history.committed running
  | answered running =>
    rename_i pid call answer work waiting
    have told := history.procs _ _ running
    have removed : WorldHistory mode start (world.setProc pid none) := history.setProc (by simp)
    refine { removed with procs := ?_, answered := ?_ }
    · intro other proc there
      have held := removed.procs other proc there
      exact ⟨held.waiting, held.events, held.ordered, held.ended⟩
    · intro one inside unit there committed
      rcases List.mem_cons.mp inside with rfl | earlier
      · exact told.ended unit there committed
      · exact history.answered one earlier unit there committed
  | stopped pid => exact history.setProc (by simp)

end WorldHistory

variable {mode : Mode} {start : L.Db} {ids : List L.Id} {world : World C}

theorem Reachable.history (reached : Reachable C mode start ids world) :
    WorldHistory mode start world :=
  reached.invariant (.initial start ids) fun _ _ history step => history.stepped step

theorem Chained.of_append {newer older : List (Commit C)}
    (chained : Chained start (newer ++ older)) : Chained start older := by
  induction newer with
  | nil => exact chained
  | cons commit newer ih => exact ih chained.2

/-- What holds now and did not at the start came with one unit, and stayed. -/
theorem Chained.since {past : List (Commit C)} (chained : Chained start past)
    (holds : L.Db → Prop) (never : ¬holds start) (now : holds (dbOf start past)) :
    ∃ newer commit older, past = newer ++ commit :: older ∧ ¬holds commit.before ∧
      ∀ later ∈ newer ++ [commit], holds later.after := by
  induction past with
  | nil => exact absurd now never
  | cons head older ih =>
    by_cases before : holds head.before
    · obtain ⟨newer, commit, oldest, rfl, came, stayed⟩ := ih chained.2 (chained.1 ▸ before)
      refine ⟨head :: newer, commit, oldest, rfl, came, ?_⟩
      intro later inside
      rcases List.mem_cons.mp inside with rfl | inside
      · exact now
      · exact stayed later inside
    · refine ⟨[], head, older, rfl, before, ?_⟩
      intro later inside
      rw [List.mem_singleton.mp inside]
      exact now

end Saffui.Foundation.Language
