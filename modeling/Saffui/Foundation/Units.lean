import Saffui.Foundation.History
import Saffui.Foundation.Traces

/-!
# What a unit did to the rows, told from its statements

A `Growth` says in which direction each statement of a language may only move
a row. What a unit then did is told from the statements it ran, whatever its
program is: its writes are theirs; a row moved that way from what the unit
found to what it left; a row one of them held stayed as it was found, and no
other unit committed against it, until the unit committed. An identifier is
drawn by one unit of a run at most.
-/

namespace Saffui.Foundation.Language

variable {L : Language} {C : L.Calls}

/-- How a row may only move, whatever statement moves it. -/
structure Growth (L : Language) where
  Grows : (key : L.Key) → Option (L.Row key) → Option (L.Row key) → Prop
  refl : ∀ key row, Grows key row row
  trans : ∀ {key first second third}, Grows key first second → Grows key second third →
    Grows key first third
  run : ∀ op seen now key,
    Grows key (now.lookup key) ((overlay (L.run op seen now).1 now).lookup key)
  /-- A statement writes a row once. -/
  once : ∀ op seen now, ((L.run op seen now).1.map Sigma.fst).Nodup

/-- The rows a statement that ran held. -/
def Event.locks (event : L.Event) : List (L.Key × LockMode) := L.locks event.op event.seen

/-- What a statement that ran wrote. -/
def Event.writes (event : L.Event) : List (Write L.Row) := (L.run event.op event.seen event.found).1

/-- The units committed since a number of them. -/
def since (past : List (Commit C)) (units : Nat) : List (Commit C) := past.take (past.length - units)

theorem since_cons (commit : Commit C) (past : List (Commit C)) {units : Nat}
    (within : units ≤ past.length) : since (commit :: past) units = commit :: since past units := by
  rw [since, since, List.length_cons, Nat.succ_sub within, List.take_succ_cons]

theorem since_length (past : List (Commit C)) : since past past.length = [] := by
  simp [since]

/-- What holds of an open unit, told from the units committed so far and what
they left. -/
structure UnitSound (G : Growth L) (past : List (Commit C)) (db : L.Db) (work : L.Work) : Prop where
  writes : work.writes = work.events.flatMap Event.writes
  finished : ∀ event ∈ work.events, event.finished ≤ past.length
  locks : ∀ event ∈ work.events, event.locks ⊆ work.locks
  moves : ∀ key, G.Grows key (db.lookup key) ((overlay work.writes db).lookup key)
  /-- What a statement wrote is moved on by those after it. -/
  wrote : ∀ event ∈ work.events, ∀ write ∈ event.writes,
    G.Grows write.1 write.2 ((overlay work.writes db).lookup write.1)
  kept : ∀ event ∈ work.events, ∀ lock ∈ event.locks,
    db.lookup lock.1 = event.now.lookup lock.1
  held : ∀ event ∈ work.events, ∀ lock ∈ event.locks, ∀ commit ∈ since past event.finished,
    ∀ against, (lock.1, against) ∈ commit.work.locks → lock.2 = .share ∧ against = .share
  /-- A statement saw the writes of those before it in its unit. -/
  wroteBefore : ∀ earlier event later, work.events = earlier ++ event :: later →
    event.wrote = earlier.flatMap Event.writes

namespace UnitSound

variable {G : Growth L} {past : List (Commit C)} {db : L.Db} {work : L.Work}

theorem empty (G : Growth L) (past : List (Commit C)) (db : L.Db) {work : L.Work}
    (writes : work.writes = []) (events : work.events = []) : UnitSound G past db work := by
  constructor <;> simp [writes, events, G.refl]

/-- A statement of the unit ends. -/
theorem ran (sound : UnitSound G past db work) (op : L.Op) (started : Nat) (snapshot : L.Db) :
    UnitSound G past db (work.ran op ⟨started, past.length⟩ snapshot db) := by
  let event := work.event op ⟨started, past.length⟩ snapshot db
  have events : ∀ one ∈ (work.ran op ⟨started, past.length⟩ snapshot db).events,
      one ∈ work.events ∨ one = event := by
    intro one inside
    simpa [Work.ran] using inside
  have later : ∀ key, G.Grows key ((overlay work.writes db).lookup key)
      ((overlay (work.ran op ⟨started, past.length⟩ snapshot db).writes db).lookup key) := by
    intro key
    rw [Work.ran, overlay_append]
    exact G.run op (overlay work.writes snapshot) (overlay work.writes db) key
  constructor
  · simp [Work.ran, sound.writes, Event.writes, Work.event, Event.seen, Event.found]
  · intro one inside
    rcases events one inside with earlier | rfl
    · exact sound.finished one earlier
    · exact Nat.le_refl _
  · intro one inside
    rcases events one inside with earlier | rfl
    · exact List.Subset.trans (sound.locks one earlier) (List.subset_append_left _ _)
    · exact List.subset_append_right _ _
  · exact fun key => G.trans (sound.moves key) (later key)
  · intro one inside write written
    rcases events one inside with earlier | rfl
    · exact G.trans (sound.wrote one earlier write written) (later write.1)
    · have last : (overlay event.writes (overlay work.writes db)).lookup write.1 = write.2 :=
        lookup_overlay_of_mem (G.once op _ _) written _
      rw [Work.ran, overlay_append]
      change G.Grows write.1 write.2 ((overlay event.writes (overlay work.writes db)).lookup write.1)
      rw [last]
      exact G.refl _ _
  · intro one inside lock held
    rcases events one inside with earlier | rfl
    · exact sound.kept one earlier lock held
    · rfl
  · intro one inside lock held commit among
    rcases events one inside with earlier | rfl
    · exact sound.held one earlier lock held commit among
    · change commit ∈ since past past.length at among
      rw [since_length] at among
      cases among
  · intro earlier one later split
    change work.events ++ [event] = earlier ++ one :: later at split
    rcases List.eq_nil_or_concat later with rfl | ⟨others, last, rfl⟩
    · obtain ⟨rfl, same⟩ := List.append_inj' split rfl
      obtain rfl : event = one := by simpa using same
      exact sound.writes
    · rw [List.concat_eq_append, ← List.cons_append, ← List.append_assoc] at split
      obtain ⟨events, -⟩ := List.append_inj' split rfl
      exact sound.wroteBefore earlier one others events

/-- Another unit commits, which holds no row against this one. -/
theorem others (sound : UnitSound G past db work) {pid : Nat} {call : C.Call} {rival : L.Work}
    (mine : ∀ write ∈ work.writes, (write.1, LockMode.exclusive) ∈ work.locks)
    (alone : ∀ write ∈ rival.writes, (write.1, LockMode.exclusive) ∈ rival.locks)
    (apart : ∀ key mode against, (key, mode) ∈ work.locks → (key, against) ∈ rival.locks →
      mode = .share ∧ against = .share) :
    UnitSound G (⟨pid, call, rival, db, overlay rival.writes db⟩ :: past) (overlay rival.writes db)
      work := by
  have unwritten : ∀ key mode, (key, mode) ∈ work.locks →
      (overlay rival.writes db).lookup key = db.lookup key := by
    intro key mode holding
    apply lookup_overlay_of_not_mem
    rintro write written rfl
    have shared := apart _ _ _ holding (alone write written)
    cases shared.2
  constructor
  · exact sound.writes
  · exact fun event inside => Nat.le_succ_of_le (sound.finished event inside)
  · exact sound.locks
  · intro key
    by_cases written : key ∈ work.writes.map Sigma.fst
    · obtain ⟨write, inside, rfl⟩ := List.mem_map.mp written
      rw [unwritten _ _ (mine write inside), lookup_overlay_congr written _ db]
      exact sound.moves write.1
    · have same : (overlay work.writes (overlay rival.writes db)).lookup key =
          (overlay rival.writes db).lookup key :=
        lookup_overlay_of_not_mem (fun write inside same =>
          written (List.mem_map.mpr ⟨write, inside, same⟩)) _
      rw [same]
      exact G.refl _ _
  · intro event inside write written
    have among : write.1 ∈ work.writes.map Sigma.fst := by
      rw [sound.writes]
      exact List.mem_map.mpr ⟨write, List.mem_flatMap.mpr ⟨event, inside, written⟩, rfl⟩
    rw [lookup_overlay_congr among _ db]
    exact sound.wrote event inside write written
  · intro event inside lock held
    rw [unwritten lock.1 lock.2 (sound.locks event inside held)]
    exact sound.kept event inside lock held
  · intro event inside lock held commit among against
    rw [since_cons _ _ (sound.finished event inside)] at among
    rcases List.mem_cons.mp among with rfl | earlier
    · exact apart lock.1 lock.2 against (sound.locks event inside held)
    · exact sound.held event inside lock held commit earlier against
  · exact sound.wroteBefore

/-- What a unit changed one of its statements wrote. -/
theorem changed (sound : UnitSound G past db work) (key : L.Key) :
    (overlay work.writes db).lookup key = db.lookup key ∨
      ∃ event ∈ work.events, ⟨key, (overlay work.writes db).lookup key⟩ ∈ event.writes := by
  rcases lookup_overlay_cases key work.writes db with same | written
  · exact Or.inl same
  · obtain ⟨event, inside, here⟩ := List.mem_flatMap.mp (sound.writes ▸ written :
      (⟨key, (overlay work.writes db).lookup key⟩ : Write L.Row) ∈ work.events.flatMap Event.writes)
    exact Or.inr ⟨event, inside, here⟩

end UnitSound

/-- What holds of the units of a world, open and committed. -/
structure WorldUnits (G : Growth L) (world : World C) : Prop where
  procs : ∀ pid proc, world.proc? pid = some proc → UnitSound G world.past world.db proc.work
  waiting : ∀ pid proc, world.proc? pid = some proc → ∀ waiting ∈ proc.waiting, ∀ key,
    G.Grows key (waiting.snapshot.lookup key) ((overlay proc.work.writes waiting.snapshot).lookup key)
  ran : ∀ event ∈ world.ran, ∀ key, G.Grows key (event.snapshot.lookup key) (event.seen.lookup key) ∧
    G.Grows key (event.now.lookup key) (event.found.lookup key)
  past : ∀ newer commit older, world.past = newer ++ commit :: older →
    UnitSound G older commit.before commit.work

namespace WorldUnits

variable {G : Growth L} {world : World C} {pid : Nat}

theorem initial (G : Growth L) (start : L.Db) (ids : List L.Id) :
    WorldUnits G (.initial start ids : World C) where
  procs pid proc running := by simp [World.proc?, World.initial] at running
  waiting pid proc running := by simp [World.proc?, World.initial] at running
  ran event inside := by simp [World.initial] at inside
  past newer commit older split := by simp [World.initial] at split

theorem setProc (units : WorldUnits G world) {moved : Option (Proc C)}
    (told : ∀ proc ∈ moved, UnitSound G world.past world.db proc.work)
    (waiting : ∀ proc ∈ moved, ∀ waiting ∈ proc.waiting, ∀ key, G.Grows key
      (waiting.snapshot.lookup key) ((overlay proc.work.writes waiting.snapshot).lookup key)) :
    WorldUnits G (world.setProc pid moved) where
  procs other proc looked := by
    rcases World.proc?_setProc_eq_some looked with ⟨-, here⟩ | ⟨-, there⟩
    · exact told proc here
    · exact units.procs other proc there
  waiting other proc looked := by
    rcases World.proc?_setProc_eq_some looked with ⟨-, here⟩ | ⟨-, there⟩
    · exact waiting proc here
    · exact units.waiting other proc there
  ran := units.ran
  past := units.past

theorem removeProc (units : WorldUnits G world) (pid : Nat) :
    WorldUnits G (world.setProc pid none) :=
  units.setProc (by simp) (by simp)

/-- A program whose unit is as it was, or was ended, waits for nothing. -/
theorem setIdle (units : WorldUnits G world) (pid : Nat) (call : C.Call) (prog : L.Prog C.Answer)
    {work : L.Work} (told : UnitSound G world.past world.db work) :
    WorldUnits G (world.setProc pid (some ⟨call, prog, work, none⟩)) := by
  refine units.setProc ?_ ?_
  · rintro proc ⟨⟩
    exact told
  · rintro proc ⟨⟩
    simp

theorem called (units : WorldUnits G world) (call : C.Call) :
    WorldUnits G { world with
      procs := world.procs ++ [some ⟨call, C.program call, .fresh, none⟩] } := by
  have looked : ∀ {pid proc}, ({ world with
      procs := world.procs ++ [some ⟨call, C.program call, .fresh, none⟩] } : World C).proc? pid =
        some proc → world.proc? pid = some proc ∨ proc = ⟨call, C.program call, .fresh, none⟩ := by
    intro pid proc running
    simp only [World.proc?, List.getElem?_append] at running ⊢
    split at running
    · exact Or.inl running
    · rcases Nat.eq_zero_or_pos (pid - world.procs.length) with zero | positive
      · simp only [zero, List.getElem?_cons_zero, Option.join_some, Option.some.injEq] at running
        exact Or.inr running.symm
      · rw [List.getElem?_eq_none (by simp; omega)] at running
        cases running
  refine ⟨?_, ?_, units.ran, units.past⟩
  · intro pid proc running
    rcases looked running with before | rfl
    · exact units.procs pid proc before
    · exact .empty G _ _ rfl rfl
  · intro pid proc running
    rcases looked running with before | rfl
    · exact units.waiting pid proc before
    · simp

theorem finished (units : WorldUnits G world) {call : C.Call} {op : L.Op}
    {next : L.Res op → L.Prog C.Answer} {work : L.Work} {waiting : L.Waiting}
    (running : world.proc? pid = some ⟨call, .statement op next, work, some waiting⟩)
    {prog : L.Prog C.Answer} :
    WorldUnits G { world.setProc pid (some ⟨call, prog,
        work.ran op (waiting.span world.past.length) waiting.snapshot world.db, none⟩) with
      ran := work.event op (waiting.span world.past.length) waiting.snapshot world.db ::
        world.ran } := by
  have told := units.procs _ _ running
  have moved := units.setIdle pid call prog (told.ran op waiting.started waiting.snapshot)
  refine ⟨moved.procs, moved.waiting, ?_, moved.past⟩
  intro event inside
  rcases List.mem_cons.mp inside with rfl | earlier
  · exact fun key => ⟨units.waiting _ _ running waiting rfl key, told.moves key⟩
  · exact units.ran event earlier

theorem committed (units : WorldUnits G world) (apart : WorldSound (Traces.free C).proof world)
    {call : C.Call} {next : L.Prog C.Answer} {work : L.Work} {waiting : Option L.Waiting}
    (running : world.proc? pid = some ⟨call, .commit next, work, waiting⟩) :
    WorldUnits G ((world.commit pid call work).setProc pid
      (some ⟨call, next, work.finish true, none⟩)) := by
  have told := units.procs _ _ running
  refine ⟨?_, ?_, units.ran, ?_⟩
  · intro other proc looked
    rcases World.proc?_setProc_eq_some looked with ⟨-, here⟩ | ⟨different, there⟩
    · cases here
      exact .empty G _ _ rfl rfl
    · have rival : world.proc? other = some proc := there
      exact (units.procs other proc rival).others (apart.procs other proc rival).writes
        (apart.procs pid _ running).writes
        (apart.locks other pid proc _ rival running different.symm)
  · intro other proc looked
    rcases World.proc?_setProc_eq_some looked with ⟨-, here⟩ | ⟨-, there⟩
    · cases here
      simp
    · exact units.waiting other proc there
  · intro newer commit older split
    cases newer with
    | nil =>
      obtain ⟨rfl, rfl⟩ := List.cons.inj split
      exact told
    | cons head newer =>
      obtain ⟨-, tail⟩ := List.cons.inj split
      exact units.past newer commit older tail

theorem stepped {mode : Mode} {after : World C} (units : WorldUnits G world)
    (apart : WorldSound (Traces.free C).proof world) (step : world.Stepped mode after) :
    WorldUnits G after := by
  cases step with
  | called call => exact units.called call
  | started running =>
    have told := units.procs _ _ running
    refine units.setProc ?_ ?_
    · rintro proc ⟨⟩
      exact told
    · rintro proc ⟨⟩ waiting ⟨⟩
      exact told.moves
  | finished running atomic free => exact units.finished running
  | asked answer running => exact units.setIdle _ _ _ (units.procs _ _ running)
  | minted running new =>
    rename_i pid call next work waiting id
    have told := units.procs _ _ running
    have ended : UnitSound G world.past world.db (work.mint id) :=
      ⟨told.writes, told.finished, told.locks, told.moves, told.wrote, told.kept, told.held,
        told.wroteBefore⟩
    have moved := units.setIdle pid call (next id) ended
    exact ⟨moved.procs, moved.waiting, moved.ran, moved.past⟩
  | begun running => exact units.setIdle _ _ _ (.empty G _ _ rfl rfl)
  | dropped running => exact units.setIdle _ _ _ (.empty G _ _ rfl rfl)
  | committed running => exact units.committed apart running
  | answered running =>
    rename_i pid call answer work waiting
    have moved := units.removeProc pid
    exact ⟨moved.procs, moved.waiting, moved.ran, moved.past⟩
  | stopped pid => exact units.removeProc pid

end WorldUnits

/-- Which identifiers the units of a world drew. -/
structure WorldDrawn (ids : List L.Id) (world : World C) : Prop where
  known : ids ⊆ world.minted
  procs : ∀ pid proc, world.proc? pid = some proc → ∀ id ∈ proc.work.drawn,
    id ∈ proc.work.minted ∧ id ∉ ids ∧ ∀ commit ∈ world.past, id ∉ commit.work.drawn
  past : ∀ commit ∈ world.past, ∀ id ∈ commit.work.drawn, id ∈ world.minted ∧ id ∉ ids
  /-- An identifier is drawn once. -/
  once : ∀ newer commit older, world.past = newer ++ commit :: older →
    ∀ id ∈ commit.work.drawn, ∀ one ∈ older, id ∉ one.work.drawn

namespace WorldDrawn

variable {ids : List L.Id} {world : World C} {pid : Nat}

theorem initial (start : L.Db) (ids : List L.Id) :
    WorldDrawn ids (.initial start ids : World C) where
  known := List.Subset.refl _
  procs pid proc running := by simp [World.proc?, World.initial] at running
  past commit inside := by simp [World.initial] at inside
  once newer commit older split := by simp [World.initial] at split

theorem setProc (drawn : WorldDrawn ids world) {moved : Option (Proc C)}
    (told : ∀ proc ∈ moved, ∀ id ∈ proc.work.drawn,
      id ∈ proc.work.minted ∧ id ∉ ids ∧ ∀ commit ∈ world.past, id ∉ commit.work.drawn) :
    WorldDrawn ids (world.setProc pid moved) where
  known := drawn.known
  procs other proc looked := by
    rcases World.proc?_setProc_eq_some looked with ⟨-, here⟩ | ⟨-, there⟩
    · exact told proc here
    · exact drawn.procs other proc there
  past := drawn.past
  once := drawn.once

theorem removeProc (drawn : WorldDrawn ids world) (pid : Nat) :
    WorldDrawn ids (world.setProc pid none) :=
  drawn.setProc (by simp)

/-- A program whose unit drew nothing more, or was ended, moves on. -/
theorem setSame (drawn : WorldDrawn ids world) {before moved : Proc C}
    (running : world.proc? pid = some before) (minted : moved.work.minted = before.work.minted)
    (same : moved.work.drawn ⊆ before.work.drawn) :
    WorldDrawn ids (world.setProc pid (some moved)) := by
  refine drawn.setProc ?_
  rintro proc ⟨⟩ id inside
  rw [minted]
  exact drawn.procs pid before running id (same inside)

theorem called (drawn : WorldDrawn ids world) (call : C.Call) :
    WorldDrawn ids { world with
      procs := world.procs ++ [some ⟨call, C.program call, .fresh, none⟩] } := by
  refine ⟨drawn.known, ?_, drawn.past, drawn.once⟩
  intro pid proc running
  simp only [World.proc?, List.getElem?_append] at running
  split at running
  · exact drawn.procs pid proc running
  · rcases Nat.eq_zero_or_pos (pid - world.procs.length) with zero | positive
    · simp only [zero, List.getElem?_cons_zero, Option.join_some, Option.some.injEq] at running
      subst running
      simp [Work.fresh]
    · rw [List.getElem?_eq_none (by simp; omega)] at running
      cases running

theorem mintedId (drawn : WorldDrawn ids world) {call : C.Call} {next : L.Id → L.Prog C.Answer}
    {work : L.Work} {waiting : Option L.Waiting} {id : L.Id}
    (running : world.proc? pid = some ⟨call, .mint next, work, waiting⟩)
    (new : id ∉ world.minted) :
    WorldDrawn ids { world.setProc pid (some ⟨call, next id, work.mint id, none⟩) with
      minted := id :: world.minted } := by
  have wider : WorldDrawn ids { world with minted := id :: world.minted } :=
    { drawn with
      known := List.Subset.trans drawn.known (List.subset_cons_self _ _)
      past := fun commit inside one mine =>
        ⟨List.mem_cons_of_mem _ (drawn.past commit inside one mine).1,
          (drawn.past commit inside one mine).2⟩ }
  refine wider.setProc ?_
  rintro proc ⟨⟩ one inside
  rcases List.mem_cons.mp inside with rfl | before
  · refine ⟨List.mem_cons_self, fun there => new (drawn.known there), ?_⟩
    exact fun commit among mine => new (drawn.past commit among one mine).1
  · have told := drawn.procs pid _ running one before
    exact ⟨List.mem_cons_of_mem _ told.1, told.2⟩

theorem committed (drawn : WorldDrawn ids world) (apart : WorldSound (Traces.free C).proof world)
    {call : C.Call} {next : L.Prog C.Answer} {work : L.Work} {waiting : Option L.Waiting}
    (running : world.proc? pid = some ⟨call, .commit next, work, waiting⟩) :
    WorldDrawn ids ((world.commit pid call work).setProc pid
      (some ⟨call, next, work.finish true, none⟩)) := by
  have mine := drawn.procs pid _ running
  refine ⟨drawn.known, ?_, ?_, ?_⟩
  · intro other proc looked id inside
    rcases World.proc?_setProc_eq_some looked with ⟨-, here⟩ | ⟨different, there⟩
    · cases here
      cases inside
    · have rival : world.proc? other = some proc := there
      have told := drawn.procs other proc rival id inside
      refine ⟨told.1, told.2.1, ?_⟩
      intro commit among
      rcases List.mem_cons.mp among with rfl | earlier
      · exact fun drew => apart.mints pid other _ proc running rival different id (mine id drew).1
          told.1
      · exact told.2.2 commit earlier
  · intro commit among id inside
    rcases List.mem_cons.mp among with rfl | earlier
    · exact ⟨(apart.procs pid _ running).minted id (mine id inside).1, (mine id inside).2.1⟩
    · exact drawn.past commit earlier id inside
  · intro newer commit older split
    cases newer with
    | nil =>
      obtain ⟨rfl, rfl⟩ := List.cons.inj split
      exact fun id inside => (mine id inside).2.2
    | cons head newer =>
      obtain ⟨-, tail⟩ := List.cons.inj split
      exact drawn.once newer commit older tail

theorem stepped {mode : Mode} {after : World C} (drawn : WorldDrawn ids world)
    (apart : WorldSound (Traces.free C).proof world) (step : world.Stepped mode after) :
    WorldDrawn ids after := by
  cases step with
  | called call => exact drawn.called call
  | started running => exact drawn.setSame running rfl (List.Subset.refl _)
  | finished running atomic free =>
    rename_i pid call op next work waiting
    let proc : Proc C := ⟨call, next (work.event op (waiting.span world.past.length)
      waiting.snapshot world.db).result, work.ran op (waiting.span world.past.length)
      waiting.snapshot world.db, none⟩
    have moved := drawn.setSame running (rfl : proc.work.minted = work.minted)
      (List.Subset.refl _)
    exact ⟨moved.known, moved.procs, moved.past, moved.once⟩
  | asked answer running => exact drawn.setSame running rfl (List.Subset.refl _)
  | minted running new => exact drawn.mintedId running new
  | begun running => exact drawn.setSame running rfl (by simp [Work.finish])
  | dropped running => exact drawn.setSame running rfl (by simp [Work.finish])
  | committed running => exact drawn.committed apart running
  | answered running =>
    rename_i pid call answer work waiting
    have moved := drawn.removeProc pid
    exact ⟨moved.known, moved.procs, moved.past, moved.once⟩
  | stopped pid => exact drawn.removeProc pid

end WorldDrawn

variable {mode : Mode} {start : L.Db} {ids : List L.Id} {world : World C}

theorem Reachable.units (G : Growth L) (reached : Reachable C mode start ids world) :
    WorldUnits G world := by
  induction reached with
  | initial => exact .initial G start ids
  | step reached stepped ih =>
    exact ih.stepped (reached.traces (.free C)) (World.stepped_of_step stepped)

theorem Reachable.drawn (reached : Reachable C mode start ids world) : WorldDrawn ids world := by
  induction reached with
  | initial => exact .initial start ids
  | step reached stepped ih =>
    exact ih.stepped (reached.traces (.free C)) (World.stepped_of_step stepped)

end Saffui.Foundation.Language
