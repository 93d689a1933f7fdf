import Mathlib.Data.List.Induction
import Saffui.Foundation.Units

/-!
# The units of a run by their places

A unit of a run is named by its place: how many units committed before it.
`dbAt` is the storage after so many units. Everything a run leaves behind is
told here by places, for a development to reason about its whole runs: what
each statement of a unit saw and found, what it held and until when, which
unit a change of the storage came with, and in which direction rows moved.
-/

namespace Saffui.Foundation.Language

variable {L : Language} {C : L.Calls}

/-- The unit that committed after so many others. -/
def CommittedAt (past : List (Commit C)) (place : Nat) (commit : Commit C) : Prop :=
  ∃ newer older, past = newer ++ commit :: older ∧ older.length = place

namespace CommittedAt

variable {past : List (Commit C)} {place other : Nat} {commit one : Commit C}

theorem mem (here : CommittedAt past place commit) : commit ∈ past := by
  obtain ⟨newer, older, rfl, -⟩ := here
  simp

theorem lt (here : CommittedAt past place commit) : place < past.length := by
  obtain ⟨newer, older, rfl, rfl⟩ := here
  simp only [List.length_append, List.length_cons]
  omega

theorem iff_getElem? :
    CommittedAt past place commit ↔ past.reverse[place]? = some commit := by
  constructor
  · rintro ⟨newer, older, rfl, rfl⟩
    simp
  · intro found
    obtain ⟨inside, rfl⟩ := List.getElem?_eq_some_iff.mp found
    refine ⟨(past.reverse.drop (place + 1)).reverse, (past.reverse.take place).reverse, ?_, ?_⟩
    · have whole : past.reverse.take place ++ past.reverse[place] :: past.reverse.drop (place + 1) =
          past.reverse := by
        rw [List.getElem_cons_drop, List.take_append_drop]
      have back := congrArg List.reverse whole
      simpa using back.symm
    · simp at inside ⊢
      omega

theorem unique (here : CommittedAt past place commit) (there : CommittedAt past place one) :
    commit = one := by
  rw [iff_getElem?] at here there
  exact Option.some.inj (here.symm.trans there)

/-- A unit of a run before a place is among those committed before it. -/
theorem older_of_lt {newer older : List (Commit C)}
    (here : CommittedAt (newer ++ commit :: older) place one) (before : place < older.length) :
    CommittedAt older place one := by
  rw [iff_getElem?] at here ⊢
  rw [List.reverse_append, List.reverse_cons, List.append_assoc,
    List.getElem?_append_left (by simpa using before)] at here
  exact here

theorem of_mem_older (newer : List (Commit C)) (commit : Commit C) {older : List (Commit C)}
    (among : one ∈ older) :
    ∃ place < older.length, CommittedAt (newer ++ commit :: older) place one := by
  obtain ⟨place, inside, found⟩ := List.getElem_of_mem (List.mem_reverse.mpr among)
  rw [List.length_reverse] at inside
  refine ⟨place, inside, iff_getElem?.mpr ?_⟩
  rw [List.reverse_append, List.reverse_cons, List.append_assoc,
    List.getElem?_append_left (by simpa using inside)]
  exact List.getElem?_eq_some_iff.mpr ⟨by simpa using inside, found⟩

theorem mem_since {first : Nat} (here : CommittedAt past place commit) (from_first : first ≤ place) :
    commit ∈ since past first := by
  obtain ⟨newer, older, rfl, rfl⟩ := here
  refine List.mem_take_iff_getElem.mpr ⟨newer.length, ?_, by simp⟩
  simp only [List.length_append, List.length_cons]
  omega

end CommittedAt

theorem exists_committedAt_of_lt {past : List (Commit C)} {place : Nat}
    (inside : place < past.length) : ∃ commit, CommittedAt past place commit := by
  have found : past.reverse[place]?.isSome := by simpa using inside
  obtain ⟨commit, here⟩ := Option.isSome_iff_exists.mp found
  exact ⟨commit, CommittedAt.iff_getElem?.mpr here⟩

theorem exists_committedAt {past : List (Commit C)} {commit : Commit C} (inside : commit ∈ past) :
    ∃ place, CommittedAt past place commit := by
  obtain ⟨newer, older, rfl⟩ := List.append_of_mem inside
  exact ⟨older.length, newer, older, rfl, rfl⟩

/-- The units a call committed are in its own history. -/
structure WorldOwn (world : World C) : Prop where
  called : ∀ commit ∈ world.past, commit.pid < world.procs.length
  procs : ∀ pid proc, world.proc? pid = some proc → ∀ commit ∈ world.past, commit.pid = pid →
    ⟨true, commit.work.events⟩ ∈ proc.work.ended
  past : ∀ newer commit older, world.past = newer ++ commit :: older → ∀ one ∈ older,
    one.pid = commit.pid → ⟨true, one.work.events⟩ ∈ commit.work.ended

namespace WorldOwn

variable {world : World C} {pid : Nat}

theorem initial (start : L.Db) (ids : List L.Id) : WorldOwn (.initial start ids : World C) where
  called commit inside := by simp [World.initial] at inside
  procs pid proc running := by simp [World.proc?, World.initial] at running
  past newer commit older split := by simp [World.initial] at split

theorem setProc (own : WorldOwn world) {moved : Option (Proc C)}
    (told : ∀ proc ∈ moved, ∀ commit ∈ world.past, commit.pid = pid →
      ⟨true, commit.work.events⟩ ∈ proc.work.ended) : WorldOwn (world.setProc pid moved) where
  called commit inside := by
    rw [World.setProc, List.length_set]
    exact own.called commit inside
  procs other proc looked := by
    rcases World.proc?_setProc_eq_some looked with ⟨rfl, here⟩ | ⟨-, there⟩
    · exact told proc here
    · exact own.procs other proc there
  past := own.past

/-- A program moves on, its history kept. -/
theorem moveProc (own : WorldOwn world) {before moved : Proc C}
    (running : world.proc? pid = some before) (kept : before.work.ended ⊆ moved.work.ended) :
    WorldOwn (world.setProc pid (some moved)) := by
  refine own.setProc ?_
  rintro proc ⟨⟩ commit inside same
  exact kept (own.procs pid before running commit inside same)

theorem called_ (own : WorldOwn world) (call : C.Call) :
    WorldOwn { world with
      procs := world.procs ++ [some ⟨call, C.program call, .fresh, none⟩] } := by
  refine ⟨?_, ?_, own.past⟩
  · intro commit inside
    have before := own.called commit inside
    simp only [List.length_append]
    omega
  · intro pid proc running commit inside same
    have before := own.called commit inside
    refine own.procs pid proc ?_ commit inside same
    rw [same] at before
    simpa [World.proc?, List.getElem?_append_left before] using running

theorem committed (own : WorldOwn world) {call : C.Call} {next : L.Prog C.Answer} {work : L.Work}
    {waiting : Option L.Waiting}
    (running : world.proc? pid = some ⟨call, .commit next, work, waiting⟩) :
    WorldOwn ((world.commit pid call work).setProc pid
      (some ⟨call, next, work.finish true, none⟩)) := by
  have inside : pid < world.procs.length := by
    by_contra outside
    rw [World.proc?, List.getElem?_eq_none (Nat.le_of_not_lt outside)] at running
    cases running
  have wider : ∀ commit ∈ (world.commit pid call work).past, commit.pid < world.procs.length := by
    intro commit among
    rcases List.mem_cons.mp among with rfl | earlier
    · exact inside
    · exact own.called commit earlier
  refine ⟨?_, ?_, ?_⟩
  · intro commit among
    rw [World.setProc, List.length_set]
    exact wider commit among
  · intro other proc looked commit among same
    rcases World.proc?_setProc_eq_some looked with ⟨rfl, here⟩ | ⟨different, there⟩
    · cases here
      rcases List.mem_cons.mp among with rfl | earlier
      · simp [Work.finish]
      · exact List.mem_append_left _ (own.procs other _ running commit earlier same)
    · rcases List.mem_cons.mp among with rfl | earlier
      · exact absurd same different.symm
      · exact own.procs other proc there commit earlier same
  · intro newer commit older split one among same
    cases newer with
    | nil =>
      obtain ⟨rfl, rfl⟩ := List.cons.inj split
      exact own.procs pid _ running one among same
    | cons head newer =>
      obtain ⟨-, tail⟩ := List.cons.inj split
      exact own.past newer commit older tail one among same

theorem stepped {mode : Mode} {after : World C} (own : WorldOwn world)
    (step : world.Stepped mode after) : WorldOwn after := by
  cases step with
  | called call => exact own.called_ call
  | started running => exact own.moveProc running (List.Subset.refl _)
  | finished running atomic free =>
    rename_i pid call op next work waiting
    let moved : Proc C := ⟨call, next (work.event op (waiting.span world.past.length)
      waiting.snapshot world.db).result, work.ran op (waiting.span world.past.length)
      waiting.snapshot world.db, none⟩
    have kept : WorldOwn (world.setProc pid (some moved)) :=
      own.moveProc running (List.Subset.refl _)
    exact ⟨kept.called, kept.procs, kept.past⟩
  | asked answer running => exact own.moveProc running (List.Subset.refl _)
  | minted running new =>
    rename_i pid call next work waiting id
    have moved : WorldOwn (world.setProc pid (some ⟨call, next id, work.mint id, none⟩)) :=
      own.moveProc running (List.Subset.refl _)
    exact ⟨moved.called, moved.procs, moved.past⟩
  | begun running => exact own.moveProc running (by simp [Work.finish])
  | dropped running => exact own.moveProc running (by simp [Work.finish])
  | committed running => exact own.committed running
  | answered running =>
    rename_i pid call answer work waiting
    have moved : WorldOwn (world.setProc pid none) := own.setProc (by simp)
    exact ⟨moved.called, moved.procs, moved.past⟩
  | stopped pid => exact own.setProc (by simp)

end WorldOwn

theorem Reachable.own {mode : Mode} {start : L.Db} {ids : List L.Id} {world : World C}
    (reached : Reachable C mode start ids world) : WorldOwn world :=
  reached.invariant (.initial start ids) fun _ _ own step => own.stepped step

section Run

variable {mode : Mode} {start : L.Db} {ids : List L.Id} {world : World C} {place other : Nat}
  {commit one : Commit C} {event : L.Event}

theorem dbAt_zero (start : L.Db) (past : List (Commit C)) : dbAt start past 0 = start := by
  simp [dbAt, dbOf]

namespace Reachable

variable (reached : Reachable C mode start ids world)

include reached

theorem before_eq (here : CommittedAt world.past place commit) :
    commit.before = dbAt start world.past place := by
  have chained := reached.history.chained
  obtain ⟨newer, older, split, rfl⟩ := here
  rw [split] at chained ⊢
  rw [dbAt_append start newer (commit :: older) (by simp), dbAt_cons start _ _ (Nat.le_refl _),
    dbAt_length]
  exact (Chained.of_append chained).1

omit reached in
theorem after_eq (here : CommittedAt world.past place commit) :
    commit.after = dbAt start world.past (place + 1) := by
  obtain ⟨newer, older, split, rfl⟩ := here
  rw [split, dbAt_append start newer (commit :: older) (by simp)]
  simp [dbAt, dbOf]

theorem db_eq : world.db = dbAt start world.past world.past.length := by
  rw [dbAt_length]
  exact reached.history.db

/-- What a statement of a unit saw at its start and found at its end. -/
theorem faithful (here : CommittedAt world.past place commit) (inside : event ∈ commit.work.told) :
    event ∈ world.ran ∧ event.finished ≤ place ∧ event.Faithful mode start world.past := by
  obtain ⟨newer, older, split, rfl⟩ := here
  have told := reached.history.past newer commit older split event inside
  exact ⟨told.1, told.2.finished, reached.history.ran event told.1⟩

theorem ordered (here : CommittedAt world.past place commit) :
    commit.work.told.Pairwise Event.Before :=
  reached.history.ordered commit here.mem

/-- The unit a call committed before is one before it. -/
theorem earlier (here : CommittedAt world.past place commit) {unit : L.Ended}
    (inside : unit ∈ commit.work.ended) (committed : unit.committed = true) :
    ∃ first < place, ∃ one, CommittedAt world.past first one ∧ one.pid = commit.pid ∧
      one.call = commit.call ∧ one.work.events = unit.events := by
  obtain ⟨newer, older, split, rfl⟩ := here
  obtain ⟨one, among, same⟩ := reached.history.earlier newer commit older split unit inside committed
  obtain ⟨first, before, found⟩ := CommittedAt.of_mem_older newer commit among
  exact ⟨first, before, one, split ▸ found, same⟩

/-- The units one call committed are in the history of each later one. -/
theorem earlier_of_pid (here : CommittedAt world.past place commit)
    (there : CommittedAt world.past other one) (before : other < place) (same : one.pid = commit.pid) :
    ⟨true, one.work.events⟩ ∈ commit.work.ended := by
  obtain ⟨newer, older, split, rfl⟩ := here
  rw [split] at there
  exact reached.own.past newer commit older split one (there.older_of_lt before).mem same

/-- What held once and does not any more a unit between ended. -/
theorem lost (holds : L.Db → Prop) {first last : Nat} (order : first ≤ last)
    (within : last ≤ world.past.length) (once : holds (dbAt start world.past first))
    (now : ¬holds (dbAt start world.past last)) :
    ∃ place, first ≤ place ∧ place < last ∧ ∃ commit, CommittedAt world.past place commit ∧
      holds commit.before ∧ ¬holds commit.after := by
  induction last, order using Nat.le_induction with
  | base => exact absurd once now
  | succ last order ih =>
    obtain ⟨commit, here⟩ := exists_committedAt_of_lt within
    by_cases before : holds (dbAt start world.past last)
    · refine ⟨last, order, Nat.lt_succ_self _, commit, here, ?_, ?_⟩
      · rwa [reached.before_eq here]
      · rwa [after_eq here]
    · obtain ⟨place, since, upto, unit, there, lost⟩ := ih (by omega) before
      exact ⟨place, since, by omega, unit, there, lost⟩

/-- What holds now and did not at the start came with one unit, and stayed. -/
theorem came (holds : L.Db → Prop) (never : ¬holds start) {units : Nat}
    (within : units ≤ world.past.length) (now : holds (dbAt start world.past units)) :
    ∃ place < units, ∃ commit, CommittedAt world.past place commit ∧ ¬holds commit.before ∧
      ∀ later, place < later → later ≤ units → holds (dbAt start world.past later) := by
  induction units with
  | zero =>
    rw [dbAt_zero] at now
    exact absurd now never
  | succ last ih =>
    obtain ⟨commit, here⟩ := exists_committedAt_of_lt within
    by_cases before : holds (dbAt start world.past last)
    · obtain ⟨place, earlier, first, found, came, stayed⟩ := ih (by omega) before
      refine ⟨place, by omega, first, found, came, ?_⟩
      intro later after upto
      rcases Nat.lt_or_eq_of_le upto with less | rfl
      · exact stayed later after (by omega)
      · exact now
    · refine ⟨last, Nat.lt_succ_self _, commit, here, ?_, ?_⟩
      · rw [reached.before_eq here]
        exact before
      · intro later after upto
        obtain rfl : later = last + 1 := by omega
        exact now

/-- An identifier is drawn by one unit of a run. -/
theorem drawn_once (here : CommittedAt world.past place commit)
    (there : CommittedAt world.past other one) {id : L.Id} (drew : id ∈ commit.work.drawn)
    (again : id ∈ one.work.drawn) : place = other := by
  have once : ∀ {first last : Nat} {early late : Commit C}, first < last →
      CommittedAt world.past first early → CommittedAt world.past last late →
      id ∈ late.work.drawn → id ∉ early.work.drawn := by
    intro first last early late before isFirst isLast drawn
    obtain ⟨newer, older, split, rfl⟩ := isLast
    rw [split] at isFirst
    exact reached.drawn.once newer late older split id drawn early (isFirst.older_of_lt before).mem
  rcases Nat.lt_trichotomy place other with less | same | more
  · exact absurd drew (once less here there again)
  · exact same
  · exact absurd again (once more there here drew)

section Growth

variable (G : Growth L)

include G

theorem unit (here : CommittedAt world.past place commit) :
    ∃ newer older, world.past = newer ++ commit :: older ∧ older.length = place ∧
      UnitSound G older commit.before commit.work := by
  obtain ⟨newer, older, split, same⟩ := here
  exact ⟨newer, older, split, same, (reached.units G).past newer commit older split⟩

/-- What a unit changed one of its statements wrote. -/
theorem changed (here : CommittedAt world.past place commit) {key : L.Key}
    (differs : commit.after.lookup key ≠ commit.before.lookup key) :
    ∃ event ∈ commit.work.events, ⟨key, commit.after.lookup key⟩ ∈ event.writes := by
  obtain ⟨newer, older, -, -, sound⟩ := reached.unit G here
  rw [reached.history.written commit here.mem] at differs ⊢
  exact (sound.changed key).resolve_left differs

/-- What a statement wrote is moved on by those after it in its unit. -/
theorem wrote (here : CommittedAt world.past place commit) (inside : event ∈ commit.work.events)
    {write : Write L.Row} (written : write ∈ event.writes) :
    G.Grows write.1 write.2 (commit.after.lookup write.1) := by
  obtain ⟨newer, older, -, -, sound⟩ := reached.unit G here
  rw [reached.history.written commit here.mem]
  exact sound.wrote event inside write written

/-- A row a statement held is at the commit as the statement found it. -/
theorem kept (here : CommittedAt world.past place commit) (inside : event ∈ commit.work.events)
    {lock : L.Key × LockMode} (holding : lock ∈ event.locks) :
    commit.before.lookup lock.1 = event.now.lookup lock.1 := by
  obtain ⟨newer, older, -, -, sound⟩ := reached.unit G here
  exact sound.kept event inside lock holding

/-- No unit commits against a row another holds. -/
theorem held (here : CommittedAt world.past place commit) (inside : event ∈ commit.work.events)
    {lock : L.Key × LockMode} (holding : lock ∈ event.locks)
    (there : CommittedAt world.past other one) (after : event.finished ≤ other)
    (before : other < place) {against : LockMode} (rival : (lock.1, against) ∈ one.work.locks) :
    lock.2 = .share ∧ against = .share := by
  obtain ⟨newer, older, split, rfl, sound⟩ := reached.unit G here
  rw [split] at there
  exact sound.held event inside lock holding one ((there.older_of_lt before).mem_since after)
    against rival

theorem locks_subset (here : CommittedAt world.past place commit)
    (inside : event ∈ commit.work.events) : event.locks ⊆ commit.work.locks := by
  obtain ⟨newer, older, -, -, sound⟩ := reached.unit G here
  exact sound.locks event inside

theorem grows_commit (here : CommittedAt world.past place commit) (key : L.Key) :
    G.Grows key (commit.before.lookup key) (commit.after.lookup key) := by
  obtain ⟨newer, older, -, -, sound⟩ := reached.unit G here
  rw [reached.history.written commit here.mem]
  exact sound.moves key

/-- Rows move in one direction along the units of a run. -/
theorem grows {first last : Nat} (order : first ≤ last) (within : last ≤ world.past.length)
    (key : L.Key) : G.Grows key ((dbAt start world.past first).lookup key)
      ((dbAt start world.past last).lookup key) := by
  induction last, order using Nat.le_induction with
  | base => exact G.refl _ _
  | succ last order ih =>
    obtain ⟨commit, here⟩ := exists_committedAt_of_lt within
    have step := reached.grows_commit G here key
    rw [reached.before_eq here, after_eq here] at step
    exact G.trans (ih (by omega)) step

/-- What a statement read of its own unit a statement before it wrote. -/
theorem writer_before (here : CommittedAt world.past place commit)
    (inside : event ∈ commit.work.events) {write : Write L.Row} (wrote : write ∈ event.wrote) :
    ∃ writer ∈ commit.work.events, write ∈ writer.writes ∧ writer.finished ≤ event.started := by
  obtain ⟨newer, older, -, -, sound⟩ := reached.unit G here
  obtain ⟨earlier, later, split⟩ := List.append_of_mem inside
  rw [sound.wroteBefore earlier event later split] at wrote
  obtain ⟨writer, among, byWriter⟩ := List.mem_flatMap.mp wrote
  refine ⟨writer, split ▸ List.mem_append_left _ among, byWriter, ?_⟩
  have ordered := reached.ordered here
  rw [Work.told, split, ← List.append_assoc, List.pairwise_append] at ordered
  exact ordered.2.2 writer (List.mem_append_right _ among) event List.mem_cons_self

/-- A row a statement writes it found as its unit left it so far. -/
theorem found_of_writes (here : CommittedAt world.past place commit)
    {earlier later : List L.Event} (split : commit.work.events = earlier ++ event :: later)
    {write : Write L.Row} (written : write ∈ event.writes) :
    event.found.lookup write.1 =
      (overlay (earlier.flatMap Event.writes) commit.before).lookup write.1 := by
  obtain ⟨newer, older, -, -, sound⟩ := reached.unit G here
  have among : event ∈ commit.work.events := by simp [split]
  have locked : (write.1, LockMode.exclusive) ∈ event.locks := L.run_locked _ _ _ _ written
  have kept := reached.kept G here among locked
  rw [Event.found, sound.wroteBefore earlier event later split]
  by_cases wrote : write.1 ∈ (earlier.flatMap Event.writes).map Sigma.fst
  · exact lookup_overlay_congr wrote event.now commit.before
  · have apart : ∀ one ∈ earlier.flatMap Event.writes, one.1 ≠ write.1 := fun one inside same =>
      wrote (List.mem_map.mpr ⟨one, inside, same⟩)
    rw [lookup_overlay_of_not_mem apart, lookup_overlay_of_not_mem apart]
    exact kept.symm

/-- What holds of a row once some statements of a unit ran, and what each of
the others that writes the row keeps, holds after it. -/
theorem unit_induction_from (here : CommittedAt world.past place commit) {key : L.Key}
    (holds : Option (L.Row key) → Prop) {earlier later : List L.Event}
    (split : commit.work.events = earlier ++ later)
    (before : holds ((overlay (earlier.flatMap Event.writes) commit.before).lookup key))
    (keeps : ∀ event ∈ later, holds (event.found.lookup key) → ∀ row,
      (⟨key, row⟩ : Write L.Row) ∈ event.writes → holds row) : holds (commit.after.lookup key) := by
  induction later generalizing earlier with
  | nil =>
    obtain ⟨newer, older, -, -, sound⟩ := reached.unit G here
    rw [reached.history.written commit here.mem, sound.writes, split, List.append_nil]
    exact before
  | cons event later ih =>
    have next : commit.work.events = (earlier ++ [event]) ++ later := by simp [split]
    refine ih next ?_ fun one inside => keeps one (List.mem_cons_of_mem _ inside)
    rw [List.flatMap_append, List.flatMap_singleton, overlay_append]
    rcases lookup_overlay_cases key event.writes
      (overlay (earlier.flatMap Event.writes) commit.before) with same | written
    · rwa [same]
    · refine keeps event List.mem_cons_self ?_ _ written
      rwa [reached.found_of_writes G here split written]

/-- What holds of a row when a unit commits, and what each of its statements
that writes the row keeps, holds after it. -/
theorem unit_induction (here : CommittedAt world.past place commit) {key : L.Key}
    (holds : Option (L.Row key) → Prop) (before : holds (commit.before.lookup key))
    (keeps : ∀ event ∈ commit.work.events, holds (event.found.lookup key) → ∀ row,
      (⟨key, row⟩ : Write L.Row) ∈ event.writes → holds row) : holds (commit.after.lookup key) :=
  reached.unit_induction_from G here holds (show commit.work.events = [] ++ commit.work.events from rfl)
    before keeps

/-- What holds of a row when a unit commits, and what each of its statements
before one that writes the row keeps, that one finds. -/
theorem found_induction (here : CommittedAt world.past place commit) {key : L.Key}
    (holds : Option (L.Row key) → Prop) {earlier later : List L.Event}
    (split : commit.work.events = earlier ++ event :: later) {row : Option (L.Row key)}
    (written : (⟨key, row⟩ : Write L.Row) ∈ event.writes) (before : holds (commit.before.lookup key))
    (keeps : ∀ one ∈ earlier, holds (one.found.lookup key) → ∀ row,
      (⟨key, row⟩ : Write L.Row) ∈ one.writes → holds row) : holds (event.found.lookup key) := by
  rw [reached.found_of_writes G here split written]
  clear written
  induction earlier using List.reverseRecOn generalizing event later with
  | nil => exact before
  | append_singleton earlier last ih =>
    have shorter : commit.work.events = earlier ++ last :: (event :: later) := by simp [split]
    have stood := ih shorter fun one inside => keeps one (List.mem_append_left _ inside)
    rw [List.flatMap_append, List.flatMap_singleton, overlay_append]
    rcases lookup_overlay_cases key last.writes
      (overlay (earlier.flatMap Event.writes) commit.before) with same | written
    · rwa [same]
    · refine keeps last (by simp) ?_ _ written
      rwa [reached.found_of_writes G here shorter written]

/-- What a statement makes of a row, and what each of those after it in its
unit that writes the row keeps, holds after the unit. -/
theorem kept_after (here : CommittedAt world.past place commit) {key : L.Key}
    (holds : Option (L.Row key) → Prop) {earlier later : List L.Event}
    (split : commit.work.events = earlier ++ event :: later) {row : Option (L.Row key)}
    (written : (⟨key, row⟩ : Write L.Row) ∈ event.writes) (made : holds row)
    (keeps : ∀ one ∈ later, holds (one.found.lookup key) → ∀ row,
      (⟨key, row⟩ : Write L.Row) ∈ one.writes → holds row) : holds (commit.after.lookup key) := by
  have next : commit.work.events = (earlier ++ [event]) ++ later := by simp [split]
  refine reached.unit_induction_from G here holds next ?_ keeps
  have last : (overlay event.writes (overlay (earlier.flatMap Event.writes) commit.before)).lookup key = row :=
    lookup_overlay_of_mem (G.once _ _ _) written _
  rw [List.flatMap_append, List.flatMap_singleton, overlay_append, last]
  exact made

/-- The same, where every statement of the unit keeps it. -/
theorem kept_since (here : CommittedAt world.past place commit) (inside : event ∈ commit.work.events)
    {key : L.Key} (holds : Option (L.Row key) → Prop) {row : Option (L.Row key)}
    (written : (⟨key, row⟩ : Write L.Row) ∈ event.writes) (made : holds row)
    (keeps : ∀ one ∈ commit.work.events, holds (one.found.lookup key) → ∀ row,
      (⟨key, row⟩ : Write L.Row) ∈ one.writes → holds row) : holds (commit.after.lookup key) := by
  obtain ⟨earlier, later, split⟩ := List.append_of_mem inside
  exact reached.kept_after G here holds split written made fun one among =>
    keeps one (by simp [split, among])

/-- What holds of a row after a unit and did not before one of its statements
wrote. -/
theorem made (here : CommittedAt world.past place commit) (key : L.Key)
    (holds : Option (L.Row key) → Prop) (before : ¬holds (commit.before.lookup key))
    (after : holds (commit.after.lookup key)) :
    ∃ event ∈ commit.work.events, ¬holds (event.found.lookup key) ∧
      ∃ row, (⟨key, row⟩ : Write L.Row) ∈ event.writes ∧ holds row := by
  by_contra never
  refine reached.unit_induction G here (fun row => ¬holds row) before ?_ after
  intro event among found row written
  exact fun held => never ⟨event, among, found, row, written, held⟩

/-- What holds of a row now and did not at the start one statement wrote, and
it stayed from the commit of its unit on. -/
theorem came_made (key : L.Key) (holds : Option (L.Row key) → Prop)
    (never : ¬holds (start.lookup key)) {units : Nat} (within : units ≤ world.past.length)
    (now : holds ((dbAt start world.past units).lookup key)) :
    ∃ place < units, ∃ commit, CommittedAt world.past place commit ∧
      ¬holds (commit.before.lookup key) ∧
      (∀ later, place < later → later ≤ units → holds ((dbAt start world.past later).lookup key)) ∧
      ∃ event ∈ commit.work.events, ¬holds (event.found.lookup key) ∧
        ∃ row, (⟨key, row⟩ : Write L.Row) ∈ event.writes ∧ holds row := by
  obtain ⟨place, before, commit, here, absent, stays⟩ :=
    reached.came (fun db => holds (db.lookup key)) never within now
  refine ⟨place, before, commit, here, absent, stays, reached.made G here key holds absent ?_⟩
  rw [Reachable.after_eq here]
  exact stays (place + 1) (Nat.lt_succ_self _) before

/-- What a statement reads through the writes of its unit moves on to what
the unit leaves. -/
theorem grows_overlay (here : CommittedAt world.past place commit)
    (inside : event ∈ commit.work.events) {units : Nat} (before : units ≤ place) (key : L.Key) :
    G.Grows key ((overlay event.wrote (dbAt start world.past units)).lookup key)
      (commit.after.lookup key) := by
  rcases lookup_overlay_cases key event.wrote (dbAt start world.past units) with same | written
  · rw [same]
    have until_commit := reached.grows G before (Nat.le_of_lt here.lt) key
    rw [← reached.before_eq here] at until_commit
    exact G.trans until_commit (reached.grows_commit G here key)
  · obtain ⟨writer, among, byWriter, -⟩ := reached.writer_before G here inside written
    exact reached.wrote G here among byWriter

theorem grows_seen_after (here : CommittedAt world.past place commit)
    (inside : event ∈ commit.work.events) (key : L.Key) :
    G.Grows key (event.seen.lookup key) (commit.after.lookup key) := by
  obtain ⟨-, within, faithful⟩ := reached.faithful here (Work.mem_told_of_mem inside)
  have moved := reached.grows_overlay G here inside (Nat.le_trans faithful.started within) key
  rwa [← faithful.snapshot] at moved

theorem grows_found_after (here : CommittedAt world.past place commit)
    (inside : event ∈ commit.work.events) (key : L.Key) :
    G.Grows key (event.found.lookup key) (commit.after.lookup key) := by
  obtain ⟨-, within, faithful⟩ := reached.faithful here (Work.mem_told_of_mem inside)
  have moved := reached.grows_overlay G here inside within key
  rwa [← faithful.now] at moved

/-- A statement before which its unit wrote nothing saw the storage alone. -/
theorem leading (here : CommittedAt world.past place commit) {earlier later : List L.Event}
    (split : commit.work.events = earlier ++ event :: later)
    (reads : ∀ one ∈ earlier, one.writes = []) :
    event.seen = event.snapshot ∧ event.found = event.now := by
  obtain ⟨newer, older, -, -, sound⟩ := reached.unit G here
  have nothing : event.wrote = [] := by
    rw [sound.wroteBefore earlier event later split]
    exact List.flatMap_eq_nil_iff.mpr reads
  simp [Event.seen, Event.found, nothing]

theorem grows_seen (inside : event ∈ world.ran) (key : L.Key) :
    G.Grows key (event.snapshot.lookup key) (event.seen.lookup key) :=
  ((reached.units G).ran event inside key).1

/-- Rows move in one direction from the start of a statement to its end. -/
theorem grows_seen_found (inside : event ∈ world.ran) (key : L.Key) :
    G.Grows key (event.seen.lookup key) (event.found.lookup key) := by
  have faithful := reached.history.ran event inside
  by_cases written : key ∈ event.wrote.map Sigma.fst
  · have same := lookup_overlay_congr written event.snapshot event.now
    rw [Event.seen, Event.found, same]
    exact G.refl _ _
  · have apart : ∀ write ∈ event.wrote, write.1 ≠ key := fun write wrote same =>
      written (List.mem_map.mpr ⟨write, wrote, same⟩)
    rw [Event.seen, Event.found, lookup_overlay_of_not_mem apart, lookup_overlay_of_not_mem apart,
      faithful.snapshot, faithful.now]
    exact reached.grows G faithful.started faithful.finished key

end Growth

end Reachable

end Run

namespace World

/-- Runs the program of a call step by step, as its surroundings answer and
with these identifiers drawn, until it is over. -/
def drive (mode : Mode) (answers : (question : L.Ask) → L.Ans question) :
    Nat → List L.Id → Nat → World C → Option (World C)
  | 0, _, _, world => some world
  | fuel + 1, drawn, pid, world =>
    match world.proc? pid with
    | none => some world
    | some { prog := .statement _ _, waiting := none, .. } =>
      (world.step mode (.start pid)).bind (drive mode answers fuel drawn pid)
    | some { prog := .statement _ _, waiting := some _, .. } =>
      (world.step mode (.finish pid)).bind (drive mode answers fuel drawn pid)
    | some { prog := .ask _ _, .. } =>
      (world.step mode (.ask pid answers)).bind (drive mode answers fuel drawn pid)
    | some { prog := .mint _, .. } =>
      match drawn with
      | [] => none
      | id :: rest => (world.step mode (.mint pid id)).bind (drive mode answers fuel rest pid)
    | some _ => (world.step mode (.turn pid)).bind (drive mode answers fuel drawn pid)

/-- A call served alone: what its surroundings answer, and what it draws. -/
structure Served (C : L.Calls) where
  call : C.Call
  answers : (question : L.Ask) → L.Ans question
  drawn : List L.Id

/-- Serves calls one after the other. -/
def serve (mode : Mode) (fuel : Nat) (world : World C) : List (Served C) → Option (World C)
  | [] => some world
  | served :: rest => (world.step mode (.call served.call)).bind fun called =>
      (called.drive mode served.answers fuel served.drawn world.procs.length).bind fun next =>
        next.serve mode fuel rest

end World

section Serve

variable {mode : Mode} {start : L.Db} {ids : List L.Id} {world after : World C}

theorem Reachable.of_drive {answers : (question : L.Ask) → L.Ans question} {fuel pid : Nat}
    {drawn : List L.Id} (reached : Reachable C mode start ids world)
    (driven : world.drive mode answers fuel drawn pid = some after) :
    Reachable C mode start ids after := by
  induction fuel generalizing world drawn with
  | zero =>
    obtain rfl := Option.some.inj driven
    exact reached
  | succ fuel ih =>
    simp only [World.drive] at driven
    split at driven
    · obtain rfl := Option.some.inj driven
      exact reached
    · obtain ⟨next, stepped, driven⟩ := Option.bind_eq_some_iff.mp driven
      exact ih (reached.step stepped) driven
    · obtain ⟨next, stepped, driven⟩ := Option.bind_eq_some_iff.mp driven
      exact ih (reached.step stepped) driven
    · obtain ⟨next, stepped, driven⟩ := Option.bind_eq_some_iff.mp driven
      exact ih (reached.step stepped) driven
    · split at driven
      · cases driven
      · obtain ⟨next, stepped, driven⟩ := Option.bind_eq_some_iff.mp driven
        exact ih (reached.step stepped) driven
    · obtain ⟨next, stepped, driven⟩ := Option.bind_eq_some_iff.mp driven
      exact ih (reached.step stepped) driven

theorem Reachable.of_serve {fuel : Nat} {calls : List (World.Served C)}
    (reached : Reachable C mode start ids world)
    (served : world.serve mode fuel calls = some after) : Reachable C mode start ids after := by
  induction calls generalizing world with
  | nil =>
    obtain rfl := Option.some.inj served
    exact reached
  | cons call calls ih =>
    obtain ⟨called, stepped, served⟩ := Option.bind_eq_some_iff.mp served
    obtain ⟨next, driven, served⟩ := Option.bind_eq_some_iff.mp served
    exact ih ((reached.step stepped).of_drive driven) served

end Serve

end Saffui.Foundation.Language
