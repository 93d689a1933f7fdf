import Saffui.Foundation.ReadCommitted

/-!
# What holds between the steps of a program while others commit

A `Discipline` says what every unit keeps of a storage (`Inv`), in which
direction it may only move it (`Le`), what a row held alone protects beyond
itself (`Guarded`) and when an identifier does not occur in the storage
(`Absent`). `Prog.wp` is then what must hold before a program for a condition
to hold after it, whatever units of the same discipline commit between its
steps; rows it holds locked stay, with what they guard, and identifiers it
minted do not turn up. Each of its commits must keep the discipline, and guarantee what
the development asks of a commit of its call.

`Reachable.sound` carries this to whole runs: if every call meets its
condition then every unit ever committed gave its guarantee.
-/

namespace Saffui.Foundation.Language

variable {L : Language}

/-- A unit after statements that wrote nothing. -/
structure Work.Reading (work after : L.Work) : Prop where
  writes : after.writes = work.writes
  minted : after.minted = work.minted
  locks : work.locks ⊆ after.locks

namespace Work.Reading

variable {first second third : L.Work}

theorem refl (work : L.Work) : work.Reading work := ⟨rfl, rfl, List.Subset.refl _⟩

theorem trans (one : first.Reading second) (other : second.Reading third) :
    first.Reading third :=
  ⟨other.writes.trans one.writes, other.minted.trans one.minted,
    List.Subset.trans one.locks other.locks⟩

end Work.Reading

/-- The first statement of a unit that writes. -/
theorem Work.ran_writes {work : L.Work} (empty : work.writes = []) (op : L.Op) (span : Span)
    (snapshot now : L.Db) :
    (work.ran op span snapshot now).writes = (L.run op snapshot now).1 := by
  simp [Work.ran, empty]

structure Discipline (L : Language) where
  Inv : L.Db → Prop
  Le : L.Db → L.Db → Prop
  le_refl : ∀ db, Le db db
  le_trans : ∀ {first second third}, Le first second → Le second third → Le first third
  /-- How units that do not hold a row alone may move the storage. -/
  Guarded : L.Key → L.Db → L.Db → Prop
  guarded_refl : ∀ key db, Guarded key db db
  guarded_trans : ∀ {key first second third}, Guarded key first second →
    Guarded key second third → Guarded key first third
  Absent : L.Id → L.Db → Prop

namespace Discipline

variable (D : Discipline L)

/-- What may become of the storage while a unit waits: its rows stay. -/
structure Rely (work : L.Work) (db now : L.Db) : Prop where
  kept : ∀ key mode, (key, mode) ∈ work.locks → now.lookup key = db.lookup key
  guarded : ∀ key, (key, .exclusive) ∈ work.locks → D.Guarded key db now
  inv : D.Inv now
  le : D.Le db now
  absent : ∀ id ∈ work.minted, D.Absent id db → D.Absent id now

variable {D} in
/-- A unit that holds more relies on no less. -/
theorem Rely.of_more {work more : L.Work} {db now : L.Db} (rely : D.Rely more db now)
    (locks : work.locks ⊆ more.locks) (minted : work.minted ⊆ more.minted) :
    D.Rely work db now where
  kept key mode held := rely.kept key mode (locks held)
  guarded key held := rely.guarded key (locks held)
  inv := rely.inv
  le := rely.le
  absent id mine := rely.absent id (minted mine)

/-- What a unit owes when it commits. -/
structure Commits (guar : L.Work → L.Db → L.Db → Prop) (work : L.Work) (now : L.Db) : Prop where
  inv : D.Inv (overlay work.writes now)
  le : D.Le now (overlay work.writes now)
  guarded : ∀ key, (key, .exclusive) ∉ work.locks → D.Guarded key now (overlay work.writes now)
  absent : ∀ id, id ∉ work.minted → D.Absent id now → D.Absent id (overlay work.writes now)
  guar : guar work now (overlay work.writes now)

variable {D} {work : L.Work} {db now later : L.Db}

theorem rely_refl (inv : D.Inv db) : D.Rely work db db :=
  ⟨fun _ _ _ => rfl, fun key _ => D.guarded_refl key db, inv, D.le_refl db,
    fun _ _ absent => absent⟩

theorem Rely.trans (first : D.Rely work db now) (second : D.Rely work now later) :
    D.Rely work db later where
  kept key mode held := (second.kept key mode held).trans (first.kept key mode held)
  guarded key held := D.guarded_trans (first.guarded key held) (second.guarded key held)
  inv := second.inv
  le := D.le_trans first.le second.le
  absent id mine absent := second.absent id mine (first.absent id mine absent)

theorem Rely.refl_right (rely : D.Rely work db now) : D.Rely work now now := rely_refl rely.inv

theorem Rely.reading {after : L.Work} (rely : D.Rely after db now) (reads : work.Reading after) :
    D.Rely work db now :=
  rely.of_more reads.locks (by rw [reads.minted]; exact List.Subset.refl _)

end Discipline

namespace Prog

variable (D : Discipline L) (guar : L.Work → L.Db → L.Db → Prop) {α β : Type}

/-- What must hold before a program so that `post` holds at its end, and each
of its commits gives its guarantee. -/
def wp : L.Prog α → (α → L.Work → L.Db → Prop) → L.Work → L.Db → Prop
  | done answer, post, work, db => ∀ now, D.Rely work db now → post answer work now
  | fail _, _, _, _ => True
  | statement op next, post, work, db =>
    ∀ snapshot, D.Rely work db snapshot → ∀ now, D.Rely work snapshot now → ∀ span,
      (next (L.run op (overlay work.writes snapshot) (overlay work.writes now)).2).wp post
        (work.ran op span snapshot now) now
  | ask _ next, post, work, db =>
    ∀ now, D.Rely work db now → ∀ answer, (next answer).wp post work now
  | mint next, post, work, db =>
    ∀ now, D.Rely work db now → ∀ id, id ∉ work.minted → D.Absent id now →
      (next id).wp post (work.mint id) now
  | begin next, post, work, db =>
    ∀ now, D.Rely work db now → next.wp post (work.finish false) now
  | drop next, post, work, db =>
    ∀ now, D.Rely work db now → next.wp post (work.finish false) now
  | commit next, post, work, db =>
    ∀ now, D.Rely work db now → D.Commits guar work now ∧
      next.wp post (work.finish true) (overlay work.writes now)

variable {D guar} {post : α → L.Work → L.Db → Prop} {work : L.Work} {db now : L.Db}

/-- What others commit meanwhile does not spoil it. -/
theorem wp_stable {prog : L.Prog α} (holds : prog.wp D guar post work db)
    (rely : D.Rely work db now) : prog.wp D guar post work now := by
  cases prog with
  | done answer => exact fun later next => holds later (rely.trans next)
  | fail error => trivial
  | statement op next => exact fun snapshot seen => holds snapshot (rely.trans seen)
  | ask question next => exact fun later next => holds later (rely.trans next)
  | mint next => exact fun later next => holds later (rely.trans next)
  | begin next => exact fun later next => holds later (rely.trans next)
  | drop next => exact fun later next => holds later (rely.trans next)
  | commit next => exact fun later next => holds later (rely.trans next)

/-- It may be shown at what the storage becomes before the next step. -/
theorem wp_of_rely {prog : L.Prog α}
    (holds : ∀ now, D.Rely work db now → prog.wp D guar post work now) :
    prog.wp D guar post work db := by
  cases prog with
  | done answer => exact fun now rely => holds now rely now rely.refl_right
  | fail error => trivial
  | statement op next => exact fun seen rely => holds seen rely seen rely.refl_right
  | ask question next => exact fun now rely => holds now rely now rely.refl_right
  | mint next => exact fun now rely => holds now rely now rely.refl_right
  | begin next => exact fun now rely => holds now rely now rely.refl_right
  | drop next => exact fun now rely => holds now rely now rely.refl_right
  | commit next => exact fun now rely => holds now rely now rely.refl_right

theorem wp_mono {prog : L.Prog α} {weaker : α → L.Work → L.Db → Prop}
    (implies : ∀ answer work db, D.Inv db → post answer work db → weaker answer work db)
    (holds : prog.wp D guar post work db) : prog.wp D guar weaker work db := by
  induction prog generalizing work db with
  | done answer => exact fun now rely => implies answer work now rely.inv (holds now rely)
  | fail error => trivial
  | statement op next ih =>
    exact fun snapshot seen now rely span => ih _ (holds snapshot seen now rely span)
  | ask question next ih => exact fun now rely answer => ih _ (holds now rely answer)
  | mint next ih => exact fun now rely id new absent => ih _ (holds now rely id new absent)
  | begin next ih => exact fun now rely => ih (holds now rely)
  | drop next ih => exact fun now rely => ih (holds now rely)
  | commit next ih => exact fun now rely => ⟨(holds now rely).1, ih (holds now rely).2⟩

/-- A program followed by another is shown one after the other. -/
theorem wp_bind {prog : L.Prog α} {rest : α → L.Prog β} {post : β → L.Work → L.Db → Prop}
    (holds : prog.wp D guar (fun answer => (rest answer).wp D guar post) work db) :
    (prog >>= rest).wp D guar post work db := by
  change (prog.bind rest).wp D guar post work db
  induction prog generalizing work db with
  | done answer => exact wp_of_rely holds
  | fail error => trivial
  | statement op next ih =>
    exact fun snapshot seen now rely span => ih _ (holds snapshot seen now rely span)
  | ask question next ih => exact fun now rely answer => ih _ (holds now rely answer)
  | mint next ih => exact fun now rely id new absent => ih _ (holds now rely id new absent)
  | begin next ih => exact fun now rely => ih (holds now rely)
  | drop next ih => exact fun now rely => ih (holds now rely)
  | commit next ih => exact fun now rely => ⟨(holds now rely).1, ih (holds now rely).2⟩

theorem wp_pure {answer : α} (holds : ∀ now, D.Rely work db now → post answer work now) :
    (Pure.pure answer : L.Prog α).wp D guar post work db := holds

theorem wp_exec {op : L.Op} {post : L.Res op → L.Work → L.Db → Prop}
    (holds : ∀ snapshot now span, D.Rely work db snapshot → D.Rely work snapshot now →
      ∀ later, D.Rely (work.ran op span snapshot now) now later →
      post (L.run op (overlay work.writes snapshot) (overlay work.writes now)).2
        (work.ran op span snapshot now) later) :
    (exec op).wp D guar post work db :=
  fun snapshot seen now rely span later after =>
    holds snapshot now span seen rely later after

/-- A statement that writes nothing. -/
theorem wp_read {op : L.Op} {rest : L.Res op → L.Prog α}
    (silent : ∀ seen now, (L.run op seen now).1 = [])
    (holds : ∀ snapshot now after, D.Rely work db snapshot → D.Rely work snapshot now →
      work.Reading after →
      (rest (L.run op (overlay work.writes snapshot) (overlay work.writes now)).2).wp D guar post
        after now) :
    (exec op >>= rest).wp D guar post work db :=
  fun snapshot seen now rely span =>
    holds snapshot now _ seen rely
      ⟨by simp [Work.ran, silent], rfl, List.subset_append_left _ _⟩

end Prog

section Soundness

variable {C : L.Calls}

/-- What a development shows of its calls: a discipline, what each commit of
a call guarantees, and what holds of its answer. -/
structure Proof (C : L.Calls) extends Discipline L where
  guar : C.Call → L.Work → L.Db → L.Db → Prop
  post : C.Call → C.Answer → L.Work → L.Db → Prop
  calls : ∀ call db, toDiscipline.Inv db →
    (C.program call).wp toDiscipline (guar call) (post call) .fresh db

namespace World

theorem proc?_setProc (world : World C) (pid other : Nat) (proc : Option (Proc C)) :
    (world.setProc pid proc).proc? other =
      if other = pid then (if pid < world.procs.length then proc else none)
      else world.proc? other := by
  simp only [proc?, setProc, List.getElem?_set]
  by_cases same : other = pid
  · subst same
    by_cases inside : other < world.procs.length <;> simp [inside]
  · simp [same, Ne.symm same]

theorem proc?_setProc_eq_some {world : World C} {pid other : Nat} {proc : Option (Proc C)}
    {found : Proc C} (looked : (world.setProc pid proc).proc? other = some found) :
    (other = pid ∧ proc = some found) ∨ (other ≠ pid ∧ world.proc? other = some found) := by
  rw [proc?_setProc] at looked
  split at looked
  · next same =>
    split at looked
    · exact Or.inl ⟨same, looked⟩
    · cases looked
  · next different => exact Or.inr ⟨different, looked⟩

theorem lt_of_proc? {world : World C} {pid : Nat} {proc : Proc C}
    (running : world.proc? pid = some proc) : pid < world.procs.length := by
  by_contra outside
  simp [proc?, List.getElem?_eq_none (Nat.le_of_not_lt outside)] at running

/-- A free row is held by no other unit, unless both only share it. -/
theorem share_of_isFree {world : World C} {pid other : Nat} {wanted : List (L.Key × LockMode)}
    (free : world.isFree pid wanted = true) {proc : Proc C}
    (running : world.proc? other = some proc) (different : other ≠ pid) {key : L.Key}
    {held want : LockMode} (holding : (key, held) ∈ proc.work.locks)
    (wanting : (key, want) ∈ wanted) : held = .share ∧ want = .share := by
  simp only [isFree, List.all_eq_true, List.mem_range, Bool.or_eq_true, beq_iff_eq] at free
  rcases free other (lt_of_proc? running) with same | compatible
  · exact absurd same different
  · rw [running] at compatible
    simp only [List.all_eq_true] at compatible
    have apart := compatible _ holding _ wanting
    cases held <;> cases want <;> simp [conflicts] at apart ⊢

end World

variable (P : Proof C)

/-- What is left of a program is shown, from where it stands. -/
def Continues (db : L.Db) (proc : Proc C) : Prop :=
  match proc with
  | ⟨call, .statement op next, work, some waiting⟩ =>
    ∀ now, P.Rely work db now → ∀ span,
      (next (L.run op (overlay work.writes waiting.snapshot) (overlay work.writes now)).2).wp
        P.toDiscipline (P.guar call) (P.post call)
        (work.ran op span waiting.snapshot now) now
  | ⟨call, prog, work, _⟩ => prog.wp P.toDiscipline (P.guar call) (P.post call) work db

/-- What holds of one program of a world. -/
structure ProcSound (world : World C) (proc : Proc C) : Prop where
  writes : ∀ write ∈ proc.work.writes, (write.1, LockMode.exclusive) ∈ proc.work.locks
  minted : ∀ id ∈ proc.work.minted, id ∈ world.minted
  continues : Continues P world.db proc

/-- What holds of a unit that committed. -/
structure CommitSound (commit : Commit C) : Prop where
  inv_before : P.Inv commit.before
  inv_after : P.Inv commit.after
  le : P.Le commit.before commit.after
  guar : P.guar commit.call commit.work commit.before commit.after

/-- What holds of every world a run leads to. -/
structure WorldSound (world : World C) : Prop where
  inv : P.Inv world.db
  fresh : ∀ id, id ∉ world.minted → P.Absent id world.db
  procs : ∀ pid proc, world.proc? pid = some proc → ProcSound P world proc
  locks : ∀ pid other proc rival, world.proc? pid = some proc → world.proc? other = some rival →
    other ≠ pid → ∀ key mode against, (key, mode) ∈ proc.work.locks →
    (key, against) ∈ rival.work.locks → mode = .share ∧ against = .share
  mints : ∀ pid other proc rival, world.proc? pid = some proc → world.proc? other = some rival →
    other ≠ pid → ∀ id ∈ proc.work.minted, id ∉ rival.work.minted
  past : ∀ commit ∈ world.past, CommitSound P commit
  answered : ∀ answered ∈ world.answered,
    P.post answered.call answered.answer answered.work answered.db

variable {P}

theorem Continues.stable {db now : L.Db} {proc : Proc C} (continues : Continues P db proc)
    (rely : P.Rely proc.work db now) : Continues P now proc := by
  obtain ⟨call, prog, work, waiting⟩ := proc
  cases waiting with
  | none => cases prog <;> exact Prog.wp_stable continues rely
  | some waiting =>
    cases prog with
    | statement op next => exact fun later after => continues later (rely.trans after)
    | done | fail | ask | mint | begin | commit | drop =>
      exact Prog.wp_stable continues rely

theorem Continues.wp {db : L.Db} {proc : Proc C} (continues : Continues P db proc)
    (idle : proc.waiting = none) :
    proc.prog.wp P.toDiscipline (P.guar proc.call) (P.post proc.call) proc.work db := by
  obtain ⟨call, prog, work, waiting⟩ := proc
  obtain rfl := idle
  cases prog <;> exact continues

theorem Continues.wp_of_ne {db : L.Db} {proc : Proc C} (continues : Continues P db proc)
    (other : ∀ op next, proc.prog ≠ .statement op next) :
    proc.prog.wp P.toDiscipline (P.guar proc.call) (P.post proc.call) proc.work db := by
  obtain ⟨call, prog, work, waiting⟩ := proc
  cases prog with
  | statement op next => exact absurd rfl (other op next)
  | done | fail | ask | mint | begin | commit | drop => cases waiting <;> exact continues

theorem continues_of_wp {db : L.Db} {call : C.Call} {prog : L.Prog C.Answer} {work : L.Work}
    (holds : prog.wp P.toDiscipline (P.guar call) (P.post call) work db) :
    Continues P db ⟨call, prog, work, none⟩ := by
  cases prog <;> exact holds

namespace WorldSound

variable {world : World C} {pid : Nat} {proc : Proc C}

theorem initial {db : L.Db} {ids : List L.Id} (inv : P.Inv db)
    (fresh : ∀ id, id ∉ ids → P.Absent id db) : WorldSound P (.initial db ids) where
  inv := inv
  fresh := fresh
  procs pid proc running := by simp [World.proc?, World.initial] at running
  locks pid other proc rival running := by simp [World.proc?, World.initial] at running
  mints pid other proc rival running := by simp [World.proc?, World.initial] at running
  past commit inside := by simp [World.initial] at inside
  answered answered inside := by simp [World.initial] at inside

/-- A program moves on, its locks and identifiers its own. -/
theorem setProc (sound : WorldSound P world) {moved : Option (Proc C)}
    (proc_sound : ∀ proc ∈ moved, ProcSound P world proc)
    (locks : ∀ proc ∈ moved, ∀ other rival, world.proc? other = some rival → other ≠ pid →
      ∀ key mode against, (key, mode) ∈ proc.work.locks → (key, against) ∈ rival.work.locks →
      mode = .share ∧ against = .share)
    (mints : ∀ proc ∈ moved, ∀ other rival, world.proc? other = some rival → other ≠ pid →
      ∀ id ∈ proc.work.minted, id ∉ rival.work.minted) :
    WorldSound P (world.setProc pid moved) where
  inv := sound.inv
  fresh := sound.fresh
  past := sound.past
  answered := sound.answered
  procs found proc looked := by
    have told : ProcSound P world proc := by
      rcases World.proc?_setProc_eq_some looked with ⟨-, here⟩ | ⟨-, there⟩
      · exact proc_sound proc here
      · exact sound.procs found proc there
    exact ⟨told.writes, told.minted, told.continues⟩
  locks first second proc rival looked rivalLooked different := by
    rcases World.proc?_setProc_eq_some looked with ⟨rfl, here⟩ | ⟨apart, there⟩
    · rcases World.proc?_setProc_eq_some rivalLooked with ⟨rfl, -⟩ | ⟨-, rivalThere⟩
      · exact absurd rfl different
      · exact locks proc here second rival rivalThere different
    · rcases World.proc?_setProc_eq_some rivalLooked with ⟨rfl, rivalHere⟩ | ⟨-, rivalThere⟩
      · intro key mode against holding rivalHolding
        exact (locks rival rivalHere first proc there apart key against mode rivalHolding
          holding).symm
      · exact sound.locks first second proc rival there rivalThere different
  mints first second proc rival looked rivalLooked different := by
    rcases World.proc?_setProc_eq_some looked with ⟨rfl, here⟩ | ⟨apart, there⟩
    · rcases World.proc?_setProc_eq_some rivalLooked with ⟨rfl, -⟩ | ⟨-, rivalThere⟩
      · exact absurd rfl different
      · exact mints proc here second rival rivalThere different
    · rcases World.proc?_setProc_eq_some rivalLooked with ⟨rfl, rivalHere⟩ | ⟨-, rivalThere⟩
      · intro id mine rivalMine
        exact mints rival rivalHere first proc there apart id rivalMine mine
      · exact sound.mints first second proc rival there rivalThere different

/-- A program that keeps no more than it held moves on. -/
theorem setProc_of_subset (sound : WorldSound P world) {before moved : Proc C}
    (running : world.proc? pid = some before)
    (locks : moved.work.locks ⊆ before.work.locks)
    (minted : moved.work.minted ⊆ before.work.minted)
    (writes : ∀ write ∈ moved.work.writes, (write.1, LockMode.exclusive) ∈ moved.work.locks)
    (continues : Continues P world.db moved) :
    WorldSound P (world.setProc pid (some moved)) := by
  refine sound.setProc ?_ ?_ ?_
  · rintro proc ⟨⟩
    exact ⟨writes, fun id mine => (sound.procs pid before running).minted id (minted mine),
      continues⟩
  · rintro proc ⟨⟩ other rival rivalRunning different key mode against holding
    exact sound.locks pid other before rival running rivalRunning different key mode against
      (locks holding)
  · rintro proc ⟨⟩ other rival rivalRunning different id mine
    exact sound.mints pid other before rival running rivalRunning different id (minted mine)

/-- The record of what ran and what was answered is not what programs see. -/
theorem record (sound : WorldSound P world) (ran : List L.Event) {answered : List (Answered C)}
    (told : ∀ one ∈ answered, P.post one.call one.answer one.work one.db) :
    WorldSound P { world with ran := ran, answered := answered } where
  inv := sound.inv
  fresh := sound.fresh
  procs pid proc running :=
    have held := sound.procs pid proc running
    ⟨held.writes, held.minted, held.continues⟩
  locks := sound.locks
  mints := sound.mints
  past := sound.past
  answered := told

theorem removeProc (sound : WorldSound P world) : WorldSound P (world.setProc pid none) :=
  sound.setProc (by simp) (by simp) (by simp)

/-- The commit of one unit is what every other program relies on. -/
theorem rely_of_commits (sound : WorldSound P world) {guar : L.Work → L.Db → L.Db → Prop}
    (running : world.proc? pid = some proc)
    (commits : P.Commits guar proc.work world.db) {other : Nat} {rival : Proc C}
    (rivalRunning : world.proc? other = some rival) (different : other ≠ pid) :
    P.Rely rival.work world.db (overlay proc.work.writes world.db) where
  kept key mode holding := by
    apply lookup_overlay_of_not_mem
    rintro write written rfl
    have alone := (sound.procs pid proc running).writes write written
    have shared := sound.locks pid other proc rival running rivalRunning different _ _ _ alone
      holding
    cases shared.1
  guarded key alone := by
    refine commits.guarded key fun mine => ?_
    have shared := sound.locks pid other proc rival running rivalRunning different key _ _ mine
      alone
    cases shared.1
  inv := commits.inv
  le := commits.le
  absent id mine absent :=
    commits.absent id (fun minted => sound.mints pid other proc rival running rivalRunning
      different id minted mine) absent

/-- The writes of a unit that runs no more become the storage. -/
theorem commit (sound : WorldSound P world) {call : C.Call} {work : L.Work}
    (minted : ∀ id ∈ work.minted, id ∈ world.minted)
    (commits : P.Commits (P.guar call) work world.db)
    (rely : ∀ other rival, world.proc? other = some rival →
      P.Rely rival.work world.db (overlay work.writes world.db)) :
    WorldSound P (world.commit pid call work) where
  inv := commits.inv
  fresh id new := commits.absent id (fun mine => new (minted id mine)) (sound.fresh id new)
  procs other rival rivalRunning := by
    have told := sound.procs other rival rivalRunning
    exact ⟨told.writes, told.minted, told.continues.stable (rely other rival rivalRunning)⟩
  locks := sound.locks
  mints := sound.mints
  past one inside := by
    rcases List.mem_cons.mp inside with rfl | earlier
    · exact ⟨sound.inv, commits.inv, commits.le, commits.guar⟩
    · exact sound.past one earlier
  answered := sound.answered

theorem committed (sound : WorldSound P world) {call : C.Call} {next : L.Prog C.Answer}
    {work : L.Work} {waiting : Option L.Waiting}
    (running : world.proc? pid = some ⟨call, .commit next, work, waiting⟩) :
    WorldSound P ((world.commit pid call work).setProc pid
      (some ⟨call, next, work.finish true, none⟩)) := by
  have told := sound.procs pid _ running
  obtain ⟨commits, rest⟩ :=
    told.continues.wp_of_ne nofun world.db (Discipline.rely_refl sound.inv)
  have others : ∀ other rival, (world.setProc pid none).proc? other = some rival →
      world.proc? other = some rival ∧ other ≠ pid := by
    intro other rival looked
    rcases World.proc?_setProc_eq_some looked with ⟨-, impossible⟩ | ⟨different, there⟩
    · cases impossible
    · exact ⟨there, different⟩
  have settled : WorldSound P ((world.setProc pid none).commit pid call work) := by
    refine sound.removeProc.commit told.minted commits ?_
    intro other rival looked
    obtain ⟨there, different⟩ := others other rival looked
    exact sound.rely_of_commits running commits there different
  have same : (world.commit pid call work).setProc pid
      (some ⟨call, next, work.finish true, none⟩) =
      ((world.setProc pid none).commit pid call work).setProc pid
        (some ⟨call, next, work.finish true, none⟩) := by
    simp [World.commit, World.setProc]
  rw [same]
  refine settled.setProc ?_ ?_ ?_
  · rintro proc ⟨⟩
    exact ⟨by simp [Work.finish], told.minted, continues_of_wp rest⟩
  · rintro proc ⟨⟩
    simp [Work.finish]
  · rintro proc ⟨⟩ other rival looked different id mine
    obtain ⟨there, -⟩ := others other rival looked
    exact sound.mints pid other _ rival running there different id mine

theorem finished (sound : WorldSound P world) {call : C.Call} {op : L.Op}
    {next : L.Res op → L.Prog C.Answer} {work : L.Work} {waiting : L.Waiting}
    (running : world.proc? pid = some ⟨call, .statement op next, work, some waiting⟩)
    (free : world.isFree pid (L.locks op (overlay work.writes waiting.snapshot)) = true) :
    WorldSound P (world.setProc pid (some ⟨call,
      next (work.event op (waiting.span world.past.length) waiting.snapshot world.db).result,
      work.ran op (waiting.span world.past.length) waiting.snapshot world.db, none⟩)) := by
  have told := sound.procs pid _ running
  refine sound.setProc ?_ ?_ ?_
  · rintro proc ⟨⟩
    refine ⟨?_, told.minted, continues_of_wp ?_⟩
    · intro write written
      simp only [Work.ran, List.mem_append] at written ⊢
      rcases written with before | here
      · exact Or.inl (told.writes write before)
      · exact Or.inr (L.run_locked op _ _ write here)
    · exact told.continues world.db (Discipline.rely_refl sound.inv) _
  · rintro proc ⟨⟩ other rival rivalRunning different key mode against holding rivalHolding
    simp only [Work.ran, List.mem_append] at holding
    rcases holding with before | here
    · exact sound.locks pid other _ rival running rivalRunning different key mode against before
        rivalHolding
    · exact (World.share_of_isFree free rivalRunning different rivalHolding here).symm
  · rintro proc ⟨⟩ other rival rivalRunning different id mine
    exact sound.mints pid other _ rival running rivalRunning different id mine

theorem mintedId (sound : WorldSound P world) {call : C.Call} {next : L.Id → L.Prog C.Answer}
    {work : L.Work} {waiting : Option L.Waiting} {id : L.Id}
    (running : world.proc? pid = some ⟨call, .mint next, work, waiting⟩)
    (new : id ∉ world.minted) :
    WorldSound P { world.setProc pid (some ⟨call, next id, work.mint id, none⟩) with
      minted := id :: world.minted } := by
  have told := sound.procs pid _ running
  have unminted : id ∉ work.minted := fun mine => new (told.minted id mine)
  have rest := told.continues.wp_of_ne nofun world.db (Discipline.rely_refl sound.inv) id unminted
    (sound.fresh id new)
  have wider : WorldSound P { world with minted := id :: world.minted } :=
    { sound with
      fresh := fun other absent => sound.fresh other fun there =>
        absent (List.mem_cons_of_mem _ there)
      procs := fun other rival rivalRunning =>
        have rivalTold := sound.procs other rival rivalRunning
        ⟨rivalTold.writes, fun one mine => List.mem_cons_of_mem _ (rivalTold.minted one mine),
          rivalTold.continues⟩ }
  refine wider.setProc ?_ ?_ ?_
  · rintro proc ⟨⟩
    refine ⟨told.writes, ?_, continues_of_wp rest⟩
    intro one mine
    rcases List.mem_cons.mp mine with rfl | before
    · exact List.mem_cons_self
    · exact List.mem_cons_of_mem _ (told.minted one before)
  · rintro proc ⟨⟩ other rival rivalRunning different key mode against holding
    exact sound.locks pid other _ rival running rivalRunning different key mode against holding
  · rintro proc ⟨⟩ other rival rivalRunning different one mine
    rcases List.mem_cons.mp mine with rfl | before
    · exact fun rivalMine => new ((sound.procs other rival rivalRunning).minted one rivalMine)
    · exact sound.mints pid other _ rival running rivalRunning different one before

theorem called (sound : WorldSound P world) (call : C.Call) :
    WorldSound P { world with
      procs := world.procs ++ [some ⟨call, C.program call, .fresh, none⟩] } := by
  let proc : Proc C := ⟨call, C.program call, .fresh, none⟩
  let wider : World C := { world with procs := world.procs ++ [none] }
  have looked : ∀ other, wider.proc? other = world.proc? other := by
    intro other
    simp only [World.proc?, wider, List.getElem?_append]
    split
    · rfl
    · next outside =>
      rw [List.getElem?_eq_none (Nat.le_of_not_lt outside)]
      rcases Nat.eq_zero_or_pos (other - world.procs.length) with zero | positive
      · simp [zero]
      · rw [List.getElem?_eq_none (by simp; omega)]
  have widened : WorldSound P wider :=
    { inv := sound.inv, fresh := sound.fresh, past := sound.past, answered := sound.answered
      procs := fun other rival rivalRunning =>
        have told := sound.procs other rival (looked other ▸ rivalRunning)
        ⟨told.writes, told.minted, told.continues⟩
      locks := fun first second one rival running rivalRunning =>
        sound.locks first second one rival (looked first ▸ running) (looked second ▸ rivalRunning)
      mints := fun first second one rival running rivalRunning =>
        sound.mints first second one rival (looked first ▸ running)
          (looked second ▸ rivalRunning) }
  have same : ({ world with procs := world.procs ++ [some proc] } : World C) =
      wider.setProc world.procs.length (some proc) := by
    simp [World.setProc, wider]
  rw [show ({ world with procs := world.procs ++ [some ⟨call, C.program call, .fresh, none⟩] } :
    World C) = _ from same]
  refine widened.setProc ?_ ?_ ?_
  · rintro one ⟨⟩
    exact ⟨by simp [proc, Work.fresh], by simp [proc, Work.fresh],
      continues_of_wp (P.calls call world.db sound.inv)⟩
  · rintro one ⟨⟩
    simp [proc, Work.fresh]
  · rintro one ⟨⟩
    simp [proc, Work.fresh]

/-- Every step of a world keeps it sound. -/
theorem stepped {mode : Mode} {after : World C} (sound : WorldSound P world)
    (step : world.Stepped mode after) : WorldSound P after := by
  cases step with
  | called call => exact sound.called call
  | started running =>
    have told := sound.procs _ _ running
    refine sound.setProc_of_subset running (List.Subset.refl _) (List.Subset.refl _) told.writes ?_
    exact fun now rely span =>
      told.continues.wp rfl world.db (Discipline.rely_refl sound.inv) now rely span
  | finished running _ free =>
    exact (sound.finished running free).record _ sound.answered
  | asked answer running =>
    have told := sound.procs _ _ running
    refine sound.setProc_of_subset running (List.Subset.refl _) (List.Subset.refl _) told.writes ?_
    exact continues_of_wp
      (told.continues.wp_of_ne nofun world.db (Discipline.rely_refl sound.inv) answer)
  | minted running new => exact sound.mintedId running new
  | begun running =>
    have told := sound.procs _ _ running
    refine sound.setProc_of_subset running (by simp [Work.finish]) (List.Subset.refl _)
      (by simp [Work.finish]) (continues_of_wp ?_)
    exact told.continues.wp_of_ne nofun world.db (Discipline.rely_refl sound.inv)
  | dropped running =>
    have told := sound.procs _ _ running
    refine sound.setProc_of_subset running (by simp [Work.finish]) (List.Subset.refl _)
      (by simp [Work.finish]) (continues_of_wp ?_)
    exact told.continues.wp_of_ne nofun world.db (Discipline.rely_refl sound.inv)
  | committed running => exact sound.committed running
  | answered running =>
    have told := sound.procs _ _ running
    refine sound.removeProc.record world.ran ?_
    intro one inside
    rcases List.mem_cons.mp inside with rfl | earlier
    · exact told.continues.wp_of_ne nofun world.db (Discipline.rely_refl sound.inv)
    · exact sound.answered one earlier
  | stopped pid => exact sound.removeProc

end WorldSound

/-- Every world a run leads to is sound, from a storage that keeps the
discipline and whose identifiers are known. -/
theorem Reachable.sound {mode : Mode} {start : L.Db} {ids : List L.Id} {world : World C}
    (inv : P.Inv start) (fresh : ∀ id, id ∉ ids → P.Absent id start)
    (reached : Reachable C mode start ids world) : WorldSound P world :=
  reached.invariant (.initial inv fresh) fun _ _ sound step => sound.stepped step

end Soundness

end Saffui.Foundation.Language
