import Mathlib.Data.List.DropRight
import Saffui.Foundation.Logs
import Saffui.Foundation.Runs

/-!
# What each call of a run did, deed by deed

A `Log` tells the statements of a program; a record tells everything it did:
what it asked and was answered, where each of its units ended, and how, and
its end. The record of a run is computed from its steps. `Prog.ends` follows a
program through every answer it may be given, and says what each end of a unit
finds; `Accounted.kept` carries that to the record of every run.
-/

namespace Saffui.Foundation.Language

variable {L : Language} {C : L.Calls} {α β : Type}

/-- One thing a program did. A unit it committed is named by its place. -/
inductive Deed (L : Language) where
  | said (one : L.Told)
  | asked (question : L.Ask) (answer : L.Ans question)
  | minted (id : L.Id)
  | began
  | dropped
  | committed (place : Nat)
  | answered
  | failed (error : L.Err)

namespace Deed

/-- Whether the open unit is over with it. A unit begun drops one left open. -/
def closes : L.Deed → Bool
  | said _ | asked _ _ | minted _ => false
  | began | dropped | committed _ | answered | failed _ => true

def told? : L.Deed → Option L.Told
  | said one => some one
  | _ => none

/-- The log of a program that did one thing more. -/
def logged (log : L.Log) : L.Deed → L.Log
  | said one => log.ran one.1 one.2
  | minted id => log.drew id
  | began | dropped | answered | failed _ => log.finish false
  | committed _ => log.finish true
  | asked _ _ => log

/-- The log of a program that did these. -/
def log (deeds : List L.Deed) : L.Log := deeds.foldl logged .fresh

/-- The deeds of the unit still open after these. -/
def unit (deeds : List L.Deed) : List L.Deed := deeds.rtakeWhile fun deed => !deed.closes

/-- The statements among some deeds. -/
def script (deeds : List L.Deed) : List L.Told := deeds.filterMap told?

variable {deeds : List L.Deed} {deed : L.Deed}

@[simp]
theorem log_concat : log (deeds ++ [deed]) = logged (log deeds) deed := by
  simp [log]

theorem unit_concat (inside : deed.closes = false) : unit (deeds ++ [deed]) = unit deeds ++ [deed] :=
  List.rtakeWhile_concat_pos _ _ _ (by simp [inside])

theorem unit_closed (closes : deed.closes = true) : unit (deeds ++ [deed]) = [] :=
  List.rtakeWhile_concat_neg _ _ _ (by simp [closes])

theorem unit_append {more : List L.Deed} (inside : ∀ deed ∈ more, deed.closes = false) :
    unit (deeds ++ more) = unit deeds ++ more := by
  induction more generalizing deeds with
  | nil => simp
  | cons first more ih =>
    have open_ := List.forall_mem_cons.mp inside
    rw [List.append_cons, ih open_.2, unit_concat open_.1, List.append_assoc]
    rfl

/-- A unit that ran statements is still open. -/
theorem unit_said (deeds : List L.Deed) (script : List L.Told) :
    unit (deeds ++ script.map .said) = unit deeds ++ script.map .said := by
  apply unit_append
  intro deed inside
  obtain ⟨one, -, rfl⟩ := List.mem_map.mp inside
  rfl

/-- The script of a log is that of the unit still open. -/
theorem script_log (deeds : List L.Deed) : (log deeds).script = script (unit deeds) := by
  induction deeds using List.reverseRecOn with
  | nil => rfl
  | append_singleton deeds deed ih =>
    rw [log_concat]
    cases deed with
    | said one =>
      rw [unit_concat rfl, script, List.filterMap_append, ← script, ← ih]
      rfl
    | asked | minted =>
      rw [unit_concat rfl, script, List.filterMap_append, ← script, ← ih]
      exact (List.append_nil _).symm
    | began | dropped | committed | answered | failed =>
      rw [unit_closed rfl]
      rfl

theorem mem_script {deeds : List L.Deed} {one : L.Told} :
    one ∈ script deeds ↔ .said one ∈ deeds := by
  rw [script, List.mem_filterMap]
  constructor
  · rintro ⟨deed, inside, same⟩
    cases deed with
    | said other =>
      obtain rfl : other = one := Option.some.inj same
      exact inside
    | _ => cases same
  · exact fun inside => ⟨_, inside, rfl⟩

end Deed

/-- A call of a run, and what it did so far. -/
structure Account (C : L.Calls) where
  call : C.Call
  deeds : List L.Deed

def Account.did (account : Account C) (deed : L.Deed) : Account C :=
  { account with deeds := account.deeds ++ [deed] }

/-- What a program does by a step, and which. -/
def World.deed (world : World C) : Label C → Option (Nat × L.Deed)
  | .finish pid => match world.proc? pid with
    | some { prog := .statement op _, work, waiting := some waiting, .. } =>
      some (pid, .said ⟨op,
        (L.run op (overlay work.writes waiting.snapshot) (overlay work.writes world.db)).2⟩)
    | _ => none
  | .ask pid surroundings => match world.proc? pid with
    | some { prog := .ask question _, .. } => some (pid, .asked question (surroundings question))
    | _ => none
  | .mint pid id => some (pid, .minted id)
  | .turn pid => match world.proc? pid with
    | some { prog := .begin _, .. } => some (pid, .began)
    | some { prog := .drop _, .. } => some (pid, .dropped)
    | some { prog := .commit _, .. } => some (pid, .committed world.past.length)
    | some { prog := .done _, .. } => some (pid, .answered)
    | some { prog := .fail error, .. } => some (pid, .failed error)
    | _ => none
  | .call _ | .start _ | .stop _ => none

/-- The record of a run after one more step. -/
def World.told (world : World C) (label : Label C) (record : List (Account C)) :
    List (Account C) :=
  match label, world.deed label with
  | .call call, _ => record ++ [⟨call, []⟩]
  | _, some (pid, deed) => record.modify pid (·.did deed)
  | _, none => record

/-- A world some run leads to, with the record of that run: one account for
each call that came, in their order. -/
inductive Accounted (C : L.Calls) (mode : Mode) (start : L.Db) (ids : List L.Id) :
    World C → List (Account C) → Prop where
  | initial : Accounted C mode start ids (.initial start ids) []
  | step {before after : World C} {label : Label C} {record : List (Account C)}
      (accounted : Accounted C mode start ids before record)
      (stepped : before.step mode label = some after) :
      Accounted C mode start ids after (before.told label record)

section Accounted

variable {mode : Mode} {start : L.Db} {ids : List L.Id} {world : World C}

theorem Reachable.accounted (reached : Reachable C mode start ids world) :
    ∃ record, Accounted C mode start ids world record := by
  induction reached with
  | initial => exact ⟨[], .initial⟩
  | step _ stepped ih =>
    obtain ⟨record, accounted⟩ := ih
    exact ⟨_, accounted.step stepped⟩

end Accounted

namespace Prog

/-- Whatever it is answered, each end of a unit of a program, and of the
program in an error, finds its deeds as `guar` has it, and its answer as
`post` has it. -/
def ends (guar : List L.Deed → L.Deed → Prop) :
    L.Prog α → (α → List L.Deed → Prop) → List L.Deed → Prop
  | done answer, post, deeds => post answer deeds
  | fail error, _, deeds => guar deeds (.failed error)
  | statement op next, post, deeds =>
    ∀ result, (next result).ends guar post (deeds ++ [.said ⟨op, result⟩])
  | ask question next, post, deeds =>
    ∀ answer, (next answer).ends guar post (deeds ++ [.asked question answer])
  | mint next, post, deeds => ∀ id, (next id).ends guar post (deeds ++ [.minted id])
  | begin next, post, deeds => guar deeds .began ∧ next.ends guar post (deeds ++ [.began])
  | drop next, post, deeds => guar deeds .dropped ∧ next.ends guar post (deeds ++ [.dropped])
  | commit next, post, deeds => ∀ place, guar deeds (.committed place) ∧
    next.ends guar post (deeds ++ [.committed place])

variable {guar : List L.Deed → L.Deed → Prop} {post : α → List L.Deed → Prop}
  {deeds : List L.Deed}

@[simp]
theorem ends_pure {answer : α} :
    (Pure.pure answer : L.Prog α).ends guar post deeds = post answer deeds := rfl

@[simp]
theorem ends_fail {error : L.Err} :
    (fail error : L.Prog α).ends guar post deeds = guar deeds (.failed error) := rfl

@[simp]
theorem ends_bind {prog : L.Prog α} {rest : α → L.Prog β} {post : β → List L.Deed → Prop} :
    (prog >>= rest).ends guar post deeds =
      prog.ends guar (fun answer deeds => (rest answer).ends guar post deeds) deeds := by
  change (prog.bind rest).ends guar post deeds = _
  induction prog generalizing deeds with
  | done answer => rfl
  | fail error => rfl
  | statement op next ih => exact forall_congr fun result => ih result
  | ask question next ih => exact forall_congr fun answer => ih answer
  | mint next ih => exact forall_congr fun id => ih id
  | begin next ih => exact congrArg (guar deeds .began ∧ ·) ih
  | drop next ih => exact congrArg (guar deeds .dropped ∧ ·) ih
  | commit next ih =>
    exact forall_congr fun place => congrArg (guar deeds (.committed place) ∧ ·) ih

theorem ends_mono {prog : L.Prog α} {weaker : α → List L.Deed → Prop}
    (implies : ∀ answer deeds, post answer deeds → weaker answer deeds)
    (holds : prog.ends guar post deeds) : prog.ends guar weaker deeds := by
  induction prog generalizing deeds with
  | done answer => exact implies answer deeds holds
  | fail error => exact holds
  | statement op next ih => exact fun result => ih result (holds result)
  | ask question next ih => exact fun answer => ih answer (holds answer)
  | mint next ih => exact fun id => ih id (holds id)
  | begin next ih => exact ⟨holds.1, ih holds.2⟩
  | drop next ih => exact ⟨holds.1, ih holds.2⟩
  | commit next ih => exact fun place => ⟨(holds place).1, ih (holds place).2⟩

theorem ends_trivial {prog : L.Prog α} :
    prog.ends (fun _ _ => True) (fun _ _ => True) deeds := by
  induction prog generalizing deeds with
  | done answer => trivial
  | fail error => trivial
  | statement op next ih => exact fun result => ih result
  | ask question next ih => exact fun answer => ih answer
  | mint next ih => exact fun id => ih id
  | begin next ih => exact ⟨trivial, ih⟩
  | drop next ih => exact ⟨trivial, ih⟩
  | commit next ih => exact fun place => ⟨trivial, ih⟩

/-- A program none of whose deeds is such a one. -/
def avoids (such : L.Deed → Bool) : L.Prog α → Prop
  | done _ => True
  | fail _ => True
  | statement op next =>
    ∀ result, such (.said ⟨op, result⟩) = false ∧ (next result).avoids such
  | ask question next =>
    ∀ answer, such (.asked question answer) = false ∧ (next answer).avoids such
  | mint next => ∀ id, such (.minted id) = false ∧ (next id).avoids such
  | begin next => next.avoids such
  | drop next => next.avoids such
  | commit next => next.avoids such

variable {such : L.Deed → Bool}

theorem avoids_bind {prog : L.Prog α} {rest : α → L.Prog β} (first : prog.avoids such)
    (then_ : ∀ answer, (rest answer).avoids such) : (prog >>= rest).avoids such := by
  change (prog.bind rest).avoids such
  induction prog with
  | done answer => exact then_ answer
  | fail error => trivial
  | statement op next ih => exact fun result => ⟨(first result).1, ih result (first result).2⟩
  | ask question next ih => exact fun answer => ⟨(first answer).1, ih answer (first answer).2⟩
  | mint next ih => exact fun id => ⟨(first id).1, ih id (first id).2⟩
  | begin next ih => exact ih first
  | drop next ih => exact ih first
  | commit next ih => exact ih first

/-- Where nothing is owed by a unit without such a deed, a program that avoids
them owes nothing. -/
theorem ends_of_avoids {prog : L.Prog α} (free : prog.avoids such)
    (owed : ∀ deeds bound, (∀ deed ∈ Deed.unit deeds, such deed = false) → guar deeds bound)
    (before : ∀ deed ∈ Deed.unit deeds, such deed = false) :
    prog.ends guar (fun _ deeds => ∀ deed ∈ Deed.unit deeds, such deed = false) deeds := by
  have more : ∀ {deeds : List L.Deed} {deed : L.Deed}, deed.closes = false → such deed = false →
      (∀ deed ∈ Deed.unit deeds, such deed = false) →
      ∀ one ∈ Deed.unit (deeds ++ [deed]), such one = false := by
    intro deeds deed inside other earlier
    rw [Deed.unit_concat inside, List.forall_mem_append, List.forall_mem_singleton]
    exact ⟨earlier, other⟩
  have none_left : ∀ {deeds : List L.Deed} {deed : L.Deed}, deed.closes = true →
      ∀ one ∈ Deed.unit (deeds ++ [deed]), such one = false := by
    intro deeds deed closes
    rw [Deed.unit_closed closes]
    exact List.forall_mem_nil _
  induction prog generalizing deeds with
  | done answer => exact before
  | fail error => exact owed _ _ before
  | statement op next ih =>
    exact fun result => ih result (free result).2 (more rfl (free result).1 before)
  | ask question next ih =>
    exact fun answer => ih answer (free answer).2 (more rfl (free answer).1 before)
  | mint next ih => exact fun id => ih id (free id).2 (more rfl (free id).1 before)
  | begin next ih => exact ⟨owed _ _ before, ih free (none_left rfl)⟩
  | drop next ih => exact ⟨owed _ _ before, ih free (none_left rfl)⟩
  | commit next ih => exact fun place => ⟨owed _ _ before, ih free (none_left rfl)⟩

end Prog

/-- What a development shows of the ends of the units of its calls. -/
structure Deeds (C : L.Calls) where
  guar : C.Call → List L.Deed → L.Deed → Prop
  calls : ∀ call, (C.program call).ends (guar call) (fun _ deeds => guar call deeds .answered) []

section Kept

variable {D : Deeds C} {world : World C} {record : List (Account C)} {pid : Nat}

variable (D) in
/-- What is left of a program is shown, from what it did so far. -/
structure Follows (deeds : List L.Deed) (proc : Proc C) : Prop where
  log : Deed.log deeds = proc.work.log
  ends : proc.prog.ends (D.guar proc.call) (fun _ deeds => D.guar proc.call deeds .answered) deeds

variable (D) in
/-- What holds of the record of a run: an account tells the program it is of,
a unit that committed stands in the storage with what the account tells of it,
and every end of a unit is as shown. -/
structure Kept (world : World C) (record : List (Account C)) : Prop where
  size : record.length = world.procs.length
  procs : ∀ pid proc, world.proc? pid = some proc →
    ∃ deeds, record[pid]? = some ⟨proc.call, deeds⟩ ∧ Follows D deeds proc
  commits : ∀ account ∈ record, ∀ before place after,
    account.deeds = before ++ .committed place :: after →
    ∃ commit, CommittedAt world.past place commit ∧ commit.call = account.call ∧
      commit.work.log = Deed.log before
  guar : ∀ account ∈ record, ∀ before bound after, account.deeds = before ++ bound :: after →
    bound.closes = true → D.guar account.call before bound

namespace Kept

theorem initial (start : L.Db) (ids : List L.Id) : Kept D (.initial start ids) [] where
  size := rfl
  procs pid proc running := by simp [World.proc?, World.initial] at running
  commits account inside := by cases inside
  guar account inside := by cases inside

/-- What was there before the last deed, or that deed. -/
theorem split_did {deeds before after : List L.Deed} {deed bound : L.Deed}
    (split : deeds ++ [deed] = before ++ bound :: after) :
    (deeds = before ∧ deed = bound) ∨ ∃ rest, deeds = before ++ bound :: rest := by
  rcases List.eq_nil_or_concat after with rfl | ⟨rest, last, rfl⟩
  · obtain ⟨rfl, same⟩ := List.append_inj' split rfl
    exact Or.inl ⟨rfl, by simpa using same⟩
  · rw [List.concat_eq_append, ← List.cons_append, ← List.append_assoc] at split
    exact Or.inr ⟨rest, (List.append_inj' split rfl).1⟩

/-- A program that did nothing it tells goes on, or is gone. -/
theorem silent (kept : Kept D world record) {moved : Option (Proc C)}
    (same : ∀ next ∈ moved, ∃ proc, world.proc? pid = some proc ∧ next.call = proc.call ∧
      next.prog = proc.prog ∧ next.work = proc.work) :
    Kept D (world.setProc pid moved) record where
  size := by rw [kept.size, World.setProc, List.length_set]
  procs other proc looked := by
    rcases World.proc?_setProc_eq_some looked with ⟨rfl, here⟩ | ⟨-, there⟩
    · obtain ⟨before, running, call, prog, work⟩ := same proc here
      obtain ⟨deeds, found, follows⟩ := kept.procs other before running
      refine ⟨deeds, by rw [found, call], ?_, ?_⟩
      · rw [work]
        exact follows.log
      · rw [prog, call]
        exact follows.ends
    · exact kept.procs other proc there
  commits := kept.commits
  guar := kept.guar

/-- A program does one thing more. -/
theorem did (kept : Kept D world record) {proc : Proc C} (running : world.proc? pid = some proc)
    {moved : Option (Proc C)} {after : World C} {deed : L.Deed}
    (procs : after.procs = world.procs.set pid moved)
    (past : ∀ place commit, CommittedAt world.past place commit →
      CommittedAt after.past place commit)
    (goes : ∀ deeds, Follows D deeds proc →
      (∀ next ∈ moved, next.call = proc.call ∧ Follows D (deeds ++ [deed]) next) ∧
      (∀ place, deed = .committed place → ∃ commit, CommittedAt after.past place commit ∧
        commit.call = proc.call ∧ commit.work.log = Deed.log deeds) ∧
      (deed.closes = true → D.guar proc.call deeds deed)) :
    Kept D after (record.modify pid (·.did deed)) := by
  obtain ⟨deeds, found, follows⟩ := kept.procs pid proc running
  obtain ⟨goesOn, commits, owes⟩ := goes deeds follows
  have looked : ∀ other, after.proc? other = (world.setProc pid moved).proc? other := by
    intro other
    rw [World.proc?, procs]
    rfl
  have among : ∀ account ∈ record.modify pid (·.did deed), account ∈ record ∨
      account = ⟨proc.call, deeds ++ [deed]⟩ := by
    intro account inside
    obtain ⟨other, isOther⟩ := List.getElem?_of_mem inside
    rw [List.getElem?_modify] at isOther
    by_cases same : pid = other
    · subst same
      rw [found] at isOther
      exact Or.inr (by simpa [Account.did] using isOther.symm)
    · simp only [same, if_false, Option.map_eq_map, Option.map_id'] at isOther
      exact Or.inl (List.mem_of_getElem? isOther)
  refine ⟨?_, ?_, ?_, ?_⟩
  · rw [List.length_modify, kept.size, procs, List.length_set]
  · intro other next running
    rw [looked] at running
    rw [List.getElem?_modify]
    rcases World.proc?_setProc_eq_some running with ⟨rfl, here⟩ | ⟨different, there⟩
    · obtain ⟨call, follows⟩ := goesOn next here
      exact ⟨_, by simp [found, Account.did, call], follows⟩
    · obtain ⟨others, isThere, follows⟩ := kept.procs other next there
      exact ⟨others, by simp [isThere, Ne.symm different], follows⟩
  · intro account inside before place later split
    rcases among account inside with old | rfl
    · obtain ⟨commit, here, told⟩ := kept.commits account old before place later split
      exact ⟨commit, past place commit here, told⟩
    · rcases split_did split with ⟨rfl, rfl⟩ | ⟨rest, split⟩
      · exact commits place rfl
      · obtain ⟨commit, here, told⟩ :=
          kept.commits _ (List.mem_of_getElem? found) before place rest split
        exact ⟨commit, past place commit here, told⟩
  · intro account inside before bound later split closes
    rcases among account inside with old | rfl
    · exact kept.guar account old before bound later split closes
    · rcases split_did split with ⟨rfl, rfl⟩ | ⟨rest, split⟩
      · exact owes closes
      · exact kept.guar _ (List.mem_of_getElem? found) before bound rest split closes

/-- A program does one thing more, which commits nothing, and goes on. -/
theorem goesOn (kept : Kept D world record) {proc next : Proc C}
    (running : world.proc? pid = some proc) {after : World C} {deed : L.Deed}
    (procs : after.procs = world.procs.set pid (some next)) (past : after.past = world.past)
    (call : next.call = proc.call) (commitless : ∀ place, deed ≠ .committed place)
    (log : ∀ deeds, Deed.log deeds = proc.work.log → Deed.log (deeds ++ [deed]) = next.work.log)
    (ends : ∀ deeds,
      proc.prog.ends (D.guar proc.call) (fun _ deeds => D.guar proc.call deeds .answered) deeds →
      (deed.closes = true → D.guar proc.call deeds deed) ∧
      next.prog.ends (D.guar proc.call) (fun _ deeds => D.guar proc.call deeds .answered)
        (deeds ++ [deed])) :
    Kept D after (record.modify pid (·.did deed)) := by
  refine kept.did running procs (by rw [past]; exact fun _ _ here => here) fun deeds follows => ?_
  obtain ⟨owes, later⟩ := ends deeds follows.ends
  refine ⟨?_, fun place same => absurd same (commitless place), owes⟩
  intro one isNext
  obtain rfl := Option.some.inj isNext
  exact ⟨call, log deeds follows.log, by rw [call]; exact later⟩

theorem called (kept : Kept D world record) (call : C.Call) :
    Kept D { world with procs := world.procs ++ [some ⟨call, C.program call, .fresh, none⟩] }
      (record ++ [⟨call, []⟩]) := by
  refine ⟨by simp [kept.size], ?_, ?_, ?_⟩
  · intro pid proc running
    simp only [World.proc?, List.getElem?_append] at running
    rw [List.getElem?_append, kept.size]
    split at running
    · next inside =>
      rw [if_pos inside]
      exact kept.procs pid proc running
    · next outside =>
      rw [if_neg outside]
      rcases Nat.eq_zero_or_pos (pid - world.procs.length) with zero | positive
      · simp only [zero, List.getElem?_cons_zero, Option.join_some, Option.some.injEq] at running
        subst running
        exact ⟨[], by rw [zero]; rfl, rfl, D.calls call⟩
      · rw [List.getElem?_eq_none (by simp; omega)] at running
        cases running
  · intro account inside before place later split
    rcases List.mem_append.mp inside with old | new
    · exact kept.commits account old before place later split
    · rw [List.mem_singleton.mp new] at split
      simp at split
  · intro account inside before bound later split
    rcases List.mem_append.mp inside with old | new
    · exact kept.guar account old before bound later split
    · rw [List.mem_singleton.mp new] at split
      simp at split

/-- A turn of a program ends one of its units, or the program. -/
theorem turned (kept : Kept D world record) {after : World C}
    (stepped : world.takeTurn pid = some after) :
    Kept D after (world.told (.turn pid) record) := by
  unfold World.takeTurn at stepped
  unfold World.told World.deed
  split at stepped
  · next call next work waiting running =>
    obtain rfl := Option.some.inj stepped
    simp only [running]
    exact kept.goesOn running rfl rfl rfl (by simp)
      (fun deeds log => by rw [Deed.log_concat, Work.log_finish, ← log]; rfl)
      fun deeds ends => ⟨fun _ => ends.1, ends.2⟩
  · next call next work waiting running =>
    obtain rfl := Option.some.inj stepped
    simp only [running]
    exact kept.goesOn running rfl rfl rfl (by simp)
      (fun deeds log => by rw [Deed.log_concat, Work.log_finish, ← log]; rfl)
      fun deeds ends => ⟨fun _ => ends.1, ends.2⟩
  · next call next work waiting running =>
    obtain rfl := Option.some.inj stepped
    simp only [running]
    refine kept.did running rfl ?_ ?_
    · intro place commit here
      obtain ⟨newer, older, split, isPlace⟩ := here
      exact ⟨_ :: newer, older, by rw [World.setProc, World.commit, split]; rfl, isPlace⟩
    · intro deeds follows
      refine ⟨?_, ?_, fun _ => (follows.ends _).1⟩
      · rintro proc ⟨⟩
        exact ⟨rfl, by rw [Deed.log_concat, Work.log_finish, ← follows.log]; rfl,
          (follows.ends _).2⟩
      · rintro place ⟨⟩
        exact ⟨_, ⟨[], world.past, rfl, rfl⟩, rfl, follows.log.symm⟩
  · next call answer work waiting running =>
    obtain rfl := Option.some.inj stepped
    simp only [running]
    refine kept.did running rfl (fun _ _ here => here) ?_
    exact fun deeds follows => ⟨by simp, by simp, fun _ => follows.ends⟩
  · next call error work waiting running =>
    obtain rfl := Option.some.inj stepped
    simp only [running]
    refine kept.did running rfl (fun _ _ here => here) ?_
    exact fun deeds follows => ⟨by simp, by simp, fun _ => follows.ends⟩
  · cases stepped

theorem stepped {mode : Mode} {after : World C} {label : Label C} (kept : Kept D world record)
    (stepped : world.step mode label = some after) : Kept D after (world.told label record) := by
  cases label with
  | call call =>
    obtain rfl := Option.some.inj stepped
    exact kept.called call
  | start pid =>
    simp only [World.step, World.startStatement] at stepped
    split at stepped
    · next call op next work running =>
      obtain rfl := Option.some.inj stepped
      apply kept.silent
      rintro proc ⟨⟩
      exact ⟨_, running, rfl, rfl, rfl⟩
    · cases stepped
  | finish pid =>
    simp only [World.step, World.finishStatement] at stepped
    split at stepped
    · next call op next work waiting running =>
      split at stepped
      · obtain rfl := Option.some.inj stepped
        simp only [World.told, World.deed, running]
        exact kept.goesOn running rfl rfl rfl (by simp)
          (fun deeds log => by rw [Deed.log_concat, Work.log_ran, ← log]; rfl)
          fun deeds ends => ⟨by simp [Deed.closes], ends _⟩
      · cases stepped
    · cases stepped
  | ask pid surroundings =>
    simp only [World.step, World.askSurroundings] at stepped
    split at stepped
    · next call question next work waiting running =>
      obtain rfl := Option.some.inj stepped
      simp only [World.told, World.deed, running]
      exact kept.goesOn running rfl rfl rfl (by simp)
        (fun deeds log => by rw [Deed.log_concat, ← log]; rfl)
        fun deeds ends => ⟨by simp [Deed.closes], ends _⟩
    · cases stepped
  | mint pid id =>
    simp only [World.step, World.mintId] at stepped
    split at stepped
    · next call next work waiting running =>
      split at stepped
      · cases stepped
      · obtain rfl := Option.some.inj stepped
        exact kept.goesOn running rfl rfl rfl (by simp)
          (fun deeds log => by rw [Deed.log_concat, Work.log_mint, ← log]; rfl)
          fun deeds ends => ⟨by simp [Deed.closes], ends _⟩
    · cases stepped
  | turn pid => exact kept.turned stepped
  | stop pid =>
    obtain rfl := Option.some.inj stepped
    exact kept.silent (by simp)

end Kept

theorem Accounted.kept {mode : Mode} {start : L.Db} {ids : List L.Id} (D : Deeds C)
    (accounted : Accounted C mode start ids world record) : Kept D world record := by
  induction accounted with
  | initial => exact .initial start ids
  | step _ stepped ih => exact ih.stepped stepped

end Kept

end Saffui.Foundation.Language
