import Saffui.Foundation.RelyGuarantee

/-!
# What a program ran, whatever the storage answered

`Prog.tells` follows a program through every answer the storage and its
surroundings may give, and says what each unit ran by the time it commits. It
speaks of no storage: it is `Prog.wp` under the discipline that asks nothing
and promises nothing. `Reachable.traced` carries it to whole runs.
-/

namespace Saffui.Foundation.Language

variable {L : Language} {C : L.Calls} {α β : Type}

/-- The discipline that asks nothing. -/
def Discipline.free : Discipline L where
  Inv _ := True
  Le _ _ := True
  le_refl _ := trivial
  le_trans _ _ := trivial
  Guarded _ _ _ := True
  guarded_refl _ _ := trivial
  guarded_trans _ _ := trivial
  Absent _ _ := True

namespace Prog

/-- Whatever it is answered, each commit of a program finds its unit as
`guar` has it, and its end as `post` has it. -/
def tells (guar : L.Work → Prop) (prog : L.Prog α) (post : α → L.Work → Prop) (work : L.Work) :
    Prop :=
  ∀ db, prog.wp .free (fun work _ _ => guar work) (fun answer work _ => post answer work) work db

variable {guar : L.Work → Prop} {post : α → L.Work → Prop} {work : L.Work}

theorem tells_done {answer : α} (holds : post answer work) :
    (done answer : L.Prog α).tells guar post work :=
  fun _ _ _ => holds

theorem tells_fail {error : L.Err} : (fail error : L.Prog α).tells guar post work :=
  fun _ => trivial

theorem tells_statement {op : L.Op} {next : L.Res op → L.Prog α}
    (holds : ∀ span snapshot now,
      (next (work.event op span snapshot now).result).tells guar post
        (work.ran op span snapshot now)) :
    (statement op next).tells guar post work :=
  fun _ snapshot _ now _ span => holds span snapshot now now

theorem tells_ask {question : L.Ask} {next : L.Ans question → L.Prog α}
    (holds : ∀ answer, (next answer).tells guar post work) :
    (ask question next).tells guar post work :=
  fun _ now _ answer => holds answer now

theorem tells_mint {next : L.Id → L.Prog α}
    (holds : ∀ id, (next id).tells guar post (work.mint id)) : (mint next).tells guar post work :=
  fun _ now _ id _ _ => holds id now

theorem tells_begin {next : L.Prog α} (holds : next.tells guar post (work.finish false)) :
    (begin next).tells guar post work :=
  fun _ now _ => holds now

theorem tells_drop {next : L.Prog α} (holds : next.tells guar post (work.finish false)) :
    (drop next).tells guar post work :=
  fun _ now _ => holds now

theorem tells_commit {next : L.Prog α} (here : guar work)
    (holds : next.tells guar post (work.finish true)) : (commit next).tells guar post work :=
  fun _ now _ => ⟨⟨trivial, trivial, fun _ _ => trivial, fun _ _ _ => trivial, here⟩,
    holds (overlay work.writes now)⟩

/-- A program of which nothing is asked. -/
theorem tells_trivial (prog : L.Prog α) (work : L.Work) :
    prog.tells (fun _ => True) (fun _ _ => True) work := by
  induction prog generalizing work with
  | done answer => exact tells_done trivial
  | fail error => exact tells_fail
  | statement op next ih => exact tells_statement fun span snapshot now => ih _ _
  | ask question next ih => exact tells_ask fun answer => ih answer work
  | mint next ih => exact tells_mint fun id => ih id _
  | begin next ih => exact tells_begin (ih _)
  | drop next ih => exact tells_drop (ih _)
  | commit next ih => exact tells_commit trivial (ih _)

end Prog

/-- What a development shows of the units of its calls, and of their ends. -/
structure Traces (C : L.Calls) where
  guar : C.Call → L.Work → Prop
  post : C.Call → C.Answer → L.Work → Prop
  calls : ∀ call, (C.program call).tells (guar call) (post call) .fresh

/-- The traces of which nothing is asked. -/
def Traces.free (C : L.Calls) : Traces C where
  guar _ _ := True
  post _ _ _ := True
  calls call := Prog.tells_trivial (C.program call) .fresh

def Traces.proof (T : Traces C) : Proof C where
  toDiscipline := .free
  guar call work _ _ := T.guar call work
  post call answer work _ := T.post call answer work
  calls call db _ := T.calls call db

variable {mode : Mode} {start : L.Db} {ids : List L.Id} {world : World C}

theorem Reachable.traces (T : Traces C) (reached : Reachable C mode start ids world) :
    WorldSound T.proof world :=
  reached.sound trivial fun _ _ => trivial

/-- Every unit committed and every answer given is as the traces have it. -/
theorem Reachable.traced (T : Traces C) (reached : Reachable C mode start ids world) :
    (∀ commit ∈ world.past, T.guar commit.call commit.work) ∧
      ∀ answered ∈ world.answered, T.post answered.call answered.answer answered.work := by
  have sound := reached.traces T
  exact ⟨fun commit inside => (sound.past commit inside).guar, sound.answered⟩

end Saffui.Foundation.Language
