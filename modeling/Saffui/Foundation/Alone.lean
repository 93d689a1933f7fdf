import Saffui.Foundation.ReadCommitted

/-!
# A program that runs alone

What a program does to a storage no other program touches meanwhile: each of
its statements sees the storage as the units before committed it, through the
writes of its own unit. A program that fails drops its open unit.
-/

namespace Saffui.Foundation.Language

variable {L : Language} {α β : Type}

/-- Where a program stands that runs alone: what is committed, what its open
unit wrote, and how many identifiers it drew. -/
structure Alone (L : Language) where
  db : L.Db
  writes : List (Write L.Row)
  drawn : Nat

/-- The storage as the open unit sees it. -/
def Alone.seen (alone : Alone L) : L.Db := overlay alone.writes alone.db

/-- The open unit once a statement of it ran. -/
def Alone.ran (alone : Alone L) (op : L.Op) : Alone L :=
  { alone with writes := alone.writes ++ (L.run op alone.seen alone.seen).1 }

def Alone.commit (alone : Alone L) : Alone L := { alone with db := alone.seen, writes := [] }

def Alone.dropped (alone : Alone L) : Alone L := { alone with writes := [] }

@[simp]
theorem Alone.seen_ran (alone : Alone L) (op : L.Op) :
    (alone.ran op).seen = overlay (L.run op alone.seen alone.seen).1 alone.seen := by
  simp [Alone.ran, Alone.seen]

@[simp]
theorem Alone.seen_commit (alone : Alone L) : alone.commit.seen = alone.seen := rfl

@[simp]
theorem Alone.db_commit (alone : Alone L) : alone.commit.db = alone.seen := rfl

@[simp]
theorem Alone.db_dropped (alone : Alone L) : alone.dropped.db = alone.db := rfl

@[simp]
theorem Alone.seen_dropped (alone : Alone L) : alone.dropped.seen = alone.db := rfl

section Run

variable (surroundings : (question : L.Ask) → L.Ans question) (draw : Nat → L.Id)

namespace Prog

/-- What a program that runs alone answers, and where it leaves the storage. -/
def alone : L.Prog α → Alone L → Except L.Err α × Alone L
  | done answer, here => (.ok answer, here)
  | fail error, here => (.error error, here.dropped)
  | statement op next, here => alone (next (L.run op here.seen here.seen).2) (here.ran op)
  | ask question next, here => alone (next (surroundings question)) here
  | mint next, here => alone (next (draw here.drawn)) { here with drawn := here.drawn + 1 }
  | begin next, here => alone next here.dropped
  | commit next, here => alone next here.commit
  | drop next, here => alone next here.dropped

theorem alone_bind (program : L.Prog α) (rest : α → L.Prog β) (here : Alone L) :
    (program >>= rest).alone surroundings draw here
      = match program.alone surroundings draw here with
        | (.ok answer, later) => (rest answer).alone surroundings draw later
        | (.error error, later) => (.error error, later) := by
  change (program.bind rest).alone surroundings draw here = _
  induction program generalizing here with
  | done => rfl
  | fail => rfl
  | statement op next ih => exact ih _ _
  | ask question next ih => exact ih _ _
  | mint next ih => exact ih _ _
  | begin next ih => exact ih _
  | commit next ih => exact ih _
  | drop next ih => exact ih _

variable {surroundings draw}

/-- A program whose first part answers goes on with the rest. -/
theorem alone_bind_ok {program : L.Prog α} {rest : α → L.Prog β} {start later : Alone L} {answer : α}
    (ran : program.alone surroundings draw start = (.ok answer, later)) :
    (program >>= rest).alone surroundings draw start
      = (rest answer).alone surroundings draw later := by
  rw [alone_bind, ran]

/-- A program whose first part fails fails. -/
theorem alone_bind_error {program : L.Prog α} {rest : α → L.Prog β} {start later : Alone L}
    {error : L.Err} (ran : program.alone surroundings draw start = (.error error, later)) :
    (program >>= rest).alone surroundings draw start = (.error error, later) := by
  rw [alone_bind, ran]

end Prog

end Run

end Saffui.Foundation.Language
