import Saffui.Migrate.Run

/-!
# The history and the schema of every run

The run that holds the lock is the only one past it. What it planned stays what
it has to do: the history it read moves by its own commits alone.
-/

namespace Saffui.Migrate

variable {Schema : Type} {postgres : Postgres Schema}

/-- The migrations of a binary, as the database orders them. -/
def ordered (migrations : List Migration) : List Migration :=
  migrations.insertionSort fun first second => first.version ≤ second.version

/-- What texts make of a schema, each applied once, in order. -/
def replay (postgres : Postgres Schema) (schema : Schema) (texts : List String) : Option Schema :=
  texts.foldlM (fun schema text => postgres.execute text schema) schema

/-- The rows of the history, as the plan reads them. -/
def Database.fingerprints (db : Database Schema) : List Fingerprint :=
  db.rows.map HistoryRow.fingerprint

theorem fingerprintEmbedded_eq (migrations : List Migration) :
    fingerprintEmbedded postgres migrations =
      (ordered migrations).map (Migration.fingerprint postgres) := by
  rw [fingerprintEmbedded, ordered]
  symm
  apply List.map_insertionSort
  intro first _ second _
  rfl

/-- A list numbered from one is in the order of its versions. -/
theorem Numbered.sorted {fingerprints : List Fingerprint}
    (numbered : Numbered Fingerprint.version fingerprints) : fingerprints.Pairwise byVersion := by
  rw [List.pairwise_iff_getElem]
  intro first second inFirst inSecond order
  have one := numbered first _ (List.getElem?_eq_getElem inFirst)
  have other := numbered second _ (List.getElem?_eq_getElem inSecond)
  rw [byVersion, Int32.le_iff_toInt_le]
  omega

theorem Numbered.of_prefix {α : Type} {version : α → Int32} {first migrations : List α}
    (numbered : Numbered version migrations) (leads : first <+: migrations) :
    Numbered version first := by
  intro position one found
  obtain ⟨rest, rfl⟩ := leads
  obtain ⟨inside, -⟩ := List.getElem?_eq_some_iff.mp found
  exact numbered position one (by rw [List.getElem?_append_left inside, found])

/-- What a run holds to: a plan made of the history as it stands. -/
structure Planned (postgres : Postgres Schema) (migrations : List Migration) (db : Database Schema)
    (left : List Int32) : Prop where
  created : db.history.isSome = true
  numbered : Numbered Fingerprint.version (fingerprintEmbedded postgres migrations)
  leads : db.fingerprints <+: fingerprintEmbedded postgres migrations
  left : left = ((fingerprintEmbedded postgres migrations).drop db.rows.length).map Fingerprint.version

/-- The next migration of a plan: the one past the history. -/
structure Next (postgres : Postgres Schema) (migrations : List Migration) (db : Database Schema)
    (migration : Migration) (left : List Int32) : Prop where
  planned : Planned postgres migrations db (migration.version :: left)
  next : (fingerprintEmbedded postgres migrations)[db.rows.length]? =
    some (migration.fingerprint postgres)

/-- What the place of a run says of the database. -/
def Fits (postgres : Postgres Schema) (migrations : List Migration) (db : Database Schema) :
    Phase Schema → Prop
  | .fingerprinting => db.history.isSome = true
  | .readingApplied embedded => db.history.isSome = true ∧
    embedded = fingerprintEmbedded postgres migrations
  | .beginning _ migration left | .executing _ migration left => Next postgres migrations db migration left
  | .recording _ migration left schema => Next postgres migrations db migration left ∧
    postgres.execute migration.sql db.schema = some schema
  | .committing _ migration left draft => Next postgres migrations db migration left ∧
    postgres.execute migration.sql db.schema = some draft.schema ∧
    draft.history = some (db.rows ++
      [⟨migration.version, migration.name, postgres.sha256 migration.sql⟩])
  | .readingVersion _ => Planned postgres migrations db []
  | _ => True

/-- A run that planned nothing yet, or whose plan was refused. -/
def Phase.idle : Phase Schema → Bool
  | .beginning _ _ _ | .executing _ _ _ | .recording _ _ _ _ | .committing _ _ _ _
  | .readingVersion _ => false
  | .releasing (.error (.failed _)) | .releasing (.ok _) => false
  | .releasing (.error .database) => false
  | .finished none | .finished (some (.ok _)) | .finished (some (.error (.failed _)))
  | .finished (some (.error .database)) => false
  | _ => true

/-- A run that holds the lock. -/
def Phase.locked : Phase Schema → Bool
  | .connecting | .locking | .finished _ => false
  | _ => true

/-- The history is what committed, in order; it leads what the last binary to
apply one embeds, and the schema is what it makes. -/
structure Kept (postgres : Postgres Schema) (schema : Schema) (applied : List Applied)
    (db : Database Schema) : Prop where
  recorded : db.fingerprints = applied.reverse.map fun one => one.migration.fingerprint postgres
  last : ∀ one ∈ applied.head?, Numbered Fingerprint.version (fingerprintEmbedded postgres one.binary) ∧
    db.fingerprints <+: fingerprintEmbedded postgres one.binary
  schema : replay postgres schema (applied.reverse.map fun one => one.migration.sql) = some db.schema

section Plans

variable {migrations : List Migration} {db : Database Schema}

theorem planned_of_plan {pending : List Int32} (created : db.history.isSome = true)
    (recorded : Numbered Fingerprint.version db.fingerprints)
    (planned : planPending (fingerprintEmbedded postgres migrations) (readApplied db) = .ok pending) :
    Planned postgres migrations db pending := by
  have read : readApplied db = db.fingerprints := recorded.sorted.insertionSort_eq
  rw [read] at planned
  obtain ⟨numbered, leads, same⟩ := planPending_ok.mp planned
  refine ⟨created, numbered, leads, ?_⟩
  rw [same, Database.fingerprints, List.length_map]

/-- The loop takes the migrations up in the order of the plan. -/
theorem nextPending_fits {pending left : List Int32} (planned : Planned postgres migrations db left) :
    Fits postgres migrations db (nextPending migrations pending left) ∧
      (nextPending migrations pending left : Phase Schema).idle = false := by
  cases left with
  | nil => exact ⟨planned, rfl⟩
  | cons version left =>
    have numbered := planned.numbered
    obtain ⟨known, isNext⟩ : ∃ known,
        (fingerprintEmbedded postgres migrations)[db.rows.length]? = some known := by
      cases found : (fingerprintEmbedded postgres migrations)[db.rows.length]? with
      | none =>
        rw [List.getElem?_eq_none_iff] at found
        have empty := planned.left
        rw [List.drop_eq_nil_of_le found] at empty
        cases empty
      | some known => exact ⟨known, rfl⟩
    have isVersion : known.version = version := by
      obtain ⟨inside, same⟩ := List.getElem?_eq_some_iff.mp isNext
      have first := planned.left
      rw [List.drop_eq_getElem_cons inside, List.map_cons, same] at first
      exact (List.cons.inj first).1.symm
    obtain ⟨migration, isMigration⟩ : ∃ migration ∈ migrations, migration.fingerprint postgres = known := by
      have among := List.mem_of_getElem? isNext
      rw [fingerprintEmbedded, List.mem_insertionSort, List.mem_map] at among
      exact among
    cases found : migrations.find? fun migration => migration.version = version with
    | none =>
      have never := List.find?_eq_none.mp found migration isMigration.1
      refine absurd (decide_eq_true ?_) never
      rw [← isVersion, ← isMigration.2]
      rfl
    | some migration' =>
      have named : migration'.version = version := by simpa using List.find?_some found
      have among : migration'.fingerprint postgres ∈ fingerprintEmbedded postgres migrations := by
        rw [fingerprintEmbedded, List.mem_insertionSort]
        exact List.mem_map_of_mem (List.mem_of_find?_eq_some found)
      obtain ⟨position, isAt⟩ := List.mem_iff_getElem?.mp among
      have here := numbered position _ isAt
      have there := numbered db.rows.length _ isNext
      change migration'.version.toInt = _ at here
      rw [named, ← isVersion, there] at here
      obtain rfl : position = db.rows.length := by omega
      simp only [nextPending, found]
      refine ⟨⟨?_, isAt⟩, rfl⟩
      rw [named]
      exact planned

theorem recordApplied_next {migration : Migration} {rows : List HistoryRow}
    (recorded : recordApplied postgres db migration = some rows) :
    rows = db.rows ++ [⟨migration.version, migration.name, postgres.sha256 migration.sql⟩] := by
  obtain ⟨kept, isKept, same⟩ := Option.bind_eq_some_iff.mp recorded
  rw [Option.ite_none_left_eq_some, Option.some.injEq] at same
  rw [← same.2, Database.rows, isKept]
  rfl

/-- Once a migration committed, the rest of the plan is left. -/
theorem Next.committed {migration : Migration} {left : List Int32} {draft : Database Schema}
    (next : Next postgres migrations db migration left)
    (history : draft.history = some (db.rows ++
      [⟨migration.version, migration.name, postgres.sha256 migration.sql⟩])) :
    Planned postgres migrations draft left := by
  have rows : draft.rows = db.rows ++
      [⟨migration.version, migration.name, postgres.sha256 migration.sql⟩] := by
    rw [Database.rows, history]
    rfl
  obtain ⟨inside, isNext⟩ := List.getElem?_eq_some_iff.mp next.next
  refine ⟨by rw [history]; rfl, next.planned.numbered, ?_, ?_⟩
  · have leads := next.planned.leads
    rw [List.prefix_iff_eq_take] at leads ⊢
    have length : db.fingerprints.length = db.rows.length := by
      rw [Database.fingerprints, List.length_map]
    rw [length] at leads
    rw [Database.fingerprints, rows, List.map_append, ← Database.fingerprints, List.length_append,
      length, List.map_singleton, List.length_singleton, List.take_succ_eq_append_getElem inside,
      ← leads, isNext]
    rfl
  · have left := next.planned.left
    rw [List.drop_eq_getElem_cons inside, List.map_cons] at left
    rw [rows, List.length_append, List.length_singleton]
    exact (List.cons.inj left).2

end Plans

/-- What a statement of a run did: it committed the next migration, or left
the history and the schema as they were. -/
inductive Did (postgres : Postgres Schema) (migrations : List Migration) (db after : Database Schema) :
    Option Migration → Prop where
  | nothing (rows : after.rows = db.rows) (schema : after.schema = db.schema) :
      Did postgres migrations db after none
  | applied {migration : Migration} {left : List Int32}
      (next : Next postgres migrations db migration left)
      (executed : postgres.execute migration.sql db.schema = some after.schema)
      (recorded : after.history = some (db.rows ++
        [⟨migration.version, migration.name, postgres.sha256 migration.sql⟩])) :
      Did postgres migrations db after (some migration)

section Advance

variable {migrations : List Migration} {db after : Database Schema} {phase next : Phase Schema}
  {reply : Reply} {committed : Option Migration}

theorem advance_did (fits : Fits postgres migrations db phase)
    (advanced : advance postgres migrations db phase reply = some (next, after, committed)) :
    Did postgres migrations db after committed := by
  unfold advance at advanced
  split at advanced
  case h_11 pending migration left draft =>
    cases advanced
    exact .applied fits.1 fits.2.1 fits.2.2
  case h_12 pending migration left draft =>
    cases advanced
    exact .applied fits.1 fits.2.1 fits.2.2
  all_goals repeat' split at advanced
  all_goals cases advanced
  all_goals exact .nothing rfl rfl

theorem advance_fits (recorded : Numbered Fingerprint.version db.fingerprints)
    (fits : Fits postgres migrations db phase)
    (advanced : advance postgres migrations db phase reply = some (next, after, committed)) :
    Fits postgres migrations after next ∧ (next.idle = true → phase.idle = true) := by
  unfold advance at advanced
  split at advanced
  case h_4 =>
    cases advanced
    exact ⟨rfl, fun _ => rfl⟩
  case h_6 =>
    cases advanced
    exact ⟨⟨fits, rfl⟩, fun _ => rfl⟩
  case h_7 embedded =>
    obtain ⟨created, rfl⟩ := fits
    split at advanced
    · cases advanced
      exact ⟨trivial, fun _ => rfl⟩
    · next pending planned =>
      cases advanced
      obtain ⟨nextFits, busy⟩ := nextPending_fits
        (planned_of_plan created recorded planned)
      exact ⟨nextFits, fun idle => absurd (idle.symm.trans busy) (by decide)⟩
  case h_8 pending migration left =>
    cases advanced
    exact ⟨fits, nofun⟩
  case h_9 pending migration left =>
    split at advanced
    · next schema executed =>
      cases advanced
      exact ⟨⟨fits, executed⟩, nofun⟩
    · cases advanced
      exact ⟨trivial, nofun⟩
  case h_10 pending migration left schema =>
    split at advanced
    · next rows isRows =>
      cases advanced
      exact ⟨⟨fits.1, fits.2, congrArg some (recordApplied_next isRows)⟩, nofun⟩
    · cases advanced
      exact ⟨trivial, nofun⟩
  case h_11 pending migration left draft =>
    cases advanced
    obtain ⟨nextFits, busy⟩ := nextPending_fits (fits.1.committed fits.2.2)
    exact ⟨nextFits, fun idle => absurd (idle.symm.trans busy) (by decide)⟩
  all_goals repeat' split at advanced
  all_goals cases advanced
  all_goals first
    | exact ⟨trivial, fun _ => rfl⟩
    | exact ⟨trivial, nofun⟩

/-- A run is under the lock from its first statement to its last. -/
theorem advance_locked
    (advanced : advance postgres migrations db phase reply = some (next, after, committed)) :
    phase.locked = true ∧ next.locked = true := by
  have loops : ∀ pending left, (nextPending migrations pending left : Phase Schema).locked = true := by
    intro pending left
    unfold nextPending
    split
    · rfl
    · split <;> rfl
  unfold advance at advanced
  split at advanced
  all_goals repeat' split at advanced
  all_goals cases advanced
  all_goals first
    | exact ⟨rfl, rfl⟩
    | exact ⟨rfl, loops _ _⟩

theorem advance_committed {migration : Migration}
    (advanced : advance postgres migrations db phase reply = some (next, after, some migration)) :
    phase.idle = false := by
  unfold advance at advanced
  split at advanced
  all_goals repeat' split at advanced
  all_goals cases advanced
  all_goals rfl

end Advance

/-- What holds however runs are cut off and follow each other. -/
structure Sound (postgres : Postgres Schema) (schema : Schema) (world : World Schema) : Prop where
  locked : ∀ (pid : Nat) runner, world.runners[pid]? = some runner → runner.phase.locked = true →
    world.lock = some pid
  fits : ∀ (pid : Nat) runner, world.runners[pid]? = some runner →
    Fits postgres runner.migrations world.db runner.phase
  kept : Kept postgres schema world.applied world.db
  started : ∀ one ∈ world.applied, one.pid < world.runners.length
  idle : ∀ (pid : Nat) runner, world.runners[pid]? = some runner → runner.phase.idle = true →
    ∀ one ∈ world.applied, one.pid ≠ pid

theorem fits_of_unlocked {migrations : List Migration} {db : Database Schema} {phase : Phase Schema}
    (unlocked : phase.locked = false) : Fits postgres migrations db phase := by
  cases phase <;> trivial

/-- The history of a run is numbered from one. -/
theorem Kept.numbered {schema : Schema} {applied : List Applied} {db : Database Schema}
    (kept : Kept postgres schema applied db) : Numbered Fingerprint.version db.fingerprints := by
  cases applied with
  | nil =>
    rw [kept.recorded]
    intro position one found
    cases found
  | cons last earlier =>
    obtain ⟨numbered, leads⟩ := kept.last last rfl
    exact numbered.of_prefix leads

theorem Kept.did {schema : Schema} {applied : List Applied} {db after : Database Schema}
    {migrations : List Migration} {committed : Option Migration} (pid : Nat)
    (kept : Kept postgres schema applied db) (did : Did postgres migrations db after committed) :
    Kept postgres schema (committed.toList.map (⟨pid, migrations, ·⟩) ++ applied) after := by
  cases did with
  | nothing rows isSchema =>
    have same : after.fingerprints = db.fingerprints := by
      rw [Database.fingerprints, rows, Database.fingerprints]
    refine ⟨same.trans kept.recorded, ?_, kept.schema.trans (congrArg some isSchema.symm)⟩
    rw [same]
    exact kept.last
  | applied next executed recorded =>
    have planned := next.committed recorded
    refine ⟨?_, ?_, ?_⟩
    · have rows := congrArg (fun rows => (rows.getD []).map HistoryRow.fingerprint) recorded
      change after.fingerprints = (db.rows ++ [_]).map HistoryRow.fingerprint at rows
      rw [rows, List.map_append, ← Database.fingerprints, kept.recorded]
      simp [HistoryRow.fingerprint, Migration.fingerprint]
    · rintro one ⟨⟩
      exact ⟨planned.numbered, planned.leads⟩
    · rw [Option.toList_some, List.map_singleton, List.singleton_append, List.reverse_cons,
        List.map_append, replay, List.foldlM_append, ← replay, kept.schema]
      simp [executed]

section Moves

variable {schema : Schema} {world : World Schema} {pid : Nat} {runner : Runner Schema}
  (sound : Sound postgres schema world) (isRunner : world.runners[pid]? = some runner)

include sound isRunner

/-- A run moved on: the others see nothing of it. -/
theorem Sound.moved {phase : Phase Schema} {lock : Option Nat} {db : Database Schema}
    {applied : List Applied} (own : phase.locked = true → lock = some pid)
    (others : ∀ (other : Nat) one, other ≠ pid → world.runners[other]? = some one →
      (one.phase.locked = true → lock = some other) ∧
        Fits postgres one.migrations db one.phase)
    (fits : Fits postgres runner.migrations db phase) (kept : Kept postgres schema applied db)
    (told : ∀ one ∈ applied, one ∈ world.applied ∨ one.pid = pid)
    (idle : phase.idle = true → ∀ one ∈ applied, one.pid ≠ pid) :
    Sound postgres schema ⟨db, lock, world.runners.set pid { runner with phase }, applied⟩ := by
  obtain ⟨inside, -⟩ := List.getElem?_eq_some_iff.mp isRunner
  have looked : ∀ (other : Nat) one, (world.runners.set pid { runner with phase })[other]? = some one →
      (other = pid ∧ one = { runner with phase }) ∨ (other ≠ pid ∧ world.runners[other]? = some one) := by
    intro other one found
    by_cases same : pid = other
    · subst same
      rw [List.getElem?_set_self inside] at found
      exact Or.inl ⟨rfl, (Option.some.inj found).symm⟩
    · rw [List.getElem?_set_ne same] at found
      exact Or.inr ⟨Ne.symm same, found⟩
  refine ⟨?_, ?_, kept, ?_, ?_⟩
  · intro other one found isLocked
    rcases looked other one found with ⟨rfl, rfl⟩ | ⟨differs, found⟩
    · exact own isLocked
    · exact (others other one differs found).1 isLocked
  · intro other one found
    rcases looked other one found with ⟨rfl, rfl⟩ | ⟨differs, found⟩
    · exact fits
    · exact (others other one differs found).2
  · intro one among
    rw [List.length_set]
    rcases told one among with earlier | rfl
    · exact sound.started one earlier
    · exact inside
  · intro other one found isIdle entry among
    rcases looked other one found with ⟨rfl, rfl⟩ | ⟨differs, found⟩
    · exact idle isIdle entry among
    · rcases told entry among with earlier | rfl
      · exact sound.idle other one found isIdle entry earlier
      · exact Ne.symm differs

/-- A run that is not under the lock, or leaves it, changes nothing. -/
theorem Sound.left {phase : Phase Schema} (unlocked : phase.locked = false)
    (idle : phase.idle = true → runner.phase.idle = true) :
    Sound postgres schema ((world.setPhase pid runner phase).unlock pid) := by
  have moved : ∀ lock, (∀ other, world.lock = some other → other ≠ pid → lock = some other) →
      Sound postgres schema
        ⟨world.db, lock, world.runners.set pid { runner with phase }, world.applied⟩ := by
    intro lock keeps
    apply sound.moved isRunner
    · intro isLocked
      rw [unlocked] at isLocked
      cases isLocked
    · intro other one differs found
      refine ⟨fun isLocked => keeps other (sound.locked other one found isLocked) differs,
        sound.fits other one found⟩
    · exact fits_of_unlocked unlocked
    · exact sound.kept
    · exact fun one among => Or.inl among
    · exact fun isIdle => sound.idle pid runner isRunner (idle isIdle)
  rw [World.unlock]
  split
  · next held =>
    apply moved
    intro other isLock differs
    have same : world.lock = some pid := held
    rw [same] at isLock
    exact absurd (Option.some.inj isLock).symm differs
  · apply moved
    intro other isLock _
    exact isLock

end Moves

theorem Sound.initial (schema : Schema) : Sound postgres schema (.initial schema) where
  locked pid runner found := by simp [World.initial] at found
  fits pid runner found := by simp [World.initial] at found
  kept := ⟨rfl, nofun, rfl⟩
  started one among := by simp [World.initial] at among
  idle pid runner found := by simp [World.initial] at found

theorem Sound.runStep {schema : Schema} {world next : World Schema} {pid : Nat} {runner : Runner Schema}
    {reply : Reply} (sound : Sound postgres schema world)
    (isRunner : world.runners[pid]? = some runner)
    (stepped : world.runStep postgres pid runner reply = some next) : Sound postgres schema next := by
  have held : runner.phase.locked = true → world.lock = some pid := sound.locked pid runner isRunner
  have waits : ∀ phase : Phase Schema, runner.phase.locked = false → phase.locked = false →
      (phase.idle = true → runner.phase.idle = true) →
      Sound postgres schema (world.setPhase pid runner phase) := by
    intro phase _ unlocked idle
    apply sound.moved isRunner
    · intro isLocked
      rw [unlocked] at isLocked
      cases isLocked
    · intro other one _ found
      exact ⟨sound.locked other one found, sound.fits other one found⟩
    · exact fits_of_unlocked unlocked
    · exact sound.kept
    · exact fun one among => Or.inl among
    · exact fun isIdle => sound.idle pid runner isRunner (idle isIdle)
  unfold World.runStep at stepped
  split at stepped
  case h_1 isPhase =>
    cases stepped
    exact waits _ (by rw [isPhase]; rfl) rfl (fun _ => by rw [isPhase]; rfl)
  case h_2 isPhase =>
    cases stepped
    exact waits _ (by rw [isPhase]; rfl) rfl (fun _ => by rw [isPhase]; rfl)
  case h_3 isPhase =>
    split at stepped
    · next free =>
      cases stepped
      apply sound.moved isRunner
      · exact fun _ => rfl
      · intro other one differs found
        refine ⟨fun isLocked => ?_, sound.fits other one found⟩
        rw [sound.locked other one found isLocked] at free
        cases free
      · trivial
      · exact sound.kept
      · exact fun one among => Or.inl among
      · exact fun _ => sound.idle pid runner isRunner (by rw [isPhase]; rfl)
    · cases stepped
      exact waits _ (by rw [isPhase]; rfl) rfl (fun _ => by rw [isPhase]; rfl)
  case h_4 isPhase =>
    cases stepped
    exact waits _ (by rw [isPhase]; rfl) rfl nofun
  case h_5 outcome isPhase =>
    cases stepped
    apply sound.left isRunner rfl
    intro isIdle
    rw [isPhase]
    cases outcome with
    | ok report => cases isIdle
    | error refusal => cases refusal <;> first | rfl | cases isIdle
  case h_6 phase reply _ _ _ _ _ =>
    obtain ⟨⟨moved, db, committed⟩, advanced, same⟩ := Option.map_eq_some_iff.mp stepped
    subst same
    have did := advance_did (sound.fits pid runner isRunner) advanced
    obtain ⟨fits, busy⟩ :=
      advance_fits sound.kept.numbered (sound.fits pid runner isRunner) advanced
    obtain ⟨isLocked, stillLocked⟩ := advance_locked advanced
    have holds := held isLocked
    refine sound.moved isRunner (fun _ => holds) ?_ fits (sound.kept.did pid did) ?_ ?_
    · intro other one differs found
      have unlocked : one.phase.locked = false := by
        by_contra isOther
        have both := holds.symm.trans (sound.locked other one found (by simpa using isOther))
        exact differs (Option.some.inj both).symm
      refine ⟨fun isOther => ?_, fits_of_unlocked unlocked⟩
      rw [unlocked] at isOther
      cases isOther
    · intro one among
      rcases List.mem_append.mp among with new | earlier
      · obtain ⟨migration, -, rfl⟩ := List.mem_map.mp new
        exact Or.inr rfl
      · exact Or.inl earlier
    · intro isIdle
      have wasIdle := busy isIdle
      cases committed with
      | none => exact sound.idle pid runner isRunner wasIdle
      | some migration =>
        rw [advance_committed advanced] at wasIdle
        cases wasIdle

theorem Sound.step {schema : Schema} {world next : World Schema} {action : Action}
    (sound : Sound postgres schema world) (stepped : world.step postgres action = some next) :
    Sound postgres schema next := by
  cases action with
  | start migrations =>
    cases stepped
    have looked : ∀ (pid : Nat) runner,
        (world.runners ++ [⟨migrations, .connecting⟩])[pid]? = some runner →
        world.runners[pid]? = some runner ∨ (pid = world.runners.length ∧ runner = ⟨migrations, .connecting⟩) := by
      intro pid runner found
      rw [List.getElem?_append] at found
      split at found
      · exact Or.inl found
      · next outside =>
        rw [List.getElem?_singleton] at found
        split at found
        · next isFirst => exact Or.inr ⟨by omega, (Option.some.inj found).symm⟩
        · cases found
    refine ⟨?_, ?_, sound.kept, ?_, ?_⟩
    · intro pid runner found isLocked
      rcases looked pid runner found with there | ⟨-, rfl⟩
      · exact sound.locked pid runner there isLocked
      · cases isLocked
    · intro pid runner found
      rcases looked pid runner found with there | ⟨-, rfl⟩
      · exact sound.fits pid runner there
      · trivial
    · intro one among
      have before := sound.started one among
      simp only [List.length_append, List.length_singleton]
      omega
    · intro pid runner found isIdle one among
      rcases looked pid runner found with there | ⟨rfl, -⟩
      · exact sound.idle pid runner there isIdle one among
      · exact Nat.ne_of_lt (sound.started one among)
  | run pid reply =>
    obtain ⟨runner, isRunner, stepped⟩ := Option.bind_eq_some_iff.mp stepped
    exact sound.runStep isRunner stepped
  | crash pid =>
    obtain ⟨runner, isRunner, rfl⟩ := Option.map_eq_some_iff.mp stepped
    exact sound.left isRunner rfl nofun

theorem Reachable.sound {schema : Schema} {world : World Schema}
    (reached : Reachable postgres schema world) : Sound postgres schema world := by
  induction reached with
  | initial => exact .initial schema
  | step reached stepped ih => exact ih.step stepped

theorem Numbered.of_map {α : Type} {version : α → Int32} {print : α → Fingerprint}
    (same : ∀ one, (print one).version = version one) {migrations : List α}
    (numbered : Numbered Fingerprint.version (migrations.map print)) : Numbered version migrations := by
  intro position one found
  have here := numbered position (print one) (by rw [List.getElem?_map, found]; rfl)
  rwa [same] at here

/-- The texts of two lists of the same fingerprints are the same. -/
theorem texts_of_fingerprints (injective : Function.Injective postgres.sha256)
    {first second : List Migration}
    (same : first.map (Migration.fingerprint postgres) = second.map (Migration.fingerprint postgres)) :
    first.map Migration.sql = second.map Migration.sql := by
  have digests : (first.map Migration.sql).map postgres.sha256 =
      (second.map Migration.sql).map postgres.sha256 := by
    have checksums := congrArg (List.map Fingerprint.checksum) same
    simpa [List.map_map, Function.comp_def, Migration.fingerprint] using checksums
  exact List.map_injective_iff.mpr injective digests

/-- What a step of any run leaves, or the migration it applied. -/
theorem Reachable.step_did {schema : Schema} {world next : World Schema} {action : Action}
    (reached : Reachable postgres schema world) (stepped : world.step postgres action = some next) :
    (next.applied = world.applied ∧ next.db.rows = world.db.rows ∧ next.db.schema = world.db.schema) ∨
      ∃ (pid : Nat) (runner : Runner Schema) (migration : Migration) (left : List Int32),
        world.runners[pid]? = some runner ∧
        next.applied = ⟨pid, runner.migrations, migration⟩ :: world.applied ∧
        planPending (fingerprintEmbedded postgres runner.migrations) (readApplied world.db) =
          .ok (migration.version :: left) := by
  have sound := reached.sound
  have unlocked : ∀ (world : World Schema) pid, (world.unlock pid).applied = world.applied ∧
      (world.unlock pid).db = world.db := by
    intro world pid
    unfold World.unlock
    split <;> exact ⟨rfl, rfl⟩
  cases action with
  | start migrations =>
    cases stepped
    exact Or.inl ⟨rfl, rfl, rfl⟩
  | crash pid =>
    obtain ⟨runner, -, rfl⟩ := Option.map_eq_some_iff.mp stepped
    obtain ⟨applied, db⟩ := unlocked (world.setPhase pid runner (.finished none)) pid
    rw [applied, db]
    exact Or.inl ⟨rfl, rfl, rfl⟩
  | run pid reply =>
    obtain ⟨runner, isRunner, stepped⟩ := Option.bind_eq_some_iff.mp stepped
    unfold World.runStep at stepped
    split at stepped
    case h_3 =>
      split at stepped
      · cases stepped
        exact Or.inl ⟨rfl, rfl, rfl⟩
      · cases stepped
        exact Or.inl ⟨rfl, rfl, rfl⟩
    case h_5 =>
      cases stepped
      rw [(unlocked _ pid).1, (unlocked _ pid).2]
      exact Or.inl ⟨rfl, rfl, rfl⟩
    case h_6 =>
      obtain ⟨⟨moved, db, committed⟩, advanced, same⟩ := Option.map_eq_some_iff.mp stepped
      subst same
      cases advance_did (sound.fits pid runner isRunner) advanced with
      | nothing rows isSchema => exact Or.inl ⟨rfl, rows, isSchema⟩
      | @applied migration left next executed recorded =>
        refine Or.inr ⟨pid, runner, migration, left, isRunner, rfl, ?_⟩
        have read : readApplied world.db = world.db.fingerprints :=
          sound.kept.numbered.sorted.insertionSort_eq
        rw [read, planPending_ok]
        refine ⟨next.planned.numbered, next.planned.leads, ?_⟩
        rw [Database.fingerprints, List.length_map]
        exact next.planned.left
    all_goals cases stepped
    all_goals exact Or.inl ⟨rfl, rfl, rfl⟩

/-- The history of every world leads the list of the last binary to apply one,
numbered from one, and the schema is what exactly those migrations make, each
once and in order. A plan is made of such a list and such a history alone, and
is what is left. A step changes nothing but the creation of the history, or
applies a migration of a plan: a run whose plan is refused applies none. -/
theorem migrations_in_order (injective : Function.Injective postgres.sha256) {schema : Schema}
    {world : World Schema} (reached : Reachable postgres schema world) :
    (world.applied = [] → world.db.rows = [] ∧ world.db.schema = schema) ∧
    (∀ last earlier, world.applied = last :: earlier →
      Numbered Migration.version (ordered last.binary) ∧
      0 < world.db.rows.length ∧ world.db.rows.length ≤ last.binary.length ∧
      world.db.fingerprints = ((ordered last.binary).take world.db.rows.length).map
        (Migration.fingerprint postgres) ∧
      (world.applied.reverse.map fun one => one.migration.sql) =
        ((ordered last.binary).take world.db.rows.length).map Migration.sql ∧
      replay postgres schema (((ordered last.binary).take world.db.rows.length).map Migration.sql) =
        some world.db.schema) ∧
    (∀ embedded applied versions, planPending embedded applied = .ok versions ↔
      Numbered Fingerprint.version embedded ∧ applied <+: embedded ∧
        versions.map Int32.toInt =
          (List.range' (applied.length + 1) (embedded.length - applied.length)).map Int.ofNat) ∧
    (∀ action next, world.step postgres action = some next →
      (next.applied = world.applied ∧ next.db.rows = world.db.rows ∧
        next.db.schema = world.db.schema) ∨
      ∃ (pid : Nat) (runner : Runner Schema) (migration : Migration) (left : List Int32),
        world.runners[pid]? = some runner ∧
        next.applied = ⟨pid, runner.migrations, migration⟩ :: world.applied ∧
        planPending (fingerprintEmbedded postgres runner.migrations) (readApplied world.db) =
          .ok (migration.version :: left)) ∧
    (∀ (pid : Nat) runner refusal, world.runners[pid]? = some runner →
      runner.phase = .releasing (.error (.plan refusal)) ∨
        runner.phase = .finished (some (.error (.plan refusal))) →
      ∀ one ∈ world.applied, one.pid ≠ pid) := by
  have sound := reached.sound
  have kept := sound.kept
  refine ⟨?_, ?_, ?_, ?_, ?_⟩
  · intro never
    have recorded := kept.recorded
    have made := kept.schema
    rw [never] at recorded made
    exact ⟨List.map_eq_nil_iff.mp recorded, (Option.some.inj made).symm⟩
  · intro last earlier isApplied
    obtain ⟨numbered, leads⟩ := kept.last last (by rw [isApplied]; rfl)
    rw [fingerprintEmbedded_eq] at numbered leads
    have length : world.db.fingerprints.length = world.db.rows.length := by
      rw [Database.fingerprints, List.length_map]
    have prints : world.db.fingerprints = ((ordered last.binary).take world.db.rows.length).map
        (Migration.fingerprint postgres) := by
      rw [List.map_take, ← length]
      exact List.prefix_iff_eq_take.mp leads
    have texts : (world.applied.reverse.map fun one => one.migration.sql) =
        ((ordered last.binary).take world.db.rows.length).map Migration.sql := by
      have same : (world.applied.reverse.map Applied.migration).map (Migration.fingerprint postgres) =
          ((ordered last.binary).take world.db.rows.length).map (Migration.fingerprint postgres) := by
        rw [← prints, kept.recorded, List.map_map]
        rfl
      rw [← texts_of_fingerprints injective same, List.map_map]
      rfl
    refine ⟨numbered.of_map fun _ => rfl, ?_, ?_, prints, texts, ?_⟩
    · rw [← length, kept.recorded, isApplied]
      simp
    · have fits := leads.length_le
      rw [length, List.length_map, ordered, List.length_insertionSort] at fits
      exact fits
    · rw [← texts]
      exact kept.schema
  · intro embedded applied versions
    rw [planPending_ok]
    constructor
    · rintro ⟨numbered, leads, rfl⟩
      refine ⟨numbered, leads, ?_⟩
      rw [← numbered.versions, List.map_map]
      rfl
    · rintro ⟨numbered, leads, same⟩
      refine ⟨numbered, leads, ?_⟩
      apply List.map_injective_iff.mpr (fun _ _ => Int32.toInt_inj.mp)
      rw [same, ← numbered.versions, List.map_map]
      rfl
  · intro action next stepped
    exact reached.step_did stepped
  · intro pid runner refusal isRunner refused
    apply sound.idle pid runner isRunner
    rcases refused with isPhase | isPhase
    · rw [isPhase]
      rfl
    · rw [isPhase]
      rfl

/-- A database whose schema is the texts it ran, with a digest that forgets
nothing. -/
def loggingPostgres : Postgres (List String) where
  sha256 text := text.toByteArray.data.toList
  execute text schema := some (schema ++ [text])

theorem loggingPostgres_injective : Function.Injective loggingPostgres.sha256 := by
  intro first second same
  apply String.toByteArray_inj.mp
  apply ByteArray.ext
  exact Array.toList_inj.mp same

/-- The replies of a run that meets no failure until so many migrations are
applied. -/
def smoothly (pid applied : Nat) : List Action :=
  ([Reply.answered, .answered, .answered, .role true, .role true, .role true, .runner "owner" false,
    .answered, .answered, .answered] ++ List.replicate (4 * applied) Reply.answered).map (.run pid)

/-- A binary applies its migration, and the next one that knows another is cut
off once it applied that. -/
def upgraded : List Action :=
  .start [⟨1, "first", "a"⟩] :: smoothly 0 1 ++ [.crash 0, .start [⟨2, "second", "b"⟩, ⟨1, "first", "a"⟩]] ++
    smoothly 1 1 ++ [.crash 1]

def World.runAll {Schema : Type} (postgres : Postgres Schema) (world : World Schema) :
    List Action → Option (World Schema)
  | [] => some world
  | action :: rest => (world.step postgres action).bind fun next => next.runAll postgres rest

theorem Reachable.of_runAll {schema : Schema} {world after : World Schema} {actions : List Action}
    (reached : Reachable postgres schema world)
    (ran : world.runAll postgres actions = some after) : Reachable postgres schema after := by
  induction actions generalizing world with
  | nil =>
    obtain rfl := Option.some.inj ran
    exact reached
  | cons action rest ih =>
    obtain ⟨next, stepped, ran⟩ := Option.bind_eq_some_iff.mp ran
    exact ih (reached.step stepped) ran

theorem upgraded_in_order : ∃ world last earlier,
    Reachable loggingPostgres [] world ∧ world.applied = last :: earlier ∧ last.pid = 1 ∧
      world.db.rows.length = 2 ∧
      replay loggingPostgres [] (((ordered last.binary).take 2).map Migration.sql) =
        some world.db.schema := by
  have ran : ((World.initial []).runAll loggingPostgres upgraded).map (fun world =>
      (world.applied.map Applied.pid, world.db.rows.length)) = some ([1, 0], 2) := by
    decide +kernel
  obtain ⟨world, isWorld, checked⟩ := Option.map_eq_some_iff.mp ran
  obtain ⟨pids, rows⟩ := Prod.mk.inj checked
  obtain ⟨last, earlier, isApplied, isPid, -⟩ := List.map_eq_cons_iff.mp pids
  have reached := Reachable.initial.of_runAll isWorld
  obtain ⟨-, -, -, -, -, schema⟩ :=
    (migrations_in_order loggingPostgres_injective reached).2.1 last earlier isApplied
  rw [rows] at schema
  exact ⟨world, last, earlier, reached, isApplied, isPid, rows, schema⟩

end Saffui.Migrate
