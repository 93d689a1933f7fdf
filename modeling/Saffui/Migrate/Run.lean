import Saffui.Migrate.Plan

/-!
# Applying what is pending

Each migration runs in its own transaction, with the record of it in the
history, under a session lock held on a direct connection. A run may be cut off
at any point: the transaction it left open is rolled back, and the lock is
released.

Source: `pgcore/src/migrate/{mod,history}.rs`, `pgcore/src/lock.rs`.
-/

namespace Saffui.Migrate

/-- One numbered step of the schema, as SQL text. -/
structure Migration where
  version : Int32
  name : String
  sql : String
  deriving DecidableEq, Repr

/-- What the database computes: the digest of a text, and what a text makes of
the schema, where every statement of it succeeds. -/
structure Postgres (Schema : Type) where
  sha256 : String → Bytes
  execute : String → Schema → Option Schema

/-- A row of `schema_migrations`. -/
structure HistoryRow where
  version : Int32
  name : String
  checksum : Bytes
  deriving DecidableEq, Repr

def HistoryRow.fingerprint (row : HistoryRow) : Fingerprint := ⟨row.version, row.checksum⟩

/-- The history, where its table was created, and everything else. -/
structure Database (Schema : Type) where
  history : Option (List HistoryRow)
  schema : Schema
  deriving DecidableEq, Repr

section Statements

variable {Schema : Type} (postgres : Postgres Schema)

def Database.rows (db : Database Schema) : List HistoryRow := db.history.getD []

def createHistoryTable (db : Database Schema) : Database Schema := { db with history := some db.rows }

def byVersion (first second : Fingerprint) : Prop := first.version ≤ second.version

instance : DecidableRel byVersion := fun first second =>
  inferInstanceAs (Decidable (first.version ≤ second.version))

def readApplied (db : Database Schema) : List Fingerprint :=
  (db.rows.map HistoryRow.fingerprint).insertionSort byVersion

def Migration.fingerprint (migration : Migration) : Fingerprint :=
  ⟨migration.version, postgres.sha256 migration.sql⟩

/-- The database computes the digests, and orders by version. -/
def fingerprintEmbedded (migrations : List Migration) : List Fingerprint :=
  (migrations.map (Migration.fingerprint postgres)).insertionSort byVersion

/-- The version is the key of the table: a second row of it is refused. -/
def recordApplied (db : Database Schema) (migration : Migration) : Option (List HistoryRow) :=
  db.history.bind fun rows =>
    if rows.any (fun row => row.version = migration.version) then none
    else some (rows ++ [⟨migration.version, migration.name, postgres.sha256 migration.sql⟩])

def readSchemaVersion (db : Database Schema) : Int32 :=
  ((db.rows.map HistoryRow.version).foldl max 0)

end Statements

inductive Role where
  | app
  | maintenance
  | retention
  deriving DecidableEq, Repr

inductive MigrateError where
  | connection
  | alreadyRunning
  | missingRole (role : Role)
  | runnerBypassesRowSecurity (runner : String)
  | plan (error : PlanError)
  | failed (version : Int32)
  | database
  deriving DecidableEq, Repr

structure MigrationReport where
  applied : List Int32
  schemaVersion : Int32
  deriving DecidableEq, Repr

abbrev Outcome := Except MigrateError MigrationReport

/-- Where a run stands: the statement it waits for the answer of. -/
inductive Phase (Schema : Type) where
  | connecting
  | locking
  | configuring
  | findingRole (role : Role) (left : List Role)
  | readingRunner
  | creatingHistory
  | fingerprinting
  | readingApplied (embedded : List Fingerprint)
  | beginning (pending : List Int32) (migration : Migration) (left : List Int32)
  | executing (pending : List Int32) (migration : Migration) (left : List Int32)
  | recording (pending : List Int32) (migration : Migration) (left : List Int32) (schema : Schema)
  | committing (pending : List Int32) (migration : Migration) (left : List Int32)
      (draft : Database Schema)
  | readingVersion (pending : List Int32)
  | releasing (outcome : Outcome)
  | finished (outcome : Option Outcome)

/-- What becomes of a statement. -/
inductive Reply where
  | answered
  /-- It did nothing. -/
  | refused
  /-- It ran, and its answer was lost with the connection. -/
  | lost
  | role (known : Bool)
  | runner (name : String) (bypasses : Bool)
  deriving DecidableEq, Repr

section Run

variable {Schema : Type} (postgres : Postgres Schema) (migrations : List Migration)

/-- The next of the versions a plan left, or the end. -/
def nextPending (pending : List Int32) : List Int32 → Phase Schema
  | [] => .readingVersion pending
  | version :: left =>
    match migrations.find? fun migration => migration.version = version with
    | some migration => .beginning pending migration left
    | none => .releasing (.error (.plan .embeddedOutOfOrder))

/-- One statement of a run under the lock: what comes after it, what is left in
the database, and the migration that committed, if one did. -/
def advance (db : Database Schema) :
    Phase Schema → Reply → Option (Phase Schema × Database Schema × Option Migration)
  | .configuring, .answered => some (.findingRole .app [.maintenance, .retention], db, none)
  | .findingRole role left, .role known =>
    if known then
      match left with
      | [] => some (.readingRunner, db, none)
      | next :: left => some (.findingRole next left, db, none)
    else some (.releasing (.error (.missingRole role)), db, none)
  | .readingRunner, .runner name bypasses =>
    if bypasses then some (.releasing (.error (.runnerBypassesRowSecurity name)), db, none)
    else some (.creatingHistory, db, none)
  | .creatingHistory, .answered => some (.fingerprinting, createHistoryTable db, none)
  | .creatingHistory, .lost => some (.releasing (.error .database), createHistoryTable db, none)
  | .fingerprinting, .answered =>
    some (.readingApplied (fingerprintEmbedded postgres migrations), db, none)
  | .readingApplied embedded, .answered =>
    match planPending embedded (readApplied db) with
    | .error refusal => some (.releasing (.error (.plan refusal)), db, none)
    | .ok pending => some (nextPending migrations pending pending, db, none)
  | .beginning pending migration left, .answered => some (.executing pending migration left, db, none)
  | .executing pending migration left, .answered =>
    match postgres.execute migration.sql db.schema with
    | some schema => some (.recording pending migration left schema, db, none)
    | none => some (.releasing (.error (.failed migration.version)), db, none)
  | .recording pending migration left schema, .answered =>
    match recordApplied postgres db migration with
    | some rows => some (.committing pending migration left ⟨some rows, schema⟩, db, none)
    | none => some (.releasing (.error (.failed migration.version)), db, none)
  | .committing pending migration left draft, .answered =>
    some (nextPending migrations pending left, draft, some migration)
  | .committing _ migration _ draft, .lost =>
    some (.releasing (.error (.failed migration.version)), draft, some migration)
  | .readingVersion pending, .answered =>
    some (.releasing (.ok ⟨pending, readSchemaVersion db⟩), db, none)
  -- A transaction that is not committed is rolled back.
  | .beginning _ migration _, .refused | .beginning _ migration _, .lost
  | .executing _ migration _, .refused | .executing _ migration _, .lost
  | .recording _ migration _ _, .refused | .recording _ migration _ _, .lost
  | .committing _ migration _ _, .refused =>
    some (.releasing (.error (.failed migration.version)), db, none)
  | .configuring, .refused | .configuring, .lost | .findingRole _ _, .refused | .findingRole _ _, .lost
  | .readingRunner, .refused | .readingRunner, .lost | .creatingHistory, .refused
  | .fingerprinting, .refused | .fingerprinting, .lost | .readingApplied _, .refused
  | .readingApplied _, .lost | .readingVersion _, .refused | .readingVersion _, .lost =>
    some (.releasing (.error .database), db, none)
  | _, _ => none

end Run

structure Runner (Schema : Type) where
  migrations : List Migration
  phase : Phase Schema

/-- A migration that committed: by which run, of which binary. -/
structure Applied where
  pid : Nat
  binary : List Migration
  migration : Migration
  deriving DecidableEq, Repr

structure World (Schema : Type) where
  db : Database Schema
  lock : Option Nat
  runners : List (Runner Schema)
  /-- What committed, the last first. -/
  applied : List Applied

inductive Action where
  | start (migrations : List Migration)
  | run (pid : Nat) (reply : Reply)
  | crash (pid : Nat)

namespace World

variable {Schema : Type} (postgres : Postgres Schema)

def initial (schema : Schema) : World Schema := ⟨⟨none, schema⟩, none, [], []⟩

def setPhase (world : World Schema) (pid : Nat) (runner : Runner Schema) (phase : Phase Schema) :
    World Schema :=
  { world with runners := world.runners.set pid { runner with phase } }

/-- The lock of a session that ended is released. -/
def unlock (world : World Schema) (pid : Nat) : World Schema :=
  if world.lock = some pid then { world with lock := none } else world

def runStep (world : World Schema) (pid : Nat) (runner : Runner Schema) (reply : Reply) :
    Option (World Schema) :=
  match runner.phase, reply with
  | .connecting, .answered => some (world.setPhase pid runner .locking)
  | .connecting, .refused => some (world.setPhase pid runner (.finished (some (.error .connection))))
  | .locking, .answered =>
    if world.lock.isNone then
      some { world.setPhase pid runner .configuring with lock := some pid }
    else some (world.setPhase pid runner (.finished (some (.error .alreadyRunning))))
  | .locking, .refused => some (world.setPhase pid runner (.finished (some (.error .database))))
  -- An unlock that fails hides nothing: the connection closes either way.
  | .releasing outcome, _ =>
    some ((world.setPhase pid runner (.finished (some outcome))).unlock pid)
  | phase, reply =>
    (advance postgres runner.migrations world.db phase reply).map fun (next, db, committed) =>
      { world.setPhase pid runner next with
        db
        applied := committed.toList.map (⟨pid, runner.migrations, ·⟩) ++ world.applied }

def step (world : World Schema) : Action → Option (World Schema)
  | .start migrations =>
    some { world with runners := world.runners ++ [⟨migrations, .connecting⟩] }
  | .run pid reply => world.runners[pid]?.bind fun runner => world.runStep postgres pid runner reply
  | .crash pid => world.runners[pid]?.map fun runner =>
      (world.setPhase pid runner (.finished none)).unlock pid

end World

/-- The worlds of runs over a database that never saw a migration. -/
inductive Reachable {Schema : Type} (postgres : Postgres Schema) (schema : Schema) :
    World Schema → Prop where
  | initial : Reachable postgres schema (.initial schema)
  | step {world next : World Schema} {action : Action} (reached : Reachable postgres schema world)
      (stepped : world.step postgres action = some next) : Reachable postgres schema next

end Saffui.Migrate
