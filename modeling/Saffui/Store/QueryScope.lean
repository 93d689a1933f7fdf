import Saffui.Store.QueryText

/-!
# What the statements of the builder mean

A statement of the builder reaches the rows of the tenant of its unit of work,
and of its realm where the table carries one, that pass every test. Read as
SQL with the values it binds, a select reads these rows and no other, an
update writes them and leaves the others as they are, and an insert adds one.
-/

namespace Saffui.Store

open Foundation

variable {V : Type} (encode : Values V) (tenant realm : Uuid)

/-- The row is of the tenant, and of the realm where the table carries it. -/
def InScope (keys : ScopeKeys) (row : Sql.Row V) : Prop :=
  row TENANT_KEY = some (encode.uuid tenant)
    ∧ (keys = .tenantAndRealm → row REALM_KEY = some (encode.uuid realm))

/-- The column holds what the test keeps. No comparison with nothing passes. -/
def Test.Passes (cell : Option V) : Test V → Prop
  | .equal value => ∃ held wanted, cell = some held ∧ value = some wanted
      ∧ encode.equal held wanted = true
  | .greater value => ∃ held wanted, cell = some held ∧ value = some wanted
      ∧ encode.greater held wanted = true
  | .null => cell = none

def Reaches (table : Table) (criteria : Criteria V) (row : Sql.Row V) : Prop :=
  InScope encode tenant realm table.keys row
    ∧ ∀ test ∈ criteria.tests, test.2.Passes encode (row test.1.name)

theorem pairedTest_truth (test : Column × Test V) (row : Sql.Row V) :
    (pairedTest test).truth encode.toComparison row = some true
      ↔ test.2.Passes encode (row test.1.name) := by
  obtain ⟨column, kind⟩ := test
  cases kind with
  | equal value =>
    cases held : row column.name <;> cases value <;>
      simp [pairedTest, Sql.Condition.truth, Test.Passes, held]
  | greater value =>
    cases held : row column.name <;> cases value <;>
      simp [pairedTest, Sql.Condition.truth, Test.Passes, held]
  | null => simp [pairedTest, Sql.Condition.truth, Test.Passes]

theorem key_truth (key : String) (id : Uuid) (row : Sql.Row V) :
    (Sql.Condition.equal key (some (encode.uuid id))).truth encode.toComparison row = some true
      ↔ row key = some (encode.uuid id) := by
  cases held : row key with
  | none => simp [Sql.Condition.truth, held]
  | some value => simp [Sql.Condition.truth, held, encode.equal_uuid]

theorem pairedScope_truth (keys : ScopeKeys) (row : Sql.Row V) :
    (∀ condition ∈ pairedScope encode tenant realm keys,
        condition.truth encode.toComparison row = some true)
      ↔ InScope encode tenant realm keys row := by
  cases keys <;> simp [pairedScope, InScope, key_truth]

theorem keeps_iff_reaches (table : Table) (criteria : Criteria V) (row : Sql.Row V) :
    Sql.keeps encode.toComparison
        (pairedScope encode tenant realm table.keys ++ criteria.tests.map pairedTest) row
      ↔ Reaches encode tenant realm table criteria row := by
  rw [Sql.keeps_iff, List.forall_mem_append, pairedScope_truth, List.forall_mem_map]
  simp only [pairedTest_truth, Reaches]

open Classical in
/-- The rows of a table that a statement reaches. -/
noncomputable def reached (table : Table) (criteria : Criteria V) (database : Sql.Database V) :
    List (Sql.Row V) :=
  (database table.name).rows.filter fun row => Reaches encode tenant realm table criteria row

theorem filter_keeps (table : Table) (criteria : Criteria V) (database : Sql.Database V) :
    (database table.name).rows.filter (Sql.keeps encode.toComparison
        (pairedScope encode tenant realm table.keys ++ criteria.tests.map pairedTest))
      = reached encode tenant realm table criteria database := by
  classical
  unfold reached
  apply List.filter_congr
  intro row _
  rw [Bool.eq_iff_iff, keeps_iff_reaches, decide_eq_true_eq]

/-- How many rows a limit leaves, where it says a count. -/
def Limit.rows : Limit V → Option (Option Nat)
  | .none => some Option.none
  | .firstRow => some (some 1)
  | .bound Option.none => some Option.none
  | .bound (some value) => (encode.rows value).map some

/-- The columns of the rows that are reached, in an order the sort allows, as
many as the limit leaves. -/
def Select.Reads (select : Select V) (database : Sql.Database V) (outcome : Sql.Outcome V) : Prop :=
  ∃ (limit : Option Nat) (ordered : List (Sql.Row V)), select.limit.rows encode = some limit
    ∧ ordered.Perm (reached encode tenant realm select.table select.criteria database)
    ∧ ordered.Pairwise (fun row other =>
        Sql.before encode.toComparison (sortKeys select.sort) other row = false)
    ∧ outcome = .read ((limit.elim ordered ordered.take).map fun row =>
        select.columns.map fun column => row column.name)

open Classical in
/-- The rows that are reached hold the assigned values, and nothing else
changes. -/
noncomputable def Update.write (update : Update V) (database : Sql.Database V) : Sql.Database V :=
  Sql.replaceTable database update.table.name ((database update.table.name).rows.map fun row =>
    if Reaches encode tenant realm update.table update.criteria row
    then Sql.assign (pairedAssignments update.assignments) row else row)

/-- The row of an insert. -/
def Insert.row (insert : Insert V) (blank : Sql.Row V) : Sql.Row V :=
  Sql.assign (insert.columns.zip
    (scopeValues encode tenant realm insert.table.keys ++ insert.assignments.map Bind.value)) blank

theorem Limit.size_paired (limit : Limit V) :
    Sql.sizeOf encode.toComparison limit.paired = limit.rows encode := by
  cases limit with
  | none => rfl
  | firstRow => rfl
  | bound rows => cases rows <;> rfl

theorem Select.does_iff (select : Select V) (database : Sql.Database V) (outcome : Sql.Outcome V) :
    (select.paired encode tenant realm).Does encode.toComparison database outcome
      ↔ select.Reads encode tenant realm database outcome := by
  have windows : ∀ limit (ordered : List (Sql.Row V)),
      Sql.window limit none ordered = limit.elim ordered ordered.take := by
    intro limit ordered
    cases limit <;> simp [Sql.window]
  simp only [Select.paired, Sql.Statement.Does, Sql.Query.Answers, filter_keeps, Limit.size_paired,
    Select.Reads, List.map_map, Function.comp_def]
  constructor
  · rintro ⟨limit, offset, ordered, limited, none_eq, perm, sorted, out⟩
    cases none_eq
    rw [windows] at out
    exact ⟨limit, ordered, limited, perm, sorted, out⟩
  · rintro ⟨limit, ordered, limited, perm, sorted, out⟩
    rw [← windows] at out
    exact ⟨limit, none, ordered, limited, rfl, perm, sorted, out⟩

theorem Update.does_iff (update : Update V) (database : Sql.Database V) (outcome : Sql.Outcome V) :
    (update.paired encode tenant realm).Does encode.toComparison database outcome
      ↔ (update.assignments.map fun bind => bind.column.name).Nodup
        ∧ outcome = .changed (update.write encode tenant realm database)
            (reached encode tenant realm update.table update.criteria database).length := by
  have rows : (database update.table.name).rows.map (fun row =>
        if Sql.keeps encode.toComparison (pairedScope encode tenant realm update.table.keys
          ++ update.criteria.tests.map pairedTest) row
        then Sql.assign (pairedAssignments update.assignments) row else row)
      = (database update.table.name).rows.map (fun row =>
        open Classical in if Reaches encode tenant realm update.table update.criteria row
        then Sql.assign (pairedAssignments update.assignments) row else row) := by
    apply List.map_congr_left
    intro row _
    classical
    exact if_congr (keeps_iff_reaches encode tenant realm update.table update.criteria row) rfl rfl
  have names : (pairedAssignments update.assignments).map Prod.fst
      = update.assignments.map fun bind => bind.column.name := by
    simp [pairedAssignments, Function.comp_def]
  simp only [Update.paired, Sql.Statement.Does, filter_keeps, names, rows, Update.write]

theorem keys_apart {keys : ScopeKeys} {column : Column} : column.name ∉ keys.columns := by
  have apart := column.notKey
  cases keys <;> simp [ScopeKeys.columns, apart]

theorem Insert.columns_nodup (insert : Insert V) :
    insert.columns.Nodup ↔ (insert.assignments.map fun bind => bind.column.name).Nodup := by
  have keys : insert.table.keys.columns.Nodup := by
    cases insert.table.keys <;> decide
  rw [Insert.columns, List.nodup_append]
  constructor
  · exact fun nodup => nodup.2.1
  · intro nodup
    refine ⟨keys, nodup, ?_⟩
    intro key inside column assigned same
    obtain ⟨bind, -, name⟩ := List.mem_map.mp assigned
    apply keys_apart
    rw [name, ← same]
    exact inside

theorem Insert.lengths (insert : Insert V) :
    insert.columns.length
      = (scopeValues encode tenant realm insert.table.keys
        ++ insert.assignments.map Bind.value).length := by
  rw [Insert.columns]
  cases insert.table.keys <;> simp [ScopeKeys.columns, scopeValues]

theorem Insert.does_iff (insert : Insert V) (database : Sql.Database V) (outcome : Sql.Outcome V) :
    (insert.paired encode tenant realm).Does encode.toComparison database outcome
      ↔ (insert.assignments.map fun bind => bind.column.name).Nodup
        ∧ outcome = .changed (Sql.replaceTable database insert.table.name
            ((database insert.table.name).rows
              ++ [insert.row encode tenant realm (database insert.table.name).blank])) 1 := by
  simp only [Insert.paired, Sql.Statement.Does, insert.columns_nodup, Insert.row,
    insert.lengths encode tenant realm, true_and]

/-- A column that is not assigned keeps what it holds. -/
theorem assign_other {assignments : List (String × Option V)} {column : String} {row : Sql.Row V}
    (absent : ∀ pair ∈ assignments, pair.1 ≠ column) :
    Sql.assign assignments row column = row column := by
  have missing : assignments.find? (·.1 = column) = none := by
    simpa [List.find?_eq_none] using absent
  rw [Sql.assign, missing]
  rfl

/-- No write moves a row out of its scope. -/
theorem assign_inScope {keys : ScopeKeys} {assignments : List (Bind V)} {row : Sql.Row V}
    (inside : InScope encode tenant realm keys row) :
    InScope encode tenant realm keys (Sql.assign (pairedAssignments assignments) row) := by
  have apart : ∀ key, key = TENANT_KEY ∨ key = REALM_KEY →
      ∀ pair ∈ pairedAssignments assignments, pair.1 ≠ key := by
    intro key keyed pair written same
    obtain ⟨bind, -, rfl⟩ := List.mem_map.mp written
    rcases keyed with rfl | rfl
    · exact bind.column.notKey.1 same
    · exact bind.column.notKey.2 same
  rw [InScope, assign_other (apart _ (.inl rfl)), assign_other (apart _ (.inr rfl))]
  exact inside

theorem Insert.row_inScope (insert : Insert V) (blank : Sql.Row V) :
    InScope encode tenant realm insert.table.keys (insert.row encode tenant realm blank) := by
  unfold InScope Insert.row Insert.columns
  cases insert.table.keys with
  | tenant => exact ⟨rfl, nofun⟩
  | tenantAndRealm => exact ⟨rfl, fun _ => rfl⟩

theorem assign_found {assignments : List (String × Option V)}
    (nodup : (assignments.map Prod.fst).Nodup) {pair : String × Option V}
    (inside : pair ∈ assignments) (row : Sql.Row V) :
    Sql.assign assignments row pair.1 = pair.2 := by
  have found : assignments.find? (·.1 = pair.1) = some pair := by
    induction assignments with
    | nil => cases inside
    | cons first rest ih =>
      rw [List.map_cons, List.nodup_cons] at nodup
      rcases List.mem_cons.mp inside with same | later
      · simp [same]
      · have other : first.1 ≠ pair.1 := fun same =>
          nodup.1 (same ▸ List.mem_map_of_mem later)
        simpa [List.find?_cons, other] using ih nodup.2 later
  rw [Sql.assign, found]
  rfl

/-- The row of an insert holds what each column was paired with. -/
theorem Insert.row_holds {insert : Insert V}
    (nodup : (insert.assignments.map fun bind => bind.column.name).Nodup) {bind : Bind V}
    (inside : bind ∈ insert.assignments) (blank : Sql.Row V) :
    insert.row encode tenant realm blank bind.column.name = bind.value := by
  have lengths : insert.table.keys.columns.length
      = (scopeValues encode tenant realm insert.table.keys).length := by
    cases insert.table.keys <;> rfl
  have pairs : insert.columns.zip (scopeValues encode tenant realm insert.table.keys
      ++ insert.assignments.map Bind.value)
      = insert.table.keys.columns.zip (scopeValues encode tenant realm insert.table.keys)
        ++ insert.assignments.map fun bind => (bind.column.name, bind.value) := by
    rw [Insert.columns, List.zip_append lengths, List.zip_map']
  have names : (insert.columns.zip (scopeValues encode tenant realm insert.table.keys
      ++ insert.assignments.map Bind.value)).map Prod.fst = insert.columns :=
    List.map_fst_zip (le_of_eq (insert.lengths encode tenant realm))
  have written : (bind.column.name, bind.value) ∈ insert.columns.zip
      (scopeValues encode tenant realm insert.table.keys
        ++ insert.assignments.map Bind.value) := by
    rw [pairs]
    exact List.mem_append_right _ (List.mem_map_of_mem inside)
  have unique := insert.columns_nodup.mpr nodup
  rw [← names] at unique
  exact assign_found unique written blank

/-- No statement reaches a row of another tenant, or of another realm. -/
theorem reaches_own {table : Table} {criteria : Criteria V} {row : Sql.Row V}
    (reaches : Reaches encode tenant realm table criteria row) (other : Uuid) :
    (row TENANT_KEY = some (encode.uuid other) → other = tenant)
      ∧ (table.keys = .tenantAndRealm → row REALM_KEY = some (encode.uuid other)
        → other = realm) := by
  constructor
  · intro held
    rw [reaches.1.1] at held
    exact (encode.uuid_injective _ _ (Option.some.inj held)).symm
  · intro keyed held
    rw [reaches.1.2 keyed] at held
    exact (encode.uuid_injective _ _ (Option.some.inj held)).symm

/-- The text of a statement uses the placeholders `$1` to `$n` of the values
that are bound, each once, and is `paired` where each placeholder stands for
its value. -/
def Built.Pairs (built : Built V) (paired : Sql.Statement (Option V)) : Prop :=
  ∃ statement, Sql.read built.sql = some statement
    ∧ statement.operands.Perm (List.range' 1 (built.bind encode tenant realm).length)
    ∧ statement.map (Sql.valueAt (built.bind encode tenant realm)) = paired.map some

/-- What the unit of work does with a statement of the builder. -/
def Built.Runs (built : Built V) (database : Sql.Database V) (outcome : Sql.Outcome V) : Prop :=
  Sql.Runs encode.toComparison built.sql (built.bind encode tenant realm) database outcome

/-- The text of a statement that was numbered does what it does with its
values. -/
theorem Built.runs_iff {built : Built V} {statement : Sql.Statement Nat}
    {paired : Sql.Statement (Option V)} (text : built.sql = statement.text)
    (wellFormed : statement.WellFormed)
    (numbered : statement.operands.Perm (List.range' 1 (built.bind encode tenant realm).length))
    (placed : statement.map (Sql.valueAt (built.bind encode tenant realm)) = paired.map some) :
    built.Pairs encode tenant realm paired
      ∧ ∀ database outcome, built.Runs encode tenant realm database outcome
        ↔ paired.Does encode.toComparison database outcome := by
  constructor
  · refine ⟨statement, ?_, numbered, placed⟩
    rw [text, Sql.read_text wellFormed]
  · intro database outcome
    rw [Built.Runs, text, Sql.runs_text wellFormed numbered placed]

theorem Update.build_ok {update : Update V} {built : Built V} (ok : update.build = .ok built) :
    update.assignments ≠ [] ∧ built =
      { sql := update.statement.text
        keys := update.table.keys
        values := update.assignments.map Bind.value ++ testValues update.criteria.tests } := by
  rw [Update.build_eq] at ok
  split at ok
  · cases ok
  · next writes =>
    split at ok
    · cases ok
    · cases ok
      exact ⟨writes, rfl⟩

/-- Whatever it is asked, the builder writes statements that bind each value
where its column stands, and that read or write the rows of the scope that
pass every test, and no other. -/
theorem builder_keeps_its_scope :
    (∀ select : Select V,
      select.build.Pairs encode tenant realm (select.paired encode tenant realm)
        ∧ ∀ database outcome, select.build.Runs encode tenant realm database outcome
          ↔ select.Reads encode tenant realm database outcome)
      ∧ (∀ update : Update V,
        (update.build = .error .nothingToWrite ↔ update.assignments = [])
          ∧ (update.build = .error .unfiltered
            ↔ update.assignments ≠ [] ∧ update.criteria.tests = [])
          ∧ ∀ built, update.build = .ok built →
            built.Pairs encode tenant realm (update.paired encode tenant realm)
              ∧ ∀ database outcome, built.Runs encode tenant realm database outcome
                ↔ (update.assignments.map fun bind => bind.column.name).Nodup
                  ∧ outcome = .changed (update.write encode tenant realm database)
                      (reached encode tenant realm update.table update.criteria database).length)
      ∧ (∀ insert : Insert V,
        insert.build.Pairs encode tenant realm (insert.paired encode tenant realm)
          ∧ ∀ database outcome, insert.build.Runs encode tenant realm database outcome
            ↔ (insert.assignments.map fun bind => bind.column.name).Nodup
              ∧ outcome = .changed (Sql.replaceTable database insert.table.name
                  ((database insert.table.name).rows
                    ++ [insert.row encode tenant realm (database insert.table.name).blank])) 1)
      ∧ (∀ (insert : Insert V) blank,
        InScope encode tenant realm insert.table.keys (insert.row encode tenant realm blank)
          ∧ ((insert.assignments.map fun bind => bind.column.name).Nodup →
            ∀ bind ∈ insert.assignments,
              insert.row encode tenant realm blank bind.column.name = bind.value))
      ∧ ∀ (table : Table) (criteria : Criteria V) row,
        Reaches encode tenant realm table criteria row →
          (∀ assignments : List (Bind V), InScope encode tenant realm table.keys
            (Sql.assign (pairedAssignments assignments) row))
            ∧ ∀ other, (row TENANT_KEY = some (encode.uuid other) → other = tenant)
              ∧ (table.keys = .tenantAndRealm → row REALM_KEY = some (encode.uuid other)
                → other = realm) := by
  refine ⟨fun select => ?_, fun update => ⟨?_, ?_, fun built ok => ?_⟩, fun insert => ?_,
    fun insert blank => ?_, fun table criteria row reaches => ?_⟩
  · have built := Built.runs_iff encode tenant realm (by rw [Select.build_eq]) select.wellFormed
      (List.Perm.of_eq (select.numbered encode tenant realm)) (select.placed encode tenant realm)
    simpa only [Select.does_iff] using built
  · rw [Update.build_eq]
    split <;> [simp [*]; split <;> simp [*]]
  · rw [Update.build_eq]
    split <;> [simp [*]; split <;> simp [*]]
  · obtain ⟨writes, rfl⟩ := Update.build_ok ok
    have numbered := update.numbered encode tenant realm
    have placed := update.placed encode tenant realm
    rw [← bind_eq encode
      { sql := update.statement.text
        keys := update.table.keys
        values := update.assignments.map Bind.value ++ testValues update.criteria.tests } tenant
        realm] at numbered placed
    have built := Built.runs_iff encode tenant realm rfl (Update.wellFormed writes) numbered placed
    simpa only [Update.does_iff] using built
  · have numbered : insert.statement.operands.Perm
        (List.range' 1 (insert.build.bind encode tenant realm).length) := by
      rw [Insert.values_length]
      exact List.Perm.refl _
    have built := Built.runs_iff encode tenant realm (by rw [Insert.build_eq]) insert.wellFormed
      numbered (insert.placed encode tenant realm)
    simpa only [Insert.does_iff] using built
  · exact ⟨insert.row_inScope encode tenant realm blank,
      fun nodup bind inside => Insert.row_holds encode tenant realm nodup inside blank⟩
  · exact ⟨fun assignments => assign_inScope encode tenant realm reaches.1,
      reaches_own encode tenant realm reaches⟩

/-- Identifiers and integers as the database compares them. -/
def plainValues : Values (Uuid ⊕ Int) where
  equal value other := value = other
  greater
    | .inr integer, .inr other => other < integer
    | _, _ => false
  rows
    | .inr integer => if 0 ≤ integer then some integer.toNat else none
    | .inl _ => none
  uuid := .inl
  bigint := .inr
  equal_uuid := by simp
  uuid_injective := fun _ _ same => Sum.inl.inj same
  rows_bigint := fun _ => rfl

/-- An update of the notes of a realm that are not edited. -/
def editNotes : Update (Uuid ⊕ Int) where
  table := { name := "notes", keys := .tenantAndRealm, plain := by decide }
  assignments := [{ column := { name := "edited", plain := by decide, notKey := by decide },
                    value := some (.inr 1) }]
  criteria := Criteria.new.whereNull { name := "edited", plain := by decide, notKey := by decide }

/-- On any notes, the update runs and writes those it reaches. -/
theorem editNotes_runs : ∃ built, editNotes.build = .ok built ∧ ∀ database,
    built.Runs plainValues 1 2 database (.changed (editNotes.write plainValues 1 2 database)
      (reached plainValues 1 2 editNotes.table editNotes.criteria database).length) := by
  have built : editNotes.build = .ok _ := rfl
  refine ⟨_, built, fun database => ?_⟩
  have scope := (builder_keeps_its_scope plainValues 1 2).2.1 editNotes
  exact ((scope.2.2 _ built).2 database _).mpr ⟨by simp [editNotes], rfl⟩

/-- The read of a collection, whose conditions are the scope alone. -/
def collection {α : Type} (conditions : List (Sql.Condition α)) (table : Table)
    (output : Sql.Output) (sort : List (Column × SortDirection))
    (limit offset : Option (Sql.Count α)) : Sql.Statement α :=
  .select { output, table := table.name, conditions, order := sortKeys sort, limit, offset }

/-- A statement whose text is the one of a collection, and whose bounds are
numbered after the scope. -/
theorem collection_runs {built : Built V} {table : Table} {output : Sql.Output}
    {sort : List (Column × SortDirection)} {limit offset : Option (Sql.Count Nat)}
    (max first : Option (Sql.Count (Option V))) (keys : built.keys = table.keys)
    (text : built.sql
      = (collection (scopeConditions table.keys) table output sort limit offset).text)
    (named : ∀ names, output = .columns names → ∀ name ∈ names, Sql.isName name)
    (numbered : limit.toList.flatMap Sql.Count.operands ++ offset.toList.flatMap Sql.Count.operands
      = List.range' (table.keys.count + 1) built.values.length)
    (limited : limit.map (Sql.Count.map (Sql.valueAt (built.bind encode tenant realm)))
      = max.map (Sql.Count.map some))
    (started : offset.map (Sql.Count.map (Sql.valueAt (built.bind encode tenant realm)))
      = first.map (Sql.Count.map some))
    (database : Sql.Database V) (outcome : Sql.Outcome V) :
    built.Runs encode tenant realm database outcome
      ↔ (collection (pairedScope encode tenant realm table.keys) table output sort max first).Does
          encode.toComparison database outcome := by
  have wellFormed : (collection (scopeConditions table.keys) table output sort limit
      offset).WellFormed := by
    refine ⟨named, plain_isName table.plain, ?_, scopeConditions_named, sortKeys_named sort⟩
    cases table.keys <;> simp [scopeConditions]
  refine (Built.runs_iff encode tenant realm text wellFormed ?_ ?_).2 database outcome
  · apply List.Perm.of_eq
    rw [bind_eq, keys, List.length_append, scopeValues_length, ← List.range'_append_1,
      Nat.add_comm 1, ← numbered, ← scopeConditions_operands, ← List.append_assoc]
    rfl
  · simp only [collection, Sql.Statement.map, Sql.Query.map, limited, started]
    rw [bind_eq, keys, scopeConditions_placed]

theorem collection_kept (table : Table) (database : Sql.Database V) :
    (database table.name).rows.filter (Sql.keeps encode.toComparison
        (pairedScope encode tenant realm table.keys))
      = reached encode tenant realm table Criteria.new database := by
  have kept := filter_keeps encode tenant realm table Criteria.new database
  rwa [Criteria.new, List.map_nil, List.append_nil] at kept

theorem predicate_alone (keys : ScopeKeys) :
    keys.predicate = Sql.whereText (scopeConditions keys) := by
  have predicate := predicate_eq keys []
  rwa [List.map_nil, Sql.trailing, String.append_empty, List.append_nil] at predicate

/-- The total of a collection is the number of its rows in the scope. -/
theorem ListQuery.count_runs (table : Table) (database : Sql.Database V)
    (outcome : Sql.Outcome V) :
    (ListQuery.count table).Runs encode tenant realm database outcome
      ↔ outcome = .counted (reached encode tenant realm table Criteria.new database).length := by
  have text : (ListQuery.count table : Built V).sql
      = (collection (scopeConditions table.keys) table .count [] none none).text := by
    have opening : "SELECT count(*) FROM " = "SELECT " ++ ("count(*)" ++ " FROM ") := by decide
    calc (ListQuery.count table : Built V).sql
        = "SELECT " ++ ("count(*)" ++ " FROM ") ++ table.name ++ table.keys.predicate :=
          congrArg (· ++ table.name ++ table.keys.predicate) opening
      _ = _ := by
          simp only [collection, Sql.Statement.text, Sql.Output.text, sortKeys, List.map_nil,
            Sql.orderText, Sql.boundText, String.append_empty, predicate_alone,
            String.append_assoc]
  rw [collection_runs encode tenant realm none none rfl text (by simp) rfl rfl rfl]
  simp only [collection, Sql.Statement.Does, Sql.Query.Answers, collection_kept]

/-- A page holds the rows of the scope from the first it asks for on, in an
order the sort allows, as many as it asks for. -/
theorem ListQuery.select_runs (query : ListQuery) (table : Table) (columns : List Column)
    (database : Sql.Database V) (outcome : Sql.Outcome V) :
    (query.select encode table columns).Runs encode tenant realm database outcome
      ↔ 0 ≤ query.max ∧ 0 ≤ query.first ∧ ∃ ordered : List (Sql.Row V),
        ordered.Perm (reached encode tenant realm table Criteria.new database)
          ∧ ordered.Pairwise (fun row other =>
              Sql.before encode.toComparison (sortKeys query.sort) other row = false)
          ∧ outcome = .read (((ordered.drop query.first.toNat).take query.max.toNat).map
              fun row => columns.map fun column => row column.name) := by
  have limit : " LIMIT $" = " " ++ ("LIMIT" ++ (" " ++ "$")) := rfl
  have offset : " OFFSET $" = " " ++ ("OFFSET" ++ (" " ++ "$")) := rfl
  have text : (query.select encode table columns).sql
      = (collection (scopeConditions table.keys) table (.columns (columns.map Column.name))
        query.sort (some (.bound (table.keys.count + 1)))
        (some (.bound (table.keys.count + 2)))).text := by
    simp only [ListQuery.select, collection, Sql.Statement.text, Sql.Output.text, writeColumns_eq,
      writeOrder_eq, Sql.boundText, Sql.Count.text, Sql.placeholder, predicate_alone, limit, offset,
      String.append_assoc]
  have bound : (query.select encode table columns).bind encode tenant realm
      = scopeValues encode tenant realm table.keys
        ++ [some (encode.bigint query.max), some (encode.bigint query.first)] := bind_eq ..
  have limited : Sql.valueAt ((query.select encode table columns).bind encode tenant realm)
      (table.keys.count + 1) = some (some (encode.bigint query.max)) := by
    simp [bound, Sql.valueAt, ← scopeValues_length encode tenant realm table.keys]
  have started : Sql.valueAt ((query.select encode table columns).bind encode tenant realm)
      (table.keys.count + 2) = some (some (encode.bigint query.first)) := by
    simp [bound, Sql.valueAt, ← scopeValues_length encode tenant realm table.keys]
  have runs := collection_runs encode tenant realm (some (.bound (some (encode.bigint query.max))))
    (some (.bound (some (encode.bigint query.first)))) rfl text (columns_plain columns) rfl
    (by simp only [Option.map_some, Sql.Count.map, limited])
    (by simp only [Option.map_some, Sql.Count.map, started]) database outcome
  rw [runs]
  simp only [collection, Sql.Statement.Does, Sql.Query.Answers, collection_kept, Sql.sizeOf,
    Sql.Count.size, encode.rows_bigint, List.map_map, Function.comp_def]
  constructor
  · rintro ⟨max, first, ordered, max_eq, first_eq, perm, sorted, out⟩
    by_cases most : 0 ≤ query.max
    · by_cases start : 0 ≤ query.first
      · rw [if_pos most, Option.map_some, Option.some.injEq] at max_eq
        rw [if_pos start, Option.map_some, Option.some.injEq] at first_eq
        subst max_eq first_eq
        exact ⟨most, start, ordered, perm, sorted, out⟩
      · rw [if_neg start] at first_eq
        cases first_eq
    · rw [if_neg most] at max_eq
      cases max_eq
  · rintro ⟨max, first, ordered, perm, sorted, out⟩
    refine ⟨some query.max.toNat, some query.first.toNat, ordered, ?_, ?_, perm, sorted, out⟩
    · rw [if_pos max]
      rfl
    · rw [if_pos first]
      rfl

end Saffui.Store
