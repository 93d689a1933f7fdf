import Saffui.Store.Query

/-!
# The texts of the builder

Each text of the builder is the text of one statement of the SQL fragment. Its
placeholders are the numbers of the values it binds, one each, and with every
value in the place of its placeholder the statement is the one the builder was
asked for: the keys of the scope, then the columns beside the values they were
paired with.
-/

namespace Saffui.Store

open Foundation

variable {V : Type}

theorem plain_isName {name : String} (plain : isPlainIdentifier name) : Sql.isName name := plain

def Test.values : Test V → List (Option V)
  | .equal value => [value]
  | .greater value => [value]
  | .null => []

def testValues (tests : List (Column × Test V)) : List (Option V) :=
  tests.flatMap fun test => test.2.values

def numberTest (next : Nat) : Column × Test V → Sql.Condition Nat
  | (column, .equal _) => .equal column.name next
  | (column, .greater _) => .greater column.name next
  | (column, .null) => .null column.name

/-- The conditions of the tests, their placeholders numbered from `next`. -/
def numberTests : Nat → List (Column × Test V) → List (Sql.Condition Nat)
  | _, [] => []
  | next, test :: tests => numberTest next test :: numberTests (next + test.2.values.length) tests

theorem writeTest_eq (next : Nat) (sql : String) (bound : List (Option V))
    (test : Column × Test V) :
    Criteria.writeTest next (sql, bound) test
      = (sql ++ (" AND " ++ (numberTest (next + bound.length) test).text),
        bound ++ test.2.values) := by
  have equal : " = $" = " = " ++ "$" := rfl
  have greater : " > $" = " > " ++ "$" := rfl
  obtain ⟨column, kind⟩ := test
  cases kind <;> simp only [Criteria.writeTest, Test.values, numberTest, Sql.Condition.text, equal,
    greater, Sql.placeholder, String.append_assoc, List.append_nil]

theorem writeTests_eq (next : Nat) (tests : List (Column × Test V)) (sql : String)
    (bound : List (Option V)) :
    tests.foldl (Criteria.writeTest next) (sql, bound)
      = (sql ++ Sql.trailing " AND "
          ((numberTests (next + bound.length) tests).map Sql.Condition.text),
        bound ++ testValues tests) := by
  induction tests generalizing sql bound with
  | nil => simp [numberTests, Sql.trailing, testValues]
  | cons test tests ih =>
    rw [List.foldl_cons, writeTest_eq, ih, numberTests, List.map_cons, Sql.trailing, testValues,
      testValues, List.flatMap_cons, List.length_append]
    simp only [String.append_assoc, List.append_assoc, Nat.add_assoc]

theorem write_eq (criteria : Criteria V) (sql : String) (next : Nat) :
    criteria.write sql next
      = (sql ++ Sql.trailing " AND " ((numberTests next criteria.tests).map Sql.Condition.text),
        testValues criteria.tests) := by
  rw [Criteria.write, writeTests_eq]
  simp

theorem foldl_trailing {α : Type} (name : α → String) (items : List α) (sql separator : String) :
    items.foldl (fun sql item => sql ++ separator ++ name item) sql
      = sql ++ Sql.trailing separator (items.map name) := by
  induction items generalizing sql with
  | nil => simp [Sql.trailing]
  | cons item items ih =>
    rw [List.foldl_cons, ih, List.map_cons, Sql.trailing]
    simp only [String.append_assoc]

theorem join_eq (separator : String) (items : List String) :
    join separator items = Sql.joined separator items := by
  cases items with
  | nil => rfl
  | cons first rest =>
    have folded := foldl_trailing id rest first separator
    simpa [join, Sql.joined] using folded

/-- A loop that writes a separator before each item but the first, where it
writes another text. -/
theorem foldl_positions {α : Type} (opening separator : String) (name : α → String)
    {write : String → α × Nat → String} (first : ∀ sql item, write sql (item, 0) = sql ++ opening ++ name item)
    (later : ∀ sql item position, write sql (item, position + 1) = sql ++ separator ++ name item)
    (item : α) (items : List α) (sql : String) :
    (item :: items).zipIdx.foldl write sql
      = sql ++ (opening ++ Sql.joined separator ((item :: items).map name)) := by
  have rest : ∀ (items : List α) (position : Nat) (sql : String),
      (items.zipIdx (position + 1)).foldl write sql
        = sql ++ Sql.trailing separator (items.map name) := by
    intro items
    induction items with
    | nil => simp [Sql.trailing]
    | cons item items ih =>
      intro position sql
      rw [List.zipIdx_cons, List.foldl_cons, later, ih, List.map_cons, Sql.trailing]
      simp only [String.append_assoc]
  rw [List.zipIdx_cons, List.foldl_cons, first, rest, List.map_cons, Sql.joined]
  simp only [String.append_assoc]

theorem writeColumns_eq (sql : String) (columns : List Column) :
    writeColumns sql columns = sql ++ Sql.joined ", " (columns.map Column.name) := by
  cases columns with
  | nil => simp [writeColumns, Sql.joined]
  | cons column columns =>
    unfold writeColumns
    rw [foldl_positions "" ", " Column.name]
    · simp
    · intro sql item
      simp
    · intro sql item position
      simp

def SortDirection.direction : SortDirection → Sql.Direction
  | .ascending => .ascending
  | .descending => .descending

def sortKeys (sort : List (Column × SortDirection)) : List (String × Sql.Direction) :=
  sort.map fun key => (key.1.name, key.2.direction)

theorem keyText_eq (column : Column) (direction : SortDirection) :
    Sql.keyText (column.name, direction.direction) = column.name ++ " " ++ direction.asSql := by
  cases direction with
  | ascending =>
    have text : " ASC" = " " ++ "ASC" := rfl
    simp only [SortDirection.direction, Sql.keyText, SortDirection.asSql, text, String.append_assoc]
  | descending =>
    have text : " DESC" = " " ++ "DESC" := rfl
    simp only [SortDirection.direction, Sql.keyText, SortDirection.asSql, text, String.append_assoc]

theorem writeOrder_eq (sql : String) (sort : List (Column × SortDirection)) :
    writeOrder sql sort = sql ++ Sql.orderText (sortKeys sort) := by
  cases sort with
  | nil => simp [writeOrder, sortKeys, Sql.orderText]
  | cons key sort =>
    unfold writeOrder
    rw [foldl_positions " ORDER BY " ", " fun key => Sql.keyText (key.1.name, key.2.direction)]
    · simp [sortKeys, Sql.orderText, Function.comp_def]
    · intro sql item
      simp [keyText_eq, String.append_assoc]
    · intro sql item position
      simp [keyText_eq, String.append_assoc]

/-- The conditions that open every `WHERE`. -/
def scopeConditions : ScopeKeys → List (Sql.Condition Nat)
  | .tenant => [.equal TENANT_KEY 1]
  | .tenantAndRealm => [.equal TENANT_KEY 1, .equal REALM_KEY 2]

theorem predicate_eq (keys : ScopeKeys) (conditions : List (Sql.Condition Nat)) :
    keys.predicate ++ Sql.trailing " AND " (conditions.map Sql.Condition.text)
      = Sql.whereText (scopeConditions keys ++ conditions) := by
  cases keys with
  | tenant =>
    have text : ScopeKeys.tenant.predicate
        = " WHERE " ++ (Sql.Condition.equal TENANT_KEY 1).text := rfl
    simp only [text, Sql.whereText, scopeConditions, List.cons_append, List.nil_append,
      List.map_cons, Sql.joined, String.append_assoc]
  | tenantAndRealm =>
    have text : ScopeKeys.tenantAndRealm.predicate = " WHERE "
        ++ ((Sql.Condition.equal TENANT_KEY 1).text
          ++ (" AND " ++ (Sql.Condition.equal REALM_KEY 2).text)) := rfl
    simp only [text, Sql.whereText, scopeConditions, List.cons_append, List.nil_append,
      List.map_cons, Sql.joined, Sql.trailing, String.append_assoc]

theorem numberTest_operands (next : Nat) (test : Column × Test V) :
    (numberTest next test).operands = List.range' next test.2.values.length := by
  obtain ⟨column, kind⟩ := test
  cases kind <;> rfl

theorem numberTests_operands (next : Nat) (tests : List (Column × Test V)) :
    (numberTests next tests).flatMap Sql.Condition.operands
      = List.range' next (testValues tests).length := by
  induction tests generalizing next with
  | nil => rfl
  | cons test tests ih =>
    have values : testValues (test :: tests) = test.2.values ++ testValues tests := rfl
    rw [numberTests, List.flatMap_cons, ih, numberTest_operands, values, List.length_append,
      ← List.range'_append_1]

theorem scopeConditions_operands (keys : ScopeKeys) :
    (scopeConditions keys).flatMap Sql.Condition.operands = List.range' 1 keys.count := by
  cases keys <;> rfl

/-- The keys of the scope, as the unit of work supplies them. -/
def scopeValues (encode : Values V) (tenant realm : Uuid) : ScopeKeys → List (Option V)
  | .tenant => [some (encode.uuid tenant)]
  | .tenantAndRealm => [some (encode.uuid tenant), some (encode.uuid realm)]

theorem scopeValues_length (encode : Values V) (tenant realm : Uuid) (keys : ScopeKeys) :
    (scopeValues encode tenant realm keys).length = keys.count := by
  cases keys <;> rfl

theorem bind_eq (encode : Values V) (built : Built V) (tenant realm : Uuid) :
    built.bind encode tenant realm
      = scopeValues encode tenant realm built.keys ++ built.values := by
  unfold Built.bind
  cases built.keys <;> rfl

/-- The conditions of the scope with their values. -/
def pairedScope (encode : Values V) (tenant realm : Uuid) :
    ScopeKeys → List (Sql.Condition (Option V))
  | .tenant => [.equal TENANT_KEY (some (encode.uuid tenant))]
  | .tenantAndRealm => [.equal TENANT_KEY (some (encode.uuid tenant)),
      .equal REALM_KEY (some (encode.uuid realm))]

/-- A test with its value. -/
def pairedTest : Column × Test V → Sql.Condition (Option V)
  | (column, .equal value) => .equal column.name value
  | (column, .greater value) => .greater column.name value
  | (column, .null) => .null column.name

theorem scopeConditions_placed (encode : Values V) (tenant realm : Uuid) (keys : ScopeKeys)
    (values : List (Option V)) :
    (scopeConditions keys).map (Sql.Condition.map
        (Sql.valueAt (scopeValues encode tenant realm keys ++ values)))
      = (pairedScope encode tenant realm keys).map (Sql.Condition.map some) := by
  cases keys <;> rfl

theorem numberTest_placed (before after : List (Option V)) (test : Column × Test V) :
    (numberTest (before.length + 1) test).map (Sql.valueAt (before ++ (test.2.values ++ after)))
      = (pairedTest test).map some := by
  obtain ⟨column, kind⟩ := test
  cases kind <;> simp [numberTest, pairedTest, Test.values, Sql.Condition.map, Sql.valueAt]

theorem numberTests_placed (before after : List (Option V)) (tests : List (Column × Test V)) :
    (numberTests (before.length + 1) tests).map
        (Sql.Condition.map (Sql.valueAt (before ++ (testValues tests ++ after))))
      = (tests.map pairedTest).map (Sql.Condition.map some) := by
  induction tests generalizing before with
  | nil => rfl
  | cons test tests ih =>
    have values : testValues (test :: tests) = test.2.values ++ testValues tests := rfl
    have here := numberTest_placed before (testValues tests ++ after) test
    have later := ih (before ++ test.2.values)
    rw [List.length_append, List.append_assoc, Nat.add_right_comm] at later
    rw [values, List.append_assoc, numberTests, List.map_cons, List.map_cons, List.map_cons, here,
      later]

theorem positions_placed (values : List (Option V)) :
    (List.range' 1 values.length).map (Sql.valueAt values) = values.map some := by
  apply List.ext_getElem
  · simp
  · intro position inside _
    simp only [List.length_map, List.length_range'] at inside
    simp [Nat.add_comm 1, Sql.valueAt, inside]

/-- The columns that are written, beside the numbers of their placeholders. -/
def numberAssignments (keys : Nat) (assignments : List (Bind V)) : List (String × Nat) :=
  assignments.zipIdx.map fun (bind, position) => (bind.column.name, keys + position + 1)

def pairedAssignments (assignments : List (Bind V)) : List (String × Option V) :=
  assignments.map fun bind => (bind.column.name, bind.value)

theorem numberAssignments_operands (keys : Nat) (assignments : List (Bind V)) :
    (numberAssignments keys assignments).map Prod.snd
      = List.range' (keys + 1) assignments.length := by
  apply List.ext_getElem
  · simp [numberAssignments]
  · intro position _ _
    simp [numberAssignments]
    omega

theorem numberAssignments_placed (before after : List (Option V)) (assignments : List (Bind V)) :
    (numberAssignments before.length assignments).map
        (Prod.map id (Sql.valueAt (before ++ (assignments.map Bind.value ++ after))))
      = (pairedAssignments assignments).map (Prod.map id some) := by
  apply List.ext_getElem
  · simp [numberAssignments, pairedAssignments]
  · intro position inside _
    simp only [numberAssignments, List.length_map, List.length_zipIdx] at inside
    simp [numberAssignments, pairedAssignments, Sql.valueAt, List.getElem?_append_right,
      List.getElem?_append_left, inside]

def Limit.count (position : Nat) : Limit V → Option (Sql.Count Nat)
  | .none => Option.none
  | .firstRow => some (.literal 1)
  | .bound _ => some (.bound position)

def Limit.values : Limit V → List (Option V)
  | .none => []
  | .firstRow => []
  | .bound rows => [rows]

def Limit.paired : Limit V → Option (Sql.Count (Option V))
  | .none => Option.none
  | .firstRow => some (.literal 1)
  | .bound rows => some (.bound rows)

def Select.statement (select : Select V) : Sql.Statement Nat :=
  .select
    { output := .columns (select.columns.map Column.name)
      table := select.table.name
      conditions := scopeConditions select.table.keys
        ++ numberTests (select.table.keys.count + 1) select.criteria.tests
      order := sortKeys select.sort
      limit := select.limit.count
        (select.table.keys.count + (testValues select.criteria.tests).length + 1)
      offset := none }

/-- The read that is asked for, with the values its columns are paired with. -/
def Select.paired (encode : Values V) (tenant realm : Uuid) (select : Select V) :
    Sql.Statement (Option V) :=
  .select
    { output := .columns (select.columns.map Column.name)
      table := select.table.name
      conditions := pairedScope encode tenant realm select.table.keys
        ++ select.criteria.tests.map pairedTest
      order := sortKeys select.sort
      limit := select.limit.paired
      offset := none }

def Update.statement (update : Update V) : Sql.Statement Nat :=
  .update update.table.name (numberAssignments update.table.keys.count update.assignments)
    (scopeConditions update.table.keys ++ numberTests
      (update.table.keys.count + update.assignments.length + 1) update.criteria.tests)

def Update.paired (encode : Values V) (tenant realm : Uuid) (update : Update V) :
    Sql.Statement (Option V) :=
  .update update.table.name (pairedAssignments update.assignments)
    (pairedScope encode tenant realm update.table.keys ++ update.criteria.tests.map pairedTest)

def ScopeKeys.columns : ScopeKeys → List String
  | .tenant => [TENANT_KEY]
  | .tenantAndRealm => [TENANT_KEY, REALM_KEY]

def Insert.columns (insert : Insert V) : List String :=
  insert.table.keys.columns ++ insert.assignments.map fun bind => bind.column.name

def Insert.statement (insert : Insert V) : Sql.Statement Nat :=
  .insert insert.table.name insert.columns
    (List.range' 1 (insert.table.keys.count + insert.assignments.length))

def Insert.paired (encode : Values V) (tenant realm : Uuid) (insert : Insert V) :
    Sql.Statement (Option V) :=
  .insert insert.table.name insert.columns
    (scopeValues encode tenant realm insert.table.keys ++ insert.assignments.map Bind.value)

theorem Select.build_eq (select : Select V) :
    select.build =
      { sql := select.statement.text
        keys := select.table.keys
        values := testValues select.criteria.tests ++ select.limit.values } := by
  have limit : " LIMIT $" = " " ++ ("LIMIT" ++ (" " ++ "$")) := rfl
  have first : " LIMIT 1" = " " ++ ("LIMIT" ++ (" " ++ toString 1)) := rfl
  have predicate := predicate_eq select.table.keys
    (numberTests (select.table.keys.count + 1) select.criteria.tests)
  unfold Select.build Select.statement
  simp only [writeColumns_eq, write_eq, writeOrder_eq]
  cases select.limit <;>
    simp only [Limit.count, Limit.values, Sql.Statement.text, Sql.Output.text, ← predicate,
      Sql.boundText, Sql.Count.text, Sql.placeholder, limit, first, String.append_assoc,
      String.append_empty, List.append_nil]

theorem Update.build_eq (update : Update V) :
    update.build =
      if update.assignments = [] then .error .nothingToWrite
      else if update.criteria.tests = [] then .error .unfiltered
      else .ok
        { sql := update.statement.text
          keys := update.table.keys
          values := update.assignments.map Bind.value ++ testValues update.criteria.tests } := by
  have equal : " = $" = " = " ++ "$" := rfl
  have predicate := predicate_eq update.table.keys
    (numberTests (update.table.keys.count + update.assignments.length + 1) update.criteria.tests)
  have assigned : (update.assignments.zipIdx.map fun pair =>
        pair.1.column.name ++ (" = $" ++ toString (update.table.keys.count + pair.2 + 1)))
      = (numberAssignments update.table.keys.count update.assignments).map Sql.assignmentText := by
    rw [numberAssignments, List.map_map]
    apply List.map_congr_left
    intro assignment _
    simp only [Function.comp_apply, Sql.assignmentText, Sql.placeholder, equal, String.append_assoc]
  unfold Update.build Update.statement Criteria.isEmpty
  simp only [write_eq, join_eq, List.isEmpty_iff, assigned, List.length_map, Sql.Statement.text,
    ← predicate, String.append_assoc]

theorem names_eq (keys : ScopeKeys) (columns : List String) :
    keys.names ++ Sql.trailing ", " columns = Sql.joined ", " (keys.columns ++ columns) := by
  cases keys with
  | tenant => rfl
  | tenantAndRealm =>
    have text : ScopeKeys.tenantAndRealm.names = TENANT_KEY ++ (", " ++ REALM_KEY) := rfl
    simp only [text, ScopeKeys.columns, List.cons_append, List.nil_append, Sql.joined, Sql.trailing,
      String.append_assoc]

theorem Insert.build_eq (insert : Insert V) :
    insert.build =
      { sql := insert.statement.text
        keys := insert.table.keys
        values := insert.assignments.map Bind.value } := by
  have names := names_eq insert.table.keys (insert.assignments.map fun bind => bind.column.name)
  have placeholders : (fun position : Nat => "$" ++ toString position) = Sql.placeholder := rfl
  have folded := foldl_trailing (fun bind : Bind V => bind.column.name) insert.assignments
    insert.table.keys.names ", "
  unfold Insert.build Insert.statement Insert.columns
  simp only [folded, join_eq, placeholders]
  simp only [Sql.Statement.text, ← names, String.append_assoc]

theorem scopeConditions_named {keys : ScopeKeys} :
    ∀ condition ∈ scopeConditions keys, Sql.isName condition.column := by
  cases keys <;> decide

theorem columns_named {keys : ScopeKeys} : ∀ column ∈ keys.columns, Sql.isName column := by
  cases keys <;> decide

theorem numberTests_named {next : Nat} {tests : List (Column × Test V)} :
    ∀ condition ∈ numberTests next tests, Sql.isName condition.column := by
  induction tests generalizing next with
  | nil => simp [numberTests]
  | cons test tests ih =>
    rw [numberTests, List.forall_mem_cons]
    refine ⟨?_, ih⟩
    obtain ⟨column, kind⟩ := test
    cases kind <;> exact plain_isName column.plain

theorem conditions_named {keys : ScopeKeys} {next : Nat} {tests : List (Column × Test V)} :
    scopeConditions keys ++ numberTests next tests ≠ []
      ∧ ∀ condition ∈ scopeConditions keys ++ numberTests next tests,
        Sql.isName condition.column := by
  constructor
  · cases keys <;> simp [scopeConditions]
  · intro condition inside
    rcases List.mem_append.mp inside with scope | test
    · exact scopeConditions_named condition scope
    · exact numberTests_named condition test

theorem columns_plain (columns : List Column) (names : List String)
    (same : Sql.Output.columns (columns.map Column.name) = .columns names) :
    ∀ name ∈ names, Sql.isName name := by
  cases same
  intro name inside
  obtain ⟨column, -, rfl⟩ := List.mem_map.mp inside
  exact plain_isName column.plain

theorem sortKeys_named (sort : List (Column × SortDirection)) :
    ∀ key ∈ sortKeys sort, Sql.isName key.1 := by
  intro key inside
  obtain ⟨sorted, -, rfl⟩ := List.mem_map.mp inside
  exact plain_isName sorted.1.plain

theorem Select.wellFormed (select : Select V) : select.statement.WellFormed := by
  exact ⟨columns_plain select.columns, plain_isName select.table.plain, conditions_named.1,
    conditions_named.2, sortKeys_named select.sort⟩

theorem Update.wellFormed {update : Update V} (writes : update.assignments ≠ []) :
    update.statement.WellFormed := by
  refine ⟨plain_isName update.table.plain, ?_, ?_, conditions_named.1, conditions_named.2⟩
  · simpa [numberAssignments] using writes
  · intro assignment inside
    obtain ⟨bind, -, rfl⟩ := List.mem_map.mp inside
    exact plain_isName bind.1.column.plain

theorem Insert.wellFormed (insert : Insert V) : insert.statement.WellFormed := by
  refine ⟨plain_isName insert.table.plain, ?_, ?_, ?_⟩
  · rw [Insert.columns]
    cases insert.table.keys <;> simp [ScopeKeys.columns]
  · intro column inside
    rcases List.mem_append.mp inside with key | assigned
    · exact columns_named column key
    · obtain ⟨bind, -, rfl⟩ := List.mem_map.mp assigned
      exact plain_isName bind.column.plain
  · cases insert.table.keys <;> simp [ScopeKeys.count, List.range'_eq_nil_iff]

variable (encode : Values V) (tenant realm : Uuid)

theorem conditions_numbered (keys : ScopeKeys) (between : Nat) (tests : List (Column × Test V)) :
    ((scopeConditions keys ++ numberTests (keys.count + between + 1) tests).flatMap
        Sql.Condition.operands)
      = List.range' 1 keys.count
        ++ List.range' (keys.count + between + 1) (testValues tests).length := by
  rw [List.flatMap_append, scopeConditions_operands, numberTests_operands]

theorem conditions_placed (keys : ScopeKeys) (between after : List (Option V))
    (tests : List (Column × Test V)) :
    (scopeConditions keys ++ numberTests (keys.count + between.length + 1) tests).map
        (Sql.Condition.map (Sql.valueAt (scopeValues encode tenant realm keys
          ++ (between ++ (testValues tests ++ after)))))
      = (pairedScope encode tenant realm keys ++ tests.map pairedTest).map
          (Sql.Condition.map some) := by
  have placed := numberTests_placed (scopeValues encode tenant realm keys ++ between) after tests
  rw [List.length_append, scopeValues_length, List.append_assoc] at placed
  rw [List.map_append, scopeConditions_placed, placed, List.map_append]

theorem Limit.count_operands (limit : Limit V) (position : Nat) :
    (limit.count position).toList.flatMap Sql.Count.operands
      = List.range' position limit.values.length := by
  cases limit <;> rfl

theorem Limit.count_placed (limit : Limit V) (before : List (Option V)) :
    (limit.count (before.length + 1)).map (Sql.Count.map (Sql.valueAt (before ++ limit.values)))
      = limit.paired.map (Sql.Count.map some) := by
  cases limit with
  | none => rfl
  | firstRow => rfl
  | bound rows =>
    simp [Limit.count, Limit.values, Limit.paired, Sql.Count.map, Sql.valueAt]

theorem Select.numbered (select : Select V) :
    select.statement.operands
      = List.range' 1 (select.build.bind encode tenant realm).length := by
  have conditions := conditions_numbered select.table.keys 0 select.criteria.tests
  rw [bind_eq, Select.build_eq, List.length_append, scopeValues_length, List.length_append]
  simp only [Select.statement, Sql.Statement.operands, Nat.add_zero, Limit.count_operands,
    Option.toList_none, List.flatMap_nil, List.append_nil] at conditions ⊢
  rw [conditions, ← Nat.add_assoc, ← List.range'_append_1, ← List.range'_append_1]
  simp only [Nat.add_comm 1]

theorem Select.placed (select : Select V) :
    select.statement.map (Sql.valueAt (select.build.bind encode tenant realm))
      = (select.paired encode tenant realm).map some := by
  have conditions := conditions_placed encode tenant realm select.table.keys [] select.limit.values
    select.criteria.tests
  have limit := select.limit.count_placed
    (scopeValues encode tenant realm select.table.keys ++ testValues select.criteria.tests)
  rw [List.length_append, scopeValues_length, List.append_assoc] at limit
  rw [List.length_nil, Nat.add_zero, List.nil_append] at conditions
  rw [bind_eq, Select.build_eq]
  simp only [Select.statement, Select.paired, Sql.Statement.map, Sql.Query.map, conditions, limit,
    Option.map_none]

theorem Update.numbered (update : Update V) :
    update.statement.operands.Perm (List.range' 1 (scopeValues encode tenant realm update.table.keys
      ++ (update.assignments.map Bind.value ++ testValues update.criteria.tests)).length) := by
  have conditions := conditions_numbered update.table.keys update.assignments.length
    update.criteria.tests
  rw [List.length_append, scopeValues_length, List.length_append, List.length_map]
  simp only [Update.statement, Sql.Statement.operands, numberAssignments_operands, conditions]
  have whole : List.range' 1 (update.table.keys.count
      + (update.assignments.length + (testValues update.criteria.tests).length))
      = List.range' 1 update.table.keys.count
        ++ (List.range' (update.table.keys.count + 1) update.assignments.length
          ++ List.range' (update.table.keys.count + update.assignments.length + 1)
            (testValues update.criteria.tests).length) := by
    rw [← List.range'_append_1, ← List.range'_append_1]
    simp only [Nat.add_comm 1, Nat.add_right_comm _ 1]
  rw [whole]
  exact List.perm_append_comm_assoc _ _ _

theorem Update.placed (update : Update V) :
    update.statement.map (Sql.valueAt (scopeValues encode tenant realm update.table.keys
        ++ (update.assignments.map Bind.value ++ testValues update.criteria.tests)))
      = (update.paired encode tenant realm).map some := by
  have conditions := conditions_placed encode tenant realm update.table.keys
    (update.assignments.map Bind.value) [] update.criteria.tests
  have assignments := numberAssignments_placed (scopeValues encode tenant realm update.table.keys)
    (testValues update.criteria.tests) update.assignments
  rw [scopeValues_length] at assignments
  rw [List.length_map, List.append_nil] at conditions
  simp only [Update.statement, Update.paired, Sql.Statement.map, conditions, assignments]

theorem Insert.values_length (insert : Insert V) :
    (insert.build.bind encode tenant realm).length
      = insert.table.keys.count + insert.assignments.length := by
  rw [bind_eq, Insert.build_eq, List.length_append, scopeValues_length, List.length_map]

theorem Insert.placed (insert : Insert V) :
    insert.statement.map (Sql.valueAt (insert.build.bind encode tenant realm))
      = (insert.paired encode tenant realm).map some := by
  have placed := positions_placed (insert.build.bind encode tenant realm)
  rw [Insert.values_length] at placed
  simp only [Insert.statement, Insert.paired, Sql.Statement.map, placed]
  rw [bind_eq, Insert.build_eq]

end Saffui.Store
