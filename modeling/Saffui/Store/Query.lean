import Saffui.Foundation.SqlText
import Saffui.Ids

/-!
# The query builder

The statements of the store, as texts and as the values they bind. A table and
a column are constants that `gen-schema` writes from the schema, so their
names need no quotes and no column is a key of the scope. A value is generic:
what the database stores and compares.
-/

namespace Saffui.Store

open Foundation

variable {V : Type}

/-- Which keys of the scope a table carries. -/
inductive ScopeKeys where
  | tenant
  | tenantAndRealm
deriving DecidableEq, Repr

def ScopeKeys.count : ScopeKeys → Nat
  | .tenant => 1
  | .tenantAndRealm => 2

def ScopeKeys.names : ScopeKeys → String
  | .tenant => "tenant_id"
  | .tenantAndRealm => "tenant_id, realm_id"

def ScopeKeys.predicate : ScopeKeys → String
  | .tenant => " WHERE tenant_id = $1"
  | .tenantAndRealm => " WHERE tenant_id = $1 AND realm_id = $2"

/-- `is_plain_identifier` of `gen-schema`: a name that cannot be written
without quotes stops the tool. -/
def isPlainIdentifier (name : String) : Bool :=
  match name.toList with
  | [] => false
  | first :: rest => (first.isLower || first = '_')
      && rest.all fun character => character.isLower || character.isDigit || character = '_'

def TENANT_KEY : String := "tenant_id"
def REALM_KEY : String := "realm_id"

structure Table where
  name : String
  keys : ScopeKeys
  plain : isPlainIdentifier name
deriving DecidableEq, Repr

structure Column where
  name : String
  plain : isPlainIdentifier name
  notKey : name ≠ TENANT_KEY ∧ name ≠ REALM_KEY
deriving DecidableEq, Repr

/-- A column and the value going into it, `none` where it is `NULL`. -/
structure Bind (V : Type) where
  column : Column
  value : Option V

inductive BuildError where
  | nothingToWrite
  | unfiltered
deriving DecidableEq, Repr

structure Built (V : Type) where
  sql : String
  keys : ScopeKeys
  values : List (Option V)

/-- How the driver writes the keys of the scope and a window as values, and how
the database compares what it stores: an identifier equals itself alone, and a
count is an integer that is not negative. -/
structure Values (V : Type) extends Sql.Comparison V where
  uuid : Uuid → V
  bigint : Int → V
  equal_uuid : ∀ value id, equal value (uuid id) = true ↔ value = uuid id
  uuid_injective : ∀ id other, uuid id = uuid other → id = other
  rows_bigint : ∀ integer, rows (bigint integer)
    = if 0 ≤ integer then some integer.toNat else none

def Built.bind (encode : Values V) (built : Built V) (tenant realm : Uuid) : List (Option V) :=
  let bound := [some (encode.uuid tenant)]
  let bound := if built.keys = .tenantAndRealm then bound ++ [some (encode.uuid realm)] else bound
  bound ++ built.values

inductive Test (V : Type) where
  | equal (value : Option V)
  | greater (value : Option V)
  | null

structure Criteria (V : Type) where
  tests : List (Column × Test V)

def Criteria.new : Criteria V := { tests := [] }

def Criteria.whereEqual (criteria : Criteria V) (column : Column) (value : Option V) : Criteria V :=
  { tests := criteria.tests ++ [(column, .equal value)] }

def Criteria.whereGreater (criteria : Criteria V) (column : Column) (value : Option V) :
    Criteria V :=
  { tests := criteria.tests ++ [(column, .greater value)] }

def Criteria.whereNull (criteria : Criteria V) (column : Column) : Criteria V :=
  { tests := criteria.tests ++ [(column, .null)] }

def Criteria.isEmpty (criteria : Criteria V) : Bool := criteria.tests.isEmpty

/-- One turn of the loop of `write`, on the text and on what it binds. -/
def Criteria.writeTest (next : Nat) (written : String × List (Option V)) (test : Column × Test V) :
    String × List (Option V) :=
  let (sql, bound) := written
  let sql := sql ++ " AND " ++ test.1.name
  match test.2 with
  | .equal value => (sql ++ " = $" ++ toString (next + bound.length), bound ++ [value])
  | .greater value => (sql ++ " > $" ++ toString (next + bound.length), bound ++ [value])
  | .null => (sql ++ " IS NULL", bound)

def Criteria.write (criteria : Criteria V) (sql : String) (next : Nat) : String × List (Option V) :=
  criteria.tests.foldl (Criteria.writeTest next) (sql, [])

inductive SortDirection where
  | ascending
  | descending
deriving DecidableEq, Repr

def SortDirection.asSql : SortDirection → String
  | .ascending => "ASC"
  | .descending => "DESC"

inductive Limit (V : Type) where
  | none
  | firstRow
  | bound (rows : Option V)

structure Select (V : Type) where
  table : Table
  columns : List Column
  criteria : Criteria V
  sort : List (Column × SortDirection)
  limit : Limit V

def writeOrder (sql : String) (sort : List (Column × SortDirection)) : String :=
  sort.zipIdx.foldl (fun sql ((column, direction), position) =>
    sql ++ (if position = 0 then " ORDER BY " else ", ") ++ column.name ++ " " ++ direction.asSql) sql

def writeColumns (sql : String) (columns : List Column) : String :=
  columns.zipIdx.foldl (fun sql (column, position) =>
    (if position > 0 then sql ++ ", " else sql) ++ column.name) sql

def Select.build (select : Select V) : Built V :=
  let sql := writeColumns "SELECT " select.columns
  let sql := sql ++ " FROM " ++ select.table.name
  let sql := sql ++ select.table.keys.predicate
  let (sql, values) := select.criteria.write sql (select.table.keys.count + 1)
  let sql := writeOrder sql select.sort
  match select.limit with
  | .none => { sql, keys := select.table.keys, values }
  | .firstRow => { sql := sql ++ " LIMIT 1", keys := select.table.keys, values }
  | .bound rows =>
    { sql := sql ++ " LIMIT $" ++ toString (select.table.keys.count + values.length + 1)
      keys := select.table.keys
      values := values ++ [rows] }

/-- `join` of a list of texts. -/
def join (separator : String) : List String → String
  | [] => ""
  | first :: rest => rest.foldl (fun text item => text ++ separator ++ item) first

structure Update (V : Type) where
  table : Table
  assignments : List (Bind V)
  criteria : Criteria V

def Update.build (update : Update V) : Except BuildError (Built V) :=
  if update.assignments.isEmpty then .error .nothingToWrite
  else if update.criteria.isEmpty then .error .unfiltered
  else
    let keys := update.table.keys.count
    let assignments := update.assignments.zipIdx.map fun (bind, position) =>
      bind.column.name ++ " = $" ++ toString (keys + position + 1)
    let sql := "UPDATE " ++ update.table.name ++ " SET " ++ join ", " assignments
    let sql := sql ++ update.table.keys.predicate
    let values := update.assignments.map Bind.value
    let next := keys + values.length + 1
    let (sql, bound) := update.criteria.write sql next
    .ok { sql, keys := update.table.keys, values := values ++ bound }

structure Insert (V : Type) where
  table : Table
  assignments : List (Bind V)

def Insert.build (insert : Insert V) : Built V :=
  let keys := insert.table.keys.count
  let names := insert.assignments.foldl (fun names bind => names ++ ", " ++ bind.column.name)
    insert.table.keys.names
  let placeholders := (List.range' 1 (keys + insert.assignments.length)).map fun position =>
    "$" ++ toString position
  { sql := "INSERT INTO " ++ insert.table.name ++ " (" ++ names ++ ") VALUES ("
      ++ join ", " placeholders ++ ")"
    keys := insert.table.keys
    values := insert.assignments.map Bind.value }

structure ListQuery where
  sort : List (Column × SortDirection)
  max : Int
  first : Int

/-- A page of a collection. -/
def ListQuery.select (encode : Values V) (query : ListQuery) (table : Table)
    (columns : List Column) : Built V :=
  let sql := writeColumns "SELECT " columns
  let sql := sql ++ " FROM " ++ table.name
  let sql := sql ++ table.keys.predicate
  let sql := writeOrder sql query.sort
  let after := table.keys.count
  let sql := sql ++ " LIMIT $" ++ toString (after + 1) ++ " OFFSET $" ++ toString (after + 2)
  { sql, keys := table.keys, values := [some (encode.bigint query.max), some (encode.bigint query.first)] }

/-- How many rows the collection holds. -/
def ListQuery.count (table : Table) : Built V :=
  { sql := "SELECT count(*) FROM " ++ table.name ++ table.keys.predicate
    keys := table.keys
    values := [] }

end Saffui.Store
