import Mathlib.Data.List.Basic
import Saffui.Foundation.Kleene

/-!
# A fragment of SQL

Statements over one table at a time: a read of named columns or of the number
of rows, an update and an insert of bound operands. A statement is generic in
its operands: the numbers of placeholders as it is read from a text, the bound
values as it runs. A comparison with nothing is unknown, and a row is kept
where every condition is known to be true.

Words in capitals are the words of the language and names are in lower case,
so that no name is ever read as one of them.
-/

namespace Saffui.Foundation.Sql

inductive Condition (α : Type) where
  | equal (column : String) (operand : α)
  | greater (column : String) (operand : α)
  | null (column : String)
deriving DecidableEq, Repr

inductive Direction where
  | ascending
  | descending
deriving DecidableEq, Repr

/-- How many rows, as written or as bound. -/
inductive Count (α : Type) where
  | literal (rows : Nat)
  | bound (operand : α)
deriving DecidableEq, Repr

inductive Output where
  | columns (names : List String)
  | count
deriving DecidableEq, Repr

structure Query (α : Type) where
  output : Output
  table : String
  conditions : List (Condition α)
  order : List (String × Direction)
  limit : Option (Count α)
  offset : Option (Count α)
deriving DecidableEq, Repr

inductive Statement (α : Type) where
  | select (query : Query α)
  | update (table : String) (assignments : List (String × α)) (conditions : List (Condition α))
  | insert (table : String) (columns : List String) (operands : List α)
deriving DecidableEq, Repr

section Operands

variable {α β : Type}

def Condition.operands : Condition α → List α
  | .equal _ operand => [operand]
  | .greater _ operand => [operand]
  | .null _ => []

def Condition.map (f : α → β) : Condition α → Condition β
  | .equal column operand => .equal column (f operand)
  | .greater column operand => .greater column (f operand)
  | .null column => .null column

def Count.operands : Count α → List α
  | .literal _ => []
  | .bound operand => [operand]

def Count.map (f : α → β) : Count α → Count β
  | .literal rows => .literal rows
  | .bound operand => .bound (f operand)

/-- The operands, in the order in which the text writes them. -/
def Statement.operands : Statement α → List α
  | .select query =>
    query.conditions.flatMap Condition.operands ++ query.limit.toList.flatMap Count.operands
      ++ query.offset.toList.flatMap Count.operands
  | .update _ assignments conditions =>
    assignments.map Prod.snd ++ conditions.flatMap Condition.operands
  | .insert _ _ operands => operands

def Query.map (f : α → β) (query : Query α) : Query β where
  output := query.output
  table := query.table
  conditions := query.conditions.map (Condition.map f)
  order := query.order
  limit := query.limit.map (Count.map f)
  offset := query.offset.map (Count.map f)

def Statement.map (f : α → β) : Statement α → Statement β
  | .select query => .select (query.map f)
  | .update table assignments conditions =>
    .update table (assignments.map (Prod.map id f)) (conditions.map (Condition.map f))
  | .insert table columns operands => .insert table columns (operands.map f)

end Operands

section Meaning

variable {V : Type}

/-- What a row holds under each name, `none` where it holds nothing. -/
abbrev Row (V : Type) : Type := String → Option V

structure Table (V : Type) where
  /-- What a new row holds in the columns its insert does not name. -/
  blank : Row V
  rows : List (Row V)

abbrev Database (V : Type) : Type := String → Table V

/-- How values compare, and how many rows one says as a count. -/
structure Comparison (V : Type) where
  equal : V → V → Bool
  greater : V → V → Bool
  rows : V → Option Nat

variable (compare : Comparison V)

/-- Unknown where a side holds nothing. -/
def Condition.truth (row : Row V) : Condition (Option V) → Option Bool
  | .equal column operand => do return compare.equal (← row column) (← operand)
  | .greater column operand => do return compare.greater (← row column) (← operand)
  | .null column => some (row column).isNone

/-- The row passes the conditions, joined by `AND`. -/
def keeps (conditions : List (Condition (Option V))) (row : Row V) : Bool :=
  Kleene.join false (conditions.map (Condition.truth compare row)) = some true

/-- A cell comes strictly before another in ascending order, where nothing
comes last. -/
def cellBefore : Option V → Option V → Bool
  | some value, some other => compare.greater other value
  | some _, none => true
  | none, _ => false

/-- The row comes strictly before the other under the keys of the order. -/
def before : List (String × Direction) → Row V → Row V → Bool
  | [], _, _ => false
  | (column, .ascending) :: order, row, other =>
    cellBefore compare (row column) (other column)
      || (!cellBefore compare (other column) (row column) && before order row other)
  | (column, .descending) :: order, row, other =>
    cellBefore compare (other column) (row column)
      || (!cellBefore compare (row column) (other column) && before order row other)

/-- The rows a count stands for, a bound nothing standing for all of them. A
value that is no count is refused. -/
def Count.size : Count (Option V) → Option (Option Nat)
  | .literal rows => some (some rows)
  | .bound none => some none
  | .bound (some value) => (compare.rows value).map some

def sizeOf : Option (Count (Option V)) → Option (Option Nat)
  | none => some none
  | some count => count.size compare

/-- The rows from the offset on, as many as the limit allows. -/
def window {α : Type} (limit offset : Option Nat) (rows : List α) : List α :=
  match limit with
  | none => rows.drop (offset.getD 0)
  | some limit => (rows.drop (offset.getD 0)).take limit

inductive Outcome (V : Type) where
  | read (rows : List (List (Option V)))
  | counted (rows : Nat)
  | changed (database : Database V) (rows : Nat)

/-- Rows that tie in the order are read in any order. -/
def Query.Answers (query : Query (Option V)) (database : Database V) (outcome : Outcome V) :
    Prop :=
  let kept := (database query.table).rows.filter (keeps compare query.conditions)
  match query.output with
  | .count => outcome = .counted kept.length
  | .columns names => ∃ limit offset ordered,
      sizeOf compare query.limit = some limit ∧ sizeOf compare query.offset = some offset
        ∧ ordered.Perm kept
        ∧ ordered.Pairwise (fun row other => before compare query.order other row = false)
        ∧ outcome = .read ((window limit offset ordered).map fun row => names.map row)

/-- The row with what is assigned to it. -/
def assign (assignments : List (String × Option V)) (row : Row V) : Row V := fun column =>
  ((assignments.find? (·.1 = column)).map Prod.snd).getD (row column)

def replaceTable (database : Database V) (name : String) (rows : List (Row V)) : Database V :=
  fun table => if table = name then { database name with rows } else database table

/-- What a statement whose operands are bound may do. A column assigned twice
is refused. -/
def Statement.Does : Statement (Option V) → Database V → Outcome V → Prop
  | .select query, database, outcome => query.Answers compare database outcome
  | .update table assignments conditions, database, outcome =>
    (assignments.map Prod.fst).Nodup
      ∧ outcome = .changed
          (replaceTable database table ((database table).rows.map fun row =>
            if keeps compare conditions row then assign assignments row else row))
          ((database table).rows.filter (keeps compare conditions)).length
  | .insert table columns operands, database, outcome =>
    columns.Nodup ∧ columns.length = operands.length
      ∧ outcome = .changed
          (replaceTable database table ((database table).rows
            ++ [assign (columns.zip operands) (database table).blank])) 1

/-- The value bound for a placeholder. -/
def valueAt {α : Type} (values : List α) : Nat → Option α
  | 0 => none
  | position + 1 => values[position]?

end Meaning

inductive Token where
  | word (text : String)
  | mark (character : Char)
deriving DecidableEq, Repr

def isWordCharacter (character : Char) : Bool :=
  character.isAlphanum || character = '_' || character = '$'

def flush : List Char → List Token
  | [] => []
  | first :: pending => [.word (String.ofList (first :: pending))]

def split (pending : List Char) : List Char → List Token
  | [] => flush pending
  | character :: text =>
    if isWordCharacter character then split (pending ++ [character]) text
    else if character = ' ' then flush pending ++ split [] text
    else flush pending ++ .mark character :: split [] text

def tokens (text : String) : List Token := split [] text.toList

/-- A name in lower case that needs no quotes. -/
def isName (text : String) : Bool :=
  match text.toList with
  | [] => false
  | first :: rest => (first.isLower || first = '_')
      && rest.all fun character => character.isLower || character.isDigit || character = '_'

def expect (token : Token) : List Token → Option (List Token)
  | [] => none
  | first :: rest => if first = token then some rest else none

def readName : List Token → Option (String × List Token)
  | .word text :: rest => if isName text then some (text, rest) else none
  | _ => none

def readDigits (digits : List Char) : Option Nat :=
  if digits ≠ [] ∧ digits.all Char.isDigit then some (Nat.ofDigitChars 10 digits 0) else none

def readPlaceholder : List Token → Option (Nat × List Token)
  | .word text :: rest =>
    match text.toList with
    | '$' :: digits => (readDigits digits).map (·, rest)
    | _ => none
  | _ => none

/-- Items with a mark between each and the next. -/
def readSeparated {α : Type} (item : List Token → Option (α × List Token)) (mark : Token) :
    Nat → List Token → Option (List α × List Token)
  | 0, _ => none
  | fuel + 1, text => do
    let (first, rest) ← item text
    match expect mark rest with
    | none => some ([first], rest)
    | some rest =>
      let (items, rest) ← readSeparated item mark fuel rest
      some (first :: items, rest)

def readList {α : Type} (item : List Token → Option (α × List Token)) (mark : Token)
    (text : List Token) : Option (List α × List Token) := readSeparated item mark text.length text

def readCondition (text : List Token) : Option (Condition Nat × List Token) := do
  let (column, rest) ← readName text
  match rest with
  | .mark '=' :: rest => (readPlaceholder rest).map fun read => (.equal column read.1, read.2)
  | .mark '>' :: rest => (readPlaceholder rest).map fun read => (.greater column read.1, read.2)
  | .word "IS" :: .word "NULL" :: rest => some (.null column, rest)
  | _ => none

def readWhere (text : List Token) : Option (List (Condition Nat) × List Token) := do
  readList readCondition (.word "AND") (← expect (.word "WHERE") text)

def readKey (text : List Token) : Option ((String × Direction) × List Token) := do
  let (column, rest) ← readName text
  match rest with
  | .word "ASC" :: rest => some ((column, .ascending), rest)
  | .word "DESC" :: rest => some ((column, .descending), rest)
  | _ => none

def readOrder : List Token → Option (List (String × Direction) × List Token)
  | .word "ORDER" :: .word "BY" :: rest => readList readKey (.mark ',') rest
  | rest => some ([], rest)

def readCount : List Token → Option (Count Nat × List Token)
  | .word text :: rest =>
    match readPlaceholder (.word text :: rest) with
    | some (placeholder, rest) => some (.bound placeholder, rest)
    | none => (readDigits text.toList).map fun rows => (.literal rows, rest)
  | _ => none

/-- The count after a word that may be left out. -/
def readBound (word : String) (text : List Token) : Option (Option (Count Nat) × List Token) :=
  match expect (.word word) text with
  | none => some (none, text)
  | some rest => (readCount rest).map fun read => (some read.1, read.2)

def readOutput : List Token → Option (Output × List Token)
  | .word "count" :: .mark '(' :: .mark '*' :: .mark ')' :: rest => some (.count, rest)
  | .word "FROM" :: rest => some (.columns [], .word "FROM" :: rest)
  | text => (readList readName (.mark ',') text).map fun read => (.columns read.1, read.2)

def readAssignment (text : List Token) : Option ((String × Nat) × List Token) := do
  let (column, rest) ← readName text
  let (placeholder, rest) ← readPlaceholder (← expect (.mark '=') rest)
  return ((column, placeholder), rest)

/-- A list within brackets. -/
def readBrackets {α : Type} (item : List Token → Option (α × List Token)) (text : List Token) :
    Option (List α × List Token) := do
  let (items, rest) ← readList item (.mark ',') (← expect (.mark '(') text)
  return (items, ← expect (.mark ')') rest)

def readSelect (text : List Token) : Option (Statement Nat × List Token) := do
  let (output, rest) ← readOutput text
  let (table, rest) ← readName (← expect (.word "FROM") rest)
  let (conditions, rest) ← readWhere rest
  let (order, rest) ← readOrder rest
  let (limit, rest) ← readBound "LIMIT" rest
  let (offset, rest) ← readBound "OFFSET" rest
  return (.select { output, table, conditions, order, limit, offset }, rest)

def readUpdate (text : List Token) : Option (Statement Nat × List Token) := do
  let (table, rest) ← readName text
  let (assignments, rest) ← readList readAssignment (.mark ',') (← expect (.word "SET") rest)
  let (conditions, rest) ← readWhere rest
  return (.update table assignments conditions, rest)

def readInsert (text : List Token) : Option (Statement Nat × List Token) := do
  let (table, rest) ← readName text
  let (columns, rest) ← readBrackets readName rest
  let (operands, rest) ← readBrackets readPlaceholder (← expect (.word "VALUES") rest)
  return (.insert table columns operands, rest)

def readStatement : List Token → Option (Statement Nat × List Token)
  | .word "SELECT" :: rest => readSelect rest
  | .word "UPDATE" :: rest => readUpdate rest
  | .word "INSERT" :: .word "INTO" :: rest => readInsert rest
  | _ => none

/-- The statement a text writes. -/
def read (text : String) : Option (Statement Nat) :=
  match readStatement (tokens text) with
  | some (statement, []) => some statement
  | _ => none

/-- What a text does with the values bound for its placeholders. It is refused
where one of them has no value, or a value has no placeholder. -/
def Runs {V : Type} (compare : Comparison V) (text : String) (values : List (Option V))
    (database : Database V) (outcome : Outcome V) : Prop :=
  ∃ (statement : Statement Nat) (bound : Statement (Option V)), read text = some statement
    ∧ (∀ position, position ∈ statement.operands ↔ 1 ≤ position ∧ position ≤ values.length)
    ∧ statement.map (valueAt values) = bound.map some
    ∧ bound.Does compare database outcome

end Saffui.Foundation.Sql
