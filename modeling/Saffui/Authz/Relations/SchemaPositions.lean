import Saffui.Authz.Relations.SchemaParse

/-!
# The parser and its place

Source: `Parser` of `saffui-core/src/authz/relations/schema.rs`, with its index
into all of the lexemes and its counter of parentheses as the source has them.
Taking one from an index or a counter at zero is an outcome of its own, and so
is a loop that has turns left to make: no reading ends in either. What is read
is what the parser of `Schema`, which keeps the lexemes left, reads.
-/

namespace Saffui.Authz.Relations.Positions

/-- The parser, with the furthest place it stood at so far. -/
structure Cursor where
  lexemes : List Lexeme
  place : Nat
  nesting : Nat
  furthest : Nat

def Cursor.start (lexemes : List Lexeme) : Cursor :=
  { lexemes, place := 0, nesting := 0, furthest := 0 }

inductive Outcome (α : Type) where
  | read (value : α) (after : Cursor)
  | refused (fault : SchemaFault) (after : Cursor)
  /-- One was taken from zero. -/
  | underflow
  | outOfTurns

abbrev Reading (α : Type) := Cursor → Outcome α

namespace Reading

def pure {α : Type} (value : α) : Reading α := fun cursor => .read value cursor

def bind {α β : Type} (first : Reading α) (next : α → Reading β) : Reading β := fun cursor =>
  match first cursor with
  | .read value after => next value after
  | .refused fault after => .refused fault after
  | .underflow => .underflow
  | .outOfTurns => .outOfTurns

instance : Monad Reading where
  pure := Reading.pure
  bind := Reading.bind

def get : Reading Cursor := fun cursor => .read cursor cursor

end Reading

namespace Cursor

def peek (cursor : Cursor) : Option Lexeme := cursor.lexemes[cursor.place]?

def line (cursor : Cursor) : Nat :=
  ((cursor.peek <|> cursor.lexemes.getLast?).map (·.line)).getD 1

def fault (cursor : Cursor) (message : String) : SchemaFault := ⟨cursor.line, message⟩

def isMark (cursor : Cursor) (mark : Char) : Bool :=
  match cursor.peek with
  | some ⟨.mark found, _⟩ => found == mark
  | _ => false

def isWord (cursor : Cursor) (word : String) : Bool :=
  match cursor.peek with
  | some ⟨.name found, _⟩ => found == word
  | _ => false

def next (cursor : Cursor) : Cursor :=
  { cursor with place := cursor.place + 1, furthest := max cursor.furthest (cursor.place + 1) }

end Cursor

def refuse {α : Type} (message : String) : Reading α := fun cursor =>
  .refused (cursor.fault message) cursor

/-- `self.at += 1` -/
def advance : Reading Unit := fun cursor => .read () cursor.next

/-- `self.at -= 1` -/
def giveBack : Reading Unit := fun cursor =>
  if cursor.place = 0 then .underflow else .read () { cursor with place := cursor.place - 1 }

/-- `self.nesting += 1` -/
def openParenthesis : Reading Unit := fun cursor =>
  .read () { cursor with nesting := cursor.nesting + 1 }

/-- `self.nesting -= 1` -/
def closeParenthesis : Reading Unit := fun cursor =>
  if cursor.nesting = 0 then .underflow
  else .read () { cursor with nesting := cursor.nesting - 1 }

def takeName (what : String) : Reading (String × Nat) := do
  match (← Reading.get).peek with
  | some ⟨.name name, line⟩ =>
    advance
    return (name, line)
  | _ => refuse (what ++ " is expected")

def takeMark (mark : Char) : Reading Unit := do
  if (← Reading.get).isMark mark then advance
  else refuse ("`" ++ String.ofList [mark] ++ "` is expected")

def readSubject : Reading WrittenSubject := do
  let (objectType, line) ← takeName "the type of a subject"
  if (← Reading.get).isMark '#' then
    advance
    let (member, _) ← takeName "a member after `#`"
    return ⟨objectType, some member, line⟩
  return ⟨objectType, none, line⟩

/-- `while self.is_mark(mark)`, in so many turns at most. -/
def readJoined {α : Type} (mark : Char) (read : Reading α) : Nat → Reading (List α)
  | 0 => fun _ => .outOfTurns
  | turns + 1 => do
    if (← Reading.get).isMark mark then
      advance
      let one ← read
      return one :: (← readJoined mark read turns)
    return []

/-- More turns than a loop that takes a lexeme in each can make. -/
def Cursor.turns (cursor : Cursor) : Nat := cursor.lexemes.length + 1

def readTermOf (readExpression : Reading Expression) : Reading Expression := do
  if (← Reading.get).isMark '(' then
    if (← Reading.get).nesting == MAX_NESTING then
      refuse ("parentheses nest at most " ++ toString MAX_NESTING ++ " deep")
    else
      advance
      openParenthesis
      let inner ← readExpression
      takeMark ')'
      closeParenthesis
      return inner
  else
    let (name, line) ← takeName "a member"
    if (← Reading.get).isWord "from" then
      advance
      let (relation, _) ← takeName "a relation after `from`"
      return .arrow name relation line
    return .member name line

def readExpressionOf (readTerm : Reading Expression) : Reading Expression := do
  let first ← readTerm
  let cursor ← Reading.get
  if cursor.isMark '+' || cursor.isMark '&' then
    let joined := if cursor.isMark '+' then '+' else '&'
    let terms ← readJoined joined readTerm cursor.turns
    let cursor ← Reading.get
    if cursor.isMark '+' || cursor.isMark '&' then
      refuse "`+` and `&` do not mix without parentheses"
    else if joined == '+' then return .union (first :: terms)
    else return .intersection (first :: terms)
  else return first

/-- `read_expression` and `read_term` call each other, so many times at most. -/
def readExpression : Nat → Reading Expression
  | 0 => fun _ => .outOfTurns
  | turns + 1 => readExpressionOf (readTermOf (readExpression turns))

def readDeclaration : Reading Declaration := do
  let (keyword, _) ← takeName "`relation` or `permission`"
  if keyword = "relation" then readRelation
  else if keyword = "permission" then readPermission
  else
    giveBack
    refuse "`relation` or `permission` is expected"
where
  readRelation : Reading Declaration := do
    let (name, line) ← takeName "the name of a relation"
    takeMark ':'
    let first ← readSubject
    let subjects ← readJoined '|' readSubject (← Reading.get).turns
    return .relation name line (first :: subjects)
  readPermission : Reading Declaration := do
    let (name, line) ← takeName "the name of a permission"
    takeMark '='
    return .permission name line (← readExpression (MAX_NESTING + 1))

/-- `while !self.is_mark('\x7d')`, in so many turns at most. -/
def readDeclarations : Nat → Reading (List Declaration)
  | 0 => fun _ => .outOfTurns
  | turns + 1 => do
    let cursor ← Reading.get
    if cursor.isMark '\x7d' then return []
    else if cursor.peek.isNone then refuse "`\x7d` is expected"
    else
      let declaration ← readDeclaration
      return declaration :: (← readDeclarations turns)

def readDefinition : Reading Definition := do
  let (keyword, _) ← takeName "`definition`"
  if keyword = "definition" then readBody
  else
    giveBack
    refuse "`definition` is expected"
where
  readBody : Reading Definition := do
    let (name, line) ← takeName "the name of a type"
    takeMark '\x7b'
    let declarations ← readDeclarations (← Reading.get).turns
    takeMark '\x7d'
    return ⟨name, line, declarations⟩

/-- The loop of `skip_to_next_definition`, in so many turns at most. -/
def skipLoop : Nat → Nat → Cursor → Option Cursor
  | 0, _, _ => none
  | turns + 1, depth, cursor =>
    match cursor.peek with
    | none => some cursor
    | some lexeme =>
      match lexeme.token with
      | .mark '{' => skipLoop turns (depth + 1) cursor.next
      | .mark '}' => skipLoop turns (depth - 1) cursor.next
      | .name "definition" =>
        if depth = 0 then some cursor else skipLoop turns depth cursor.next
      | _ => skipLoop turns depth cursor.next

/-- Skips to the next `definition` at the top level, after a fault. -/
def skipToNextDefinition (cursor : Cursor) : Option Cursor :=
  skipLoop cursor.turns 0 { cursor.next with nesting := 0 }

/-- One turn of the loop of `compile_schema`: the definition read, or the fault
it left, and where the next turn begins. -/
structure Turn where
  before : Cursor
  told : Except SchemaFault Definition
  after : Cursor

def turn (cursor : Cursor) : Option Turn :=
  match readDefinition cursor with
  | .read definition after => some ⟨cursor, .ok definition, after⟩
  | .refused fault stopped =>
    (skipToNextDefinition stopped).map fun after => ⟨cursor, .error fault, after⟩
  | .underflow | .outOfTurns => none

/-- The turns of the loop from a place on, to the end of the lexemes. -/
inductive Turns : Cursor → List Turn → Prop where
  | ended {cursor : Cursor} (nothing : cursor.peek = none) : Turns cursor []
  | more {cursor : Cursor} {one : Turn} {rest : List Turn} {lexeme : Lexeme}
      (some_left : cursor.peek = some lexeme) (made : turn cursor = some one)
      (later : Turns one.after rest) : Turns cursor (one :: rest)

/-- The definitions of the turns, and their faults noted one after the other. -/
def Turn.definition? (one : Turn) : Option Definition :=
  match one.told with
  | .ok definition => some definition
  | .error _ => none

def Turn.note (faults : SchemaFaults) (one : Turn) : SchemaFaults :=
  match one.told with
  | .ok _ => faults
  | .error fault => faults.note fault

end Saffui.Authz.Relations.Positions
