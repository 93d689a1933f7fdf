import Mathlib.Data.List.Sort
import Mathlib.Data.Prod.Lex
import Mathlib.Order.WithBot
import Mathlib.Algebra.GroupWithZero.Nat
import Saffui.Json
import Saffui.Authz.Relations.Model

/-!
# The schema of relations, from its source to its compiled form

Source: `saffui-core/src/authz/relations/schema.rs`. A source is cut into
lexemes line by line, parsed by a descent with recovery at the next
definition, and compiled with every fault noted. A parser keeps the lexemes
it has yet to read in place of an index into all of them; moving the index
back by one is keeping the lexemes from before the read.

Each loop of the source runs here as often as there are lexemes left at most,
since each of its turns takes one; the descent into parentheses goes no
deeper than `MAX_NESTING`, which the counter of the parser checks.
-/

namespace Saffui.Authz.Relations
open Saffui.Foundation

def SCHEMA_MAX_BYTES : Nat := 64 * 1024

def SCHEMA_COMPILED_MAX_BYTES : Nat := 4 * SCHEMA_MAX_BYTES

def MAX_FAULTS_SHOWN : Nat := 100

def MAX_NESTING : Nat := 16

/-- A fault of a schema, at the line it is on. -/
structure SchemaFault where
  line : Nat
  message : String
  deriving DecidableEq, Repr

/-- The faults of a schema that does not compile: the first found, and how
many more were. -/
structure SchemaFaults where
  shown : List SchemaFault
  notShown : Nat
  deriving DecidableEq, Repr

def SchemaFaults.default : SchemaFaults := ⟨[], 0⟩

def SchemaFaults.note (faults : SchemaFaults) (fault : SchemaFault) : SchemaFaults :=
  if faults.shown.length < MAX_FAULTS_SHOWN then
    { faults with shown := faults.shown ++ [fault] }
  else { faults with notShown := faults.notShown + 1 }

def SchemaFaults.one (fault : SchemaFault) : SchemaFaults := ⟨[fault], 0⟩

/-- Whether a text may name a type or a member: a lowercase letter, then up to
63 lowercase letters, digits or underscores. -/
def isSchemaName (text : String) : Bool :=
  match text.toList with
  | [] => false
  | first :: rest =>
    Text.isAsciiLowercase first && text.utf8ByteSize ≤ 64 && rest.all fun character =>
      Text.isAsciiLowercase character || Text.isAsciiDigit character || character == '_'

inductive Token where
  | name (text : String)
  | mark (character : Char)
  deriving DecidableEq, Repr

structure Lexeme where
  token : Token
  line : Nat
  deriving DecidableEq, Repr

def MARKS : List Char := ['{', '}', '(', ')', ':', '|', '#', '+', '&', '=']

def isNameCharacter (character : Char) : Bool :=
  Text.isAsciiAlphanumeric character || character == '_'

/-- What is before the first `//` of a line. -/
def dropComment : List Char → List Char
  | '/' :: '/' :: _ => []
  | character :: rest => character :: dropComment rest
  | [] => []

/-- The lexemes of one line, its comment dropped. A name is read character by
character: `name` holds those of the one being read, the last of them first. -/
def readLine (line : Nat) : List Char → List Char → Except SchemaFault (List Lexeme)
  | name, [] => .ok (endName line name)
  | name, character :: rest =>
    if isNameCharacter character then readLine line (character :: name) rest
    else if Text.isWhitespace character then do
      return endName line name ++ (← readLine line [] rest)
    else if character ∈ MARKS then do
      return endName line name ++ ⟨.mark character, line⟩ :: (← readLine line [] rest)
    else .error ⟨line, "`" ++ String.ofList [character] ++ "` has no meaning here"⟩
where
  endName (line : Nat) : List Char → List Lexeme
    | [] => []
    | name => [⟨.name (String.ofList name.reverse), line⟩]

/-- The lexemes of lines, the first of them numbered. -/
def readLines : Nat → List (List Char) → Except SchemaFault (List Lexeme)
  | _, [] => .ok []
  | line, text :: rest =>
    match text.find? Text.isUnshowable with
    | some unshowable =>
      .error ⟨line, "U+" ++ Text.writeHex4 unshowable.toNat ++ " cannot be shown"⟩
    | none => do
      let lexemes ← readLine line [] (dropComment text)
      return lexemes ++ (← readLines (line + 1) rest)

def readLexemes (source : String) : Except SchemaFault (List Lexeme) :=
  readLines 1 (Text.lines source.toList)

inductive Expression where
  | member (name : String) (line : Nat)
  | arrow (member relation : String) (line : Nat)
  | union (terms : List Expression)
  | intersection (terms : List Expression)
  deriving Repr

/-- A subject as it is written: a type, a member of it, and its line. -/
structure WrittenSubject where
  objectType : String
  member : Option String
  line : Nat
  deriving DecidableEq, Repr

inductive Declaration where
  | relation (name : String) (line : Nat) (subjects : List WrittenSubject)
  | permission (name : String) (line : Nat) (expression : Expression)
  deriving Repr

structure Definition where
  name : String
  line : Nat
  declarations : List Declaration
  deriving Repr

/-- The lexemes left to read, the line of the last of all of them, and how
many parentheses are open where the parser stands. -/
structure Parser where
  lexemes : List Lexeme
  lastLine : Nat
  nesting : Nat
  deriving DecidableEq, Repr

/-- A reading of the parser: what it read, or its fault and where it stood. -/
abbrev Parsed (α : Type) := Parser → Except (SchemaFault × Parser) (α × Parser)

namespace Parsed

def pure {α : Type} (value : α) : Parsed α := fun parser => .ok (value, parser)

def bind {α β : Type} (first : Parsed α) (next : α → Parsed β) : Parsed β := fun parser =>
  match first parser with
  | .ok (value, after) => next value after
  | .error fault => .error fault

instance : Monad Parsed where
  pure := Parsed.pure
  bind := Parsed.bind

def get : Parsed Parser := fun parser => .ok (parser, parser)

def modify (change : Parser → Parser) : Parsed Unit := fun parser => .ok ((), change parser)

end Parsed

def Parser.line (parser : Parser) : Nat :=
  match parser.lexemes with
  | lexeme :: _ => lexeme.line
  | [] => parser.lastLine

def Parser.fault (parser : Parser) (message : String) : SchemaFault := ⟨parser.line, message⟩

def refuse {α : Type} (message : String) : Parsed α := fun parser =>
  .error (parser.fault message, parser)

/-- Moves past one lexeme. -/
def advance : Parsed Unit :=
  .modify fun parser => { parser with lexemes := parser.lexemes.tail }

def takeName (what : String) : Parsed (String × Nat) := fun parser =>
  match parser.lexemes with
  | ⟨.name name, line⟩ :: rest => .ok ((name, line), { parser with lexemes := rest })
  | _ => .error (parser.fault (what ++ " is expected"), parser)

def Parser.isMark (parser : Parser) (mark : Char) : Bool :=
  match parser.lexemes with
  | ⟨.mark found, _⟩ :: _ => found == mark
  | _ => false

def Parser.isWord (parser : Parser) (word : String) : Bool :=
  match parser.lexemes with
  | ⟨.name found, _⟩ :: _ => found == word
  | _ => false

def takeMark (mark : Char) : Parsed Unit := do
  if (← Parsed.get).isMark mark then advance
  else refuse ("`" ++ String.ofList [mark] ++ "` is expected")

def readSubject : Parsed WrittenSubject := do
  let (objectType, line) ← takeName "the type of a subject"
  if (← Parsed.get).isMark '#' then
    advance
    let (member, _) ← takeName "a member after `#`"
    return ⟨objectType, some member, line⟩
  return ⟨objectType, none, line⟩

/-- Reads on while a mark joins: `while self.is_mark(mark)`. -/
def readJoined {α : Type} (mark : Char) (read : Parsed α) : Nat → Parsed (List α)
  | 0 => return []
  | turns + 1 => do
    if (← Parsed.get).isMark mark then
      advance
      let one ← read
      return one :: (← readJoined mark read turns)
    return []

def readTermOf (readExpression : Option (Parsed Expression)) : Parsed Expression := do
  if (← Parsed.get).isMark '(' then
    if (← Parsed.get).nesting == MAX_NESTING then
      refuse ("parentheses nest at most " ++ toString MAX_NESTING ++ " deep")
    else
      match readExpression with
      | none => refuse ("parentheses nest at most " ++ toString MAX_NESTING ++ " deep")
      | some readExpression =>
        advance
        Parsed.modify fun parser => { parser with nesting := parser.nesting + 1 }
        let inner ← readExpression
        takeMark ')'
        Parsed.modify fun parser => { parser with nesting := parser.nesting - 1 }
        return inner
  else
    let (name, line) ← takeName "a member"
    if (← Parsed.get).isWord "from" then
      advance
      let (relation, _) ← takeName "a relation after `from`"
      return .arrow name relation line
    return .member name line

def readExpressionOf (readTerm : Parsed Expression) : Parsed Expression := do
  let first ← readTerm
  let parser ← Parsed.get
  if parser.isMark '+' || parser.isMark '&' then
    let joined := if parser.isMark '+' then '+' else '&'
    let terms ← readJoined joined readTerm parser.lexemes.length
    let parser ← Parsed.get
    if parser.isMark '+' || parser.isMark '&' then
      refuse "`+` and `&` do not mix without parentheses"
    else if joined == '+' then return .union (first :: terms)
    else return .intersection (first :: terms)
  else return first

/-- Reads an expression with a bounded number of parentheses left to open. -/
def readExpression : Nat → Parsed Expression
  | 0 => readExpressionOf (readTermOf none)
  | depth + 1 => readExpressionOf (readTermOf (some (readExpression depth)))

def readDeclaration : Parsed Declaration := fun parser =>
  match takeName "`relation` or `permission`" parser with
  | .error fault => .error fault
  | .ok ((keyword, _), after) =>
    if keyword = "relation" then readRelation after
    else if keyword = "permission" then readPermission after
    else .error (parser.fault "`relation` or `permission` is expected", parser)
where
  readRelation : Parsed Declaration := do
    let (name, line) ← takeName "the name of a relation"
    takeMark ':'
    let first ← readSubject
    let subjects ← readJoined '|' readSubject (← Parsed.get).lexemes.length
    return .relation name line (first :: subjects)
  readPermission : Parsed Declaration := do
    let (name, line) ← takeName "the name of a permission"
    takeMark '='
    return .permission name line (← readExpression MAX_NESTING)

/-- Reads declarations up to the brace that ends them. -/
def readDeclarations : Nat → Parsed (List Declaration)
  | 0 => fun parser =>
    if parser.isMark '}' then .ok ([], parser)
    else .error (parser.fault "`\x7d` is expected", parser)
  | turns + 1 => do
    let parser ← Parsed.get
    if parser.isMark '}' then return []
    else if parser.lexemes.isEmpty then refuse "`\x7d` is expected"
    else
      let declaration ← readDeclaration
      return declaration :: (← readDeclarations turns)

def readDefinition : Parsed Definition := fun parser =>
  match takeName "`definition`" parser with
  | .error fault => .error fault
  | .ok ((keyword, _), after) =>
    if keyword = "definition" then readBody after
    else .error (parser.fault "`definition` is expected", parser)
where
  readBody : Parsed Definition := do
    let (name, line) ← takeName "the name of a type"
    takeMark '{'
    let declarations ← readDeclarations (← Parsed.get).lexemes.length
    takeMark '}'
    return ⟨name, line, declarations⟩

/-- The lexemes from the next `definition` outside braces on. -/
def skipLexemes : Nat → List Lexeme → List Lexeme
  | _, [] => []
  | depth, lexeme :: rest =>
    match lexeme.token with
    | .mark '{' => skipLexemes (depth + 1) rest
    | .mark '}' => skipLexemes (depth - 1) rest
    | .name "definition" => if depth = 0 then lexeme :: rest else skipLexemes depth rest
    | _ => skipLexemes depth rest

/-- Skips to the next `definition` at the top level, after a fault. -/
def skipToNextDefinition (parser : Parser) : Parser :=
  { parser with lexemes := skipLexemes 0 parser.lexemes.tail, nesting := 0 }

/-- Reads every definition, and notes the fault of each that does not read. -/
def readDefinitions : Nat → Parser → SchemaFaults → List Definition × SchemaFaults
  | 0, _, faults => ([], faults)
  | turns + 1, parser, faults =>
    if parser.lexemes.isEmpty then ([], faults)
    else
      match readDefinition parser with
      | .ok (definition, after) =>
        let (definitions, told) := readDefinitions turns after faults
        (definition :: definitions, told)
      | .error (fault, stopped) =>
        readDefinitions turns (skipToNextDefinition stopped) (faults.note fault)

def Parser.start (lexemes : List Lexeme) : Parser where
  lexemes := lexemes
  lastLine := (lexemes.getLast?.map (·.line)).getD 1
  nesting := 0

def Declaration.name : Declaration → String
  | .relation name _ _ => name
  | .permission name _ _ => name

def Declaration.line : Declaration → Nat
  | .relation _ line _ => line
  | .permission _ line _ => line

/-- The first definition of a name. -/
def findDefinition (definitions : List Definition) (objectType : String) : Option Definition :=
  definitions.find? fun definition => definition.name == objectType

def hasMember (definition : Definition) (member : String) : Bool :=
  definition.declarations.any fun declaration => declaration.name == member

def findRelation (definition : Definition) (relation : String) : Option (List WrittenSubject) :=
  definition.declarations.findSome? fun
    | .relation name _ subjects => if name == relation then some subjects else none
    | .permission .. => none

def quote (text : String) : String := "`" ++ text ++ "`"

/-- The types of the objects a relation names themselves. -/
def listObjectTypes (subjects : List WrittenSubject) : List String :=
  (subjects.filter fun subject => subject.member.isNone).map (·.objectType)

/-- The faults of an arrow: no relation to walk, none of its subjects an
object, or objects without the member. -/
def checkArrow (definitions : List Definition) (definition : Definition) (member relation : String)
    (line : Nat) : List SchemaFault :=
  match findRelation definition relation with
  | none => [⟨line, quote definition.name ++ " has no relation " ++ quote relation ++ " to walk"⟩]
  | some subjects =>
    (if (listObjectTypes subjects).isEmpty then
      [⟨line, quote relation ++ " names no object to walk to"⟩] else []) ++
    (listObjectTypes subjects).flatMap fun objectType =>
      match findDefinition definitions objectType with
      | some target =>
        if hasMember target member then []
        else [⟨line, quote objectType ++ " has no member " ++ quote member⟩]
      | none => []

mutual

/-- The rule of an expression, and the faults noted on the way. -/
def compileExpression (definitions : List Definition) (definition : Definition) :
    Expression → Rule × List SchemaFault
  | .member name line =>
    (.computed name,
      if hasMember definition name then []
      else [⟨line, quote definition.name ++ " has no member " ++ quote name⟩])
  | .arrow member relation line =>
    (.arrow relation member, checkArrow definitions definition member relation line)
  | .union terms =>
    let (rules, faults) := compileTerms definitions definition terms []
    (.union rules, faults)
  | .intersection terms =>
    let (rules, faults) := compileTerms definitions definition terms []
    (.intersection rules, faults)

/-- Each term of a sum or an intersection once, where it first comes. -/
def compileTerms (definitions : List Definition) (definition : Definition) :
    List Expression → List Rule → List Rule × List SchemaFault
  | [], rules => (rules, [])
  | term :: terms, rules =>
    let (rule, faults) := compileExpression definitions definition term
    let (all, more) := compileTerms definitions definition terms
      (if rule ∈ rules then rules else rules ++ [rule])
    (all, faults ++ more)

end

/-- The order of subjects: by type, and the objects of a type themselves
before the members of theirs. -/
def AllowedSubject.key (subject : AllowedSubject) : String ×ₗ WithBot String :=
  toLex (subject.objectType, subject.member)

theorem AllowedSubject.key_injective : Function.Injective AllowedSubject.key := by
  rintro ⟨leftType, left⟩ ⟨rightType, right⟩ same
  simp only [AllowedSubject.key, EmbeddingLike.apply_eq_iff_eq] at same
  obtain ⟨rfl, rfl⟩ := same
  rfl

instance : LinearOrder AllowedSubject :=
  LinearOrder.lift' AllowedSubject.key AllowedSubject.key_injective

/-- Subjects each once and in their order, as a `BTreeSet` gives them back. -/
def sortSubjects (subjects : List AllowedSubject) : List AllowedSubject :=
  (subjects.foldl (fun allowed subject => allowed.insert subject ())
    (SortedMap.empty : SortedMap AllowedSubject Unit)).keys

def WrittenSubject.allowed (subject : WrittenSubject) : AllowedSubject :=
  ⟨subject.objectType, subject.member⟩

/-- The faults of a subject: no such type, or no such member of it. -/
def checkSubject (definitions : List Definition) (subject : WrittenSubject) : List SchemaFault :=
  match findDefinition definitions subject.objectType, subject.member with
  | none, _ => [⟨subject.line, "no type is named " ++ quote subject.objectType⟩]
  | some target, some member =>
    if hasMember target member then []
    else [⟨subject.line, quote subject.objectType ++ " has no member " ++ quote member⟩]
  | some _, none => []

/-- One declaration of a type: what it adds, and the faults noted. -/
def compileDeclaration (definitions : List Definition) (definition : Definition)
    (compiled : ObjectType) : Declaration → ObjectType × List SchemaFault
  | .relation name _ subjects =>
    let allowed := sortSubjects (subjects.map WrittenSubject.allowed)
    ({ compiled with relations := compiled.relations.insert name allowed },
      subjects.flatMap (checkSubject definitions))
  | .permission name _ expression =>
    let (rule, faults) := compileExpression definitions definition expression
    ({ compiled with permissions := compiled.permissions.insert name rule }, faults)

def compileDeclarations (definitions : List Definition) (definition : Definition) :
    List Declaration → ObjectType → List String → ObjectType × List SchemaFault
  | [], compiled, _ => (compiled, [])
  | declaration :: rest, compiled, seen =>
    let named := if isSchemaName declaration.name then []
      else [⟨declaration.line, quote declaration.name ++ " cannot name a member"⟩]
    let twice := if declaration.name ∈ seen then
      [⟨declaration.line, quote definition.name ++ " declares " ++ quote declaration.name ++
        " twice"⟩] else []
    let (added, faults) := compileDeclaration definitions definition compiled declaration
    let (all, more) := compileDeclarations definitions definition rest added
      (declaration.name :: seen)
    (all, named ++ twice ++ faults ++ more)

def compileType (definitions : List Definition) (definition : Definition) :
    ObjectType × List SchemaFault :=
  compileDeclarations definitions definition definition.declarations .default []

mutual

/-- The members of the same object a rule is computed from. -/
def Rule.collect : Rule → List String
  | .computed member => [member]
  | .arrow _ _ => []
  | .union rules => Rule.collectAll rules
  | .intersection rules => Rule.collectAll rules

def Rule.collectAll : List Rule → List String
  | [] => []
  | rule :: rules => rule.collect ++ Rule.collectAll rules

end

/-- The members to look at next that were not seen, pushed on the stack as
they come, and the members seen with them. -/
def pushUnseen : List String → List String → List String → List String × List String
  | [], stack, seen => (stack, seen)
  | member :: next, stack, seen =>
    if member ∈ seen then pushUnseen next stack seen
    else pushUnseen next (member :: stack) (member :: seen)

/-- Whether a walk over what permissions are computed from comes back to
`start`. A member is pushed once, so the walk takes no more turns than the
permissions name members, and one. -/
def comesBack (permissions : SortedMap String Rule) (start : String) :
    Nat → List String → List String → Bool
  | 0, _, _ => false
  | _ + 1, [], _ => false
  | turns + 1, member :: stack, seen =>
    match permissions.get? member with
    | none => comesBack permissions start turns stack seen
    | some rule =>
      if start ∈ rule.collect then true
      else
        let (pushed, known) := pushUnseen rule.collect stack seen
        comesBack permissions start turns pushed known

/-- How many turns the search of a cycle takes at most. -/
def countTurns (permissions : SortedMap String Rule) : Nat :=
  (permissions.entries.map fun entry => entry.2.collect.length).sum + 1

/-- Refuses a permission that computes itself on the same object: it would
never be decided. -/
def findCycles (definition : Definition) (compiled : ObjectType) : List SchemaFault :=
  definition.declarations.flatMap fun
    | .permission start line _ =>
      if comesBack compiled.permissions start (countTurns compiled.permissions) [start] [] then
        [⟨line, quote start ++ " is computed from itself"⟩]
      else []
    | .relation .. => []

/-- Compiles each definition in turn, and notes what is wrong with it. -/
def compileDefinitions (definitions : List Definition) :
    List Definition → SortedMap String ObjectType → SortedMap String ObjectType × List SchemaFault
  | [], types => (types, [])
  | definition :: rest, types =>
    let named := if isSchemaName definition.name then []
      else [⟨definition.line, quote definition.name ++ " cannot name a type"⟩]
    let (objectType, faults) := compileType definitions definition
    let cycles := findCycles definition objectType
    let twice := if (types.get? definition.name).isSome then
      [⟨definition.line, quote definition.name ++ " is defined twice"⟩] else []
    let (all, more) := compileDefinitions definitions rest
      (types.insert definition.name objectType)
    (all, named ++ faults ++ cycles ++ twice ++ more)

def AllowedSubject.toJson (subject : AllowedSubject) : Json :=
  match subject.member with
  | none => .object [("object_type", .string subject.objectType)]
  | some member => .object [("member", .string member), ("object_type", .string subject.objectType)]

mutual

def Rule.toJson : Rule → Json
  | .computed member => .object [("kind", .string "computed"), ("member", .string member)]
  | .arrow relation member =>
    .object [("kind", .string "arrow"), ("member", .string member), ("relation", .string relation)]
  | .union rules => .object [("kind", .string "union"), ("rules", .array (Rule.toJsons rules))]
  | .intersection rules =>
    .object [("kind", .string "intersection"), ("rules", .array (Rule.toJsons rules))]

def Rule.toJsons : List Rule → List Json
  | [] => []
  | rule :: rules => rule.toJson :: Rule.toJsons rules

end

def ObjectType.toJson (found : ObjectType) : Json :=
  .object [("permissions", Json.ofMap found.permissions Rule.toJson),
    ("relations", Json.ofMap found.relations fun allowed =>
      .array (allowed.map AllowedSubject.toJson))]

/-- The document of a compiled form, its members in the order of their keys.
Written in the order of its fields instead, it is as long. -/
def CompiledSchema.toJson (schema : CompiledSchema) : Json :=
  .object [("types", Json.ofMap schema.types ObjectType.toJson),
    ("version", .number (.posInt schema.version))]

/-- The length of the compiled form in compact JSON, which holds no float. -/
def CompiledSchema.writtenLength (schema : CompiledSchema) : Nat :=
  (schema.toJson.write fun _ => "").utf8ByteSize

/-- Faults noted one after the other. -/
def SchemaFaults.noteAll (faults : SchemaFaults) (more : List SchemaFault) : SchemaFaults :=
  more.foldl SchemaFaults.note faults

/-- Compiles a schema. Every fault found is told, each at its line. -/
def compileSchema (source : String) : Except SchemaFaults CompiledSchema := do
  if source.utf8ByteSize > SCHEMA_MAX_BYTES then
    throw (.one ⟨1, "a schema is at most " ++ toString SCHEMA_MAX_BYTES ++ " bytes"⟩)
  let lexemes ← (readLexemes source).mapError SchemaFaults.one
  let (definitions, unread) := readDefinitions lexemes.length (.start lexemes) .default
  let (types, meant) := compileDefinitions definitions definitions .empty
  let faults := unread.noteAll meant
  if !faults.shown.isEmpty then
    throw { faults with
      shown := faults.shown.insertionSort fun left right => left.line ≤ right.line }
  let schema : CompiledSchema := { version := COMPILED_VERSION, types }
  if schema.writtenLength > SCHEMA_COMPILED_MAX_BYTES then
    throw (.one ⟨1, "a schema compiles to at most " ++ toString SCHEMA_COMPILED_MAX_BYTES ++
      " bytes"⟩)
  return schema

end Saffui.Authz.Relations
