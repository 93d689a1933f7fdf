import Mathlib.Logic.Relation
import Saffui.Authz.Relations.Denotation
import Saffui.Authz.Relations.Schema

/-!
# The language of schemas

What a schema is apart from its text: the types it defines, their relations
and the formulas of their permissions. `Derives` is the grammar of
`schema.rs`, one rule for each of its productions, with the depth of
parentheses it may still open; `Lexed` says which tokens a text is made of,
and `Layout` how a text is laid out from tokens with blanks, line breaks and
comments. `WellFormed` collects the rules a schema keeps, and `stands` is what
its members mean.

A derivation takes tokens from the front of a list and names the tokens it
leaves, so that each rule reads as its production.
-/

namespace Saffui.Authz.Relations
open Saffui.Foundation

/-- A permission as it is meant. -/
inductive Formula where
  | member (name : String)
  | arrow (member relation : String)
  | any (terms : List Formula)
  | all (terms : List Formula)

/-- A relation or a permission of a type. -/
inductive Clause where
  | relation (name : String) (subjects : List AllowedSubject)
  | permission (name : String) (formula : Formula)

def Clause.name : Clause → String
  | .relation name _ => name
  | .permission name _ => name

structure TypeClauses where
  name : String
  clauses : List Clause

/-- A schema apart from its text. -/
abbrev AbstractSchema := List TypeClauses

/-- A text does not go on with a character of a name. -/
def EndsName (rest : List Char) : Prop :=
  ∀ character ∈ rest.head?, isNameCharacter character = false

/-- The tokens of the code of one line: names as long as they go, marks, and
blanks between them. -/
inductive LexedLine : List Char → List Token → Prop where
  | nil : LexedLine [] []
  | blank {character : Char} {rest : List Char} {tokens : List Token}
      (white : Text.isWhitespace character = true) (more : LexedLine rest tokens) :
      LexedLine (character :: rest) tokens
  | mark {character : Char} {rest : List Char} {tokens : List Token}
      (known : character ∈ MARKS) (more : LexedLine rest tokens) :
      LexedLine (character :: rest) (.mark character :: tokens)
  | name {name rest : List Char} {tokens : List Token} (some : name ≠ [])
      (named : ∀ character ∈ name, isNameCharacter character = true) (ends : EndsName rest)
      (more : LexedLine rest tokens) :
      LexedLine (name ++ rest) (.name (String.ofList name) :: tokens)

/-- The tokens of lines, none of which holds what cannot be shown. -/
inductive LexedLines : List (List Char) → List Token → Prop where
  | nil : LexedLines [] []
  | line {text : List Char} {rest : List (List Char)} {tokens more : List Token}
      (showable : ∀ character ∈ text, Text.isUnshowable character = false)
      (code : LexedLine (dropComment text) tokens) (lines : LexedLines rest more) :
      LexedLines (text :: rest) (tokens ++ more)

/-- The tokens a text is made of. -/
def Lexed (source : List Char) (tokens : List Token) : Prop :=
  LexedLines (Text.lines source) tokens

/-- A line break. -/
inductive LineBreak : List Char → Prop where
  | feed : LineBreak ['\n']
  | returned : LineBreak ['\r', '\n']

/-- What may stand between two tokens: blanks that can be shown, line breaks,
and comments up to a line break. -/
inductive Gap : List Char → Prop where
  | nil : Gap []
  | blank {character : Char} {rest : List Char} (white : Text.isWhitespace character = true)
      (showable : Text.isUnshowable character = false) (more : Gap rest) :
      Gap (character :: rest)
  | line {ending rest : List Char} (breaks : LineBreak ending) (more : Gap rest) :
      Gap (ending ++ rest)
  | comment {text ending rest : List Char}
      (showable : ∀ character ∈ text, Text.isUnshowable character = false)
      (breaks : LineBreak ending) (more : Gap rest) :
      Gap ('/' :: '/' :: text ++ (ending ++ rest))

/-- What may stand after the last token: a gap, and a comment no line break
ends. -/
inductive LastGap : List Char → Prop where
  | gap {text : List Char} (gap : Gap text) : LastGap text
  | comment {gap text : List Char} (before : Gap gap)
      (showable : ∀ character ∈ text, Text.isUnshowable character = false) :
      LastGap (gap ++ '/' :: '/' :: text)

/-- A text laid out from tokens. Two names are kept apart. -/
inductive Layout : List Token → List Char → Prop where
  | done {text : List Char} (gap : LastGap text) : Layout [] text
  | mark {character : Char} {tokens : List Token} {gap rest : List Char} (before : Gap gap)
      (known : character ∈ MARKS) (more : Layout tokens rest) :
      Layout (.mark character :: tokens) (gap ++ character :: rest)
  | name {name : String} {tokens : List Token} {gap rest : List Char} (before : Gap gap)
      (some : name.toList ≠ [])
      (named : ∀ character ∈ name.toList, isNameCharacter character = true)
      (apart : EndsName rest) (more : Layout tokens rest) :
      Layout (.name name :: tokens) (gap ++ (name.toList ++ rest))

/-- `subject := NAME ("#" NAME)?` -/
inductive DerivesSubject : List Token → AllowedSubject → List Token → Prop where
  | object {objectType : String} {rest : List Token} :
      DerivesSubject (.name objectType :: rest) ⟨objectType, none⟩ rest
  | member {objectType member : String} {rest : List Token} :
      DerivesSubject (.name objectType :: .mark '#' :: .name member :: rest)
        ⟨objectType, some member⟩ rest

/-- `(mark one)*` -/
inductive DerivesJoined {α : Type} (mark : Char) (one : List Token → α → List Token → Prop) :
    List Token → List α → List Token → Prop where
  | nil {rest : List Token} : DerivesJoined mark one rest [] rest
  | cons {tokens between rest : List Token} {value : α} {values : List α}
      (first : one tokens value between) (more : DerivesJoined mark one between values rest) :
      DerivesJoined mark one (.mark mark :: tokens) (value :: values) rest

/-- `term := NAME ("from" NAME)? | "(" expression ")"` -/
inductive DerivesTerm (inner : List Token → Formula → List Token → Prop) :
    List Token → Formula → List Token → Prop where
  | member {name : String} {rest : List Token} :
      DerivesTerm inner (.name name :: rest) (.member name) rest
  | arrow {member relation : String} {rest : List Token} :
      DerivesTerm inner (.name member :: .name "from" :: .name relation :: rest)
        (.arrow member relation) rest
  | parentheses {tokens rest : List Token} {formula : Formula}
      (within : inner tokens formula (.mark ')' :: rest)) :
      DerivesTerm inner (.mark '(' :: tokens) formula rest

/-- `expression := term ("+" term)* | term ("&" term)*` -/
inductive DerivesExpression (term : List Token → Formula → List Token → Prop) :
    List Token → Formula → List Token → Prop where
  | term {tokens rest : List Token} {formula : Formula} (alone : term tokens formula rest) :
      DerivesExpression term tokens formula rest
  | sum {tokens between rest : List Token} {first second : Formula} {more : List Formula}
      (one : term tokens first between)
      (joined : DerivesJoined '+' term between (second :: more) rest) :
      DerivesExpression term tokens (.any (first :: second :: more)) rest
  | intersection {tokens between rest : List Token} {first second : Formula}
      {more : List Formula} (one : term tokens first between)
      (joined : DerivesJoined '&' term between (second :: more) rest) :
      DerivesExpression term tokens (.all (first :: second :: more)) rest

/-- An expression whose parentheses nest no deeper than given. -/
def DerivesFormula : Nat → List Token → Formula → List Token → Prop
  | 0 => DerivesExpression (DerivesTerm fun _ _ _ => False)
  | depth + 1 => DerivesExpression (DerivesTerm (DerivesFormula depth))

/-- `relation := "relation" NAME ":" subject ("|" subject)*` and
`permission := "permission" NAME "=" expression` -/
inductive DerivesClause : List Token → Clause → List Token → Prop where
  | relation {name : String} {tokens between rest : List Token} {subject : AllowedSubject}
      {subjects : List AllowedSubject} (first : DerivesSubject tokens subject between)
      (more : DerivesJoined '|' DerivesSubject between subjects rest) :
      DerivesClause (.name "relation" :: .name name :: .mark ':' :: tokens)
        (.relation name (subject :: subjects)) rest
  | permission {name : String} {tokens rest : List Token} {formula : Formula}
      (expression : DerivesFormula MAX_NESTING tokens formula rest) :
      DerivesClause (.name "permission" :: .name name :: .mark '=' :: tokens)
        (.permission name formula) rest

/-- `(relation | permission)* "}"` -/
inductive DerivesClauses : List Token → List Clause → List Token → Prop where
  | nil {rest : List Token} : DerivesClauses (.mark '}' :: rest) [] rest
  | cons {tokens between rest : List Token} {clause : Clause} {clauses : List Clause}
      (first : DerivesClause tokens clause between)
      (more : DerivesClauses between clauses rest) :
      DerivesClauses tokens (clause :: clauses) rest

/-- `schema := ("definition" NAME "{" (relation | permission)* "}")*` -/
inductive Derives : List Token → AbstractSchema → Prop where
  | nil : Derives [] []
  | cons {name : String} {tokens rest : List Token} {clauses : List Clause}
      {schema : AbstractSchema} (body : DerivesClauses tokens clauses rest)
      (more : Derives rest schema) :
      Derives (.name "definition" :: .name name :: .mark '{' :: tokens)
        (⟨name, clauses⟩ :: schema)

def TypeClauses.has (type : TypeClauses) (member : String) : Prop :=
  ∃ clause ∈ type.clauses, clause.name = member

mutual

/-- The members of the same object a formula names. -/
def Formula.members : Formula → List String
  | .member name => [name]
  | .arrow _ _ => []
  | .any terms => Formula.membersAll terms
  | .all terms => Formula.membersAll terms

def Formula.membersAll : List Formula → List String
  | [] => []
  | term :: terms => term.members ++ Formula.membersAll terms

end

mutual

/-- The arrows of a formula, each the member and the relation it walks. -/
def Formula.arrows : Formula → List (String × String)
  | .member _ => []
  | .arrow target relation => [(target, relation)]
  | .any terms => Formula.arrowsAll terms
  | .all terms => Formula.arrowsAll terms

def Formula.arrowsAll : List Formula → List (String × String)
  | [] => []
  | term :: terms => term.arrows ++ Formula.arrowsAll terms

end

/-- A permission of a type is computed from a member of the same object. -/
def TypeClauses.computes (type : TypeClauses) (permission member : String) : Prop :=
  ∃ formula, .permission permission formula ∈ type.clauses ∧ member ∈ formula.members

/-- An arrow of a type walks a relation of it that names objects, each of a
type that has the member. -/
def AbstractSchema.walks (schema : AbstractSchema) (type : TypeClauses)
    (member relation : String) : Prop :=
  ∃ subjects, .relation relation subjects ∈ type.clauses ∧
    (∃ subject ∈ subjects, subject.member = none) ∧
    ∀ subject ∈ subjects, subject.member = none → ∀ target ∈ schema,
      target.name = subject.objectType → target.has member

/-- The rules a schema keeps beyond its grammar. -/
structure AbstractSchema.WellFormed (schema : AbstractSchema) : Prop where
  typeNames : ∀ type ∈ schema, isSchemaName type.name = true
  typesOnce : (schema.map (·.name)).Nodup
  memberNames : ∀ type ∈ schema, ∀ clause ∈ type.clauses, isSchemaName clause.name = true
  membersOnce : ∀ type ∈ schema, (type.clauses.map Clause.name).Nodup
  subjects : ∀ type ∈ schema, ∀ name subjects, .relation name subjects ∈ type.clauses →
    ∀ subject ∈ subjects, ∃ target ∈ schema, target.name = subject.objectType ∧
      ∀ member ∈ subject.member, target.has member
  members : ∀ type ∈ schema, ∀ name formula, .permission name formula ∈ type.clauses →
    ∀ member ∈ formula.members, type.has member
  arrows : ∀ type ∈ schema, ∀ name formula, .permission name formula ∈ type.clauses →
    ∀ arrow ∈ formula.arrows, schema.walks type arrow.1 arrow.2
  /-- No permission is computed from itself on the same object. -/
  acyclic : ∀ type ∈ schema, ∀ name, ¬ Relation.TransGen type.computes name name

mutual

/-- Whether a formula holds of an object, given what stands and where arrows
lead: a sum is a union, an intersection an intersection. -/
def Formula.holds (leads : ObjectRef → String → ObjectRef → Prop) (stands : Set Place)
    (object : ObjectRef) : Formula → Prop
  | .member name => (object, name) ∈ stands
  | .arrow named relation => ∃ target, leads object relation target ∧ (target, named) ∈ stands
  | .any terms => Formula.holdsSome leads stands object terms
  | .all terms => Formula.holdsEvery leads stands object terms

def Formula.holdsSome (leads : ObjectRef → String → ObjectRef → Prop) (stands : Set Place)
    (object : ObjectRef) : List Formula → Prop
  | [] => False
  | term :: terms => term.holds leads stands object ∨ Formula.holdsSome leads stands object terms

def Formula.holdsEvery (leads : ObjectRef → String → ObjectRef → Prop) (stands : Set Place)
    (object : ObjectRef) : List Formula → Prop
  | [] => True
  | term :: terms => term.holds leads stands object ∧ Formula.holdsEvery leads stands object terms

end

mutual

theorem Formula.holds_mono {leads : ObjectRef → String → ObjectRef → Prop} {less more : Set Place}
    (wider : less ⊆ more) (object : ObjectRef) :
    ∀ formula : Formula, formula.holds leads less object → formula.holds leads more object
  | .member _, held => wider held
  | .arrow _ _, held => by
    obtain ⟨target, led, inside⟩ := held
    exact ⟨target, led, wider inside⟩
  | .any terms, held => Formula.holdsSome_mono wider object terms held
  | .all terms, held => Formula.holdsEvery_mono wider object terms held

theorem Formula.holdsSome_mono {leads : ObjectRef → String → ObjectRef → Prop}
    {less more : Set Place} (wider : less ⊆ more) (object : ObjectRef) :
    ∀ terms : List Formula, Formula.holdsSome leads less object terms →
      Formula.holdsSome leads more object terms
  | term :: terms, held => by
    rcases held with here | there
    · exact Or.inl (Formula.holds_mono wider object term here)
    · exact Or.inr (Formula.holdsSome_mono wider object terms there)

theorem Formula.holdsEvery_mono {leads : ObjectRef → String → ObjectRef → Prop}
    {less more : Set Place} (wider : less ⊆ more) (object : ObjectRef) :
    ∀ terms : List Formula, Formula.holdsEvery leads less object terms →
      Formula.holdsEvery leads more object terms
  | [], _ => trivial
  | term :: terms, held =>
    ⟨Formula.holds_mono wider object term held.1,
      Formula.holdsEvery_mono wider object terms held.2⟩

end

/-- A clause of the type of an object, by its name. -/
def AbstractSchema.declares (schema : AbstractSchema) (objectType : String) (clause : Clause) :
    Prop :=
  ∃ type ∈ schema, type.name = objectType ∧ clause ∈ type.clauses

/-- The objects a relation of a schema leads an arrow to. -/
def AbstractSchema.leadsTo (schema : AbstractSchema) (kept : Set RelationTuple)
    (object : ObjectRef) (relation : String) (target : ObjectRef) : Prop :=
  ∃ subjects, schema.declares object.objectType (.relation relation subjects) ∧
    relatesTo kept subjects object relation target

/-- What the clauses of a member derive. -/
def AbstractSchema.derives (schema : AbstractSchema) (kept : Set RelationTuple)
    (subject : ObjectRef) (stands : Set Place) (object : ObjectRef) (member : String) : Prop :=
  (∃ subjects, schema.declares object.objectType (.relation member subjects) ∧
    namedBy kept subject stands subjects object member) ∨
  ∃ formula, schema.declares object.objectType (.permission member formula) ∧
    formula.holds (schema.leadsTo kept) stands object

/-- One round of the clauses of a schema. -/
def AbstractSchema.meaning (schema : AbstractSchema) (kept : Set RelationTuple)
    (subject : ObjectRef) : Meaning where
  toFun stands := {place | schema.derives kept subject stands place.1 place.2}
  monotone' := by
    intro less more wider place derived
    rcases derived with ⟨subjects, declared, named⟩ | ⟨formula, declared, held⟩
    · exact Or.inl ⟨subjects, declared, namedBy_mono wider named⟩
    · exact Or.inr ⟨formula, declared, Formula.holds_mono wider _ formula held⟩

/-- The members of objects a subject stands in, by the schema as it is meant. -/
def AbstractSchema.stands (schema : AbstractSchema) (kept : Set RelationTuple)
    (subject : ObjectRef) : Set Place :=
  (schema.meaning kept subject).lfp

mutual

def Formula.rule : Formula → Rule
  | .member name => .computed name
  | .arrow named relation => .arrow relation named
  | .any terms => .union (Formula.rules terms [])
  | .all terms => .intersection (Formula.rules terms [])

/-- The rules of terms, each once, after those already there. -/
def Formula.rules : List Formula → List Rule → List Rule
  | [], rules => rules
  | term :: terms, rules =>
    Formula.rules terms (if term.rule ∈ rules then rules else rules ++ [term.rule])

end

def Clause.add (compiled : ObjectType) : Clause → ObjectType
  | .relation name subjects =>
    { compiled with relations := compiled.relations.insert name (sortSubjects subjects) }
  | .permission name formula =>
    { compiled with permissions := compiled.permissions.insert name formula.rule }

def TypeClauses.form (type : TypeClauses) : ObjectType :=
  type.clauses.foldl Clause.add .default

/-- The compiled form of a schema. -/
def AbstractSchema.form (schema : AbstractSchema) : CompiledSchema where
  version := COMPILED_VERSION
  types := schema.foldl (fun types type => types.insert type.name type.form) .empty

end Saffui.Authz.Relations
