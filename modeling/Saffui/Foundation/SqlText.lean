import Mathlib.Data.Option.Basic
import Mathlib.Data.Prod.Basic
import Saffui.Foundation.Sql

/-!
# Texts of the fragment

A statement is written with one space between words and a comma after each
item of a list but the last. Read back, the text is the statement it was
written from.
-/

namespace Saffui.Foundation.Sql

/-- The items, each after the separator. -/
def trailing (separator : String) : List String → String
  | [] => ""
  | item :: items => separator ++ (item ++ trailing separator items)

def joined (separator : String) : List String → String
  | [] => ""
  | item :: items => item ++ trailing separator items

def placeholder (position : Nat) : String := "$" ++ toString position

def Condition.text : Condition Nat → String
  | .equal column position => column ++ (" = " ++ placeholder position)
  | .greater column position => column ++ (" > " ++ placeholder position)
  | .null column => column ++ " IS NULL"

def keyText : String × Direction → String
  | (column, .ascending) => column ++ " ASC"
  | (column, .descending) => column ++ " DESC"

def assignmentText (assignment : String × Nat) : String :=
  assignment.1 ++ (" = " ++ placeholder assignment.2)

def Count.text : Count Nat → String
  | .literal rows => toString rows
  | .bound position => placeholder position

def Output.text : Output → String
  | .columns names => joined ", " names
  | .count => "count(*)"

def orderText : List (String × Direction) → String
  | [] => ""
  | key :: keys => " ORDER BY " ++ joined ", " ((key :: keys).map keyText)

def boundText (word : String) : Option (Count Nat) → String
  | none => ""
  | some count => " " ++ (word ++ (" " ++ count.text))

def whereText (conditions : List (Condition Nat)) : String :=
  " WHERE " ++ joined " AND " (conditions.map Condition.text)

def Statement.text : Statement Nat → String
  | .select query =>
    "SELECT " ++ (query.output.text ++ (" FROM " ++ (query.table ++ (whereText query.conditions
      ++ (orderText query.order ++ (boundText "LIMIT" query.limit
        ++ boundText "OFFSET" query.offset))))))
  | .update table assignments conditions =>
    "UPDATE " ++ (table ++ (" SET " ++ (joined ", " (assignments.map assignmentText)
      ++ whereText conditions)))
  | .insert table columns operands =>
    "INSERT INTO " ++ (table ++ (" (" ++ (joined ", " columns ++ (") VALUES ("
      ++ (joined ", " (operands.map placeholder) ++ ")")))))

/-- No word runs on into the text. -/
def Boundary (text : List Char) : Prop := ∀ character ∈ text.head?, isWordCharacter character = false

theorem boundary_of {text : List Char}
    (first : text.head?.any fun character => !isWordCharacter character) : Boundary text := by
  intro character head
  rw [Option.mem_def] at head
  simpa [head] using first

theorem split_boundary (pending : List Char) {text : List Char} (boundary : Boundary text) :
    split pending text = flush pending ++ split [] text := by
  cases text with
  | nil => simp [split, flush]
  | cons character text =>
    have apart : isWordCharacter character = false := boundary character rfl
    simp only [split, apart, Bool.false_eq_true, if_false, flush, List.nil_append]
    split <;> rfl

theorem split_append (pending text : List Char) {rest : List Char} (boundary : Boundary rest) :
    split pending (text ++ rest) = split pending text ++ split [] rest := by
  induction text generalizing pending with
  | nil => exact split_boundary pending boundary
  | cons character text ih =>
    simp only [List.cons_append, split]
    split
    · exact ih _
    · split
      · rw [ih, List.append_assoc]
      · rw [ih, List.append_assoc, List.cons_append]

theorem tokens_append (text : String) {rest : String} (boundary : Boundary rest.toList) :
    tokens (text ++ rest) = tokens text ++ tokens rest := by
  unfold tokens
  rw [String.toList_append, split_append _ _ boundary]

/-- A text that stands between two others, and is read as these tokens. -/
structure Separates (text : String) (read : List Token) : Prop where
  apart : text ≠ "" ∧ Boundary text.toList
  closed : ∀ rest, split [] (text.toList ++ rest) = read ++ split [] rest

theorem Separates.boundary {text : String} {read : List Token} (separates : Separates text read)
    (rest : String) : Boundary (text ++ rest).toList := by
  intro character head
  apply separates.apart.2
  have nonempty : text.toList ≠ [] := by simpa using separates.apart.1
  rwa [String.toList_append, List.head?_append_of_ne_nil _ nonempty] at head

theorem Separates.tokens_between {text : String} {read : List Token}
    (separates : Separates text read) (first rest : String) :
    tokens (first ++ (text ++ rest)) = tokens first ++ (read ++ tokens rest) := by
  rw [tokens_append first (separates.boundary rest)]
  unfold tokens
  rw [String.toList_append, separates.closed]

theorem split_word {word : List Char} (each : ∀ character ∈ word, isWordCharacter character)
    (pending : List Char) : split pending word = flush (pending ++ word) := by
  induction word generalizing pending with
  | nil => simp [split]
  | cons character word ih =>
    rw [split, if_pos (each _ List.mem_cons_self),
      ih (fun _ inside => each _ (List.mem_cons_of_mem _ inside)), List.append_assoc,
      List.singleton_append]

theorem tokens_word {word : String} (nonempty : word ≠ "")
    (each : ∀ character ∈ word.toList, isWordCharacter character) :
    tokens word = [.word word] := by
  rw [tokens, split_word each, List.nil_append]
  cases characters : word.toList with
  | nil => exact absurd (by simpa using characters) nonempty
  | cons first rest => rw [flush, ← characters, String.ofList_toList]

theorem isName_characters {name : String} (named : isName name) :
    name ≠ "" ∧ ∀ character ∈ name.toList, isWordCharacter character := by
  unfold isName at named
  cases characters : name.toList with
  | nil => simp [characters] at named
  | cons first rest =>
    simp only [characters, Bool.and_eq_true, Bool.or_eq_true, decide_eq_true_eq,
      List.all_eq_true] at named
    constructor
    · intro empty
      simp [empty] at characters
    · intro character inside
      have kinds : (character.isLower ∨ character.isDigit) ∨ character = '_' := by
        rcases List.mem_cons.mp inside with same | later
        · rw [same]
          rcases named.1 with lower | underscore
          · exact .inl (.inl lower)
          · exact .inr underscore
        · exact named.2 character later
      have letters : character.isAlpha = (character.isUpper || character.isLower) := rfl
      rcases kinds with (lower | digit) | underscore
      · simp [isWordCharacter, Char.isAlphanum, letters, lower]
      · simp [isWordCharacter, Char.isAlphanum, digit]
      · simp [isWordCharacter, underscore]

theorem tokens_name {name : String} (named : isName name) : tokens name = [.word name] :=
  tokens_word (isName_characters named).1 (isName_characters named).2

theorem toDigits_isDigit {value : Nat} {digit : Char} (inside : digit ∈ Nat.toDigits 10 value) :
    digit.isDigit := Nat.isDigit_of_mem_toDigits (by decide) (by decide) inside

theorem placeholder_toList (position : Nat) :
    (placeholder position).toList = '$' :: Nat.toDigits 10 position := by
  simp [placeholder, Nat.toList_repr]

theorem tokens_placeholder (position : Nat) :
    tokens (placeholder position) = [.word (placeholder position)] := by
  apply tokens_word
  · intro empty
    have characters := placeholder_toList position
    simp [empty] at characters
  · intro character inside
    rw [placeholder_toList] at inside
    rcases List.mem_cons.mp inside with same | digit
    · rw [same]
      rfl
    · simp [isWordCharacter, Char.isAlphanum, toDigits_isDigit digit]

theorem tokens_digits (rows : Nat) : tokens (toString rows) = [.word (toString rows)] := by
  have characters : (toString rows).toList = Nat.toDigits 10 rows := Nat.toList_repr
  apply tokens_word
  · intro empty
    rw [empty] at characters
    exact Nat.toDigits_ne_nil characters.symm
  · intro character inside
    rw [characters] at inside
    simp [isWordCharacter, Char.isAlphanum, toDigits_isDigit inside]

theorem split_single {character : Char} (apart : isWordCharacter character = false)
    (rest : List Char) :
    split [] (character :: rest) = split [] [character] ++ split [] rest := by
  simp only [split, apart, Bool.false_eq_true, if_false, flush, List.nil_append, List.append_nil]
  split <;> rfl

/-- A text that begins and ends beside its words. -/
theorem separates_of {text : String}
    (first : text.toList.head?.any fun character => !isWordCharacter character)
    (last : text.toList.getLast?.any fun character => !isWordCharacter character) :
    Separates text (tokens text) := by
  constructor
  · constructor
    · intro empty
      simp [empty] at first
    · exact boundary_of first
  · intro rest
    cases end_eq : text.toList.getLast? with
    | none => simp [end_eq] at last
    | some character =>
      have apart : isWordCharacter character = false := by simpa [end_eq] using last
      obtain ⟨start, split_eq⟩ := List.getLast?_eq_some_iff.mp end_eq
      have boundary : ∀ more, Boundary (character :: more) := by
        intro more other head
        cases head
        exact apart
      rw [tokens, split_eq, List.append_assoc, List.singleton_append,
        split_append _ _ (boundary rest), split_append _ _ (boundary []), split_single apart,
        List.append_assoc]

theorem separates_comma : Separates ", " [.mark ','] := separates_of rfl rfl
theorem separates_and : Separates " AND " [.word "AND"] := separates_of rfl rfl
theorem separates_equal : Separates " = " [.mark '='] := separates_of rfl rfl
theorem separates_greater : Separates " > " [.mark '>'] := separates_of rfl rfl
theorem separates_from : Separates " FROM " [.word "FROM"] := separates_of rfl rfl
theorem separates_where : Separates " WHERE " [.word "WHERE"] := separates_of rfl rfl
theorem separates_order : Separates " ORDER BY " [.word "ORDER", .word "BY"] := separates_of rfl rfl
theorem separates_set : Separates " SET " [.word "SET"] := separates_of rfl rfl
theorem separates_open : Separates " (" [.mark '('] := separates_of rfl rfl
theorem separates_values : Separates ") VALUES (" [.mark ')', .word "VALUES", .mark '('] :=
  separates_of rfl rfl

/-- The items, each after the mark. -/
def following (mark : Token) : List (List Token) → List Token
  | [] => []
  | item :: items => mark :: (item ++ following mark items)

def separated (mark : Token) : List (List Token) → List Token
  | [] => []
  | item :: items => item ++ following mark items

theorem tokens_trailing {separator : String} {mark : Token} (separates : Separates separator [mark])
    (first : String) (items : List String) :
    tokens (first ++ trailing separator items)
      = tokens first ++ following mark (items.map tokens) := by
  induction items generalizing first with
  | nil => simp [trailing, following]
  | cons item items ih =>
    rw [trailing, separates.tokens_between, ih, List.map_cons, following, List.singleton_append]

theorem tokens_joined {separator : String} {mark : Token} (separates : Separates separator [mark])
    (items : List String) :
    tokens (joined separator items) = separated mark (items.map tokens) := by
  cases items with
  | nil => rfl
  | cons item items =>
    rw [joined, tokens_trailing separates, List.map_cons, separated]

section Reading

variable {α : Type} {item : List Token → Option (α × List Token)} {mark : Token}

/-- The text is read as the value, and nothing after it is. -/
def Reads (item : List Token → Option (α × List Token)) (text : List Token) (value : α) : Prop :=
  text ≠ [] ∧ ∀ rest, item (text ++ rest) = some (value, rest)

theorem expect_self (token : Token) (rest : List Token) :
    expect token (token :: rest) = some rest := by
  rw [expect, if_pos rfl]

theorem expect_other {token : Token} {rest : List Token} (other : rest.head? ≠ some token) :
    expect token rest = none := by
  cases rest with
  | nil => rfl
  | cons first rest =>
    rw [expect, if_neg]
    intro same
    exact other (by rw [same]; rfl)

theorem readSeparated_written {spell : α → List Token} {value : α} {values : List α}
    (each : ∀ inside ∈ value :: values, Reads item (spell inside) inside) {rest : List Token}
    (ends : rest.head? ≠ some mark) {fuel : Nat} (enough : values.length < fuel) :
    readSeparated item mark fuel
        (spell value ++ (following mark (values.map spell) ++ rest)) = some (value :: values, rest) := by
  induction values generalizing value fuel with
  | nil =>
    obtain ⟨fuel, rfl⟩ := Nat.exists_eq_succ_of_ne_zero (by omega : fuel ≠ 0)
    have first := (each value List.mem_cons_self).2 rest
    simp [readSeparated, following, first, expect_other ends]
  | cons other values ih =>
    obtain ⟨fuel, rfl⟩ := Nat.exists_eq_succ_of_ne_zero (by omega : fuel ≠ 0)
    have later : readSeparated item mark fuel
        (spell other ++ (following mark (values.map spell) ++ rest)) = some (other :: values, rest) :=
      ih (fun inside there => each inside (List.mem_cons_of_mem _ there)) (by simpa using enough)
    have first := (each value List.mem_cons_self).2
    simp [readSeparated, following, first, expect_self, later]

theorem following_length (mark : Token) (items : List (List Token)) :
    items.length ≤ (following mark items).length := by
  induction items with
  | nil => exact Nat.le_refl 0
  | cons item items ih =>
    simp only [following, List.length_cons, List.length_append]
    omega

theorem readList_written {spell : α → List Token} {values : List α} (nonempty : values ≠ [])
    (each : ∀ inside ∈ values, Reads item (spell inside) inside) {rest : List Token}
    (ends : rest.head? ≠ some mark) :
    readList item mark (separated mark (values.map spell) ++ rest) = some (values, rest) := by
  cases values with
  | nil => exact absurd rfl nonempty
  | cons value values =>
    rw [List.map_cons, separated, List.append_assoc, readList]
    apply readSeparated_written each ends
    have first : 0 < (spell value).length :=
      List.length_pos_of_ne_nil (each value List.mem_cons_self).1
    have others := following_length mark (values.map spell)
    simp only [List.length_map] at others
    simp only [List.length_append]
    omega

end Reading

theorem reads_name {name : String} (named : isName name) : Reads readName (tokens name) name := by
  rw [tokens_name named]
  exact ⟨List.cons_ne_nil _ _, fun rest => by simp [readName, named]⟩

theorem readDigits_written (value : Nat) : readDigits (Nat.toDigits 10 value) = some value := by
  have digits : (Nat.toDigits 10 value).all Char.isDigit :=
    List.all_eq_true.mpr fun _ inside => toDigits_isDigit inside
  rw [readDigits, if_pos ⟨Nat.toDigits_ne_nil, digits⟩, Nat.ofDigitChars_ten_toDigits]

theorem readPlaceholder_written (position : Nat) (rest : List Token) :
    readPlaceholder (.word (placeholder position) :: rest) = some (position, rest) := by
  simp [readPlaceholder, placeholder_toList, readDigits_written]

theorem reads_placeholder (position : Nat) :
    Reads readPlaceholder (tokens (placeholder position)) position := by
  rw [tokens_placeholder]
  exact ⟨List.cons_ne_nil _ _, readPlaceholder_written position⟩

def Condition.column {α : Type} : Condition α → String
  | .equal column _ => column
  | .greater column _ => column
  | .null column => column

theorem tokens_compared {separator : String} {mark : Token} (separates : Separates separator [mark])
    {column : String} (named : isName column) (position : Nat) :
    tokens (column ++ (separator ++ placeholder position))
      = [.word column, mark, .word (placeholder position)] := by
  rw [separates.tokens_between, tokens_name named, tokens_placeholder]
  rfl

theorem tokens_closing {column : String} (named : isName column) (closing : String)
    (first : closing.toList.head?.any fun character => !isWordCharacter character) :
    tokens (column ++ closing) = .word column :: tokens closing := by
  rw [tokens_append _ (boundary_of first), tokens_name named]
  rfl

theorem reads_condition {condition : Condition Nat} (named : isName condition.column) :
    Reads readCondition (tokens condition.text) condition := by
  cases condition with
  | equal column position =>
    have name : isName column := named
    rw [Condition.text, tokens_compared separates_equal name]
    exact ⟨List.cons_ne_nil _ _, fun rest => by
      simp [readCondition, readName, name, readPlaceholder_written]⟩
  | greater column position =>
    have name : isName column := named
    rw [Condition.text, tokens_compared separates_greater name]
    exact ⟨List.cons_ne_nil _ _, fun rest => by
      simp [readCondition, readName, name, readPlaceholder_written]⟩
  | null column =>
    have name : isName column := named
    have closing : tokens " IS NULL" = [.word "IS", .word "NULL"] := rfl
    rw [Condition.text, tokens_closing name _ rfl, closing]
    exact ⟨List.cons_ne_nil _ _, fun rest => by simp [readCondition, readName, name]⟩

theorem reads_key {key : String × Direction} (named : isName key.1) :
    Reads readKey (tokens (keyText key)) key := by
  obtain ⟨column, direction⟩ := key
  have name : isName column := named
  cases direction with
  | ascending =>
    have closing : tokens " ASC" = [.word "ASC"] := rfl
    rw [keyText, tokens_closing name _ rfl, closing]
    exact ⟨List.cons_ne_nil _ _, fun rest => by simp [readKey, readName, name]⟩
  | descending =>
    have closing : tokens " DESC" = [.word "DESC"] := rfl
    rw [keyText, tokens_closing name _ rfl, closing]
    exact ⟨List.cons_ne_nil _ _, fun rest => by simp [readKey, readName, name]⟩

theorem reads_assignment {assignment : String × Nat} (named : isName assignment.1) :
    Reads readAssignment (tokens (assignmentText assignment)) assignment := by
  rw [assignmentText, tokens_compared separates_equal named]
  exact ⟨List.cons_ne_nil _ _, fun rest => by
    simp [readAssignment, readName, named, expect, readPlaceholder_written]⟩

theorem readPlaceholder_digits (rows : Nat) (rest : List Token) :
    readPlaceholder (.word (toString rows) :: rest) = none := by
  have characters : (toString rows).toList = Nat.toDigits 10 rows := Nat.toList_repr
  simp only [readPlaceholder, characters]
  split
  · next digits eq =>
    have digit : Char.isDigit '$' := toDigits_isDigit (eq ▸ List.mem_cons_self)
    exact absurd digit (by decide)
  · rfl

theorem reads_count (count : Count Nat) : Reads readCount (tokens count.text) count := by
  cases count with
  | literal rows =>
    have characters : (toString rows).toList = Nat.toDigits 10 rows := Nat.toList_repr
    rw [Count.text, tokens_digits]
    exact ⟨List.cons_ne_nil _ _, fun rest => by
      simp only [List.singleton_append, readCount, readPlaceholder_digits, characters,
        readDigits_written, Option.map_some]⟩
  | bound position =>
    rw [Count.text, tokens_placeholder]
    exact ⟨List.cons_ne_nil _ _, fun rest => by simp [readCount, readPlaceholder_written]⟩

/-- Every name is one, and no list that must hold an item is empty. -/
def Statement.WellFormed : Statement Nat → Prop
  | .select query =>
    (∀ names, query.output = .columns names → ∀ name ∈ names, isName name) ∧ isName query.table
      ∧ query.conditions ≠ [] ∧ (∀ condition ∈ query.conditions, isName condition.column)
      ∧ ∀ key ∈ query.order, isName key.1
  | .update table assignments conditions =>
    isName table ∧ assignments ≠ [] ∧ (∀ assignment ∈ assignments, isName assignment.1)
      ∧ conditions ≠ [] ∧ ∀ condition ∈ conditions, isName condition.column
  | .insert table columns operands =>
    isName table ∧ columns ≠ [] ∧ (∀ column ∈ columns, isName column) ∧ operands ≠ []

def whereTokens (conditions : List (Condition Nat)) : List Token :=
  .word "WHERE" :: separated (.word "AND") (conditions.map fun condition => tokens condition.text)

def orderTokens : List (String × Direction) → List Token
  | [] => []
  | key :: keys => .word "ORDER" :: .word "BY"
      :: separated (.mark ',') ((key :: keys).map fun key => tokens (keyText key))

def boundTokens (word : String) : Option (Count Nat) → List Token
  | none => []
  | some count => .word word :: tokens count.text

theorem tokens_where (first : String) (conditions : List (Condition Nat)) :
    tokens (first ++ whereText conditions) = tokens first ++ whereTokens conditions := by
  rw [whereText, separates_where.tokens_between, tokens_joined separates_and, List.map_map]
  rfl

theorem tokens_order (first : String) (order : List (String × Direction)) :
    tokens (first ++ orderText order) = tokens first ++ orderTokens order := by
  cases order with
  | nil => simp [orderText, orderTokens]
  | cons key keys =>
    rw [orderText, separates_order.tokens_between, tokens_joined separates_comma, List.map_map]
    rfl

theorem tokens_bound {word : String} (separates : Separates (" " ++ (word ++ " ")) [.word word])
    (first : String) (bound : Option (Count Nat)) :
    tokens (first ++ boundText word bound) = tokens first ++ boundTokens word bound := by
  cases bound with
  | none => simp [boundText, boundTokens]
  | some count =>
    have text : boundText word (some count) = " " ++ (word ++ " ") ++ count.text := by
      simp only [boundText, String.append_assoc]
    rw [text, separates.tokens_between]
    rfl

theorem readWhere_written {conditions : List (Condition Nat)} (nonempty : conditions ≠ [])
    (named : ∀ condition ∈ conditions, isName condition.column) {rest : List Token}
    (ends : rest.head? ≠ some (.word "AND")) :
    readWhere (whereTokens conditions ++ rest) = some (conditions, rest) := by
  rw [readWhere, whereTokens, List.cons_append, expect_self]
  exact readList_written nonempty (fun condition inside => reads_condition (named _ inside)) ends

theorem readOrder_written {order : List (String × Direction)} (named : ∀ key ∈ order, isName key.1)
    {rest : List Token} (ends : rest.head? ≠ some (.mark ','))
    (other : rest.head? ≠ some (.word "ORDER")) :
    readOrder (orderTokens order ++ rest) = some (order, rest) := by
  cases order with
  | nil =>
    rw [orderTokens, List.nil_append]
    unfold readOrder
    split
    · exact absurd rfl other
    · rfl
  | cons key keys =>
    rw [orderTokens, List.cons_append, List.cons_append, readOrder]
    exact readList_written (List.cons_ne_nil _ _) (fun key inside => reads_key (named _ inside)) ends

theorem readBound_written (word : String) (bound : Option (Count Nat)) {rest : List Token}
    (other : rest.head? ≠ some (.word word)) :
    readBound word (boundTokens word bound ++ rest) = some (bound, rest) := by
  cases bound with
  | none => rw [boundTokens, List.nil_append, readBound, expect_other other]
  | some count =>
    rw [boundTokens, List.cons_append, readBound, expect_self]
    simp only [(reads_count count).2 rest, Option.map_some]

theorem orderTokens_head (order : List (String × Direction)) {rest : List Token} {token : Token}
    (other : token ≠ .word "ORDER") (ends : rest.head? ≠ some token) :
    (orderTokens order ++ rest).head? ≠ some token := by
  cases order with
  | nil => exact ends
  | cons key keys =>
    intro same
    cases same
    exact other rfl

theorem boundTokens_head (word : String) (bound : Option (Count Nat)) {rest : List Token}
    {token : Token} (other : token ≠ .word word) (ends : rest.head? ≠ some token) :
    (boundTokens word bound ++ rest).head? ≠ some token := by
  cases bound with
  | none => exact ends
  | some count =>
    intro same
    cases same
    exact other rfl

theorem readOutput_written {output : Output}
    (named : ∀ names, output = .columns names → ∀ name ∈ names, isName name) (rest : List Token) :
    readOutput (tokens output.text ++ .word "FROM" :: rest) = some (output, .word "FROM" :: rest) := by
  cases output with
  | count => rfl
  | columns names =>
    cases names with
    | nil => rfl
    | cons name names =>
      have first : isName name := named _ rfl name List.mem_cons_self
      have written : readList readName (.mark ',')
          (separated (.mark ',') ((name :: names).map tokens) ++ .word "FROM" :: rest)
            = some (name :: names, .word "FROM" :: rest) :=
        readList_written (List.cons_ne_nil _ _)
          (fun other inside => reads_name (named _ rfl other inside)) (by simp)
      rw [Output.text, tokens_joined separates_comma]
      rw [List.map_cons, tokens_name first] at written ⊢
      unfold readOutput
      split
      · next rest eq =>
        cases names <;> simp [separated, following] at eq
      · next rest eq =>
        have word : name = "FROM" := by
          simp only [separated, List.cons_append, List.cons.injEq,
            Token.word.injEq] at eq
          exact eq.1
        exact absurd first (by rw [word]; decide)
      · rw [written]
        rfl

theorem readBounds_written (limit offset : Option (Count Nat)) :
    readBound "LIMIT" (boundTokens "LIMIT" limit ++ boundTokens "OFFSET" offset)
        = some (limit, boundTokens "OFFSET" offset)
      ∧ readBound "OFFSET" (boundTokens "OFFSET" offset) = some (offset, []) := by
  have last : (boundTokens "OFFSET" offset).head? ≠ some (.word "LIMIT") := by
    cases offset <;> simp [boundTokens]
  have alone : readBound "OFFSET" (boundTokens "OFFSET" offset ++ []) = some (offset, []) :=
    readBound_written "OFFSET" offset (by simp)
  rw [List.append_nil] at alone
  exact ⟨readBound_written "LIMIT" limit last, alone⟩

/-- No token of a condition or of a key follows the last of them. -/
theorem boundTokens_heads (limit offset : Option (Count Nat)) (token : Token)
    (limited : token ≠ .word "LIMIT") (started : token ≠ .word "OFFSET") :
    (boundTokens "LIMIT" limit ++ boundTokens "OFFSET" offset).head? ≠ some token := by
  apply boundTokens_head _ _ limited
  cases offset with
  | none => simp [boundTokens]
  | some count =>
    intro same
    cases same
    exact started rfl

theorem tokens_opening (word : String) (closed : ∀ rest : List Char,
    split [] (word.toList ++ rest) = tokens word ++ split [] rest) (rest : String) :
    tokens (word ++ rest) = tokens word ++ tokens rest := by
  rw [tokens, String.toList_append, closed]
  rfl

theorem tokens_select {query : Query Nat} (table : isName query.table) :
    tokens (Statement.select query).text = .word "SELECT"
      :: (tokens query.output.text ++ .word "FROM" :: .word query.table
        :: (whereTokens query.conditions ++ (orderTokens query.order
          ++ (boundTokens "LIMIT" query.limit ++ boundTokens "OFFSET" query.offset)))) := by
  have body : query.table ++ (whereText query.conditions ++ (orderText query.order
      ++ (boundText "LIMIT" query.limit ++ boundText "OFFSET" query.offset)))
      = query.table ++ whereText query.conditions ++ orderText query.order
        ++ boundText "LIMIT" query.limit ++ boundText "OFFSET" query.offset := by
    simp only [String.append_assoc]
  have limit : Separates (" " ++ ("LIMIT" ++ " ")) [.word "LIMIT"] := separates_of rfl rfl
  have offset : Separates (" " ++ ("OFFSET" ++ " ")) [.word "OFFSET"] := separates_of rfl rfl
  rw [Statement.text, tokens_opening "SELECT " (fun _ => rfl), separates_from.tokens_between, body,
    tokens_bound offset, tokens_bound limit, tokens_order, tokens_where, tokens_name table]
  simp only [List.append_assoc, List.cons_append]
  rfl

theorem readStatement_select {query : Query Nat} (wellFormed : (Statement.select query).WellFormed) :
    readStatement (tokens (Statement.select query).text) = some (.select query, []) := by
  obtain ⟨outputs, table, nonempty, columns, keys⟩ := wellFormed
  have bounds := boundTokens_heads query.limit query.offset
  have conditions := readWhere_written nonempty columns
    (orderTokens_head query.order (by decide) (bounds _ (by decide) (by decide)))
  have order := readOrder_written keys (bounds _ (by decide) (by decide))
    (bounds _ (by decide) (by decide))
  have counts := readBounds_written query.limit query.offset
  rw [tokens_select table, readStatement, readSelect, readOutput_written outputs]
  simp only [Option.bind_eq_bind, Option.bind_some, expect_self, readName, table, if_true,
    conditions, order, counts.1, counts.2]
  rfl

theorem readStatement_update {table : String} {assignments : List (String × Nat)}
    {conditions : List (Condition Nat)}
    (wellFormed : (Statement.update table assignments conditions).WellFormed) :
    readStatement (tokens (Statement.update table assignments conditions).text)
      = some (.update table assignments conditions, []) := by
  obtain ⟨named, some_assignment, assigned, some_condition, columns⟩ := wellFormed
  have spelled : tokens (Statement.text (.update table assignments conditions))
      = .word "UPDATE" :: .word table :: .word "SET"
        :: (separated (.mark ',') (assignments.map fun assignment =>
            tokens (assignmentText assignment)) ++ whereTokens conditions) := by
    rw [Statement.text, tokens_opening "UPDATE " (fun _ => rfl), separates_set.tokens_between,
      tokens_name named, tokens_where, tokens_joined separates_comma, List.map_map]
    rfl
  have assignmentsRead : readList readAssignment (.mark ',')
      (separated (.mark ',') (assignments.map fun assignment =>
        tokens (assignmentText assignment)) ++ whereTokens conditions)
        = some (assignments, whereTokens conditions) :=
    readList_written some_assignment (fun _ inside => reads_assignment (assigned _ inside))
      (by simp [whereTokens])
  have conditionsRead : readWhere (whereTokens conditions ++ []) = some (conditions, []) :=
    readWhere_written some_condition columns (by simp)
  rw [List.append_nil] at conditionsRead
  rw [spelled, readStatement, readUpdate]
  simp only [Option.bind_eq_bind, Option.bind_some, expect_self, readName, named, if_true,
    assignmentsRead, conditionsRead]
  rfl

theorem readBrackets_written {α : Type} {item : List Token → Option (α × List Token)}
    {spell : α → List Token} {values : List α} (nonempty : values ≠ [])
    (each : ∀ inside ∈ values, Reads item (spell inside) inside) (rest : List Token) :
    readBrackets item (.mark '(' :: (separated (.mark ',') (values.map spell)
      ++ .mark ')' :: rest)) = some (values, rest) := by
  have items : readList item (.mark ',') (separated (.mark ',') (values.map spell)
      ++ .mark ')' :: rest) = some (values, .mark ')' :: rest) :=
    readList_written nonempty each (by simp)
  simp only [readBrackets, expect_self, Option.bind_eq_bind, Option.bind_some, items]
  rfl

theorem readStatement_insert {table : String} {columns : List String} {operands : List Nat}
    (wellFormed : (Statement.insert table columns operands).WellFormed) :
    readStatement (tokens (Statement.insert table columns operands).text)
      = some (.insert table columns operands, []) := by
  obtain ⟨named, some_column, each, some_operand⟩ := wellFormed
  have closing : ∀ first, tokens (first ++ ")") = tokens first ++ [.mark ')'] :=
    fun first => tokens_append first (boundary_of rfl)
  have spelled : tokens (Statement.text (.insert table columns operands))
      = .word "INSERT" :: .word "INTO" :: .word table :: .mark '('
        :: (separated (.mark ',') (columns.map tokens) ++ .mark ')' :: .word "VALUES" :: .mark '('
          :: (separated (.mark ',') (operands.map fun operand => tokens (placeholder operand))
            ++ .mark ')' :: [])) := by
    rw [Statement.text, tokens_opening "INSERT INTO " (fun _ => rfl), separates_open.tokens_between,
      tokens_name named, separates_values.tokens_between, closing, tokens_joined separates_comma,
      tokens_joined separates_comma, List.map_map]
    rfl
  have columnsRead := readBrackets_written some_column (fun _ inside => reads_name (each _ inside))
  have operandsRead := readBrackets_written some_operand
    (fun operand _ => reads_placeholder operand)
  rw [spelled, readStatement, readInsert]
  simp only [Option.bind_eq_bind, Option.bind_some, expect_self, readName, named, if_true,
    columnsRead, operandsRead]
  rfl

/-- A text read back is the statement it was written from. -/
theorem read_text {statement : Statement Nat} (wellFormed : statement.WellFormed) :
    read statement.text = some statement := by
  have written : readStatement (tokens statement.text) = some (statement, []) := by
    cases statement with
    | select query => exact readStatement_select wellFormed
    | update table assignments conditions => exact readStatement_update wellFormed
    | insert table columns operands => exact readStatement_insert wellFormed
  rw [read, written]

section Injective

variable {α β : Type} {f : α → β}

theorem Condition.map_injective (injective : f.Injective) : (Condition.map f).Injective := by
  intro condition other same
  cases condition <;> cases other <;> simp_all [Condition.map] <;> exact injective same.2

theorem Count.map_injective (injective : f.Injective) : (Count.map f).Injective := by
  intro count other same
  cases count <;> cases other <;> simp_all [Count.map]
  exact injective same

theorem Statement.map_injective (injective : f.Injective) : (Statement.map f).Injective := by
  have conditions := List.map_injective_iff.mpr (Condition.map_injective injective)
  have counts := Option.map_injective (Count.map_injective injective)
  intro statement other same
  cases statement <;> cases other <;> simp only [Statement.map, reduceCtorEq] at same
  case select.select query other =>
    simp only [Query.map, Statement.select.injEq, Query.mk.injEq] at same
    obtain ⟨output, table, tests, order, limit, offset⟩ := same
    have parts := conditions tests
    have limits := counts limit
    have offsets := counts offset
    cases query
    cases other
    simp_all
  case update.update table assignments tests otherTable otherAssignments otherTests =>
    simp only [Statement.update.injEq] at same
    have pairs := List.map_injective_iff.mpr (Function.injective_id.prodMap injective) same.2.1
    rw [same.1, pairs, conditions same.2.2]
  case insert.insert table columns operands otherTable otherColumns otherOperands =>
    simp only [Statement.insert.injEq] at same
    rw [same.1, same.2.1, List.map_injective_iff.mpr injective same.2.2]

end Injective

section Running

variable {V : Type} {compare : Comparison V} {statement : Statement Nat}
  {bound : Statement (Option V)} {values : List (Option V)}

/-- A text whose placeholders are those of the values does what the statement
does with each value in its place. -/
theorem runs_text (wellFormed : statement.WellFormed)
    (numbered : statement.operands.Perm (List.range' 1 values.length))
    (placed : statement.map (valueAt values) = bound.map some) {database : Database V}
    {outcome : Outcome V} :
    Runs compare statement.text values database outcome ↔ bound.Does compare database outcome := by
  constructor
  · rintro ⟨found, others, read_eq, -, values_eq, does⟩
    rw [read_text wellFormed, Option.some.injEq] at read_eq
    rw [← read_eq, placed] at values_eq
    rwa [Statement.map_injective (Option.some_injective _) values_eq]
  · intro does
    refine ⟨statement, bound, read_text wellFormed, ?_, placed, does⟩
    intro position
    rw [numbered.mem_iff, List.mem_range'_1]
    omega

theorem keeps_iff {conditions : List (Condition (Option V))} {row : Row V} :
    keeps compare conditions row
      ↔ ∀ condition ∈ conditions, condition.truth compare row = some true := by
  rw [keeps, decide_eq_true_eq]
  exact Kleene.join_eq_not_decisive.trans List.forall_mem_map

end Running

end Saffui.Foundation.Sql
