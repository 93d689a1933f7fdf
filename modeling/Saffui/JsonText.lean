import Mathlib.Data.List.TakeDrop
import Saffui.Ids
import Saffui.Json

/-!
# Reading a JSON text

A reader of the grammar of RFC 8259, as `serde_json` applies it to a text: an
integer of 64 bits is kept as one, every other number is a float, whose value
is given (`readFloat`). The members of an object stay in the order in which
they are written. A compact text that holds no float reads back as what it
was written from.
-/

namespace Saffui.Json

def isBlank (character : Char) : Bool :=
  character = ' ' || character = '\t' || character = '\n' || character = '\r'

def skipBlanks (text : List Char) : List Char := text.dropWhile isBlank

/-- The unit four hexadecimal digits write. -/
def readUnit : List Char → Option (Nat × List Char)
  | one :: two :: three :: four :: rest => do
    let one ← Uuid.readHexDigit one
    let two ← Uuid.readHexDigit two
    let three ← Uuid.readHexDigit three
    let four ← Uuid.readHexDigit four
    return (((one * 16 + two) * 16 + three) * 16 + four, rest)
  | _ => none

/-- The second half of a pair of surrogates. -/
def readLowSurrogate : List Char → Option (Nat × List Char)
  | '\\' :: 'u' :: text => do
    let (unit, rest) ← readUnit text
    if 0xdc00 ≤ unit ∧ unit < 0xe000 then some (unit, rest) else none
  | _ => none

/-- The character after a backslash. -/
def readEscape : List Char → Option (Char × List Char)
  | '"' :: rest => some ('"', rest)
  | '\\' :: rest => some ('\\', rest)
  | '/' :: rest => some ('/', rest)
  | 'b' :: rest => some (Char.ofNat 0x8, rest)
  | 'f' :: rest => some (Char.ofNat 0xc, rest)
  | 'n' :: rest => some ('\n', rest)
  | 'r' :: rest => some ('\r', rest)
  | 't' :: rest => some ('\t', rest)
  | 'u' :: text => do
    let (unit, rest) ← readUnit text
    if 0xd800 ≤ unit ∧ unit < 0xdc00 then
      let (low, rest) ← readLowSurrogate rest
      return (Char.ofNat (0x10000 + (unit - 0xd800) * 0x400 + (low - 0xdc00)), rest)
    else if 0xdc00 ≤ unit ∧ unit < 0xe000 then none
    else return (Char.ofNat unit, rest)
  | _ => none

/-- The characters up to the closing quote. -/
def readText : Nat → List Char → Option (List Char × List Char)
  | 0, _ => none
  | fuel + 1, text =>
    match text with
    | [] => none
    | '"' :: rest => some ([], rest)
    | '\\' :: rest => do
      let (character, rest) ← readEscape rest
      let (characters, rest) ← readText fuel rest
      return (character :: characters, rest)
    | character :: rest =>
      if character.toNat < 0x20 then none
      else do
        let (characters, rest) ← readText fuel rest
        return (character :: characters, rest)

/-- Digits, one at least. -/
def readDigits (text : List Char) : Option (List Char × List Char) :=
  match text.span Char.isDigit with
  | ([], _) => none
  | (digits, rest) => some (digits, rest)

/-- A fraction or nothing: its text, and what follows. -/
def readFraction : List Char → Option (List Char × List Char)
  | '.' :: text => (readDigits text).map fun read => ('.' :: read.1, read.2)
  | text => some ([], text)

def readSign : List Char → List Char × List Char
  | '+' :: text => (['+'], text)
  | '-' :: text => (['-'], text)
  | text => ([], text)

/-- An exponent or nothing: its text, and what follows. -/
def readExponent : List Char → Option (List Char × List Char)
  | 'e' :: text | 'E' :: text =>
    let (sign, text) := readSign text
    (readDigits text).map fun read => ('e' :: sign ++ read.1, read.2)
  | text => some ([], text)

section Reading

variable (readFloat : List Char → Option Number)

/-- An integer, kept as one of 64 bits where it fits. -/
def readInteger (negative : Bool) (digits : List Char) : Option Number :=
  let value := Nat.ofDigitChars 10 digits 0
  if negative then
    if 0 < value ∧ value ≤ 2 ^ 63 then some (.negInt (value - 1)) else readFloat ('-' :: digits)
  else if value < 2 ^ 64 then some (.posInt value)
  else readFloat digits

/-- The digits of a number after its sign. -/
def readMagnitude (negative : Bool) (text : List Char) : Option (Number × List Char) := do
  let (digits, rest) ← readDigits text
  if digits.head? = some '0' ∧ digits.length ≠ 1 then none
  else do
    let (fraction, rest) ← readFraction rest
    let (exponent, rest) ← readExponent rest
    if fraction = [] ∧ exponent = [] then
      return (← readInteger readFloat negative digits, rest)
    else
      return (← readFloat ((if negative then ['-'] else []) ++ digits ++ fraction ++ exponent), rest)

def readNumber : List Char → Option (Number × List Char)
  | '-' :: text => readMagnitude readFloat true text
  | text => readMagnitude readFloat false text

/-- The name of a member and the colon after it. -/
def readName (text : List Char) : Option (String × List Char) :=
  match skipBlanks text with
  | '"' :: rest =>
    match readText (rest.length + 1) rest with
    | none => none
    | some (name, rest) =>
      match skipBlanks rest with
      | ':' :: rest => some (String.ofList name, rest)
      | _ => none
  | _ => none

mutual

def readValue : Nat → List Char → Option (Json × List Char)
  | 0, _ => none
  | fuel + 1, text =>
    match skipBlanks text with
    | 'n' :: 'u' :: 'l' :: 'l' :: rest => some (.null, rest)
    | 't' :: 'r' :: 'u' :: 'e' :: rest => some (.bool true, rest)
    | 'f' :: 'a' :: 'l' :: 's' :: 'e' :: rest => some (.bool false, rest)
    | '"' :: rest => (readText (rest.length + 1) rest).map fun read =>
      (.string (String.ofList read.1), read.2)
    | '[' :: rest =>
      match skipBlanks rest with
      | ']' :: rest => some (.array [], rest)
      | _ => (readItems fuel rest).map fun read => (.array read.1, read.2)
    | '\x7b' :: rest =>
      match skipBlanks rest with
      | '\x7d' :: rest => some (.object [], rest)
      | _ => (readMembers fuel rest).map fun read => (.object read.1, read.2)
    | text => (readNumber readFloat text).map fun read => (.number read.1, read.2)

/-- Items up to the closing bracket, one at least. -/
def readItems : Nat → List Char → Option (List Json × List Char)
  | 0, _ => none
  | fuel + 1, text =>
    match readValue fuel text with
    | none => none
    | some (item, rest) =>
      match skipBlanks rest with
      | ']' :: rest => some ([item], rest)
      | ',' :: rest => (readItems fuel rest).map fun read => (item :: read.1, read.2)
      | _ => none

/-- Members up to the closing brace, one at least. -/
def readMembers : Nat → List Char → Option (List (String × Json) × List Char)
  | 0, _ => none
  | fuel + 1, text =>
    match readName text with
    | none => none
    | some (name, rest) =>
      match readValue fuel rest with
      | none => none
      | some (item, rest) =>
        match skipBlanks rest with
        | '\x7d' :: rest => some ([(name, item)], rest)
        | ',' :: rest => (readMembers fuel rest).map fun read => ((name, item) :: read.1, read.2)
        | _ => none

end

/-- Reads a whole text. -/
def read (text : String) : Option Json :=
  match readValue readFloat (2 * text.toList.length + 1) text.toList with
  | none => none
  | some (value, rest) => if skipBlanks rest = [] then some value else none

end Reading

mutual

/-- The numbers a value holds, at every depth. -/
def numbers : Json → List Number
  | .number value => [value]
  | .array items => numbersOfItems items
  | .object members => numbersOfMembers members
  | .null | .bool _ | .string _ => []

def numbersOfItems : List Json → List Number
  | [] => []
  | item :: items => numbers item ++ numbersOfItems items

def numbersOfMembers : List (String × Json) → List Number
  | [] => []
  | (_, item) :: members => numbers item ++ numbersOfMembers members

end

/-- An integer of 64 bits. -/
def IsInteger64 : Number → Prop
  | .posInt value => value < 2 ^ 64
  | .negInt value => value < 2 ^ 63
  | .float _ => False

/-- What may follow a value within a compact text. -/
def Ends (rest : List Char) : Prop := ∀ first tail, rest = first :: tail → first ∈ [',', ']', '\x7d']

theorem skipBlanks_cons {first : Char} {text : List Char} (shown : isBlank first = false) :
    skipBlanks (first :: text) = first :: text := by
  simp [skipBlanks, shown]

theorem readText_escaped {fuel : Nat} {character : Char} {text rest : List Char}
    (escaped : readEscape text = some (character, rest)) :
    readText (fuel + 1) ('\\' :: text) =
      (readText fuel rest).map fun read => (character :: read.1, read.2) := by
  rw [readText]
  cases later : readText fuel rest <;> simp [escaped, later]

theorem readText_plain {fuel : Nat} {character : Char} {rest : List Char}
    (shown : ¬ character.toNat < 0x20) (quote : character ≠ '"') (slash : character ≠ '\\') :
    readText (fuel + 1) (character :: rest) =
      (readText fuel rest).map fun read => (character :: read.1, read.2) := by
  rw [readText, if_neg shown]
  · cases readText fuel rest <;> simp
  · exact quote
  · exact slash

/-- A control character is written by its number and read back from it. -/
theorem readEscape_control {character : Char} (control : character.toNat < 0x20)
    (rest : List Char) :
    readEscape ('u' :: '0' :: '0' :: (Text.upperHexDigit (character.toNat / 16)).toLower ::
      (Text.upperHexDigit (character.toNat % 16)).toLower :: rest) = some (character, rest) := by
  have high := Uuid.readHexDigit_lower ⟨character.toNat / 16, by omega⟩
  have low := Uuid.readHexDigit_lower ⟨character.toNat % 16, by omega⟩
  have zero : Uuid.readHexDigit '0' = some 0 := by decide
  simp only at high low
  have unit : ((0 * 16 + 0) * 16 + character.toNat / 16) * 16 + character.toNat % 16 =
      character.toNat := by omega
  have basic : ¬ (0xd800 ≤ character.toNat ∧ character.toNat < 0xdc00) := by omega
  have whole : ¬ (0xdc00 ≤ character.toNat ∧ character.toNat < 0xe000) := by omega
  simp only [readEscape, readUnit, zero, high, low, Option.bind_eq_bind, Option.bind_some,
    Option.pure_def, unit, if_neg basic, if_neg whole, Char.ofNat_toNat]

/-- A character that was escaped reads back. -/
theorem readText_escape (fuel : Nat) (character : Char) (text : List Char) :
    readText (fuel + 1) (escape character ++ text) =
      (readText fuel text).map fun read => (character :: read.1, read.2) := by
  have named {number : Nat} (same : character.toNat = number) : Char.ofNat number = character := by
    rw [← same, Char.ofNat_toNat]
  unfold escape
  split_ifs with quote slash backspace tab line page carriage control
  · exact readText_escaped (by rw [quote]; rfl)
  · exact readText_escaped (by rw [slash]; rfl)
  · exact readText_escaped (by rw [← named backspace]; rfl)
  · exact readText_escaped (by rw [← named tab]; rfl)
  · exact readText_escaped (by rw [← named line]; rfl)
  · exact readText_escaped (by rw [← named page]; rfl)
  · exact readText_escaped (by rw [← named carriage]; rfl)
  · exact readText_escaped (readEscape_control control text)
  · exact readText_plain control quote slash

/-- A text within quotes reads back from its escapes. -/
theorem readText_written (characters : List Char) {fuel : Nat} (enough : characters.length < fuel)
    (rest : List Char) :
    readText fuel (characters.flatMap escape ++ '"' :: rest) = some (characters, rest) := by
  induction characters generalizing fuel with
  | nil =>
    obtain ⟨fuel, rfl⟩ := Nat.exists_eq_succ_of_ne_zero (Nat.ne_of_gt enough)
    rfl
  | cons character characters ih =>
    obtain ⟨fuel, rfl⟩ := Nat.exists_eq_succ_of_ne_zero (Nat.ne_of_gt (Nat.zero_lt_of_lt enough))
    rw [List.flatMap_cons, List.append_assoc, readText_escape,
      ih (by simpa using enough)]
    rfl

theorem length_le_escaped (characters : List Char) :
    characters.length ≤ (characters.flatMap escape).length := by
  induction characters with
  | nil => simp
  | cons character characters ih =>
    have one : 1 ≤ (escape character).length := by
      unfold escape
      split_ifs <;> simp
    simp only [List.flatMap_cons, List.length_append, List.length_cons]
    omega

theorem span_digits {digits rest : List Char} (each : ∀ digit ∈ digits, digit.isDigit)
    (ends : Ends rest) : (digits ++ rest).span Char.isDigit = (digits, rest) := by
  have last : rest.span Char.isDigit = ([], rest) := by
    cases rest with
    | nil => rfl
    | cons first tail =>
      have other : first.isDigit = false := by
        have among := ends first tail rfl
        simp only [List.mem_cons, List.not_mem_nil, or_false] at among
        rcases among with rfl | rfl | rfl <;> rfl
      simp [List.span_eq_takeWhile_dropWhile, other]
  rw [List.span_eq_takeWhile_dropWhile] at last ⊢
  rw [List.takeWhile_append_of_pos each, List.dropWhile_append_of_pos each]
  simp only [Prod.mk.injEq] at last
  rw [last.1, last.2, List.append_nil]

theorem readDigits_written (value : Nat) {rest : List Char} (ends : Ends rest) :
    readDigits (Nat.toDigits 10 value ++ rest) = some (Nat.toDigits 10 value, rest) := by
  have each : ∀ digit ∈ Nat.toDigits 10 value, digit.isDigit := fun digit inside =>
    Nat.isDigit_of_mem_toDigits (by decide) (by decide) inside
  rw [readDigits, span_digits each ends]
  cases digits : Nat.toDigits 10 value with
  | nil => exact absurd digits Nat.toDigits_ne_nil
  | cons first tail => rfl

/-- The digits of a number start with a zero only for nothing. -/
theorem toDigits_head {value : Nat} (positive : 0 < value) :
    (Nat.toDigits 10 value).head? ≠ some '0' := by
  induction value using Nat.strongRecOn with
  | ind value ih =>
    by_cases small : value < 10
    · rw [Nat.toDigits_of_lt_base small]
      have apart : ∀ digit < 10, 0 < digit → digit.digitChar ≠ '0' := by decide
      simpa using apart value small positive
    · rw [Nat.toDigits_of_base_le (by decide) (by omega)]
      have before := ih (value / 10) (by omega) (by omega)
      rwa [List.head?_append_of_ne_nil _ Nat.toDigits_ne_nil]

theorem ends_marks {rest : List Char} (ends : Ends rest) :
    readFraction rest = some ([], rest) ∧ readExponent rest = some ([], rest) := by
  cases rest with
  | nil => exact ⟨rfl, rfl⟩
  | cons first tail =>
    have among := ends first tail rfl
    simp only [List.mem_cons, List.not_mem_nil, or_false] at among
    rcases among with rfl | rfl | rfl <;> exact ⟨rfl, rfl⟩

section Reading

variable (readFloat : List Char → Option Number)

theorem readMagnitude_written (negative : Bool) (value : Nat) {rest : List Char} {number : Number}
    (kept : readInteger readFloat negative (Nat.toDigits 10 value) = some number)
    (ends : Ends rest) :
    readMagnitude readFloat negative (Nat.toDigits 10 value ++ rest) = some (number, rest) := by
  have head : ¬ ((Nat.toDigits 10 value).head? = some '0' ∧
      (Nat.toDigits 10 value).length ≠ 1) := by
    by_cases zero : value = 0
    · simp [zero]
    · exact fun both => toDigits_head (Nat.pos_of_ne_zero zero) both.1
  obtain ⟨fraction, exponent⟩ := ends_marks ends
  simp only [readMagnitude, readDigits_written value ends, Option.bind_eq_bind, Option.bind_some,
    if_neg head, fraction, exponent, kept, and_self, if_true, Option.pure_def]

theorem readNumber_digits (value : Nat) (rest : List Char) :
    readNumber readFloat (Nat.toDigits 10 value ++ rest) =
      readMagnitude readFloat false (Nat.toDigits 10 value ++ rest) := by
  cases digits : Nat.toDigits 10 value with
  | nil => exact absurd digits Nat.toDigits_ne_nil
  | cons first tail =>
    have digit : first.isDigit :=
      Nat.isDigit_of_mem_toDigits (n := value) (b := 10) (by decide) (by decide) (by simp [digits])
    rw [List.cons_append, readNumber]
    intro tail same
    rw [(List.cons.inj same).1] at digit
    cases digit

/-- The text of a number. -/
def writeNumber : Number → List Char
  | .posInt value => Nat.toDigits 10 value
  | .negInt value => '-' :: Nat.toDigits 10 (value + 1)
  | .float _ => []

theorem readNumber_written {number : Number} (whole : IsInteger64 number) {rest : List Char}
    (ends : Ends rest) :
    readNumber readFloat (writeNumber number ++ rest) = some (number, rest) := by
  cases number with
  | posInt value =>
    rw [writeNumber, readNumber_digits]
    apply readMagnitude_written readFloat false value _ ends
    have within : value < 2 ^ 64 := whole
    rw [readInteger, Nat.ofDigitChars_ten_toDigits, if_neg (by decide), if_pos within]
  | negInt value =>
    rw [writeNumber, List.cons_append, readNumber]
    apply readMagnitude_written readFloat true (value + 1) _ ends
    have within : 0 < value + 1 ∧ value + 1 ≤ 2 ^ 63 := ⟨Nat.succ_pos _, whole⟩
    rw [readInteger, Nat.ofDigitChars_ten_toDigits, if_pos rfl, if_pos within,
      Nat.add_sub_cancel]
  | float worth => exact absurd whole id

theorem write_number (float : Rat → String) {number : Number} (whole : IsInteger64 number) :
    ((Json.number number).write float).toList = writeNumber number := by
  cases number with
  | posInt value => simp [write, writeNumber]
  | negInt value => simp [write, writeNumber]
  | float worth => exact absurd whole id

/-- A character a number starts with. -/
def startsNumber (character : Char) : Bool := character = '-' || character.isDigit

theorem writeNumber_head {number : Number} (whole : IsInteger64 number) :
    ∃ first tail, writeNumber number = first :: tail ∧ startsNumber first := by
  cases number with
  | posInt value =>
    cases digits : Nat.toDigits 10 value with
    | nil => exact absurd digits Nat.toDigits_ne_nil
    | cons first tail =>
      have digit : first.isDigit :=
        Nat.isDigit_of_mem_toDigits (n := value) (b := 10) (by decide) (by decide) (by simp [digits])
      exact ⟨first, tail, digits, by simp [startsNumber, digit]⟩
  | negInt value => exact ⟨'-', _, rfl, rfl⟩
  | float worth => exact absurd whole id

theorem starts_apart {first mark : Char} (starts : startsNumber first)
    (other : startsNumber mark = false) : first ≠ mark := by
  intro same
  rw [same, other] at starts
  cases starts

theorem not_blank_of_starts {first : Char} (starts : startsNumber first) :
    isBlank first = false := by
  simp [isBlank, starts_apart starts (by decide : startsNumber ' ' = false),
    starts_apart starts (by decide : startsNumber '\t' = false),
    starts_apart starts (by decide : startsNumber '\n' = false),
    starts_apart starts (by decide : startsNumber '\r' = false)]

theorem readValue_number (fuel : Nat) {first : Char} {tail : List Char}
    (starts : startsNumber first) :
    readValue readFloat (fuel + 1) (first :: tail) =
      (readNumber readFloat (first :: tail)).map fun read => (.number read.1, read.2) := by
  rw [readValue, skipBlanks_cons (not_blank_of_starts starts)]
  split
  all_goals first
    | rfl
    | next same => exact absurd (List.cons.inj same).1 (starts_apart starts (by decide))

section Writing

variable (float : Rat → String)

theorem write_null : (null.write float).toList = ['n', 'u', 'l', 'l'] := by
  simp [write]

theorem write_true : ((bool true).write float).toList = ['t', 'r', 'u', 'e'] := by
  simp [write]

theorem write_false : ((bool false).write float).toList = ['f', 'a', 'l', 's', 'e'] := by
  simp [write]

theorem write_string (text : String) :
    ((string text).write float).toList = '"' :: (text.toList.flatMap escape ++ ['"']) := by
  simp [write, writeText]

theorem write_array (items : List Json) : ((array items).write float).toList =
    '[' :: ((",".intercalate (writeItems float items)).toList ++ [']']) := by
  simp [write]

theorem write_object (members : List (String × Json)) : ((object members).write float).toList =
    '\x7b' :: ((",".intercalate (writeMembers float members)).toList ++ ['\x7d']) := by
  simp [write]

/-- A value is not written as a blank or a closing bracket. -/
theorem write_head (value : Json) (whole : ∀ number ∈ numbers value, IsInteger64 number) :
    ∃ first tail, (value.write float).toList = first :: tail ∧ isBlank first = false ∧
      first ≠ ']' := by
  cases value with
  | null => exact ⟨_, _, write_null float, by decide, by decide⟩
  | bool answer =>
    cases answer with
    | true => exact ⟨_, _, write_true float, by decide, by decide⟩
    | false => exact ⟨_, _, write_false float, by decide, by decide⟩
  | number number =>
    have kept := whole number (by simp [numbers])
    obtain ⟨first, tail, written, starts⟩ := writeNumber_head kept
    exact ⟨first, tail, by rw [write_number float kept, written], not_blank_of_starts starts,
      starts_apart starts (by decide)⟩
  | string text => exact ⟨_, _, write_string float text, by decide, by decide⟩
  | array items => exact ⟨_, _, write_array float items, by decide, by decide⟩
  | object members => exact ⟨_, _, write_object float members, by decide, by decide⟩

end Writing

theorem readName_written (name : String) (rest : List Char) :
    readName ((writeText name).toList ++ ':' :: rest) = some (name, rest) := by
  have enough : name.toList.length <
      (name.toList.flatMap escape ++ '"' :: ':' :: rest).length + 1 := by
    have bound := length_le_escaped name.toList
    simp only [List.length_append]
    omega
  have text := readText_written name.toList enough (':' :: rest)
  simp only [writeText, String.toList_ofList, List.cons_append, List.append_assoc,
    List.nil_append]
  rw [readName, skipBlanks_cons (by decide)]
  simp only [text]
  rw [skipBlanks_cons (by decide)]
  simp

theorem readValue_string (fuel : Nat) (text : String) (rest : List Char) :
    readValue readFloat (fuel + 1) ('"' :: (text.toList.flatMap escape ++ ['"']) ++ rest) =
      some (.string text, rest) := by
  have enough : text.toList.length < (text.toList.flatMap escape ++ '"' :: rest).length + 1 := by
    have bound := length_le_escaped text.toList
    simp only [List.length_append]
    omega
  have read := readText_written text.toList enough rest
  simp only [List.cons_append, List.append_assoc, List.nil_append]
  rw [readValue, skipBlanks_cons (by decide)]
  simp only [read, Option.map_some, String.ofList_toList]

theorem readValue_array (fuel : Nat) {first : Char} {tail : List Char}
    (shown : isBlank first = false) (opens : first ≠ ']') :
    readValue readFloat (fuel + 1) ('[' :: first :: tail) =
      (readItems readFloat fuel (first :: tail)).map fun read => (.array read.1, read.2) := by
  rw [readValue, skipBlanks_cons (by decide)]
  simp only [skipBlanks_cons shown]
  split
  · next same => exact absurd (List.cons.inj same).1 opens
  · rfl

theorem readValue_object (fuel : Nat) (tail : List Char) :
    readValue readFloat (fuel + 1) ('\x7b' :: '"' :: tail) =
      (readMembers readFloat fuel ('"' :: tail)).map fun read => (.object read.1, read.2) := by
  rw [readValue, skipBlanks_cons (by decide)]
  simp only [skipBlanks_cons (by decide : isBlank '"' = false)]
  split
  · next same => exact absurd (List.cons.inj same).1 (by decide)
  · rfl

/-- Texts joined by commas start with the first. -/
theorem intercalate_starts (text : String) (texts : List String) :
    ∃ more, (",".intercalate (text :: texts)).toList = text.toList ++ more := by
  cases texts with
  | nil => exact ⟨[], by simp⟩
  | cons other texts =>
    exact ⟨',' :: (",".intercalate (other :: texts)).toList, by
      rw [String.intercalate_cons_cons]
      simp⟩

theorem intercalate_more (text other : String) (texts : List String) :
    (",".intercalate (text :: other :: texts)).toList =
      text.toList ++ ',' :: (",".intercalate (other :: texts)).toList := by
  rw [String.intercalate_cons_cons]
  simp

theorem write_member (name text : String) :
    (writeText name ++ ":" ++ text).toList = (writeText name).toList ++ ':' :: text.toList := by
  simp

theorem readMembers_member {fuel : Nat} {name : String} {item : Json} {text rest : List Char}
    (here : readValue readFloat fuel text = some (item, rest)) :
    readMembers readFloat (fuel + 1) ((writeText name).toList ++ ':' :: text) =
      match skipBlanks rest with
      | '\x7d' :: rest => some ([(name, item)], rest)
      | ',' :: rest => (readMembers readFloat fuel rest).map fun read =>
        ((name, item) :: read.1, read.2)
      | _ => none := by
  rw [readMembers, readName_written]
  simp only [here]

theorem ends_of_mark {mark : Char} {rest : List Char} (among : mark ∈ [',', ']', '\x7d']) :
    Ends (mark :: rest) := by
  intro first tail same
  rw [← (List.cons.inj same).1]
  exact among

variable (float : Rat → String)

mutual

/-- A value whose numbers are integers of 64 bits reads back from its text. -/
theorem readValue_written (value : Json) (fuel : Nat) (rest : List Char)
    (whole : ∀ number ∈ numbers value, IsInteger64 number) (ends : Ends rest)
    (enough : 2 * (value.write float).toList.length < fuel) :
    readValue readFloat fuel ((value.write float).toList ++ rest) = some (value, rest) := by
  obtain ⟨fuel, rfl⟩ := Nat.exists_eq_succ_of_ne_zero (Nat.ne_of_gt (Nat.zero_lt_of_lt enough))
  cases value with
  | null =>
    rw [write_null]
    rfl
  | bool answer =>
    cases answer with
    | true =>
      rw [write_true]
      rfl
    | false =>
      rw [write_false]
      rfl
  | number kept =>
    have integer := whole kept (by simp [numbers])
    obtain ⟨first, tail, written, starts⟩ := writeNumber_head integer
    have read := readNumber_written readFloat integer ends
    rw [written, List.cons_append] at read
    rw [write_number float integer, written, List.cons_append,
      readValue_number readFloat fuel starts, read]
    rfl
  | string text =>
    rw [write_string]
    exact readValue_string readFloat fuel text rest
  | array items =>
    cases items with
    | nil =>
      rw [write_array]
      rfl
    | cons item items =>
      rw [numbers] at whole
      rw [write_array] at enough ⊢
      obtain ⟨first, tail, written, shown, opens⟩ := write_head float item fun number inside =>
        whole number (by simp [numbersOfItems, inside])
      have read := readItems_written (item :: items) fuel rest whole (by simp) (by
        simp only [List.length_cons, List.length_append] at enough
        omega)
      obtain ⟨more, joined⟩ := intercalate_starts (item.write float) (writeItems float items)
      simp only [writeItems, joined, written, List.cons_append, List.append_assoc,
        List.nil_append] at read ⊢
      rw [readValue_array readFloat fuel shown opens, read]
      rfl
  | object members =>
    rcases members with _ | ⟨⟨name, item⟩, members⟩
    · rw [write_object]
      rfl
    · rw [numbers] at whole
      rw [write_object] at enough ⊢
      have read := readMembers_written ((name, item) :: members) fuel rest whole (by simp) (by
        simp only [List.length_cons, List.length_append] at enough
        omega)
      obtain ⟨more, joined⟩ := intercalate_starts (writeText name ++ ":" ++ item.write float)
        (writeMembers float members)
      simp only [writeMembers, joined] at read ⊢
      rw [write_member] at read ⊢
      simp only [writeText, String.toList_ofList, List.cons_append, List.append_assoc,
        List.nil_append] at read ⊢
      rw [readValue_object readFloat fuel, read]
      rfl

theorem readItems_written (items : List Json) (fuel : Nat) (rest : List Char)
    (whole : ∀ number ∈ numbersOfItems items, IsInteger64 number) (some : items ≠ [])
    (enough : 2 * (",".intercalate (writeItems float items)).toList.length + 1 < fuel) :
    readItems readFloat fuel ((",".intercalate (writeItems float items)).toList ++ ']' :: rest) =
      .some (items, rest) := by
  obtain ⟨fuel, rfl⟩ := Nat.exists_eq_succ_of_ne_zero (Nat.ne_of_gt (Nat.zero_lt_of_lt enough))
  rcases items with _ | ⟨item, _ | ⟨other, items⟩⟩
  · exact absurd rfl some
  · rw [writeItems, writeItems, String.intercalate_singleton] at enough ⊢
    have read := readValue_written item fuel (']' :: rest)
      (fun number inside => whole number (by simp [numbersOfItems, inside]))
      (ends_of_mark (by decide)) (by omega)
    rw [readItems, read]
    rfl
  · have joined := intercalate_more (item.write float) (other.write float) (writeItems float items)
    have here := readValue_written item fuel
      (',' :: ((",".intercalate (writeItems float (other :: items))).toList ++ ']' :: rest))
      (fun number inside => whole number (by simp [numbersOfItems, inside]))
      (ends_of_mark (by decide))
    have later := readItems_written (other :: items) fuel rest
      (fun number inside => whole number (by rw [numbersOfItems]; simp [inside])) (by simp)
    simp only [writeItems, joined, List.length_append, List.length_cons] at enough here later ⊢
    rw [List.append_assoc, List.cons_append, readItems, here (by omega)]
    simp only [skipBlanks_cons (by decide : isBlank ',' = false), later (by omega)]
    rfl

theorem readMembers_written (members : List (String × Json)) (fuel : Nat) (rest : List Char)
    (whole : ∀ number ∈ numbersOfMembers members, IsInteger64 number) (some : members ≠ [])
    (enough : 2 * (",".intercalate (writeMembers float members)).toList.length + 1 < fuel) :
    readMembers readFloat fuel
      ((",".intercalate (writeMembers float members)).toList ++ '\x7d' :: rest) =
      .some (members, rest) := by
  obtain ⟨fuel, rfl⟩ := Nat.exists_eq_succ_of_ne_zero (Nat.ne_of_gt (Nat.zero_lt_of_lt enough))
  rcases members with _ | ⟨⟨name, item⟩, _ | ⟨⟨following, other⟩, members⟩⟩
  · exact absurd rfl some
  · have here := readValue_written item fuel ('\x7d' :: rest)
      (fun number inside => whole number (by simp [numbersOfMembers, inside]))
      (ends_of_mark (by decide))
    rw [writeMembers, writeMembers, String.intercalate_singleton, write_member] at enough ⊢
    simp only [List.length_append, List.length_cons] at enough
    rw [List.append_assoc, List.cons_append, readMembers_member readFloat (here (by omega))]
    rfl
  · have joined := intercalate_more (writeText name ++ ":" ++ item.write float)
      (writeText following ++ ":" ++ other.write float) (writeMembers float members)
    have here := readValue_written item fuel
      (',' :: ((",".intercalate (writeMembers float ((following, other) :: members))).toList ++
        '\x7d' :: rest))
      (fun number inside => whole number (by simp [numbersOfMembers, inside]))
      (ends_of_mark (by decide))
    have later := readMembers_written ((following, other) :: members) fuel rest
      (fun number inside => whole number (by rw [numbersOfMembers]; simp [inside])) (by simp)
    simp only [writeMembers, joined] at enough here later ⊢
    rw [write_member] at enough ⊢
    simp only [List.length_append, List.length_cons] at enough
    rw [List.append_assoc, List.append_assoc, List.cons_append, List.cons_append,
      readMembers_member readFloat (here (by omega))]
    simp only [skipBlanks_cons (by decide : isBlank ',' = false), later (by omega)]
    rfl

end

/-- A compact text without floats reads back as what it was written from. -/
theorem read_write {value : Json} (whole : ∀ number ∈ numbers value, IsInteger64 number) :
    read readFloat (value.write float) = some value := by
  have ends : Ends [] := fun first tail same => by cases same
  have read := readValue_written readFloat float value
    (2 * (value.write float).toList.length + 1) [] whole ends (by omega)
  rw [List.append_nil] at read
  rw [Json.read, read]
  rfl

end Reading

end Saffui.Json
