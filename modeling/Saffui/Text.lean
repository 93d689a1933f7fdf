import Mathlib.Data.String.Basic

/-!
# Characters and lines

What the product takes of the standard library to read a text: the classes of
characters (`char::is_whitespace`, `char::is_control` and the ASCII ones), the
lines of a text (`str::lines`), its words, its bytes and its UTF-16 code units
(`as_bytes`, `encode_utf16`), and a code point written in hexadecimal.
`is_unshowable` is of `saffui-core/src/clients/mod.rs`.
-/

namespace Saffui.Text

def isAsciiLowercase (character : Char) : Bool := 'a' ≤ character && character ≤ 'z'

def isAsciiUppercase (character : Char) : Bool := 'A' ≤ character && character ≤ 'Z'

def isAsciiDigit (character : Char) : Bool := '0' ≤ character && character ≤ '9'

def isAsciiAlphanumeric (character : Char) : Bool :=
  isAsciiLowercase character || isAsciiUppercase character || isAsciiDigit character

/-- Whether a character is within two code points, both of them included. -/
def within (first last : Nat) (character : Char) : Bool :=
  first ≤ character.toNat && character.toNat ≤ last

/-- The control characters of Unicode, its category Cc. -/
def isControl (character : Char) : Bool :=
  within 0x0 0x1f character || within 0x7f 0x9f character

/-- The characters Unicode gives the property White_Space. -/
def isWhitespace (character : Char) : Bool :=
  within 0x9 0xd character || within 0x20 0x20 character || within 0x85 0x85 character ||
    within 0xa0 0xa0 character || within 0x1680 0x1680 character ||
    within 0x2000 0x200a character || within 0x2028 0x2029 character ||
    within 0x202f 0x202f character || within 0x205f 0x205f character ||
    within 0x3000 0x3000 character

/-- A text without the whitespace at its two ends: `str::trim`. -/
def trim (text : String) : String :=
  let rest := text.toList.dropWhile isWhitespace
  String.ofList (rest.reverse.dropWhile isWhitespace).reverse

/-- `str::to_ascii_lowercase` -/
def toAsciiLowercase (text : String) : String :=
  text.map fun character =>
    if isAsciiUppercase character then Char.ofNat (character.toNat + 32) else character

/-- The parts of a text between the places of a character: `str::split`. -/
def split (mark : Char) (text : String) : List String :=
  (text.toList.splitOn mark).map String.ofList

/-- The two parts of a text around the first place of a character: `str::split_once`. -/
def splitOnce (mark : Char) (text : String) : Option (String × String) :=
  match text.toList.dropWhile fun character => character ≠ mark with
  | [] => none
  | _ :: rest =>
    some (String.ofList (text.toList.takeWhile fun character => character ≠ mark),
      String.ofList rest)

/-- The number some digits write. -/
def decimal (digits : List Char) : Nat :=
  digits.foldl (fun number digit => number * 10 + (digit.toNat - '0'.toNat)) 0

/-- The words of a text between blanks, the empty ones left out. -/
def words (text : String) : List String := (split ' ' text).filter fun word => word ≠ ""

/-- A text is its parts, with the mark between them. -/
theorem intercalate_split (mark : Char) (text : String) :
    [mark].intercalate ((split mark text).map String.toList) = text.toList := by
  rw [split, List.map_map]
  have same : String.toList ∘ String.ofList = id := by
    funext characters
    exact String.toList_ofList
  rw [same, List.map_id, List.intercalate_splitOn]

/-- What stands before the first mark of a text is its first part. -/
theorem split_of_append {mark : Char} {text first rest : String} (absent : mark ∉ first.toList)
    (joined : text.toList = first.toList ++ mark :: rest.toList) :
    split mark text = first :: split mark rest := by
  rw [split, joined, List.splitOn_append_cons_self_of_not_mem absent, List.map_cons,
    String.ofList_toList, split]

theorem not_mem_toList {mark : Char} {text : List Char}
    (absent : text.all (fun character => character ≠ mark) = true) :
    mark ∉ (String.ofList text).toList := by
  rw [String.toList_ofList]
  exact fun inside => by simpa using List.all_eq_true.mp absent mark inside

/-- The parts of a text joined by dots none of them holds. -/
theorem split_joined {first second third : String} (one : '.' ∉ first.toList)
    (two : '.' ∉ second.toList) (three : '.' ∉ third.toList) :
    split '.' (first ++ "." ++ second ++ "." ++ third) = [first, second, third] := by
  have joined : (first ++ "." ++ second ++ "." ++ third).toList =
      ['.'].intercalate [first.toList, second.toList, third.toList] := by
    simp [List.intercalate]
  have apart : ∀ part ∈ [first.toList, second.toList, third.toList], '.' ∉ part := by
    simp [one, two, three]
  rw [split, joined, List.splitOn_intercalate '.' apart (by simp)]
  simp

/-- Parts that do not hold the mark that joins them are told apart by it. -/
theorem split_intercalate {mark : Char} {parts : List String} (some_part : parts ≠ [])
    (apart : ∀ part ∈ parts, mark ∉ part.toList) :
    split mark ((String.singleton mark).intercalate parts) = parts := by
  have lists : ∀ part ∈ parts.map String.toList, mark ∉ part := by
    intro part inside
    obtain ⟨one, member, rfl⟩ := List.mem_map.mp inside
    exact apart one member
  have sign : (String.singleton mark).toList = [mark] := String.toList_singleton mark
  have same : String.ofList ∘ String.toList = id := by
    funext text
    exact String.ofList_toList
  rw [split, String.toList_intercalate, sign, List.splitOn_intercalate mark lists (by simpa using some_part),
    List.map_map, same, List.map_id]

/-- A text is its parts joined. -/
theorem intercalate_of_split (mark : Char) (text : String) :
    (String.singleton mark).intercalate (split mark text) = text := by
  have joined := intercalate_split mark text
  apply String.toList_injective
  rw [String.toList_intercalate, String.toList_singleton, joined]

theorem splitOnce_append {mark : Char} {first : List Char} (absent : mark ∉ first)
    (rest : List Char) :
    splitOnce mark (String.ofList (first ++ mark :: rest)) =
      some (String.ofList first, String.ofList rest) := by
  have all : ∀ character ∈ first, decide (character ≠ mark) = true := fun character inside =>
    decide_eq_true fun same => absent (same ▸ inside)
  have taken : (first ++ mark :: rest).takeWhile (fun character => character ≠ mark) = first := by
    rw [List.takeWhile_append_of_pos all, List.takeWhile_cons_of_neg (by simp), List.append_nil]
  have dropped : (first ++ mark :: rest).dropWhile (fun character => character ≠ mark) =
      mark :: rest := by
    rw [List.dropWhile_append_of_pos all, List.dropWhile_cons_of_neg (by simp)]
  rw [splitOnce, String.toList_ofList, dropped]
  exact congrArg (fun part => some (String.ofList part, String.ofList rest)) taken

theorem toList_of_splitOnce {mark : Char} {text first rest : String}
    (parted : splitOnce mark text = some (first, rest)) :
    text.toList = first.toList ++ mark :: rest.toList := by
  have whole := List.takeWhile_append_dropWhile (p := fun character => decide (character ≠ mark))
    (l := text.toList)
  unfold splitOnce at parted
  split at parted
  · cases parted
  · next sign tail dropped =>
    have held : sign = mark := by
      have stopped := List.head?_dropWhile_not (fun character => decide (character ≠ mark)) text.toList
      rw [dropped] at stopped
      simpa using stopped
    obtain ⟨rfl, rfl⟩ := Prod.mk.inj (Option.some.inj parted)
    rw [dropped, held] at whole
    rw [String.toList_ofList, String.toList_ofList, whole]

theorem decimal_lt {digits : List Char} (each : ∀ one ∈ digits, isAsciiDigit one = true) :
    decimal digits < 10 ^ digits.length := by
  have grown (number : Nat) (rest : List Char)
      (plain : ∀ one ∈ rest, isAsciiDigit one = true) :
      rest.foldl (fun number digit => number * 10 + (digit.toNat - '0'.toNat)) number <
        (number + 1) * 10 ^ rest.length := by
    induction rest generalizing number with
    | nil => simp
    | cons digit rest ih =>
      have first := plain digit List.mem_cons_self
      simp only [isAsciiDigit, Bool.and_eq_true, decide_eq_true_eq] at first
      have last : digit.toNat ≤ '9'.toNat := first.2
      have nine : '9'.toNat = 57 := rfl
      have zero : '0'.toNat = 48 := rfl
      have next := ih (number * 10 + (digit.toNat - '0'.toNat))
        fun one inside => plain one (List.mem_cons_of_mem _ inside)
      have bound : number * 10 + (digit.toNat - '0'.toNat) + 1 ≤ (number + 1) * 10 := by omega
      rw [List.foldl_cons, List.length_cons, pow_succ]
      calc
        _ < (number * 10 + (digit.toNat - '0'.toNat) + 1) * 10 ^ rest.length := next
        _ ≤ (number + 1) * 10 * 10 ^ rest.length := Nat.mul_le_mul_right _ bound
        _ = (number + 1) * (10 ^ rest.length * 10) := by
          rw [Nat.mul_assoc, Nat.mul_comm 10]
  have whole := grown 0 digits each
  rw [Nat.zero_add, Nat.one_mul] at whole
  exact whole

/-- The words of a text that joins words with blanks. -/
theorem words_intercalate {list : List String}
    (each : ∀ word ∈ list, word ≠ "" ∧ ' ' ∉ word.toList) :
    words (" ".intercalate list) = list := by
  have kept : list.filter (fun word => decide (word ≠ "")) = list := by
    rw [List.filter_eq_self]
    intro word inside
    exact decide_eq_true (each word inside).1
  cases list with
  | nil => rfl
  | cons word rest =>
    have apart : ∀ part ∈ (word :: rest).map String.toList, ' ' ∉ part := by
      intro part inside
      obtain ⟨one, member, rfl⟩ := List.mem_map.mp inside
      exact (each one member).2
    have blank : " ".toList = [' '] := rfl
    rw [words, split, String.toList_intercalate, blank, List.splitOn_intercalate ' ' apart (by simp),
      List.map_map]
    have same : String.ofList ∘ String.toList = id := by
      funext text
      exact String.ofList_toList
    rw [same, List.map_id, kept]

/-- The format characters no page shows as they are, by their code points. -/
def UNSHOWABLE : List (Nat × Nat) :=
  [(0xad, 0xad), (0x600, 0x605), (0x61c, 0x61c), (0x6dd, 0x6dd), (0x70f, 0x70f), (0x890, 0x891),
    (0x8e2, 0x8e2), (0x180e, 0x180e), (0x200b, 0x200f), (0x2028, 0x202e), (0x2060, 0x2064),
    (0x2066, 0x206f), (0xfeff, 0xfeff), (0xfff9, 0xfffb), (0x110bd, 0x110bd), (0x110cd, 0x110cd),
    (0x13430, 0x1343f), (0x1bca0, 0x1bca3), (0x1d173, 0x1d17a), (0xe0001, 0xe0001),
    (0xe0020, 0xe007f)]

def isUnshowable (character : Char) : Bool :=
  isControl character || UNSHOWABLE.any fun range => within range.1 range.2 character

/-- The lines of a text, as `str::lines` has them: a line feed ends a line,
with the carriage return right before it; what follows the last line feed is
a line when there is anything there. -/
def lines : List Char → List (List Char)
  | [] => []
  | '\r' :: '\n' :: rest => [] :: lines rest
  | '\n' :: rest => [] :: lines rest
  | character :: rest =>
    match lines rest with
    | [] => [[character]]
    | line :: more => (character :: line) :: more

example : lines "a\r\nb\r\n\nc\r".toList =
    ["a".toList, "b".toList, [], "c\r".toList] := by decide

def upperHexDigit (digit : Nat) : Char :=
  if digit < 10 then Char.ofNat (0x30 + digit) else Char.ofNat (0x41 + (digit - 10))

def upperHexDigits : Nat → Nat → List Char
  | 0, _ => []
  | fuel + 1, value =>
    if value < 16 then [upperHexDigit value]
    else upperHexDigits fuel (value / 16) ++ [upperHexDigit (value % 16)]

/-- A number in uppercase hexadecimal, four digits wide at least: `{:04X}`. -/
def writeHex4 (value : Nat) : String :=
  let digits := upperHexDigits 16 value
  String.ofList (List.replicate (4 - digits.length) '0' ++ digits)

example : writeHex4 0x9 = "0009" ∧ writeHex4 0x202e = "202E" ∧ writeHex4 0xe0001 = "E0001" := by
  decide

/-- The bytes of a text. -/
def utf8 (text : String) : List UInt8 := text.toByteArray.data.toList

/-- The text bytes write, where they are UTF-8. -/
def readUtf8 (bytes : List UInt8) : Option String := String.fromUTF8? ⟨bytes.toArray⟩

theorem readUtf8_utf8 (text : String) : readUtf8 (utf8 text) = some text := by
  have same : (⟨(utf8 text).toArray⟩ : ByteArray) = text.toByteArray := by
    simp [utf8]
  rw [readUtf8, same, String.fromUTF8?, dif_pos text.isValidUTF8]
  rfl

theorem utf8_injective {one other : String} (same : utf8 one = utf8 other) : one = other := by
  have read := readUtf8_utf8 one
  rw [same, readUtf8_utf8] at read
  exact (Option.some.inj read).symm

/-- The UTF-16 code units of a character: one within the basic plane, and a
pair of surrogates above it. -/
def codeUnits (character : Char) : List Nat :=
  let point := character.toNat
  if point < 0x10000 then [point]
  else [0xd800 + (point - 0x10000) / 0x400, 0xdc00 + (point - 0x10000) % 0x400]

def encodeUtf16 (text : String) : List Nat := text.toList.flatMap codeUnits

theorem toNat_not_surrogate (character : Char) :
    character.toNat < 0xd800 ∨ 0xdfff < character.toNat ∧ character.toNat < 0x110000 :=
  character.valid

/-- The first code units of a text give its first character. -/
theorem codeUnits_append_inj {one other : Char} {rest more : List Nat}
    (same : codeUnits one ++ rest = codeUnits other ++ more) : one = other ∧ rest = more := by
  have first := toNat_not_surrogate one
  have second := toNat_not_surrogate other
  have named (equal : one.toNat = other.toNat) : one = other := Char.toNat_inj.mp equal
  unfold codeUnits at same
  simp only at same
  split at same <;> split at same
  · simp only [List.cons_append, List.nil_append, List.cons.injEq] at same
    exact ⟨named same.1, same.2⟩
  · simp only [List.cons_append, List.nil_append, List.cons.injEq] at same
    omega
  · simp only [List.cons_append, List.nil_append, List.cons.injEq] at same
    omega
  · simp only [List.cons_append, List.nil_append, List.cons.injEq] at same
    exact ⟨named (by omega), same.2.2⟩

theorem encodeUtf16_injective {one other : String} (same : encodeUtf16 one = encodeUtf16 other) :
    one = other := by
  have lists : ∀ left right : List Char,
      left.flatMap codeUnits = right.flatMap codeUnits → left = right := by
    intro left
    induction left with
    | nil =>
      intro right same
      cases right with
      | nil => rfl
      | cons head tail =>
        unfold codeUnits at same
        simp only [List.flatMap_nil, List.flatMap_cons] at same
        split at same <;> simp at same
    | cons first left ih =>
      intro right same
      cases right with
      | nil =>
        unfold codeUnits at same
        simp only [List.flatMap_nil, List.flatMap_cons] at same
        split at same <;> simp at same
      | cons second right =>
        obtain ⟨here, rest⟩ := codeUnits_append_inj same
        rw [here, ih right rest]
  exact String.toList_inj.mp (lists _ _ same)

end Saffui.Text
