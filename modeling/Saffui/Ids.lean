import Mathlib.Algebra.GroupWithZero.Nat
import Saffui.Text

/-!
# Identifiers

Source: the `uuid` crate as the product uses it. An identifier is 128 bits;
`Uuid.text` is its hyphenated writing, which `to_string` and `serde` give, and
`Uuid.parse` reads the four writings `parse_str` takes.
-/

namespace Saffui

abbrev Uuid := Fin (2 ^ 128)

instance Uuid.neZero : NeZero (2 ^ 128) := ⟨by decide⟩

instance Uuid.lawfulBEq : LawfulBEq Uuid := inferInstance

namespace Uuid

/-- The hexadecimal digits of a number, as many as asked, the last ones. -/
def hexDigits : Nat → Nat → List Char
  | 0, _ => []
  | count + 1, value =>
    hexDigits count (value / 16) ++ [(Text.upperHexDigit (value % 16)).toLower]

def text (id : Uuid) : String :=
  let digits := hexDigits 32 id.val
  String.ofList (digits.take 8 ++ '-' :: (digits.drop 8).take 4 ++ '-' :: (digits.drop 12).take 4 ++
    '-' :: (digits.drop 16).take 4 ++ '-' :: digits.drop 20)

def readHexDigit (character : Char) : Option Nat :=
  if Text.isAsciiDigit character then some (character.toNat - '0'.toNat)
  else if Text.within 'a'.toNat 'f'.toNat character then some (character.toNat - 'a'.toNat + 10)
  else if Text.within 'A'.toNat 'F'.toNat character then some (character.toNat - 'A'.toNat + 10)
  else none

def readSimple (digits : List Char) : Option Uuid := do
  guard (digits.length = 32)
  let values ← digits.mapM readHexDigit
  return Fin.ofNat _ (values.foldl (fun number digit => number * 16 + digit) 0)

/-- Five groups of digits with a hyphen between them. -/
def readHyphenated (text : List Char) : Option Uuid := do
  guard (text.length = 36 ∧ [8, 13, 18, 23].all fun place => text[place]? == some '-')
  readSimple (text.take 8 ++ (text.drop 9).take 4 ++ (text.drop 14).take 4 ++
    (text.drop 19).take 4 ++ text.drop 24)

def parse (text : String) : Option Uuid :=
  let characters := text.toList
  if characters.length = 32 then readSimple characters
  else if characters.length = 36 then readHyphenated characters
  else if characters.length = 38 ∧ characters.head? = some '\x7b' ∧
      characters.getLast? = some '\x7d' then
    readHyphenated characters.tail.dropLast
  else if characters.length = 45 ∧ "urn:uuid:".toList.isPrefixOf characters then
    readHyphenated (characters.drop 9)
  else none

theorem hexDigits_length (count value : Nat) : (hexDigits count value).length = count := by
  induction count generalizing value with
  | zero => rfl
  | succ count ih => simp [hexDigits, ih]

theorem readHexDigit_lower (digit : Fin 16) :
    readHexDigit (Text.upperHexDigit digit.val).toLower = some digit.val := by
  revert digit
  decide +kernel

theorem mapM_hexDigits (count value : Nat) :
    ∃ values, (hexDigits count value).mapM readHexDigit = some values ∧
      values.foldl (fun number digit => number * 16 + digit) 0 = value % 16 ^ count := by
  induction count generalizing value with
  | zero => exact ⟨[], rfl, by simp [Nat.mod_one]⟩
  | succ count ih =>
    obtain ⟨values, read, same⟩ := ih (value / 16)
    have last := readHexDigit_lower ⟨value % 16, Nat.mod_lt _ (by decide)⟩
    refine ⟨values ++ [value % 16], by simp [hexDigits, List.mapM_append, read, last], ?_⟩
    rw [List.foldl_append, same, Nat.pow_succ', Nat.mod_mul]
    simp only [List.foldl_cons, List.foldl_nil]
    omega

theorem readSimple_hexDigits (id : Uuid) : readSimple (hexDigits 32 id.val) = some id := by
  obtain ⟨values, read, same⟩ := mapM_hexDigits 32 id.val
  have within : id.val < 16 ^ 32 := id.isLt
  rw [Nat.mod_eq_of_lt within] at same
  have length := hexDigits_length 32 id.val
  rw [readSimple, guard, if_pos length, read]
  change some (Fin.ofNat (2 ^ 128) _) = some id
  rw [same, Fin.ofNat_val_eq_self]

/-- Groups of digits of the lengths of an identifier read as the digits do. -/
theorem readHyphenated_groups {first second third fourth last : List Char}
    (lengths : first.length = 8 ∧ second.length = 4 ∧ third.length = 4 ∧ fourth.length = 4 ∧
      last.length = 12) :
    readHyphenated (first ++ '-' :: second ++ '-' :: third ++ '-' :: fourth ++ '-' :: last) =
      readSimple (first ++ second ++ third ++ fourth ++ last) := by
  obtain ⟨one, two, three, four, five⟩ := lengths
  unfold readHyphenated
  simp [List.drop_append, List.getElem?_append, List.drop_eq_nil_of_le, one, two, three, four, five,
    guard]

/-- An identifier reads back from its text. -/
theorem parse_text (id : Uuid) : parse id.text = some id := by
  have whole := hexDigits_length 32 id.val
  have long : id.text.toList.length = 36 := by simp [text, whole]
  have hyphenated : parse id.text = readHyphenated id.text.toList := by
    simp [parse, long]
  rw [hyphenated, text, String.toList_ofList, readHyphenated_groups (by simp [whole]),
    ← List.take_add, ← List.take_add, ← List.take_add, List.take_append_drop,
    readSimple_hexDigits]

theorem readHexDigit_of_mem {count value : Nat} {character : Char}
    (inside : character ∈ hexDigits count value) : (readHexDigit character).isSome := by
  induction count generalizing value with
  | zero => cases inside
  | succ count ih =>
    rcases List.mem_append.mp inside with before | last
    · exact ih before
    · have digit := readHexDigit_lower ⟨value % 16, Nat.mod_lt _ (by decide)⟩
      rw [List.mem_singleton.mp last, digit]
      rfl

/-- Digits and hyphens are all that stands in the text of an identifier. -/
theorem not_mem_text {mark : Char} (outside : readHexDigit mark = none) (other : mark ≠ '-')
    (id : Uuid) : mark ∉ id.text.toList := by
  intro inside
  have absent : mark ∉ hexDigits 32 id.val := by
    intro digit
    have read := readHexDigit_of_mem digit
    rw [outside] at read
    cases read
  rw [text, String.toList_ofList] at inside
  simp only [List.mem_append, List.mem_cons] at inside
  rcases inside with (((first | hyphen | part) | hyphen | part) | hyphen | part) | hyphen | last
  · exact absent (List.mem_of_mem_take first)
  · exact other hyphen
  · exact absent (List.mem_of_mem_drop (List.mem_of_mem_take part))
  · exact other hyphen
  · exact absent (List.mem_of_mem_drop (List.mem_of_mem_take part))
  · exact other hyphen
  · exact absent (List.mem_of_mem_drop (List.mem_of_mem_take part))
  · exact other hyphen
  · exact absent (List.mem_of_mem_drop last)

end Uuid

example : Uuid.text 7 = "00000000-0000-0000-0000-000000000007" := by decide +kernel

example : Uuid.parse "00000000-0000-0000-0000-00000000000A" = some 10 := by decide +kernel

end Saffui
