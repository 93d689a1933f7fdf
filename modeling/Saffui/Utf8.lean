import Saffui.Text

/-!
# The bytes of a text, character by character

An ASCII character is one byte, its own; every byte of another is past ASCII.
-/

namespace Saffui.Text

def IsAscii (character : Char) : Prop := character.toNat < 128

instance (character : Char) : Decidable (IsAscii character) :=
  inferInstanceAs (Decidable (character.toNat < 128))

def byteOf (character : Char) : UInt8 := UInt8.ofNat character.toNat

theorem utf8_ofList (characters : List Char) :
    utf8 (String.ofList characters) = characters.flatMap String.utf8EncodeChar := by
  rw [utf8, String.toByteArray_ofList, List.utf8Encode]
  simp

theorem utf8_eq (text : String) : utf8 text = text.toList.flatMap String.utf8EncodeChar := by
  have same := utf8_ofList text.toList
  rwa [String.ofList_toList] at same

theorem utf8_length (text : String) : (utf8 text).length = text.utf8ByteSize := by
  rw [utf8, Array.length_toList]
  rfl

theorem utf8EncodeChar_ascii {character : Char} (ascii : IsAscii character) :
    String.utf8EncodeChar character = [byteOf character] := by
  have small : character.val.toNat ≤ 0x7f := by
    have bound : character.toNat < 128 := ascii
    have same : character.toNat = character.val.toNat := rfl
    omega
  rw [String.utf8EncodeChar]
  simp only [small, if_true]
  rfl

theorem utf8EncodeChar_high {character : Char} (high : ¬IsAscii character) :
    ∀ byte ∈ String.utf8EncodeChar character, 128 ≤ byte.toNat := by
  have bound : ¬character.toNat < 128 := high
  have valid := toNat_not_surrogate character
  have same : character.toNat = character.val.toNat := rfl
  intro byte inside
  unfold String.utf8EncodeChar at inside
  dsimp only at inside
  split at inside
  · omega
  · split at inside
    · simp only [List.mem_cons, List.not_mem_nil, or_false] at inside
      rcases inside with rfl | rfl <;> rw [UInt8.toNat_ofNat'] <;> omega
    · split at inside
      · simp only [List.mem_cons, List.not_mem_nil, or_false] at inside
        rcases inside with rfl | rfl | rfl <;>
          rw [UInt8.toNat_ofNat'] <;> omega
      · simp only [List.mem_cons, List.not_mem_nil, or_false] at inside
        rcases inside with rfl | rfl | rfl | rfl <;>
          rw [UInt8.toNat_ofNat'] <;> omega

/-- The bytes of ASCII characters are their own. -/
theorem utf8_of_ascii {characters : List Char} (ascii : ∀ one ∈ characters, IsAscii one) :
    utf8 (String.ofList characters) = characters.map byteOf := by
  rw [utf8_ofList]
  induction characters with
  | nil => rfl
  | cons one rest ih =>
    have tail := ih fun other inside => ascii other (List.mem_cons_of_mem _ inside)
    rw [List.flatMap_cons, utf8EncodeChar_ascii (ascii one List.mem_cons_self), tail]
    rfl

theorem utf8ByteSize_of_ascii {text : String} (ascii : ∀ one ∈ text.toList, IsAscii one) :
    text.utf8ByteSize = text.toList.length := by
  have same := utf8_of_ascii ascii
  rw [String.ofList_toList] at same
  rw [← utf8_length, same, List.length_map]

theorem ascii_of_digit {character : Char} (digit : isAsciiDigit character = true) :
    IsAscii character := by
  simp only [isAsciiDigit, Bool.and_eq_true, decide_eq_true_eq] at digit
  have last : character.toNat ≤ '9'.toNat := digit.2
  have nine : '9'.toNat = 57 := rfl
  rw [IsAscii]
  omega

theorem ascii_of_alphanumeric {character : Char}
    (plain : isAsciiAlphanumeric character = true) : IsAscii character := by
  simp only [isAsciiAlphanumeric, isAsciiLowercase, isAsciiUppercase, Bool.or_eq_true,
    Bool.and_eq_true, decide_eq_true_eq] at plain
  rcases plain with (lower | upper) | digit
  · have last : character.toNat ≤ 'z'.toNat := lower.2
    have bound : 'z'.toNat = 122 := rfl
    rw [IsAscii]
    omega
  · have last : character.toNat ≤ 'Z'.toNat := upper.2
    have bound : 'Z'.toNat = 90 := rfl
    rw [IsAscii]
    omega
  · apply ascii_of_digit
    simpa [isAsciiDigit] using digit

end Saffui.Text
