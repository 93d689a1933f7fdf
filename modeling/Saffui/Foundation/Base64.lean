import Mathlib.Data.List.Basic

/-!
# Bytes in the base64 of URLs, without padding

The alphabet of RFC 4648 for URLs: three bytes are four characters, and what
is left of a last group is two or three of them. `decode` takes what `encode`
writes and nothing else: a last character whose spare bits are not zero is
refused, as a strict decoder does. Nothing here is of one program.
-/

namespace Saffui.Foundation.Base64

/-- The character of six bits. -/
def digit (value : Nat) : Char :=
  if value < 26 then Char.ofNat (0x41 + value)
  else if value < 52 then Char.ofNat (0x61 + (value - 26))
  else if value < 62 then Char.ofNat (0x30 + (value - 52))
  else if value = 62 then '-'
  else '_'

/-- The six bits of a character of the alphabet. -/
def read (character : Char) : Option Nat :=
  if 0x41 ≤ character.toNat ∧ character.toNat ≤ 0x5a then some (character.toNat - 0x41)
  else if 0x61 ≤ character.toNat ∧ character.toNat ≤ 0x7a then some (character.toNat - 0x61 + 26)
  else if 0x30 ≤ character.toNat ∧ character.toNat ≤ 0x39 then some (character.toNat - 0x30 + 52)
  else if character = '-' then some 62
  else if character = '_' then some 63
  else none

/-- The characters of bytes, three at a time. -/
def encodeChars : List UInt8 → List Char
  | [] => []
  | [one] => [digit (one.toNat / 4), digit (one.toNat % 4 * 16)]
  | [one, two] =>
    [digit (one.toNat / 4), digit (one.toNat % 4 * 16 + two.toNat / 16),
      digit (two.toNat % 16 * 4)]
  | one :: two :: three :: rest =>
    digit (one.toNat / 4) :: digit (one.toNat % 4 * 16 + two.toNat / 16) ::
      digit (two.toNat % 16 * 4 + three.toNat / 64) :: digit (three.toNat % 64) ::
      encodeChars rest

/-- The bytes of characters, four at a time. -/
def decodeChars : List Char → Option (List UInt8)
  | [] => some []
  | [_] => none
  | [one, two] => do
    let first ← read one
    let second ← read two
    if second % 16 = 0 then some [UInt8.ofNat (first * 4 + second / 16)] else none
  | [one, two, three] => do
    let first ← read one
    let second ← read two
    let third ← read three
    if third % 4 = 0 then
      some [UInt8.ofNat (first * 4 + second / 16), UInt8.ofNat (second % 16 * 16 + third / 4)]
    else none
  | one :: two :: three :: four :: rest => do
    let first ← read one
    let second ← read two
    let third ← read three
    let fourth ← read four
    let bytes ← decodeChars rest
    return UInt8.ofNat (first * 4 + second / 16) :: UInt8.ofNat (second % 16 * 16 + third / 4) ::
      UInt8.ofNat (third % 4 * 64 + fourth) :: bytes

def encode (bytes : List UInt8) : String := String.ofList (encodeChars bytes)

def decode (text : String) : Option (List UInt8) := decodeChars text.toList

example : encode [0x66, 0x6f, 0x6f, 0x62] = "Zm9vYg" := by decide

example : decode "Zm9vYh" = none := by decide

theorem read_digit {value : Nat} (small : value < 64) : read (digit value) = some value := by
  have all : ∀ value : Fin 64, read (digit value.val) = some value.val := by decide
  exact all ⟨value, small⟩

theorem read_lt {character : Char} {value : Nat} (read : read character = some value) :
    value < 64 := by
  unfold Base64.read at read
  split at read
  · cases read
    omega
  · split at read
    · cases read
      omega
    · split at read
      · cases read
        omega
      · split at read
        · cases read
          omega
        · split at read
          · cases read
            omega
          · cases read

theorem digit_read {character : Char} {value : Nat} (read : read character = some value) :
    digit value = character := by
  unfold Base64.read at read
  split at read
  · next upper =>
    cases read
    rw [digit, if_pos (by omega), Nat.add_sub_cancel' upper.1, Char.ofNat_toNat]
  · split at read
    · next lower =>
      cases read
      rw [digit, if_neg (by omega), if_pos (by omega), Nat.add_sub_cancel,
        Nat.add_sub_cancel' lower.1, Char.ofNat_toNat]
    · split at read
      · next decimal =>
        cases read
        rw [digit, if_neg (by omega), if_neg (by omega), if_pos (by omega), Nat.add_sub_cancel,
          Nat.add_sub_cancel' decimal.1, Char.ofNat_toNat]
      · split at read
        · next hyphen =>
          cases read
          exact hyphen.symm
        · split at read
          · next underscore =>
            cases read
            exact underscore.symm
          · cases read

/-- What is written reads back. -/
theorem decodeChars_encodeChars (bytes : List UInt8) :
    decodeChars (encodeChars bytes) = some bytes := by
  induction bytes using encodeChars.induct with
  | case1 => rfl
  | case2 one =>
    have bound := one.toNat_lt
    rw [encodeChars, decodeChars, read_digit (by omega), read_digit (by omega)]
    have whole : one.toNat / 4 * 4 + one.toNat % 4 * 16 / 16 = one.toNat := by omega
    simp only [Option.bind_eq_bind, Option.bind_some]
    rw [if_pos (by omega), whole, UInt8.ofNat_toNat]
  | case3 one two =>
    have first := one.toNat_lt
    have second := two.toNat_lt
    rw [encodeChars, decodeChars, read_digit (by omega), read_digit (by omega),
      read_digit (by omega)]
    have one_whole : one.toNat / 4 * 4 + (one.toNat % 4 * 16 + two.toNat / 16) / 16 = one.toNat := by
      omega
    have two_whole : (one.toNat % 4 * 16 + two.toNat / 16) % 16 * 16 + two.toNat % 16 * 4 / 4 =
        two.toNat := by
      omega
    simp only [Option.bind_eq_bind, Option.bind_some]
    rw [if_pos (by omega), one_whole, two_whole, UInt8.ofNat_toNat, UInt8.ofNat_toNat]
  | case4 one two three rest ih =>
    have first := one.toNat_lt
    have second := two.toNat_lt
    have third := three.toNat_lt
    rw [encodeChars, decodeChars, read_digit (by omega), read_digit (by omega),
      read_digit (by omega), read_digit (by omega), ih]
    have one_whole : one.toNat / 4 * 4 + (one.toNat % 4 * 16 + two.toNat / 16) / 16 = one.toNat := by
      omega
    have two_whole : (one.toNat % 4 * 16 + two.toNat / 16) % 16 * 16 +
        (two.toNat % 16 * 4 + three.toNat / 64) / 4 = two.toNat := by
      omega
    have three_whole : (two.toNat % 16 * 4 + three.toNat / 64) % 4 * 64 + three.toNat % 64 =
        three.toNat := by
      omega
    simp only [Option.bind_eq_bind, Option.bind_some, one_whole, two_whole, three_whole,
      UInt8.ofNat_toNat]
    rfl

theorem decode_encode (bytes : List UInt8) : decode (encode bytes) = some bytes := by
  rw [decode, encode, String.toList_ofList, decodeChars_encodeChars]

theorem toNat_ofNat_of_lt {value : Nat} (small : value < 256) : (UInt8.ofNat value).toNat = value := by
  rw [UInt8.toNat_ofNat']
  exact Nat.mod_eq_of_lt small

/-- What reads is what is written: no two texts are of the same bytes. -/
theorem encodeChars_decodeChars {characters : List Char} {bytes : List UInt8}
    (decoded : decodeChars characters = some bytes) : encodeChars bytes = characters := by
  induction characters using decodeChars.induct generalizing bytes with
  | case1 =>
    cases decoded
    rfl
  | case2 => cases decoded
  | case3 one two =>
    rw [decodeChars] at decoded
    obtain ⟨first, read_one, decoded⟩ := Option.bind_eq_some_iff.mp decoded
    obtain ⟨second, read_two, decoded⟩ := Option.bind_eq_some_iff.mp decoded
    have first_lt := read_lt read_one
    have second_lt := read_lt read_two
    split at decoded
    · next spare =>
      cases decoded
      rw [encodeChars, toNat_ofNat_of_lt (by omega),
        show (first * 4 + second / 16) / 4 = first by omega,
        show (first * 4 + second / 16) % 4 * 16 = second by omega, digit_read read_one,
        digit_read read_two]
    · cases decoded
  | case4 one two three =>
    rw [decodeChars] at decoded
    obtain ⟨first, read_one, decoded⟩ := Option.bind_eq_some_iff.mp decoded
    obtain ⟨second, read_two, decoded⟩ := Option.bind_eq_some_iff.mp decoded
    obtain ⟨third, read_three, decoded⟩ := Option.bind_eq_some_iff.mp decoded
    have first_lt := read_lt read_one
    have second_lt := read_lt read_two
    have third_lt := read_lt read_three
    split at decoded
    · next spare =>
      cases decoded
      rw [encodeChars, toNat_ofNat_of_lt (by omega), toNat_ofNat_of_lt (by omega),
        show (first * 4 + second / 16) / 4 = first by omega,
        show (first * 4 + second / 16) % 4 * 16 + (second % 16 * 16 + third / 4) / 16 = second by
          omega,
        show (second % 16 * 16 + third / 4) % 16 * 4 = third by omega, digit_read read_one,
        digit_read read_two, digit_read read_three]
    · cases decoded
  | case5 one two three four rest ih =>
    rw [decodeChars] at decoded
    obtain ⟨first, read_one, decoded⟩ := Option.bind_eq_some_iff.mp decoded
    obtain ⟨second, read_two, decoded⟩ := Option.bind_eq_some_iff.mp decoded
    obtain ⟨third, read_three, decoded⟩ := Option.bind_eq_some_iff.mp decoded
    obtain ⟨fourth, read_four, decoded⟩ := Option.bind_eq_some_iff.mp decoded
    obtain ⟨tail, read_rest, decoded⟩ := Option.bind_eq_some_iff.mp decoded
    have first_lt := read_lt read_one
    have second_lt := read_lt read_two
    have third_lt := read_lt read_three
    have fourth_lt := read_lt read_four
    cases decoded
    rw [encodeChars, toNat_ofNat_of_lt (by omega), toNat_ofNat_of_lt (by omega),
      toNat_ofNat_of_lt (by omega), ih read_rest,
      show (first * 4 + second / 16) / 4 = first by omega,
      show (first * 4 + second / 16) % 4 * 16 + (second % 16 * 16 + third / 4) / 16 = second by
        omega,
      show (second % 16 * 16 + third / 4) % 16 * 4 + (third % 4 * 64 + fourth) / 64 = third by omega,
      show (third % 4 * 64 + fourth) % 64 = fourth by omega, digit_read read_one,
      digit_read read_two, digit_read read_three, digit_read read_four]

theorem encode_decode {text : String} {bytes : List UInt8} (decoded : decode text = some bytes) :
    encode bytes = text := by
  rw [encode, encodeChars_decodeChars decoded, String.ofList_toList]

theorem encode_injective {left right : List UInt8} (same : encode left = encode right) :
    left = right := by
  have reads := congrArg decode same
  rw [decode_encode, decode_encode] at reads
  exact Option.some.inj reads

theorem read_encodeChars (bytes : List UInt8) :
    ∀ character ∈ encodeChars bytes, (read character).isSome := by
  have digits : ∀ value, value < 64 → (read (digit value)).isSome := by
    intro value small
    rw [read_digit small]
    rfl
  induction bytes using encodeChars.induct with
  | case1 => simp [encodeChars]
  | case2 one =>
    have bound := one.toNat_lt
    simp only [encodeChars, List.forall_mem_cons]
    exact ⟨digits _ (by omega), digits _ (by omega), by simp⟩
  | case3 one two =>
    have first := one.toNat_lt
    have second := two.toNat_lt
    simp only [encodeChars, List.forall_mem_cons]
    exact ⟨digits _ (by omega), digits _ (by omega), digits _ (by omega), by simp⟩
  | case4 one two three rest ih =>
    have first := one.toNat_lt
    have second := two.toNat_lt
    have third := three.toNat_lt
    simp only [encodeChars, List.forall_mem_cons]
    exact ⟨digits _ (by omega), digits _ (by omega), digits _ (by omega), digits _ (by omega), ih⟩

/-- A character outside the alphabet stands in no encoded text. -/
theorem not_mem_encode {mark : Char} (outside : read mark = none) (bytes : List UInt8) :
    mark ∉ (encode bytes).toList := by
  intro inside
  rw [encode, String.toList_ofList] at inside
  have some_read := read_encodeChars bytes mark inside
  rw [outside] at some_read
  cases some_read

end Saffui.Foundation.Base64
