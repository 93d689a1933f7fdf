import Saffui.Foundation.PaddedBase64
import Saffui.Redirects
import Saffui.Utf8

/-!
# The credentials of a client in the Basic scheme

Source: `server/src/extract/client_credentials.rs`. An identifier and a secret
that were form-encoded are read back as they were. The reader of an escape is
the one of numbers, which takes a plus sign before a digit: a text with `%+f`
is read as if it had `%0f`.
-/

namespace Saffui.Server.ClientCredentials

open Foundation

/-- `char::to_digit` of a byte, in base sixteen -/
def toDigit (byte : UInt8) : Option Nat := Percent.hexValue (Char.ofNat byte.toNat)

/-- Digits without the plus sign that may stand before them. -/
def dropSign (text : List UInt8) : List UInt8 :=
  if text.head? = some 0x2b then text.tail else text

/-- `u8::from_str_radix`, in base sixteen: a plus sign may stand before the digits. -/
def fromStrRadix (text : List UInt8) : Option UInt8 :=
  let digits := dropSign text
  if digits = [] then none
  else do
    let number ← digits.foldlM (fun number byte => do
      let digit ← toDigit byte
      if number * 16 + digit < 256 then some (number * 16 + digit) else none) 0
    return UInt8.ofNat number

/-- The bytes of one form-encoded component. -/
def decodeBytes : List UInt8 → Option (List UInt8)
  | [] => some []
  | first :: rest =>
    if first = 0x2b then (decodeBytes rest).map fun bytes => 0x20 :: bytes
    else if first = 0x25 then
      match rest with
      | high :: low :: tail => do
        let _ ← Text.readUtf8 [high, low]
        let byte ← fromStrRadix [high, low]
        let bytes ← decodeBytes tail
        return byte :: bytes
      | _ => none
    else (decodeBytes rest).map fun bytes => first :: bytes

def decodeFormComponent (encoded : String) : Option String := do
  let bytes ← decodeBytes (Text.utf8 encoded)
  Text.readUtf8 bytes

def decodeBasicScheme (header : String) : Option (String × String) := do
  let (scheme, encoded) ← Text.splitOnce ' ' header
  if Text.toAsciiLowercase scheme ≠ "basic" then none
  else
    let bytes ← Base64.decodePadded (Text.trim encoded).toList
    let decoded ← Text.readUtf8 bytes
    let (clientId, secret) ← Text.splitOnce ':' decoded
    return (← decodeFormComponent clientId, ← decodeFormComponent secret)

def IsHexDigit (character : Char) : Prop := (Percent.hexValue character).isSome

/-- Two hexadecimal digits come first. -/
def Escaping (rest : List Char) : Prop :=
  ∃ high low tail, rest = high :: low :: tail ∧ IsHexDigit high ∧ IsHexDigit low

/-- Every percent sign is followed by two hexadecimal digits. -/
def WellEscaped (text : List Char) : Prop :=
  ∀ before after, text = before ++ '%' :: after → Escaping after

/-- What the documentation of the reader says it accepts: a text whose escapes are two
hexadecimal digits each, of bytes that are UTF-8. -/
def Readable (text : List Char) : Prop :=
  WellEscaped text ∧ (Text.readUtf8 (Percent.decodeComponent text)).isSome

/-- A text with a zero for each plus sign that follows a percent sign. -/
def unsign : List Char → List Char
  | '%' :: '+' :: rest => '%' :: '0' :: unsign rest
  | character :: rest => character :: unsign rest
  | [] => []

theorem wellEscaped_nil : WellEscaped [] := by
  intro before after same
  simp at same

theorem wellEscaped_cons {character : Char} {rest : List Char} :
    WellEscaped (character :: rest) ↔
      (character = '%' → Escaping rest) ∧ WellEscaped rest := by
  constructor
  · intro well
    constructor
    · rintro rfl
      exact well [] rest rfl
    · intro before after same
      exact well (character :: before) after (by rw [same, List.cons_append])
  · rintro ⟨first, others⟩ before after same
    cases before with
    | nil =>
      obtain ⟨rfl, rfl⟩ := List.cons.inj same
      exact first rfl
    | cons one before => exact others before after (List.cons.inj same).2

theorem wellEscaped_plain {character : Char} (other : character ≠ '%') {rest : List Char} :
    WellEscaped (character :: rest) ↔ WellEscaped rest := by
  rw [wellEscaped_cons]
  exact ⟨fun well => well.2, fun well => ⟨fun same => absurd same other, well⟩⟩

theorem hexDigit_ne_percent {character : Char} (digit : IsHexDigit character) :
    character ≠ '%' := by
  rintro rfl
  have value : (Percent.hexValue '%').isSome = true := digit
  exact absurd value (by decide)

/-- An escape of two digits, and what follows it. -/
theorem wellEscaped_escape {high low : Char} {rest : List Char} :
    WellEscaped ('%' :: high :: low :: rest) ↔
      IsHexDigit high ∧ IsHexDigit low ∧ WellEscaped rest := by
  rw [wellEscaped_cons]
  constructor
  · rintro ⟨escape, well⟩
    obtain ⟨one, two, tail, same, first, second⟩ := escape rfl
    simp only [List.cons.injEq] at same
    obtain ⟨rfl, rfl, rfl⟩ := same
    rw [wellEscaped_plain (hexDigit_ne_percent first),
      wellEscaped_plain (hexDigit_ne_percent second)] at well
    exact ⟨first, second, well⟩
  · rintro ⟨first, second, well⟩
    refine ⟨fun _ => ⟨high, low, rest, rfl, first, second⟩, ?_⟩
    rwa [wellEscaped_plain (hexDigit_ne_percent first),
      wellEscaped_plain (hexDigit_ne_percent second)]

theorem not_wellEscaped_short {rest : List Char} (short : rest.length < 2) :
    ¬WellEscaped ('%' :: rest) := by
  intro well
  obtain ⟨high, low, tail, same, -, -⟩ := (wellEscaped_cons.mp well).1 rfl
  rw [same] at short
  simp only [List.length_cons] at short
  omega

theorem toDigit_byteOf {character : Char} (ascii : Text.IsAscii character) :
    toDigit (Text.byteOf character) = Percent.hexValue character := by
  have small : character.toNat < 256 := Nat.lt_trans ascii (by decide)
  rw [toDigit, Text.byteOf, UInt8.toNat_ofNat', Nat.mod_eq_of_lt small, Char.ofNat_toNat]

theorem toDigit_high {byte : UInt8} (high : 128 ≤ byte.toNat) : toDigit byte = none := by
  have bound := byte.toNat_lt
  have each : ∀ value < 256, 128 ≤ value → Percent.hexValue (Char.ofNat value) = none := by
    decide +kernel
  exact each byte.toNat bound high

theorem hexValue_lt {character : Char} {value : Nat} (read : Percent.hexValue character = some value) :
    value < 16 := by
  unfold Percent.hexValue at read
  split at read
  · cases read
    omega
  · split at read
    · cases read
      omega
    · split at read
      · cases read
        omega
      · cases read

/-- What the first of two bytes counts for: nothing where it is a sign. -/
def signedDigit (byte : UInt8) : Option Nat := if byte = 0x2b then some 0 else toDigit byte

/-- Two bytes are read as two digits, or as one after a plus sign. -/
theorem fromStrRadix_pair (high low : UInt8) :
    fromStrRadix [high, low] = do
      let first ← signedDigit high
      let second ← toDigit low
      return UInt8.ofNat (first * 16 + second) := by
  have below {byte : UInt8} {value : Nat} (read : toDigit byte = some value) : value < 16 :=
    hexValue_lt read
  by_cases sign : high = 0x2b
  · subst sign
    cases second : toDigit low with
    | none => simp [fromStrRadix, dropSign, signedDigit, second]
    | some value =>
      have small := below second
      have fits : value < 256 := by omega
      simp [fromStrRadix, dropSign, signedDigit, second, fits]
  · have digits : dropSign [high, low] = [high, low] := if_neg (by simpa using sign)
    rw [fromStrRadix]
    simp only [digits, signedDigit, sign, if_false]
    cases first : toDigit high with
    | none => simp [first]
    | some one =>
      cases second : toDigit low with
      | none =>
        have small := below first
        have fits : one < 256 := by omega
        simp [first, second, fits]
      | some two =>
        have small := below first
        have least := below second
        have fits : one < 256 := by omega
        have whole : one * 16 + two < 256 := by omega
        simp [first, second, fits, whole]

/-- What two characters after a percent sign are read as. -/
def readEscape (high low : Char) : Option UInt8 := do
  let first ← Percent.hexValue (if high = '+' then '0' else high)
  let second ← Percent.hexValue low
  return UInt8.ofNat (first * 16 + second)

/-- The reader, character by character. -/
def decodeCharacters : List Char → Option (List UInt8)
  | [] => some []
  | '+' :: rest => (decodeCharacters rest).map fun bytes => 0x20 :: bytes
  | '%' :: high :: low :: rest => do
    let byte ← readEscape high low
    let bytes ← decodeCharacters rest
    return byte :: bytes
  | '%' :: _ => none
  | character :: rest =>
    (decodeCharacters rest).map fun bytes => String.utf8EncodeChar character ++ bytes

theorem byteOf_ne {one other : Char} (ascii : Text.IsAscii one) (least : Text.IsAscii other)
    (apart : one ≠ other) : Text.byteOf one ≠ Text.byteOf other := by
  intro same
  have first : one.toNat < 128 := ascii
  have second : other.toNat < 128 := least
  have numbers := congrArg UInt8.toNat same
  rw [Text.byteOf, Text.byteOf, UInt8.toNat_ofNat', UInt8.toNat_ofNat'] at numbers
  exact apart (Char.toNat_inj.mp (by omega))

theorem decodeBytes_cons (first : UInt8) (rest : List UInt8) :
    decodeBytes (first :: rest) =
      if first = 0x2b then (decodeBytes rest).map fun bytes => 0x20 :: bytes
      else if first = 0x25 then
        match rest with
        | high :: low :: tail => do
          let _ ← Text.readUtf8 [high, low]
          let byte ← fromStrRadix [high, low]
          let bytes ← decodeBytes tail
          return byte :: bytes
        | _ => none
      else (decodeBytes rest).map fun bytes => first :: bytes :=
  decodeBytes.eq_def (first :: rest)

theorem hexValue_high {character : Char} (high : ¬Text.IsAscii character) :
    Percent.hexValue character = none := by
  have bound : ¬character.toNat < 128 := high
  rw [Percent.hexValue, if_neg (by omega), if_neg (by omega), if_neg (by omega)]

theorem encodeChar_head (character : Char) :
    ∃ byte rest, String.utf8EncodeChar character = byte :: rest :=
  List.exists_cons_of_ne_nil String.utf8EncodeChar_ne_nil

/-- Bytes past ASCII are kept as they are. -/
theorem decodeBytes_high {bytes : List UInt8} (high : ∀ byte ∈ bytes, 128 ≤ byte.toNat)
    (rest : List UInt8) :
    decodeBytes (bytes ++ rest) = (decodeBytes rest).map fun read => bytes ++ read := by
  induction bytes with
  | nil => simp
  | cons byte more ih =>
    have past := high byte List.mem_cons_self
    have plus : byte ≠ 0x2b := by
      rintro rfl
      exact absurd past (by decide)
    have percent : byte ≠ 0x25 := by
      rintro rfl
      exact absurd past (by decide)
    have tail := ih fun one inside => high one (List.mem_cons_of_mem _ inside)
    rw [List.cons_append, decodeBytes_cons, if_neg plus, if_neg percent, tail, Option.map_map]
    rfl

theorem decodeBytes_refused {first second : UInt8} (rest : List UInt8)
    (refused : fromStrRadix [first, second] = none) :
    decodeBytes (0x25 :: first :: second :: rest) = none := by
  rw [decodeBytes_cons, if_neg (by decide), if_pos rfl]
  cases Text.readUtf8 [first, second] <;> simp [refused]

theorem fromStrRadix_high {first second : UInt8}
    (past : 128 ≤ first.toNat ∨ 128 ≤ second.toNat) : fromStrRadix [first, second] = none := by
  rw [fromStrRadix_pair]
  rcases past with high | low
  · have sign : first ≠ 0x2b := by
      rintro rfl
      exact absurd high (by decide)
    simp [signedDigit, sign, toDigit_high high]
  · cases signedDigit first <;> simp [toDigit_high low]

/-- Two characters after a percent sign are read as one byte, or nothing is. -/
theorem decodeBytes_escape (high low : Char) (rest : List UInt8) :
    decodeBytes (0x25 :: (String.utf8EncodeChar high ++ (String.utf8EncodeChar low ++ rest))) = do
      let byte ← readEscape high low
      let bytes ← decodeBytes rest
      return byte :: bytes := by
  by_cases first : Text.IsAscii high
  · by_cases second : Text.IsAscii low
    · have pair : Text.readUtf8 [Text.byteOf high, Text.byteOf low] =
          some (String.ofList [high, low]) := by
        have ascii : ∀ one ∈ [high, low], Text.IsAscii one := by simp [first, second]
        have bytes := Text.utf8_of_ascii ascii
        have same := Text.readUtf8_utf8 (String.ofList [high, low])
        rwa [bytes] at same
      have sign : signedDigit (Text.byteOf high) =
          Percent.hexValue (if high = '+' then '0' else high) := by
        by_cases plus : high = '+'
        · subst plus
          rfl
        · have other : Text.byteOf high ≠ 0x2b := byteOf_ne first (by decide) plus
          rw [signedDigit, if_neg other, if_neg plus, toDigit_byteOf first]
      rw [Text.utf8EncodeChar_ascii first, Text.utf8EncodeChar_ascii second, List.singleton_append,
        List.singleton_append, decodeBytes_cons, if_neg (by decide), if_pos rfl]
      have radix : fromStrRadix [Text.byteOf high, Text.byteOf low] = readEscape high low := by
        rw [fromStrRadix_pair, sign, toDigit_byteOf second, readEscape]
      simp only [pair, radix]
      rfl
    · obtain ⟨byte, more, encoded⟩ := encodeChar_head low
      have past := Text.utf8EncodeChar_high second byte (by rw [encoded]; exact List.mem_cons_self)
      have refused : readEscape high low = none := by
        cases value : Percent.hexValue (if high = '+' then '0' else high) <;>
          simp [readEscape, value, hexValue_high second]
      rw [Text.utf8EncodeChar_ascii first, encoded, List.singleton_append, List.cons_append,
        decodeBytes_refused _ (fromStrRadix_high (Or.inr past)), refused]
      rfl
  · obtain ⟨byte, more, encoded⟩ := encodeChar_head high
    obtain ⟨next, others, followed⟩ := encodeChar_head low
    have past := Text.utf8EncodeChar_high first byte (by rw [encoded]; exact List.mem_cons_self)
    have plus : high ≠ '+' := by
      rintro rfl
      exact first (by decide)
    have refused : readEscape high low = none := by
      simp [readEscape, plus, hexValue_high first]
    rw [encoded, followed, refused]
    cases more with
    | nil => exact decodeBytes_refused _ (fromStrRadix_high (Or.inl past))
    | cons two more => exact decodeBytes_refused _ (fromStrRadix_high (Or.inl past))

/-- A percent sign with less than two characters after it is refused. -/
theorem decodeBytes_short {rest : List Char} (short : rest.length < 2) :
    decodeBytes (0x25 :: rest.flatMap String.utf8EncodeChar) = none := by
  match rest with
  | [] => rfl
  | [last] =>
    rw [List.flatMap_cons, List.flatMap_nil, List.append_nil]
    by_cases ascii : Text.IsAscii last
    · rw [Text.utf8EncodeChar_ascii ascii, decodeBytes_cons, if_neg (by decide), if_pos rfl]
    · obtain ⟨byte, more, encoded⟩ := encodeChar_head last
      have past := Text.utf8EncodeChar_high ascii byte (by rw [encoded]; exact List.mem_cons_self)
      rw [encoded]
      cases more with
      | nil => rw [decodeBytes_cons, if_neg (by decide), if_pos rfl]
      | cons two more => exact decodeBytes_refused _ (fromStrRadix_high (Or.inl past))
  | _ :: _ :: _ =>
    simp only [List.length_cons] at short
    omega

/-- The bytes of a text are read as its characters are. -/
theorem decodeBytes_eq (text : List Char) :
    decodeBytes (text.flatMap String.utf8EncodeChar) = decodeCharacters text := by
  induction text using decodeCharacters.induct with
  | case1 => rfl
  | case2 rest ih =>
    have plus : String.utf8EncodeChar '+' = [0x2b] := by decide
    rw [List.flatMap_cons, plus, List.singleton_append, decodeBytes_cons, if_pos rfl, ih, decodeCharacters]
  | case3 high low rest ih =>
    have percent : String.utf8EncodeChar '%' = [0x25] := by decide
    rw [List.flatMap_cons, List.flatMap_cons, List.flatMap_cons, percent, List.singleton_append,
      decodeBytes_escape, ih, decodeCharacters]
  | case4 rest few =>
    have percent : String.utf8EncodeChar '%' = [0x25] := by decide
    have short : rest.length < 2 := by
      match rest, few with
      | [], _ => decide
      | [_], _ => simp
      | high :: low :: more, few => exact absurd rfl (few high low more)
    rw [List.flatMap_cons, percent, List.singleton_append, decodeBytes_short short]
    rw [decodeCharacters]
    exact few
  | case5 character rest plus percent others ih =>
    have read : decodeCharacters (character :: rest) =
        (decodeCharacters rest).map fun bytes => String.utf8EncodeChar character ++ bytes :=
      decodeCharacters.eq_5 character rest plus percent others
    rw [List.flatMap_cons, read, ← ih]
    by_cases ascii : Text.IsAscii character
    · have sign : Text.byteOf character ≠ 0x2b := byteOf_ne ascii (by decide) plus
      have mark : Text.byteOf character ≠ 0x25 := byteOf_ne ascii (by decide) others
      rw [Text.utf8EncodeChar_ascii ascii, List.singleton_append, decodeBytes_cons, if_neg sign,
        if_neg mark]
      rfl
    · exact decodeBytes_high (Text.utf8EncodeChar_high ascii) _

theorem unsign_plain {character : Char} (other : character ≠ '%') (rest : List Char) :
    unsign (character :: rest) = character :: unsign rest :=
  unsign.eq_2 character rest fun _ same _ => other same

theorem unsign_sign (rest : List Char) : unsign ('%' :: '+' :: rest) = '%' :: '0' :: unsign rest :=
  unsign.eq_1 rest

theorem unsign_percent {rest : List Char} (other : rest.head? ≠ some '+') :
    unsign ('%' :: rest) = '%' :: unsign rest :=
  unsign.eq_2 '%' rest fun more _ same => other (by rw [same]; rfl)

theorem unsign_head (character : Char) (rest : List Char) :
    ∃ tail, unsign (character :: rest) = character :: tail ∧ tail.length = rest.length := by
  have size (text : List Char) : (unsign text).length = text.length := by
    induction text using unsign.induct with
    | case1 rest ih => simp [unsign_sign, ih]
    | case2 character rest other ih =>
      rw [unsign.eq_2 character rest other, List.length_cons, ih, List.length_cons]
    | case3 => rfl
  by_cases signed : character = '%' ∧ rest.head? = some '+'
  · obtain ⟨rfl, head⟩ := signed
    obtain ⟨more, rfl⟩ := List.head?_eq_some_iff.mp head
    exact ⟨'0' :: unsign more, unsign_sign more, by simp [size]⟩
  · have same := unsign.eq_2 character rest fun more percent plus =>
      signed ⟨percent, by rw [plus]; rfl⟩
    exact ⟨unsign rest, same, size rest⟩

theorem decodeComponent_escape {high low : Char} {first second : Nat}
    (one : Percent.hexValue high = some first) (two : Percent.hexValue low = some second)
    (rest : List Char) :
    Percent.decodeComponent ('%' :: high :: low :: rest) =
      UInt8.ofNat (first * 16 + second) :: Percent.decodeComponent rest := by
  have kept {digit : Char} {value : Nat} (read : Percent.hexValue digit = some value) :
      Percent.plusToSpace digit = digit := by
    rw [Percent.plusToSpace, if_neg]
    rintro rfl
    have none_read : Percent.hexValue '+' = none := by decide
    rw [none_read] at read
    cases read
  have mark : Percent.plusToSpace '%' = '%' := by decide
  simp only [Percent.decodeComponent, List.map_cons, mark, kept one, kept two, Percent.decode, one,
    two]

theorem decodeComponent_plus (rest : List Char) :
    Percent.decodeComponent ('+' :: rest) = 0x20 :: Percent.decodeComponent rest := by
  have space : Percent.plusToSpace '+' = ' ' := by decide
  rw [Percent.decodeComponent, List.map_cons, space, Percent.decode_plain (by decide)]
  rfl

theorem decodeComponent_plain {character : Char} (plus : character ≠ '+')
    (percent : character ≠ '%') (rest : List Char) :
    Percent.decodeComponent (character :: rest) =
      String.utf8EncodeChar character ++ Percent.decodeComponent rest := by
  have same : Percent.plusToSpace character = character := if_neg plus
  rw [Percent.decodeComponent, List.map_cons, same, Percent.decode_plain percent]
  rfl

/-- A digit, or the sign that is read as one. -/
def unsignOne (character : Char) : Char := if character = '+' then '0' else character

/-- An escape of two digits stays one without its sign; no other is one. -/
theorem unsign_escape {high low : Char} (rest : List Char) :
    (IsHexDigit (unsignOne high) ∧ IsHexDigit low ∧
        unsign ('%' :: high :: low :: rest) = '%' :: unsignOne high :: low :: unsign rest) ∨
      ((¬IsHexDigit (unsignOne high) ∨ ¬IsHexDigit low) ∧
        ¬WellEscaped (unsign ('%' :: high :: low :: rest))) := by
  by_cases plus : high = '+'
  · subst plus
    have zero : IsHexDigit (unsignOne '+') := by
      have value : (Percent.hexValue (unsignOne '+')).isSome = true := by decide
      exact value
    by_cases second : IsHexDigit low
    · left
      refine ⟨zero, second, ?_⟩
      rw [unsign_sign, unsign_plain (hexDigit_ne_percent second)]
      rfl
    · right
      refine ⟨Or.inr second, fun well => ?_⟩
      obtain ⟨tail, same, -⟩ := unsign_head low rest
      rw [unsign_sign, same, wellEscaped_escape] at well
      exact second well.2.1
  · have kept : unsignOne high = high := if_neg plus
    have opened : unsign ('%' :: high :: low :: rest) = '%' :: unsign (high :: low :: rest) :=
      unsign_percent (by simpa using plus)
    rw [kept]
    by_cases first : IsHexDigit high
    · have shape := unsign_plain (hexDigit_ne_percent first) (low :: rest)
      by_cases second : IsHexDigit low
      · left
        refine ⟨first, second, ?_⟩
        rw [opened, shape, unsign_plain (hexDigit_ne_percent second)]
      · right
        refine ⟨Or.inr second, fun well => ?_⟩
        obtain ⟨tail, same, -⟩ := unsign_head low rest
        rw [opened, shape, same, wellEscaped_escape] at well
        exact second well.2.1
    · right
      refine ⟨Or.inl first, fun well => ?_⟩
      obtain ⟨tail, same, long⟩ := unsign_head high (low :: rest)
      rw [opened, same] at well
      cases tail with
      | nil => simp at long
      | cons two tail => exact first (wellEscaped_escape.mp well).1

/-- The reader takes a text whose escapes are two digits once the signs are zeros, and gives its
bytes. -/
theorem decodeCharacters_eq (text : List Char) (bytes : List UInt8) :
    decodeCharacters text = some bytes ↔
      WellEscaped (unsign text) ∧ Percent.decodeComponent (unsign text) = bytes := by
  induction text using decodeCharacters.induct generalizing bytes with
  | case1 =>
    have empty : Percent.decodeComponent [] = [] := rfl
    rw [decodeCharacters, unsign, empty, Option.some.injEq]
    exact ⟨fun same => ⟨wellEscaped_nil, same⟩, fun both => both.2⟩
  | case2 rest ih =>
    rw [decodeCharacters, unsign_plain (by decide), wellEscaped_plain (by decide),
      decodeComponent_plus]
    simp only [Option.map_eq_some_iff, ih, and_assoc, exists_and_left, exists_eq_left']
  | case3 high low rest ih =>
    rw [decodeCharacters]
    rcases @unsign_escape high low rest with ⟨one, two, shape⟩ | ⟨no, ill⟩
    · obtain ⟨first, one⟩ := Option.isSome_iff_exists.mp one
      obtain ⟨second, two⟩ := Option.isSome_iff_exists.mp two
      have read : readEscape high low = some (UInt8.ofNat (first * 16 + second)) := by
        rw [readEscape, show (if high = '+' then '0' else high) = unsignOne high from rfl, one, two]
        rfl
      have digits : IsHexDigit (unsignOne high) ∧ IsHexDigit low :=
        ⟨Option.isSome_iff_exists.mpr ⟨first, one⟩, Option.isSome_iff_exists.mpr ⟨second, two⟩⟩
      rw [shape, wellEscaped_escape, decodeComponent_escape one two, read]
      cases rested : decodeCharacters rest with
      | none =>
        have refused (more : List UInt8) : ¬(WellEscaped (unsign rest) ∧
            Percent.decodeComponent (unsign rest) = more) := by
          rw [← ih, rested]
          nofun
        constructor
        · nofun
        · rintro ⟨⟨-, -, well⟩, -⟩
          exact absurd ⟨well, rfl⟩ (refused _)
      | some more =>
        obtain ⟨well, same⟩ := (ih more).mp rested
        rw [same]
        constructor
        · intro joined
          exact ⟨⟨digits.1, digits.2, well⟩, Option.some.inj joined⟩
        · rintro ⟨-, joined⟩
          exact congrArg some joined
    · have unread : readEscape high low = none := by
        cases one : Percent.hexValue (unsignOne high) with
        | none =>
          rw [readEscape, show (if high = '+' then '0' else high) = unsignOne high from rfl, one]
          rfl
        | some first =>
          cases two : Percent.hexValue low with
          | none =>
            rw [readEscape, show (if high = '+' then '0' else high) = unsignOne high from rfl, one,
              two]
            rfl
          | some second =>
            rcases no with no | no
            · exact absurd (Option.isSome_iff_exists.mpr ⟨first, one⟩) no
            · exact absurd (Option.isSome_iff_exists.mpr ⟨second, two⟩) no
      rw [unread]
      exact ⟨nofun, fun both => absurd both.1 ill⟩
  | case4 rest few =>
    have short : rest.length < 2 := by
      match rest, few with
      | [], _ => decide
      | [_], _ => simp
      | high :: low :: more, few => exact absurd rfl (few high low more)
    obtain ⟨tail, same, long⟩ := unsign_head '%' rest
    have ill : ¬WellEscaped (unsign ('%' :: rest)) := by
      rw [same]
      exact not_wellEscaped_short (by omega)
    rw [decodeCharacters.eq_4 rest few]
    exact ⟨nofun, fun both => absurd both.1 ill⟩
  | case5 character rest plus percent others ih =>
    rw [decodeCharacters.eq_5 character rest plus percent others, unsign_plain others,
      wellEscaped_plain others, decodeComponent_plain plus others]
    simp only [Option.map_eq_some_iff, ih, and_assoc, exists_and_left, exists_eq_left']

theorem decodeFormComponent_isSome (encoded : String) :
    (decodeFormComponent encoded).isSome ↔ Readable (unsign encoded.toList) := by
  rw [decodeFormComponent, Text.utf8_eq, decodeBytes_eq, Readable]
  cases read : decodeCharacters encoded.toList with
  | none =>
    constructor
    · nofun
    · rintro ⟨well, -⟩
      have accepted := (decodeCharacters_eq encoded.toList _).mpr ⟨well, rfl⟩
      rw [read] at accepted
      cases accepted
  | some bytes =>
    obtain ⟨well, same⟩ := (decodeCharacters_eq encoded.toList bytes).mp read
    rw [same]
    exact ⟨fun some_read => ⟨well, some_read⟩, fun both => both.2⟩

theorem unsign_of_wellEscaped {text : List Char} (well : WellEscaped text) : unsign text = text := by
  induction text using unsign.induct with
  | case1 rest ih =>
    obtain ⟨high, low, tail, same, digit, -⟩ := (wellEscaped_cons.mp well).1 rfl
    have plus : high = '+' := (List.cons.inj same).1.symm
    rw [plus] at digit
    have value : (Percent.hexValue '+').isSome = true := digit
    exact absurd value (by decide)
  | case2 character rest other ih =>
    rw [unsign.eq_2 character rest other, ih (wellEscaped_cons.mp well).2]
  | case3 => rfl

/-- A byte form-encoded: a space as a plus sign, the unreserved ones as they are. -/
def formByte (byte : UInt8) : List Char :=
  if byte = 0x20 then ['+'] else Percent.encodeByte Redirects.isUnreserved byte

def formEncode (text : String) : List Char := (Text.utf8 text).flatMap formByte

/-- The header of RFC 6749, section 2.3.1. -/
def writeBasicHeader (clientId secret : String) : String :=
  let joined := String.ofList (formEncode clientId ++ ':' :: formEncode secret)
  String.ofList ("Basic".toList ++ ' ' :: Base64.encodePadded (Text.utf8 joined))

theorem decodeCharacters_formByte (byte : UInt8) (rest : List Char) :
    decodeCharacters (formByte byte ++ rest) =
      (decodeCharacters rest).map fun bytes => byte :: bytes := by
  unfold formByte
  split
  · next space =>
    rw [space, List.singleton_append, decodeCharacters]
  · unfold Percent.encodeByte
    split
    · next kept =>
      obtain ⟨ascii, unmarked⟩ := Redirects.isUnreserved_plain byte kept
      have percent : Char.ofNat byte.toNat ≠ '%' := fun same => unmarked (by rw [same]; decide)
      have plus : Char.ofNat byte.toNat ≠ '+' := fun same => unmarked (by rw [same]; decide)
      rw [List.singleton_append,
        decodeCharacters.eq_5 _ _ plus (fun _ _ _ same => absurd same percent) percent,
        Percent.utf8EncodeChar_ofNat ascii, UInt8.ofNat_toNat]
      rfl
    · have bound := byte.toNat_lt
      have high := Percent.hexValue_hexDigit (byte.toNat / 16) (by omega)
      have low := Percent.hexValue_hexDigit (byte.toNat % 16) (by omega)
      have sign : Percent.hexDigit (byte.toNat / 16) ≠ '+' := by
        intro same
        rw [same] at high
        cases high
      have whole : byte.toNat / 16 * 16 + byte.toNat % 16 = byte.toNat := by omega
      have read : readEscape (Percent.hexDigit (byte.toNat / 16))
          (Percent.hexDigit (byte.toNat % 16)) = some byte := by
        rw [readEscape, if_neg sign, high, low]
        exact congrArg some (by rw [whole, UInt8.ofNat_toNat])
      rw [List.cons_append, List.cons_append, List.cons_append, List.nil_append, decodeCharacters,
        read]
      cases decodeCharacters rest <;> rfl

/-- What was form-encoded is read back. -/
theorem decodeFormComponent_formEncode (text : String) :
    decodeFormComponent (String.ofList (formEncode text)) = some text := by
  have bytes (list : List UInt8) : decodeCharacters (list.flatMap formByte) = some list := by
    induction list with
    | nil => rfl
    | cons byte rest ih => rw [List.flatMap_cons, decodeCharacters_formByte, ih]; rfl
  rw [decodeFormComponent, Text.utf8_ofList, decodeBytes_eq, formEncode, bytes]
  exact Text.readUtf8_utf8 text

theorem colon_not_mem_formEncode (text : String) : ':' ∉ formEncode text := by
  have each : ∀ value < 256, ':' ∉ formByte (UInt8.ofNat value) := by
    decide +kernel
  intro inside
  obtain ⟨byte, -, within⟩ := List.mem_flatMap.mp inside
  have bare := each byte.toNat byte.toNat_lt
  rw [UInt8.ofNat_toNat] at bare
  exact bare within

theorem trim_of_clear {text : List Char} (clear : ∀ one ∈ text, Text.isWhitespace one = false) :
    Text.trim (String.ofList text) = String.ofList text := by
  have kept {list : List Char} (plain : ∀ one ∈ list, Text.isWhitespace one = false) :
      list.dropWhile Text.isWhitespace = list := by
    cases list with
    | nil => rfl
    | cons one rest => rw [List.dropWhile_cons_of_neg (by simp [plain one List.mem_cons_self])]
  have reversed : ∀ one ∈ text.reverse, Text.isWhitespace one = false := fun one inside =>
    clear one (List.mem_reverse.mp inside)
  rw [Text.trim, String.toList_ofList, kept clear, kept reversed, List.reverse_reverse]

theorem encodePadded_clear (bytes : List UInt8) :
    ∀ one ∈ Base64.encodePadded bytes, Text.isWhitespace one = false := by
  have each : ∀ value < 64, Text.isWhitespace (Base64.toStandard (Base64.digit value)) = false := by
    decide
  intro one inside
  rw [Base64.encodePadded] at inside
  rcases List.mem_append.mp inside with body | pad
  · obtain ⟨character, among, rfl⟩ := List.mem_map.mp body
    obtain ⟨value, read⟩ := Option.isSome_iff_exists.mp (Base64.read_encodeChars bytes character among)
    rw [← Base64.digit_read read]
    exact each value (Base64.read_lt read)
  · rw [(List.mem_replicate.mp pad).2]
    decide

/-- An identifier and a secret are read back from the header that carries them. -/
theorem decodeBasicScheme_writeBasicHeader (clientId secret : String) :
    decodeBasicScheme (writeBasicHeader clientId secret) = some (clientId, secret) := by
  have scheme : ' ' ∉ "Basic".toList := by decide
  have basic : Text.toAsciiLowercase (String.ofList "Basic".toList) = "basic" := by
    apply String.toList_injective
    rw [Text.toAsciiLowercase, String.toList_map, String.toList_ofList]
    decide
  let joined := String.ofList (formEncode clientId ++ ':' :: formEncode secret)
  have header := Text.splitOnce_append scheme (Base64.encodePadded (Text.utf8 joined))
  have trimmed := trim_of_clear (encodePadded_clear (Text.utf8 joined))
  have bytes := Base64.decodePadded_encodePadded (Text.utf8 joined)
  have halves := Text.splitOnce_append (colon_not_mem_formEncode clientId) (formEncode secret)
  have written : writeBasicHeader clientId secret =
      String.ofList ("Basic".toList ++ ' ' :: Base64.encodePadded (Text.utf8 joined)) := rfl
  rw [written, decodeBasicScheme, header, Option.bind_eq_bind, Option.bind_some]
  dsimp only
  rw [if_neg (not_not_intro basic), trimmed, String.toList_ofList, bytes]
  rw [Option.bind_eq_bind, Option.bind_some, Text.readUtf8_utf8, Option.bind_eq_bind,
    Option.bind_some, halves, Option.bind_some, decodeFormComponent_formEncode,
    decodeFormComponent_formEncode]
  rfl

/-- The reader keeps the word of its documentation where no percent sign is followed by a plus
sign, and where the text would be refused even with zeros for such signs. -/
def KeepsItsWord (text : List Char) : Prop := unsign text = text ∨ ¬Readable (unsign text)

/-- Credentials are always read back; a component is accepted exactly when its escapes are two
digits of a text, unless a plus sign stands where the first digit should. -/
theorem basic_credentials (clientId secret encoded : String) :
    (decodeBasicScheme (writeBasicHeader clientId secret) = some (clientId, secret) ∧
      ((decodeFormComponent encoded).isSome ↔ Readable encoded.toList)) ↔
      KeepsItsWord encoded.toList := by
  rw [decodeFormComponent_isSome]
  constructor
  · rintro ⟨-, same⟩
    by_cases accepted : Readable (unsign encoded.toList)
    · exact Or.inl (unsign_of_wellEscaped (same.mp accepted).1)
    · exact Or.inr accepted
  · intro kept
    refine ⟨decodeBasicScheme_writeBasicHeader clientId secret, ?_⟩
    rcases kept with same | refused
    · rw [same]
    · refine ⟨fun accepted => absurd accepted refused, fun readable => ?_⟩
      rwa [unsign_of_wellEscaped readable.1]

/-- A plus sign and a digit are taken for an escape. -/
theorem signed_escape_accepted :
    ¬((decodeFormComponent "%+f").isSome ↔ Readable "%+f".toList) := by
  intro same
  have accepted : (decodeFormComponent "%+f").isSome := by decide +kernel
  obtain ⟨high, low, tail, shape, digit, -⟩ := (same.mp accepted).1 [] ['+', 'f'] rfl
  have plus : high = '+' := (List.cons.inj shape).1.symm
  rw [plus] at digit
  have value : (Percent.hexValue '+').isSome = true := digit
  exact absurd value (by decide)

end Saffui.Server.ClientCredentials
