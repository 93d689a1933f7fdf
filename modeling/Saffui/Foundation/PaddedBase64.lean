import Mathlib.Data.List.DropRight
import Saffui.Foundation.Base64

/-!
# Bytes in the standard base64, padded

The other alphabet of RFC 4648, with a plus and a slash for the hyphen and the
underscore of URLs, and equals signs up to a multiple of four characters. A
text is read only where it is padded as it is written.
-/

namespace Saffui.Foundation.Base64

def toStandard (character : Char) : Char :=
  if character = '-' then '+' else if character = '_' then '/' else character

def ofStandard (character : Char) : Option Char :=
  if character = '+' then some '-'
  else if character = '/' then some '_'
  else if character = '-' ∨ character = '_' then none
  else some character

def encodePadded (bytes : List UInt8) : List Char :=
  let characters := (encodeChars bytes).map toStandard
  characters ++ List.replicate ((4 - characters.length % 4) % 4) '='

def decodePadded (text : List Char) : Option (List UInt8) :=
  let body := text.rdropWhile fun character => character = '='
  if text.length % 4 = 0 ∧ text.length - body.length ≤ 2 then
    (body.mapM ofStandard).bind decodeChars
  else none

example : encodePadded [0x66, 0x6f, 0x6f, 0xff] = "Zm9v/w==".toList := by decide

example : decodePadded "Zm9v/w=".toList = none ∧ decodePadded "Zm9v_w==".toList = none := by decide

theorem read_ne_pad {character : Char} (inside : (read character).isSome) :
    character ≠ '+' ∧ character ≠ '/' ∧ character ≠ '=' := by
  refine ⟨?_, ?_, ?_⟩ <;> rintro rfl <;> exact absurd inside (by decide)

theorem ofStandard_toStandard {character : Char} (inside : (read character).isSome) :
    ofStandard (toStandard character) = some character := by
  obtain ⟨plus, slash, -⟩ := read_ne_pad inside
  unfold toStandard
  split
  · next hyphen => rw [hyphen]; rfl
  · split
    · next underscore => rw [underscore]; rfl
    · next hyphen underscore => simp [ofStandard, plus, slash, hyphen, underscore]

theorem toStandard_ne_pad {character : Char} (inside : (read character).isSome) :
    toStandard character ≠ '=' := by
  obtain ⟨-, -, pad⟩ := read_ne_pad inside
  unfold toStandard
  split
  · decide
  · split
    · decide
    · exact pad

theorem mapM_ofStandard {characters : List Char}
    (alphabet : ∀ character ∈ characters, (read character).isSome) :
    (characters.map toStandard).mapM ofStandard = some characters := by
  induction characters with
  | nil => rfl
  | cons character rest ih =>
    have tail := ih fun one among => alphabet one (List.mem_cons_of_mem _ among)
    rw [List.map_cons, List.mapM_cons, ofStandard_toStandard (alphabet character List.mem_cons_self),
      tail]
    rfl

/-- Four characters for three bytes, and what is left of a last group. -/
theorem length_encodeChars (bytes : List UInt8) :
    (encodeChars bytes).length = (4 * bytes.length + 2) / 3 := by
  induction bytes using encodeChars.induct with
  | case1 => decide
  | case2 one => simp [encodeChars]
  | case3 one two => simp [encodeChars]
  | case4 one two three rest ih =>
    rw [encodeChars]
    simp only [List.length_cons]
    omega

/-- No group of a single character is written. -/
theorem encodeChars_length (bytes : List UInt8) : (encodeChars bytes).length % 4 ≠ 1 := by
  have count := length_encodeChars bytes
  omega

theorem rdropWhile_padding {characters : List Char} (clear : '=' ∉ characters) (count : Nat) :
    (characters ++ List.replicate count '=').rdropWhile (fun character => character = '=') =
      characters := by
  induction count with
  | zero =>
    rw [List.replicate_zero, List.append_nil, List.rdropWhile_eq_self_iff]
    intro filled last
    have inside := List.getLast_mem filled
    rw [of_decide_eq_true last] at inside
    exact clear inside
  | succ count ih =>
    rw [List.replicate_succ', ← List.append_assoc, List.rdropWhile_concat_pos _ _ _ (by simp), ih]

/-- What is written is read back. -/
theorem decodePadded_encodePadded (bytes : List UInt8) :
    decodePadded (encodePadded bytes) = some bytes := by
  have alphabet := read_encodeChars bytes
  have clear : '=' ∉ (encodeChars bytes).map toStandard := by
    intro inside
    obtain ⟨character, among, same⟩ := List.mem_map.mp inside
    exact toStandard_ne_pad (alphabet character among) same
  have groups := encodeChars_length bytes
  have back : ((encodeChars bytes).map toStandard).mapM ofStandard = some (encodeChars bytes) :=
    mapM_ofStandard alphabet
  have padded : (encodePadded bytes).length % 4 = 0 := by
    simp only [encodePadded, List.length_append, List.length_map, List.length_replicate]
    omega
  have dropped := rdropWhile_padding clear ((4 - ((encodeChars bytes).map toStandard).length % 4) % 4)
  have few : (encodePadded bytes).length - ((encodeChars bytes).map toStandard).length ≤ 2 := by
    simp only [encodePadded, List.length_append, List.length_map, List.length_replicate]
    omega
  rw [decodePadded]
  have body : (encodePadded bytes).rdropWhile (fun character => character = '=') =
      (encodeChars bytes).map toStandard := dropped
  simp only [body]
  rw [if_pos ⟨padded, few⟩, back, Option.bind_some, decodeChars_encodeChars]

end Saffui.Foundation.Base64
