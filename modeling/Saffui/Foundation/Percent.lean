import Mathlib.Data.List.Basic
import Mathlib.Data.String.Basic

/-!
# Percent-encoding, and the parameters of a query

Bytes written into a query with those a set keeps as they are and a percent
sign before two hexadecimal digits for the others, and the parameters a form
decoder reads from a query: parts between ampersands, a name and a value around
the first equals sign, a plus for a space. Where the set keeps none of the
marks, what was encoded is read back as it was and stays within its part.
-/

namespace Saffui.Foundation.Percent

def hexDigit (value : Nat) : Char :=
  if value < 10 then Char.ofNat (0x30 + value) else Char.ofNat (0x41 + (value - 10))

def hexValue (character : Char) : Option Nat :=
  if 0x30 ≤ character.toNat ∧ character.toNat ≤ 0x39 then some (character.toNat - 0x30)
  else if 0x41 ≤ character.toNat ∧ character.toNat ≤ 0x46 then some (character.toNat - 0x41 + 10)
  else if 0x61 ≤ character.toNat ∧ character.toNat ≤ 0x66 then some (character.toNat - 0x61 + 10)
  else none

/-- The characters of a byte. -/
def encodeByte (keeps : UInt8 → Bool) (byte : UInt8) : List Char :=
  if keeps byte then [Char.ofNat byte.toNat]
  else ['%', hexDigit (byte.toNat / 16), hexDigit (byte.toNat % 16)]

def encode (keeps : UInt8 → Bool) (bytes : List UInt8) : List Char :=
  bytes.flatMap (encodeByte keeps)

/-- The bytes of a text, with those it has encoded. -/
def decode : List Char → List UInt8
  | '%' :: high :: low :: rest =>
    match hexValue high, hexValue low with
    | some first, some second => UInt8.ofNat (first * 16 + second) :: decode rest
    | _, _ => String.utf8EncodeChar '%' ++ decode (high :: low :: rest)
  | character :: rest => String.utf8EncodeChar character ++ decode rest
  | [] => []

def plusToSpace (character : Char) : Char := if character = '+' then ' ' else character

/-- A name or a value of a form. -/
def decodeComponent (text : List Char) : List UInt8 := decode (text.map plusToSpace)

/-- A part of a query: a name, and a value after the first equals sign. -/
def decodePart (part : List Char) : List UInt8 × List UInt8 :=
  (decodeComponent (part.takeWhile fun character => character ≠ '='),
    decodeComponent (part.dropWhile fun character => character ≠ '=').tail)

/-- The parameters a form decoder reads from a query. -/
def decodeForm (query : List Char) : List (List UInt8 × List UInt8) :=
  ((query.splitOn '&').filter fun part => part ≠ []).map decodePart

/-- The characters a query tells its parts by, and those of an encoding. -/
def MARKS : List Char := ['%', '+', '&', '=', '#', '?']

/-- A set that keeps ASCII characters alone, and none of the marks. -/
def Plain (keeps : UInt8 → Bool) : Prop :=
  ∀ byte, keeps byte → byte.toNat < 128 ∧ Char.ofNat byte.toNat ∉ MARKS

theorem hexValue_hexDigit : ∀ value < 16, hexValue (hexDigit value) = some value := by
  decide

theorem hexDigit_not_mark : ∀ value < 16, hexDigit value ∉ MARKS := by
  decide

variable {keeps : UInt8 → Bool}

theorem decode_plain {character : Char} (other : character ≠ '%') (rest : List Char) :
    decode (character :: rest) = String.utf8EncodeChar character ++ decode rest := by
  rw [decode]
  intro high low more same
  exact absurd same other

theorem utf8EncodeChar_ofNat {value : Nat} (small : value < 128) :
    String.utf8EncodeChar (Char.ofNat value) = [UInt8.ofNat value] := by
  revert value
  decide

/-- A byte reads back from its characters. -/
theorem decode_encodeByte (plain : Plain keeps) (byte : UInt8) (rest : List Char) :
    decode (encodeByte keeps byte ++ rest) = byte :: decode rest := by
  unfold encodeByte
  split
  · next kept =>
    obtain ⟨ascii, unmarked⟩ := plain byte kept
    have other : Char.ofNat byte.toNat ≠ '%' := fun same => unmarked (by rw [same]; decide)
    rw [List.cons_append, List.nil_append, decode_plain other, utf8EncodeChar_ofNat ascii]
    simp
  · have bound := byte.toNat_lt
    have high := hexValue_hexDigit (byte.toNat / 16) (by omega)
    have low := hexValue_hexDigit (byte.toNat % 16) (by omega)
    have whole : byte.toNat / 16 * 16 + byte.toNat % 16 = byte.toNat := by omega
    simp only [List.cons_append, List.nil_append, decode, high, low, whole, UInt8.ofNat_toNat]

theorem not_mark_of_mem_encode (plain : Plain keeps) {bytes : List UInt8} {character : Char}
    (inside : character ∈ encode keeps bytes) : character = '%' ∨ character ∉ MARKS := by
  obtain ⟨byte, -, within⟩ := List.mem_flatMap.mp inside
  unfold encodeByte at within
  split at within
  · next kept =>
    rw [List.mem_singleton.mp within]
    exact Or.inr (plain byte kept).2
  · have bound := byte.toNat_lt
    simp only [List.mem_cons, List.not_mem_nil, or_false] at within
    rcases within with rfl | rfl | rfl
    · exact Or.inl rfl
    · exact Or.inr (hexDigit_not_mark _ (by omega))
    · exact Or.inr (hexDigit_not_mark _ (by omega))

/-- A mark other than the percent sign is nowhere in what was encoded. -/
theorem not_mem_encode (plain : Plain keeps) (bytes : List UInt8) {mark : Char}
    (among : mark ∈ MARKS) (other : mark ≠ '%') : mark ∉ encode keeps bytes := by
  intro inside
  rcases not_mark_of_mem_encode plain inside with same | unmarked
  · exact other same
  · exact unmarked among

theorem map_plusToSpace {text : List Char} (absent : '+' ∉ text) : text.map plusToSpace = text := by
  rw [List.map_congr_left (g := id), List.map_id]
  intro character inside
  rw [plusToSpace, if_neg]
  · rfl
  · exact fun same => absent (same ▸ inside)

/-- What was encoded reads back as it was. -/
theorem decodeComponent_encode (plain : Plain keeps) (bytes : List UInt8) :
    decodeComponent (encode keeps bytes) = bytes := by
  rw [decodeComponent, map_plusToSpace (not_mem_encode plain bytes (by decide) (by decide))]
  induction bytes with
  | nil => rfl
  | cons byte bytes ih =>
    rw [encode, List.flatMap_cons, decode_encodeByte plain]
    rw [encode] at ih
    rw [ih]

/-- The parameters of two queries joined are those of the first and then those
of the second. -/
theorem decodeForm_append (first second : List Char) :
    decodeForm (first ++ '&' :: second) = decodeForm first ++ decodeForm second := by
  rw [decodeForm, List.splitOn_append_cons_self, List.filter_append, List.map_append]
  rfl

/-- A name and a value that was encoded are one parameter. -/
theorem decodeForm_pair (plain : Plain keeps) {name : List Char} (bytes : List UInt8)
    (joined : '&' ∉ name) (whole : '=' ∉ name) :
    decodeForm (name ++ '=' :: encode keeps bytes) = [(decodeComponent name, bytes)] := by
  have single : '&' ∉ name ++ '=' :: encode keeps bytes := by
    have absent := not_mem_encode plain bytes (by decide : '&' ∈ MARKS) (by decide)
    simp [joined, absent]
  have kept : ∀ character ∈ name, (decide (character ≠ '=')) = true := by
    intro character inside
    simp only [decide_eq_true_eq]
    exact fun same => whole (same ▸ inside)
  rw [decodeForm, List.splitOn_eq_singleton single, List.filter_cons_of_pos (by simp),
    List.filter_nil, List.map_singleton, decodePart, List.takeWhile_append_of_pos kept,
    List.dropWhile_append_of_pos kept]
  simp [decodeComponent_encode plain]

end Saffui.Foundation.Percent
