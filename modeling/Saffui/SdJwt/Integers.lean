import Saffui.JsonText
import Saffui.SdJwt.Revealed

/-!
# An issuer without floats

The texts of JSON where no float is held, and a provider that counts its salts
and hashes nothing: an instance of what is relied on of the two.
-/

namespace Saffui

namespace Json

mutual

/-- Whether a value is one of the library that holds no float. -/
def isHeld : Json → Bool
  | .null | .bool _ | .string _ => true
  | .number (.posInt value) => decide (value < 2 ^ 64)
  | .number (.negInt value) => decide (value < 2 ^ 63)
  | .number (.float _) => false
  | .array items => itemsHeld items
  | .object members => decide (members.Pairwise fun left right => left.1 < right.1) &&
    membersHeld members

def itemsHeld : List Json → Bool
  | [] => true
  | item :: rest => isHeld item && itemsHeld rest

def membersHeld : List (String × Json) → Bool
  | [] => true
  | (_, value) :: rest => isHeld value && membersHeld rest

end

theorem itemsHeld_iff (items : List Json) :
    itemsHeld items = true ↔ ∀ item ∈ items, isHeld item = true := by
  induction items with
  | nil => simp [itemsHeld]
  | cons item rest ih => simp [itemsHeld, ih]

theorem membersHeld_iff (members : List (String × Json)) :
    membersHeld members = true ↔ ∀ member ∈ members, isHeld member.2 = true := by
  induction members with
  | nil => simp [membersHeld]
  | cons member rest ih => simp [membersHeld, ih]

theorem isHeld_iff (value : Json) : isHeld value = true ↔ value.Held fun _ => False := by
  induction value using Json.inductionOn with
  | null => exact ⟨fun _ => .null, fun _ => rfl⟩
  | bool value => exact ⟨fun _ => .bool value, fun _ => rfl⟩
  | string text => exact ⟨fun _ => .string text, fun _ => rfl⟩
  | number value =>
    constructor
    · intro holds
      cases value with
      | posInt value => exact .posInt (by simpa [isHeld] using holds)
      | negInt value => exact .negInt (by simpa [isHeld] using holds)
      | float worth => cases holds
    · intro held
      cases held with
      | posInt within => simpa [isHeld] using within
      | negInt within => simpa [isHeld] using within
      | float is => exact is.elim
  | array items ih =>
    rw [isHeld, itemsHeld_iff]
    constructor
    · exact fun each => .array fun item inside => (ih item inside).mp (each item inside)
    · intro held item inside
      cases held with | array each => exact (ih item inside).mpr (each item inside)
  | object members ih =>
    rw [isHeld, Bool.and_eq_true, decide_eq_true_iff, membersHeld_iff]
    constructor
    · exact fun both => .object both.1 fun member inside => (ih member inside).mp (both.2 member inside)
    · intro held
      cases held with | object sorted each =>
        exact ⟨sorted, fun member inside => (ih member inside).mpr (each member inside)⟩

/-- A value without floats has integers of 64 bits alone. -/
theorem numbers_held {value : Json} (held : value.Held fun _ => False) :
    ∀ number ∈ numbers value, IsInteger64 number := by
  induction value using Json.inductionOn with
  | null | bool | string => simp [numbers]
  | number value =>
    intro number inside
    rw [numbers, List.mem_singleton] at inside
    subst inside
    cases held with
    | posInt within => exact within
    | negInt within => exact within
    | float is => exact is.elim
  | array items ih =>
    cases held with | array each => ?_
    rw [numbers]
    induction items with
    | nil => simp [numbersOfItems]
    | cons item rest again =>
      obtain ⟨here, later⟩ := List.forall_mem_cons.mp ih
      obtain ⟨held_here, helds⟩ := List.forall_mem_cons.mp each
      intro number inside
      rcases List.mem_append.mp inside with first | others
      · exact here held_here number first
      · exact again later helds number others
  | object members ih =>
    cases held with | object sorted each => ?_
    clear sorted
    rw [numbers]
    induction members with
    | nil => simp [numbersOfMembers]
    | cons member rest again =>
      obtain ⟨here, later⟩ := List.forall_mem_cons.mp ih
      obtain ⟨held_here, helds⟩ := List.forall_mem_cons.mp each
      intro number inside
      rcases List.mem_append.mp inside with first | others
      · exact here held_here number first
      · exact again later helds number others

end Json

namespace SdJwt
open Foundation Foundation.Bytes Crypto

/-- Reads a text that holds no float, its names in order. -/
def readIntegers (bytes : Bytes) : Option Json :=
  ((Text.readUtf8 bytes).bind (Json.read fun _ => none)).filter Json.isHeld

theorem readIntegers_held {bytes : Bytes} {value : Json} (read : readIntegers bytes = some value) :
    value.Held fun _ => False :=
  (Json.isHeld_iff value).mp (Option.filter_eq_some_iff.mp read).2

theorem readIntegers_write {value : Json} (held : value.Held fun _ => False) :
    readIntegers (Text.utf8 (value.write fun _ => "")) = some value := by
  rw [readIntegers, Text.readUtf8_utf8, Option.bind_some,
    Json.read_write _ _ (Json.numbers_held held)]
  exact Option.filter_eq_some_iff.mpr ⟨rfl, (Json.isHeld_iff value).mpr held⟩

/-- The texts of JSON where no float is held. -/
def integers : SerdeJson where
  float _ := ""
  finite _ := False
  fromSlice := readIntegers
  held := readIntegers_held
  reads_back steady _ := readIntegers_write (steady.mono fun _ reads =>
    match readIntegers_held reads with
    | .float is => is)

theorem integers_steady {value : Json} (held : value.Held fun _ => False) :
    value.Held integers.Steady :=
  held.mono fun _ is => is.elim

theorem zero_bigEndian_length (value : Nat) : (0 :: bigEndian 15 value).length = 16 := by
  rw [List.length_cons, bigEndian_length]

/-- Salts counted in fifteen bytes after a zero, and digests that are the bytes
they are of. -/
def counted : CryptoProvider where
  hash _ bytes := .ok bytes
  fill drawn :=
    if drawn < 256 ^ 15 then .ok ⟨0 :: bigEndian 15 drawn, zero_bigEndian_length drawn⟩
    else .error .operationFailed

theorem counted_ideal : Ideal counted where
  injective := by
    intro one other digest first second
    exact (Except.ok.inj first).trans (Except.ok.inj second).symm
  distinct := by
    intro one other bytes first second
    simp only [counted] at first second
    split at first
    · next small =>
      split at second
      · next small_other =>
        have same := congrArg Subtype.val ((Except.ok.inj first).trans (Except.ok.inj second).symm)
        exact bigEndian_injective small small_other (List.cons.inj same).2
      · cases second
    · cases first

end SdJwt

end Saffui
