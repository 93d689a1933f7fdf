import Saffui.Foundation.Framing
import Saffui.Oidc.Brake
import Saffui.Utf8

/-!
# What the brake digests

Source: `saffui-core/src/login/throttle.rs`, `saffui-core/src/login/device.rs`
and `digest_typed_name` of `crypto/src/adapters/seal.rs`: the bytes counted and
signed under the key of a realm for typed names. Where a counter is written as
parts closed by a zero byte, what is typed may hold one.
-/

namespace Saffui.Oidc.Digests

open Foundation Foundation.Bytes

abbrev Bytes := List UInt8

def uuidBytes (id : Uuid) : Bytes := bigEndian 16 id.val

/-- What `digest_counter` writes: a kind, and parts each ended by a zero byte. -/
def writeParts (kind : UInt8) (parts : List Bytes) : Bytes :=
  kind :: parts.flatMap fun part => part ++ [0]

/-- The message of `digest_typed_name`. -/
def messageOf (tenant realm : Uuid) (typed : Bytes) : Bytes :=
  uuidBytes tenant ++ uuidBytes realm ++ typed

def MARK_KIND : UInt8 := 8

/-- The message of `compute_mark_mac`. -/
def markMessage (typed : Bytes) (device : Uuid) (expiresAt : Int64) : Bytes :=
  MARK_KIND :: typed ++ 0 :: uuidBytes device ++ bigEndian 8 expiresAt.toUInt64.toNat

/-- What is counted, or signed, with the parts it is written from. -/
inductive Digested (Address : Type) where
  | name (typed : Bytes)
  | nameToday (typed : Bytes)
  | address (caller : Address)
  | addressAndName (caller : Address) (typed : Bytes)
  | pendingOfAddress (caller : Address)
  | pendingOfBrowser (device : Uuid)
  | attempts (device : Uuid)
  | recent (device : Uuid) (typed : Bytes)
  | today (device : Uuid) (typed : Bytes)
  | mark (typed : Bytes) (device : Uuid) (expiresAt : Int64)
  deriving DecidableEq

/-- What is digested, where an address is counted as a bucket. -/
def Digested.writtenAs {Address : Type} (bucket : Address → Bytes) : Digested Address → Bytes
  -- `digest_name_locks`
  | .name typed => writeParts 1 [typed]
  | .nameToday typed => writeParts 5 [typed]
  -- `Brake::of`
  | .address caller => writeParts 2 [bucket caller]
  | .addressAndName caller typed => writeParts 3 [bucket caller, typed]
  -- `admit_pending_sign_in`, which writes its counters itself
  | .pendingOfBrowser device => [11] ++ uuidBytes device
  | .pendingOfAddress caller => [4] ++ bucket caller ++ [0]
  -- `count_browser_apart`
  | .attempts device => writeParts 10 [uuidBytes device]
  | .recent device typed => writeParts 6 [uuidBytes device, typed]
  | .today device typed => writeParts 7 [uuidBytes device, typed]
  -- `compute_mark_mac`
  | .mark typed device expiresAt => markMessage typed device expiresAt

def bucketBytes (caller : IpAddr) : Bytes := Text.utf8 (writeAddressBucket caller)

def Digested.written : Digested IpAddr → Bytes := Digested.writtenAs bucketBytes

/-- The same thing, with what its address is counted as. -/
def Digested.map {Address Place : Type} (place : Address → Place) :
    Digested Address → Digested Place
  | .name typed => .name typed
  | .nameToday typed => .nameToday typed
  | .address caller => .address (place caller)
  | .addressAndName caller typed => .addressAndName (place caller) typed
  | .pendingOfAddress caller => .pendingOfAddress (place caller)
  | .pendingOfBrowser device => .pendingOfBrowser device
  | .attempts device => .attempts device
  | .recent device typed => .recent device typed
  | .today device typed => .today device typed
  | .mark typed device expiresAt => .mark typed device expiresAt

theorem writtenAs_map {Address Place : Type} (place : Address → Place) (bucket : Place → Bytes)
    (digested : Digested Address) :
    (digested.map place).writtenAs bucket = digested.writtenAs fun caller => bucket (place caller) := by
  cases digested <;> rfl

theorem uuidBytes_length (id : Uuid) : (uuidBytes id).length = 16 := bigEndian_length 16 id.val

theorem uuidBytes_injective {one other : Uuid} (same : uuidBytes one = uuidBytes other) :
    one = other := by
  have small (id : Uuid) : id.val < 256 ^ 16 := id.isLt
  exact Fin.ext (bigEndian_injective (small one) (small other) same)

theorem expiry_injective {one other : Int64}
    (same : bigEndian 8 one.toUInt64.toNat = bigEndian 8 other.toUInt64.toNat) : one = other := by
  have small (instant : Int64) : instant.toUInt64.toNat < 256 ^ 8 := instant.toUInt64.toNat_lt
  have numbers := bigEndian_injective (small one) (small other) same
  have whole := congrArg UInt64.toInt64 (UInt64.toNat_inj.mp numbers)
  rwa [Int64.toInt64_toUInt64, Int64.toInt64_toUInt64] at whole

/-- The byte each kind starts with. -/
def Digested.kind {Address : Type} : Digested Address → UInt8
  | .name _ => 1
  | .address _ => 2
  | .addressAndName _ _ => 3
  | .pendingOfAddress _ => 4
  | .nameToday _ => 5
  | .recent _ _ => 6
  | .today _ _ => 7
  | .mark _ _ _ => 8
  | .attempts _ => 10
  | .pendingOfBrowser _ => 11

variable {Address : Type} {bucket : Address → Bytes}

/-- What follows the kind. -/
def Digested.parts (bucket : Address → Bytes) : Digested Address → Bytes
  | .name typed | .nameToday typed => typed ++ [0]
  | .address caller | .pendingOfAddress caller => bucket caller ++ [0]
  | .addressAndName caller typed => bucket caller ++ 0 :: (typed ++ [0])
  | .pendingOfBrowser device => uuidBytes device
  | .attempts device => uuidBytes device ++ [0]
  | .recent device typed | .today device typed => uuidBytes device ++ 0 :: (typed ++ [0])
  | .mark typed device expiresAt =>
    typed ++ 0 :: (uuidBytes device ++ bigEndian 8 expiresAt.toUInt64.toNat)

theorem writtenAs_eq (digested : Digested Address) :
    digested.writtenAs bucket = digested.kind :: digested.parts bucket := by
  cases digested <;>
    simp [Digested.writtenAs, Digested.kind, Digested.parts, writeParts, markMessage, MARK_KIND]

/-- A device and what follows its zero byte are told apart. -/
theorem device_inj {one other : Uuid} {typed more : Bytes}
    (same : uuidBytes one ++ 0 :: (typed ++ [0]) = uuidBytes other ++ 0 :: (more ++ [0])) :
    one = other ∧ typed = more := by
  have lengths : (uuidBytes one).length = (uuidBytes other).length := by
    rw [uuidBytes_length, uuidBytes_length]
  obtain ⟨devices, rest⟩ := List.append_inj same lengths
  exact ⟨uuidBytes_injective devices, List.append_cancel_right (List.cons.inj rest).2⟩

/-- Nothing is written as another thing is, where a bucket holds no zero byte and tells what it
counts. -/
theorem writtenAs_injective (told : Function.Injective bucket) (clear : ∀ caller, 0 ∉ bucket caller)
    {one other : Digested Address} (same : one.writtenAs bucket = other.writtenAs bucket) :
    one = other := by
  rw [writtenAs_eq, writtenAs_eq] at same
  obtain ⟨kinds, parts⟩ := List.cons.inj same
  cases one with
  | name typed =>
    cases other with
    | name more => rw [List.append_cancel_right parts]
    | _ => simp [Digested.kind] at kinds
  | nameToday typed =>
    cases other with
    | nameToday more => rw [List.append_cancel_right parts]
    | _ => simp [Digested.kind] at kinds
  | address caller =>
    cases other with
    | address source => rw [told (List.append_cancel_right parts)]
    | _ => simp [Digested.kind] at kinds
  | addressAndName caller typed =>
    cases other with
    | addressAndName source more =>
      obtain ⟨places, rest⟩ := Framing.ended_inj (clear caller) (clear source) parts
      rw [told places, List.append_cancel_right rest]
    | _ => simp [Digested.kind] at kinds
  | pendingOfAddress caller =>
    cases other with
    | pendingOfAddress source => rw [told (List.append_cancel_right parts)]
    | _ => simp [Digested.kind] at kinds
  | pendingOfBrowser device =>
    cases other with
    | pendingOfBrowser known => rw [uuidBytes_injective parts]
    | _ => simp [Digested.kind] at kinds
  | attempts device =>
    cases other with
    | attempts known => rw [uuidBytes_injective (List.append_cancel_right parts)]
    | _ => simp [Digested.kind] at kinds
  | recent device typed =>
    cases other with
    | recent known more =>
      obtain ⟨devices, names⟩ := device_inj parts
      rw [devices, names]
    | _ => simp [Digested.kind] at kinds
  | today device typed =>
    cases other with
    | today known more =>
      obtain ⟨devices, names⟩ := device_inj parts
      rw [devices, names]
    | _ => simp [Digested.kind] at kinds
  | mark typed device expiresAt =>
    cases other with
    | mark more known expires =>
      have lengths : (0 :: (uuidBytes device ++ bigEndian 8 expiresAt.toUInt64.toNat)).length =
          (0 :: (uuidBytes known ++ bigEndian 8 expires.toUInt64.toNat)).length := by
        simp [uuidBytes_length, bigEndian_length]
      obtain ⟨names, tails⟩ := List.append_inj' parts lengths
      have devices : (uuidBytes device).length = (uuidBytes known).length := by
        rw [uuidBytes_length, uuidBytes_length]
      obtain ⟨ids, ends⟩ := List.append_inj (List.cons.inj tails).2 devices
      rw [names, uuidBytes_injective ids, expiry_injective ends]
    | _ => simp [Digested.kind] at kinds

def networkCharacters : Network → List Char
  | .host one two three four =>
    Nat.toDigits 10 one.toNat ++ '.' :: (Nat.toDigits 10 two.toNat ++ '.' ::
      (Nat.toDigits 10 three.toNat ++ '.' :: Nat.toDigits 10 four.toNat))
  | .subscriber one two three four =>
    Nat.toDigits 16 one.toNat ++ ':' :: (Nat.toDigits 16 two.toNat ++ ':' ::
      (Nat.toDigits 16 three.toNat ++ ':' :: (Nat.toDigits 16 four.toNat ++ ':' :: ":/64".toList)))

theorem bucket_toList (network : Network) :
    network.bucket.toList = networkCharacters network := by
  cases network <;>
    simp [Network.bucket, networkCharacters, hexadecimal, String.toList_append, Nat.toList_repr]

/-- The characters of a bucket that are no digits. -/
def POINTS : List Char := ['.', ':', '/']

theorem digit_plain {base : Nat} (wide : 1 < base) (known : base ≤ 16) {value : Nat} {digit : Char}
    (inside : digit ∈ Nat.toDigits base value) :
    digit ∉ POINTS ∧ Text.IsAscii digit ∧ digit ≠ '\x00' := by
  have plain : ∀ number < 16, Nat.digitChar number ∉ POINTS ∧ Text.IsAscii (Nat.digitChar number) ∧
      Nat.digitChar number ≠ '\x00' := by decide
  obtain ⟨number, below, rfl⟩ := Framing.exists_digit_of_mem wide inside
  exact plain number (by omega)

theorem not_mem_digits {base : Nat} (wide : 1 < base) (known : base ≤ 16) (value : Nat)
    {point : Char} (among : point ∈ POINTS) : point ∉ Nat.toDigits base value :=
  fun inside => (digit_plain wide known inside).1 among

theorem dot_not_mem (value : Nat) : '.' ∉ Nat.toDigits 10 value :=
  not_mem_digits (by decide) (by decide) value (by decide)

theorem colon_not_mem (value : Nat) : ':' ∉ Nat.toDigits 16 value :=
  not_mem_digits (by decide) (by decide) value (by decide)

theorem colon_not_mem_host (one two three four : UInt8) :
    ':' ∉ networkCharacters (.host one two three four) := by
  have absent (value : Nat) : ':' ∉ Nat.toDigits 10 value :=
    not_mem_digits (by decide) (by decide) value (by decide)
  simp [networkCharacters, absent]

/-- A network is told by its bucket. -/
theorem networkCharacters_injective {one other : Network}
    (same : networkCharacters one = networkCharacters other) : one = other := by
  have byte {first second : UInt8} (digits : Nat.toDigits 10 first.toNat =
      Nat.toDigits 10 second.toNat) : first = second :=
    UInt8.toNat_inj.mp (Framing.toDigits_injective (by decide) (by decide) digits)
  have segment {first second : UInt16} (digits : Nat.toDigits 16 first.toNat =
      Nat.toDigits 16 second.toNat) : first = second :=
    UInt16.toNat_inj.mp (Framing.toDigits_injective (by decide) (by decide) digits)
  cases one with
  | host one two three four =>
    cases other with
    | host five six seven eight =>
      obtain ⟨first, rest⟩ := Framing.ended_inj (dot_not_mem _) (dot_not_mem _) same
      obtain ⟨second, rest⟩ := Framing.ended_inj (dot_not_mem _) (dot_not_mem _) rest
      obtain ⟨third, fourth⟩ := Framing.ended_inj (dot_not_mem _) (dot_not_mem _) rest
      rw [byte first, byte second, byte third, byte fourth]
    | subscriber five six seven eight =>
      have absent := colon_not_mem_host one two three four
      rw [same] at absent
      simp [networkCharacters] at absent
  | subscriber one two three four =>
    cases other with
    | host five six seven eight =>
      have absent := colon_not_mem_host five six seven eight
      rw [← same] at absent
      simp [networkCharacters] at absent
    | subscriber five six seven eight =>
      obtain ⟨first, rest⟩ := Framing.ended_inj (colon_not_mem _) (colon_not_mem _) same
      obtain ⟨second, rest⟩ := Framing.ended_inj (colon_not_mem _) (colon_not_mem _) rest
      obtain ⟨third, rest⟩ := Framing.ended_inj (colon_not_mem _) (colon_not_mem _) rest
      obtain ⟨fourth, -⟩ := Framing.ended_inj (colon_not_mem _) (colon_not_mem _) rest
      rw [segment first, segment second, segment third, segment fourth]

def networkBytes (network : Network) : Bytes := Text.utf8 network.bucket

theorem networkBytes_injective : Function.Injective networkBytes := by
  intro one other same
  have texts := congrArg String.toList (Text.utf8_injective same)
  rw [bucket_toList, bucket_toList] at texts
  exact networkCharacters_injective texts

theorem networkCharacters_plain (network : Network) :
    ∀ held ∈ networkCharacters network, Text.IsAscii held ∧ held ≠ '\x00' := by
  have decimal {value : Nat} {digit : Char} (inside : digit ∈ Nat.toDigits 10 value) :=
    (digit_plain (by decide) (by decide) inside).2
  have hexadecimal {value : Nat} {digit : Char} (inside : digit ∈ Nat.toDigits 16 value) :=
    (digit_plain (by decide) (by decide) inside).2
  have dot : Text.IsAscii '.' ∧ '.' ≠ '\x00' := by decide
  have colon : Text.IsAscii ':' ∧ ':' ≠ '\x00' := by decide
  have tail (held : Char) (among : held ∈ ":/64".toList) : Text.IsAscii held ∧ held ≠ '\x00' := by
    have listed : held = ':' ∨ held = '/' ∨ held = '6' ∨ held = '4' := by simpa using among
    rcases listed with rfl | rfl | rfl | rfl <;> decide
  intro held inside
  cases network with
  | host one two three four =>
    simp only [networkCharacters, List.mem_append, List.mem_cons] at inside
    rcases inside with digit | rfl | digit | rfl | digit | rfl | digit
    all_goals first
      | exact decimal digit
      | exact dot
  | subscriber one two three four =>
    simp only [networkCharacters, List.mem_append, List.mem_cons] at inside
    rcases inside with digit | rfl | digit | rfl | digit | rfl | digit | rfl | rest
    all_goals first
      | exact hexadecimal digit
      | exact colon
      | exact tail held rest

/-- No bucket holds the byte that ends it. -/
theorem zero_not_mem_networkBytes (network : Network) : 0 ∉ networkBytes network := by
  have plain := networkCharacters_plain network
  intro inside
  have text : network.bucket = String.ofList (networkCharacters network) := by
    rw [← bucket_toList, String.ofList_toList]
  rw [networkBytes, text, Text.utf8_of_ascii fun held among => (plain held among).1] at inside
  obtain ⟨held, among, zero⟩ := List.mem_map.mp inside
  obtain ⟨ascii, other⟩ := plain held among
  have small : held.toNat < 128 := ascii
  have number := congrArg UInt8.toNat zero
  rw [Text.byteOf, UInt8.toNat_ofNat', UInt8.toNat_zero] at number
  exact other (Char.toNat_inj.mp (by change held.toNat = 0; omega))

/-- What is digested for two things is the same only if they are of the same kind, of the same
realm and of the same parts, an address being what it is counted as. -/
theorem digested_apart (tenant realm otherTenant otherRealm : Uuid) (one other : Digested IpAddr) :
    messageOf tenant realm one.written = messageOf otherTenant otherRealm other.written ↔
      tenant = otherTenant ∧ realm = otherRealm ∧
        one.map IpAddr.network = other.map IpAddr.network := by
  have counted (digested : Digested IpAddr) :
      digested.written = (digested.map IpAddr.network).writtenAs networkBytes := by
    rw [writtenAs_map, Digested.written]
    congr 1
    funext caller
    rw [bucketBytes, networkBytes, writeAddressBucket_eq]
  constructor
  · intro same
    rw [messageOf, messageOf, List.append_assoc, List.append_assoc] at same
    obtain ⟨tenants, rest⟩ := List.append_inj same (by rw [uuidBytes_length, uuidBytes_length])
    obtain ⟨realms, bytes⟩ := List.append_inj rest (by rw [uuidBytes_length, uuidBytes_length])
    rw [counted, counted] at bytes
    exact ⟨uuidBytes_injective tenants, uuidBytes_injective realms,
      writtenAs_injective networkBytes_injective zero_not_mem_networkBytes bytes⟩
  · rintro ⟨rfl, rfl, same⟩
    rw [counted, counted, same]

end Saffui.Oidc.Digests
