import Saffui.Oidc.Brake

/-!
# Addresses, and the ranges a deployment trusts

Source: `AddressRange` of `saffui-core/src/settings.rs`, over the readers of the
standard library (`core::net::parser`): an address, and an address with a port,
each taken whole or not at all.
-/

namespace Saffui.Server
open Saffui.Oidc (IpAddr)

namespace Net

/-- A reader takes what it can from the front of a text, or nothing. -/
abbrev Reader (α : Type) := List Char → Option (α × List Char)

def readGivenChar (given : Char) : Reader Unit
  | [] => none
  | character :: rest => if character = given then some ((), rest) else none

/-- `char::to_digit`, of a base up to sixteen. -/
def toDigit (radix : Nat) (character : Char) : Option Nat :=
  (Uuid.readHexDigit character).filter fun digit => digit < radix

/-- A number below a bound, of at most so many digits; none of them a zero in front where that is
not allowed. -/
def readNumber (radix bound : Nat) (maxDigits : Option Nat) (allowZeroPrefix : Bool) :
    Reader Nat := fun text =>
  let digits := text.takeWhile fun character => (toDigit radix character).isSome
  let value := (digits.filterMap (toDigit radix)).foldl (fun value digit => value * radix + digit) 0
  if digits = [] || maxDigits.any (fun most => most < digits.length) then none
  else if !allowZeroPrefix && digits.head? = some '0' && 1 < digits.length then none
  else if value < bound then some (value, text.drop digits.length)
  else none

/-- A separator, but before the first of a series. -/
def readSeparator {α : Type} (separator : Char) (index : Nat) (inner : Reader α) : Reader α :=
  fun text =>
    if index = 0 then inner text
    else do
      let (_, rest) ← readGivenChar separator text
      inner rest

def readOctet (index : Nat) : Reader Nat := readSeparator '.' index (readNumber 10 256 (some 3) false)

/-- Four numbers between dots. -/
def readIpv4Addr : Reader (Nat × Nat × Nat × Nat) := fun text => do
  let (one, text) ← readOctet 0 text
  let (two, text) ← readOctet 1 text
  let (three, text) ← readOctet 2 text
  let (four, text) ← readOctet 3 text
  return ((one, two, three, four), text)

/-- The groups of an IPv6 address, as many as are left to read: those read, and whether they end
with an IPv4 address. -/
def readGroups : Nat → Nat → List Char → List Nat × Bool × List Char
  | 0, _, text => ([], false, text)
  | left + 1, index, text =>
    match if left = 0 then none else readSeparator ':' index readIpv4Addr text with
    | some ((one, two, three, four), rest) => ([one * 256 + two, three * 256 + four], true, rest)
    | none =>
      match readSeparator ':' index (readNumber 16 65536 (some 4) true) text with
      | some (group, rest) =>
        let (groups, embedded, rest) := readGroups left (index + 1) rest
        (group :: groups, embedded, rest)
      | none => ([], false, text)

/-- Eight groups, or two series of them around two colons. -/
def readIpv6Addr : Reader (List Nat) := fun text =>
  let (head, embedded, rest) := readGroups 8 0 text
  if head.length = 8 then some (head, rest)
  else if embedded then none
  else do
    let (_, rest) ← readGivenChar ':' rest
    let (_, rest) ← readGivenChar ':' rest
    let (tail, _, rest) := readGroups (8 - (head.length + 1)) 0 rest
    return (head ++ List.replicate (8 - head.length - tail.length) 0 ++ tail, rest)

def ofOctets : Nat × Nat × Nat × Nat → IpAddr
  | (one, two, three, four) =>
    .v4 (UInt8.ofNat one) (UInt8.ofNat two) (UInt8.ofNat three) (UInt8.ofNat four)

def ofGroups (groups : List Nat) : IpAddr :=
  .v6 (Vector.ofFn fun place => UInt16.ofNat (groups.getD place 0))

def readIpAddr : Reader IpAddr := fun text =>
  match readIpv4Addr text with
  | some (octets, rest) => some (ofOctets octets, rest)
  | none => (readIpv6Addr text).map fun (groups, rest) => (ofGroups groups, rest)

def readPort : Reader Nat := fun text => do
  let (_, rest) ← readGivenChar ':' text
  readNumber 10 65536 none true rest

/-- A scope is read over, where there is one. -/
def skipScopeId (text : List Char) : List Char :=
  match readGivenChar '%' text with
  | none => text
  | some (_, rest) =>
    match readNumber 10 4294967296 none true rest with
    | none => text
    | some (_, rest) => rest

/-- The address of a socket. -/
def readSocketAddr : Reader IpAddr := fun text =>
  let plain : Option (IpAddr × List Char) := do
    let (octets, rest) ← readIpv4Addr text
    let (_, rest) ← readPort rest
    return (ofOctets octets, rest)
  let bracketed : Option (IpAddr × List Char) := do
    let (_, rest) ← readGivenChar '[' text
    let (groups, rest) ← readIpv6Addr rest
    let (_, rest) ← readGivenChar ']' (skipScopeId rest)
    let (_, rest) ← readPort rest
    return (ofGroups groups, rest)
  plain.orElse fun _ => bracketed

/-- What a reader makes of a whole text. -/
def parseWith {α : Type} (reader : Reader α) (text : String) : Option α := do
  let (value, rest) ← reader text.toList
  if rest = [] then some value else none

/-- `str::parse::<IpAddr>` -/
def parseIpAddr : String → Option IpAddr := parseWith readIpAddr

/-- `str::parse::<SocketAddr>`, and its address. -/
def parseSocketAddr : String → Option IpAddr := parseWith readSocketAddr

example : parseIpAddr "203.0.113.7" = some (.v4 203 0 113 7) ∧ parseIpAddr "1.2.3.04" = none ∧
    parseIpAddr "2001:db8::7" = some (.v6 #v[0x2001, 0xdb8, 0, 0, 0, 0, 0, 7]) ∧
    parseIpAddr "::ffff:10.0.0.1" = some (.v6 #v[0, 0, 0, 0, 0, 0xffff, 0xa00, 1]) ∧
    parseSocketAddr "[2001:db8::7]:443" = some (.v6 #v[0x2001, 0xdb8, 0, 0, 0, 0, 0, 7]) := by
  decide

end Net

def isIpv4 : IpAddr → Bool
  | .v4 .. => true
  | .v6 _ => false

/-- The bits of an address, as a number: `u128`. -/
def toBits : IpAddr → Nat
  | .v4 one two three four =>
    ((one.toNat * 256 + two.toNat) * 256 + three.toNat) * 256 + four.toNat
  | .v6 segments => segments.toList.foldl (fun bits segment => bits * 65536 + segment.toNat) 0

/-- How many bits an address of a family has. -/
def width (address : IpAddr) : Nat := if isIpv4 address then 32 else 128

inductive AddressRangeError where
  | unreadable
  | notItsStart
  | tooWide
  deriving DecidableEq, Repr

/-- The shortest prefix a range may have. -/
def SHORTEST_PREFIX : Nat := 8

/-- A network, and the length of its prefix. -/
structure AddressRange where
  network : IpAddr
  prefixLength : UInt8
  deriving DecidableEq

/-- `u128::MAX.checked_shl(host_bits).unwrap_or(0)` -/
def maskBits (hostBits : Nat) : Nat :=
  if hostBits < 128 then (2 ^ 128 - 1) * 2 ^ hostBits % 2 ^ 128 else 0

/-- The bits of an address under the prefix, when it is of the family of the range. -/
def AddressRange.mask (range : AddressRange) (address : IpAddr) : Option Nat :=
  if isIpv4 address ≠ isIpv4 range.network then none
  else some (toBits address &&& maskBits (width range.network - range.prefixLength.toNat))

/-- Tells whether an address is in the range, read in its canonical form. -/
def AddressRange.contains (range : AddressRange) (address : IpAddr) : Bool :=
  range.mask address.toCanonical = some (toBits range.network)

/-- The length of a prefix, as it is written: digits alone, none of them a zero in front. -/
def readPrefixLength (written : String) : Except AddressRangeError UInt8 :=
  if written = "" || written.utf8ByteSize > 3 ||
      (written.utf8ByteSize > 1 && written.toList.head? = some '0') ||
      !written.toList.all Text.isAsciiDigit then
    .error .unreadable
  else if Text.decimal written.toList < 256 then .ok (UInt8.ofNat (Text.decimal written.toList))
  else .error .unreadable

/-- An address and what is written after its slash, if there is one. -/
def splitPrefix (text : String) : String × Option String :=
  match Text.splitOnce '/' text with
  | none => (text, none)
  | some (address, written) => (address, some written)

/-- The address of a range: an IPv4 address written in IPv6 is refused. -/
def readNetwork (address : String) : Except AddressRangeError IpAddr :=
  match Net.parseIpAddr address with
  | none => .error .unreadable
  | some network =>
    if isIpv4 network = false ∧ isIpv4 network.toCanonical = true then .error .unreadable
    else .ok network

/-- Reads an address or a range. -/
def AddressRange.parse (text : String) : Except AddressRangeError AddressRange := do
  let network ← readNetwork (splitPrefix text).1
  let prefixLength ← ((splitPrefix text).2.map readPrefixLength).getD
    (.ok (UInt8.ofNat (width network)))
  if prefixLength.toNat > width network then .error .unreadable
  else if prefixLength.toNat < SHORTEST_PREFIX then .error .tooWide
  else if (AddressRange.mk network prefixLength).mask network ≠ some (toBits network) then
    .error .notItsStart
  else .ok ⟨network, prefixLength⟩

/-- An address is in a network: the same family, and the same number before the bits of hosts. -/
def InNetwork (network : IpAddr) (prefixLength : Nat) (address : IpAddr) : Prop :=
  isIpv4 address = isIpv4 network ∧
    toBits address / 2 ^ (width network - prefixLength) =
      toBits network / 2 ^ (width network - prefixLength)

/-- What a range that was read keeps to. -/
structure AddressRange.Valid (range : AddressRange) : Prop where
  least : SHORTEST_PREFIX ≤ range.prefixLength.toNat
  most : range.prefixLength.toNat ≤ width range.network
  start : range.mask range.network = some (toBits range.network)

theorem toBits_lt (address : IpAddr) : toBits address < 2 ^ 128 := by
  cases address with
  | v4 one two three four =>
    have first := one.toNat_lt
    have second := two.toNat_lt
    have third := three.toNat_lt
    have fourth := four.toNat_lt
    rw [toBits]
    omega
  | v6 segments =>
    have grown (held : List UInt16) (bits : Nat) :
        held.foldl (fun bits segment => bits * 65536 + segment.toNat) bits <
          (bits + 1) * 65536 ^ held.length := by
      induction held generalizing bits with
      | nil => simp
      | cons segment rest ih =>
        have small := segment.toNat_lt
        have next := ih (bits * 65536 + segment.toNat)
        have bound : bits * 65536 + segment.toNat + 1 ≤ (bits + 1) * 65536 := by omega
        rw [List.foldl_cons, List.length_cons, pow_succ]
        calc
          _ < (bits * 65536 + segment.toNat + 1) * 65536 ^ rest.length := next
          _ ≤ (bits + 1) * 65536 * 65536 ^ rest.length := Nat.mul_le_mul_right _ bound
          _ = (bits + 1) * (65536 ^ rest.length * 65536) := by
            rw [Nat.mul_assoc, Nat.mul_comm 65536]
    have whole := grown segments.toList 0
    rw [Vector.length_toList] at whole
    exact whole

/-- Under a mask, the bits of hosts are zero. -/
theorem and_maskBits {bits hostBits : Nat} (small : bits < 2 ^ 128) (fewer : hostBits < 128) :
    bits &&& maskBits hostBits = bits / 2 ^ hostBits * 2 ^ hostBits := by
  apply Nat.eq_of_testBit_eq
  intro place
  rw [maskBits, if_pos fewer, Nat.testBit_and, Nat.testBit_mod_two_pow, Nat.testBit_mul_two_pow,
    Nat.testBit_mul_two_pow, Nat.testBit_div_two_pow, Nat.testBit_two_pow_sub_one]
  by_cases host : place < hostBits
  · have below : ¬hostBits ≤ place := by omega
    simp [below]
  · by_cases inside : place < 128
    · have low : place - hostBits < 128 := by omega
      have above : hostBits ≤ place := by omega
      simp [inside, low, above]
    · have high : bits.testBit place = false := by
        apply Nat.testBit_lt_two_pow
        exact Nat.lt_of_lt_of_le small (Nat.pow_le_pow_right (by omega) (by omega))
      have above : hostBits ≤ place := by omega
      simp [high, above]

theorem width_le (address : IpAddr) : width address ≤ 128 := by
  rw [width]
  split <;> omega

/-- A range holds what is in its network, read in its canonical form. -/
theorem AddressRange.Valid.contains_iff {range : AddressRange} (valid : range.Valid)
    (address : IpAddr) : range.contains address = true ↔
      InNetwork range.network range.prefixLength.toNat address.toCanonical := by
  have least : 8 ≤ range.prefixLength.toNat := valid.least
  have fewer : width range.network - range.prefixLength.toNat < 128 := by
    have most := width_le range.network
    omega
  have start := valid.start
  rw [AddressRange.mask, if_neg (not_not.mpr rfl), Option.some.injEq,
    and_maskBits (toBits_lt _) fewer] at start
  rw [AddressRange.contains, decide_eq_true_eq, AddressRange.mask, InNetwork]
  by_cases family : isIpv4 address.toCanonical = isIpv4 range.network
  · rw [if_neg (not_not.mpr family), Option.some.injEq, and_maskBits (toBits_lt _) fewer]
    constructor
    · intro same
      refine ⟨family, ?_⟩
      rw [← start] at same
      exact Nat.eq_of_mul_eq_mul_right (Nat.two_pow_pos _) same
    · rintro ⟨-, same⟩
      rw [same, start]
  · rw [if_pos family]
    exact ⟨nofun, fun inside => absurd inside.1 family⟩

/-- A range that is read is valid. -/
theorem AddressRange.valid_of_parse {text : String} {range : AddressRange}
    (read : AddressRange.parse text = .ok range) : range.Valid := by
  unfold AddressRange.parse at read
  cases network : readNetwork (splitPrefix text).1 with
  | error error =>
    rw [network] at read
    cases read
  | ok address =>
    cases written : ((splitPrefix text).2.map readPrefixLength).getD
        (.ok (UInt8.ofNat (width address))) with
    | error error =>
      rw [network] at read
      simp only [bind, Except.bind, written] at read
      cases read
    | ok prefixLength =>
      rw [network] at read
      simp only [bind, Except.bind, written] at read
      split at read
      · cases read
      · next most =>
        split at read
        · cases read
        · next least =>
          split at read
          · cases read
          · next start =>
            cases read
            exact ⟨Nat.le_of_not_lt least, Nat.le_of_not_lt most, not_not.mp start⟩

end Saffui.Server
