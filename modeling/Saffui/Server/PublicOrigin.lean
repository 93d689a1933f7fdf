import Saffui.Decimal
import Saffui.Server.Addresses

/-!
# The public origin of a deployment

Source: `PublicOrigin` of `saffui-core/src/settings.rs`, with the texts the
standard library writes of addresses. Every issuer starts with the origin and is
compared byte for byte: an origin that is read has no other spelling.
-/

namespace Saffui.Server
open Saffui.Oidc (IpAddr hexadecimal)

/-- `{}` of a number. -/
def writeDecimal (number : Nat) : String := String.ofList (Nat.toDigits 10 number)

def writeIpv4 (one two three four : UInt8) : String :=
  ".".intercalate ([one, two, three, four].map fun octet => writeDecimal octet.toNat)

/-- A span of segments of an IPv6 address. -/
structure Span where
  start : Nat
  len : Nat
  deriving DecidableEq

/-- The longest span of zero segments, the first of those as long: the longest so
far, and the one the place is in. -/
def longestZeroes : Nat → Span → Span → List UInt16 → Span
  | _, longest, _, [] => longest
  | place, longest, current, segment :: rest =>
    if segment = 0 then
      let start := if current.len = 0 then place else current.start
      let current : Span := { start, len := current.len + 1 }
      longestZeroes (place + 1) (if longest.len < current.len then current else longest) current rest
    else longestZeroes (place + 1) longest ⟨0, 0⟩ rest

def writeSegments (segments : List UInt16) : String := ":".intercalate (segments.map hexadecimal)

def writeIpv6 (segments : Vector UInt16 8) : String :=
  match (IpAddr.v6 segments).toCanonical with
  | .v4 one two three four => "::ffff:" ++ writeIpv4 one two three four
  | .v6 _ =>
    let zeroes := longestZeroes 0 ⟨0, 0⟩ ⟨0, 0⟩ segments.toList
    if zeroes.len > 1 then
      writeSegments (segments.toList.take zeroes.start) ++ "::" ++
        writeSegments (segments.toList.drop (zeroes.start + zeroes.len))
    else writeSegments segments.toList

def writeIpAddr : IpAddr → String
  | .v4 one two three four => writeIpv4 one two three four
  | .v6 segments => writeIpv6 segments

example : writeIpAddr (.v6 #v[0x2001, 0xdb8, 0, 0, 1, 0, 0, 1]) = "2001:db8::1:0:0:1" ∧
    writeIpAddr (.v6 #v[1, 0, 2, 0, 0, 0, 0, 0]) = "1:0:2::" ∧
    writeIpAddr (.v6 #v[0, 0, 0, 0, 0, 0, 0, 1]) = "::1" := by decide

inductive PublicOriginError where
  | unreadable
  | defaultPort
  | clearToRemoteHost
  deriving DecidableEq, Repr

inductive Host where
  | name (name : String)
  | address (address : IpAddr)
  deriving DecidableEq

/-- `str::strip_prefix` -/
def stripPrefix (front text : String) : Option String :=
  if front.toList.isPrefixOf text.toList then
    some (String.ofList (text.toList.drop front.toList.length))
  else none

/-- A port as it is written back: neither a sign nor a zero in front. -/
def readPort (text : String) : Option UInt16 :=
  if text.toList.head? = some '0' || !text.toList.all Text.isAsciiDigit then none
  else if text.toList = [] ∨ 65536 ≤ Text.decimal text.toList then none
  else some (UInt16.ofNat (Text.decimal text.toList))

def isPlain (label : String) : Bool :=
  1 ≤ label.utf8ByteSize && label.utf8ByteSize ≤ 63 && label.toList.head? ≠ some '-' &&
    label.toList.getLast? ≠ some '-' && label.toList.all fun character =>
      Text.isAsciiLowercase character || Text.isAsciiDigit character || character = '-'

/-- A host whose last label is a number is an address to every URL parser. -/
def readHostName (name : String) : Option Host :=
  let last := ((Text.split '.' name).getLast?).getD ""
  if last.toList.all Text.isAsciiDigit || "0x".toList.isPrefixOf last.toList then do
    let octets ← Net.parseWith Net.readIpv4Addr name
    let address := Net.ofOctets octets
    if writeIpAddr address = name then some (.address address) else none
  else if name.utf8ByteSize ≤ 253 ∧ (Text.split '.' name).all isPlain then some (.name name)
  else none

def readAuthority (authority : String) : Option (Host × Option UInt16) :=
  match stripPrefix "[" authority with
  | some rest => do
    let (inside, after) ← Text.splitOnce ']' rest
    let groups ← Net.parseWith Net.readIpv6Addr inside
    let address := Net.ofGroups groups
    if isIpv4 address.toCanonical || writeIpAddr address ≠ inside then none
    else if after = "" then some (.address address, none)
    else do
      let port ← readPort (← stripPrefix ":" after)
      return (.address address, some port)
  | none =>
    match Text.splitOnce ':' authority with
    | some (name, written) => do
      let port ← readPort written
      return (← readHostName name, some port)
    | none => (readHostName authority).map fun host => (host, none)

/-- Whether the scheme is `https`, and what is after it. -/
def readScheme (text : String) : Option (Bool × String) :=
  match stripPrefix "https://" text with
  | some rest => some (true, rest)
  | none => (stripPrefix "http://" text).map fun rest => (false, rest)

def defaultPort (secure : Bool) : UInt16 := if secure then 443 else 80

def Host.isLoopback : Host → Bool
  | .name named => named = "localhost"
  | .address held => held = .v4 127 0 0 1 ∨ held = .v6 #v[0, 0, 0, 0, 0, 0, 0, 1]

/-- Where the public reaches the deployment, as the operator wrote it. -/
structure PublicOrigin where
  text : String
  deriving DecidableEq

def PublicOrigin.parse (text : String) : Except PublicOriginError PublicOrigin :=
  match readScheme text with
  | none => .error .unreadable
  | some (secure, authority) =>
    match readAuthority authority with
    | none => .error .unreadable
    | some (host, port) =>
      if port = some (defaultPort secure) then .error .defaultPort
      else if !secure && !host.isLoopback then .error .clearToRemoteHost
      else .ok ⟨text⟩

/-- A scheme, a host and the port that is reached. -/
structure Origin where
  secure : Bool
  host : Host
  port : UInt16
  deriving DecidableEq

def Host.text : Host → String
  | .name named => named
  | .address (.v4 one two three four) => writeIpv4 one two three four
  | .address (.v6 segments) => "[" ++ writeIpv6 segments ++ "]"

def writePort : Option UInt16 → String
  | none => ""
  | some port => ":" ++ writeDecimal port.toNat

def Origin.scheme (origin : Origin) : String := if origin.secure then "https://" else "http://"

/-- The host, and the port where it is not that of the scheme. -/
def Origin.authority (origin : Origin) : String :=
  origin.host.text ++
    writePort (if origin.port = defaultPort origin.secure then none else some origin.port)

end Saffui.Server
