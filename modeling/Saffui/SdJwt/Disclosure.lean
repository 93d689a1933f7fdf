import Saffui.Crypto.Provider
import Saffui.Foundation.Base64
import Saffui.Json

/-!
# Disclosures

`crypto/src/sd_jwt/mod.rs`: the salted claims of an SD-JWT (RFC 9901), their
digests, and a presentation cut at its tildes.

The texts of JSON are the library's: `SerdeJson` holds how it writes a float,
what it reads, and the two things relied on: that what it reads is a value it
holds, and that a value it holds reads back from its text, as long as each of
its floats does and it nests no deeper than the library follows. A float need
not: the library is built to read the last bits of one fast, not exactly. It
counts down from 128 as it goes into arrays and objects, and stops at zero.
-/

namespace Saffui

/-- A value as `serde_json` holds one: the keys of an object in increasing
order, the integers of 64 bits, and the floats those of `finite`. -/
inductive Json.Held (finite : Rat → Prop) : Json → Prop
  | null : Held finite .null
  | bool (value : Bool) : Held finite (.bool value)
  | posInt {value : Nat} (within : value < 2 ^ 64) : Held finite (.number (.posInt value))
  | negInt {value : Nat} (within : value < 2 ^ 63) : Held finite (.number (.negInt value))
  | float {worth : Rat} (is : finite worth) : Held finite (.number (.float worth))
  | string (text : String) : Held finite (.string text)
  | array {items : List Json} (each : ∀ item ∈ items, Held finite item) : Held finite (.array items)
  | object {members : List (String × Json)}
      (sorted : members.Pairwise fun left right => left.1 < right.1)
      (each : ∀ member ∈ members, Held finite member.2) : Held finite (.object members)

theorem Json.Held.mono {finite wider : Rat → Prop} {value : Json} (held : value.Held finite)
    (within : ∀ worth, finite worth → wider worth) : value.Held wider := by
  induction held with
  | null => exact .null
  | bool value => exact .bool value
  | posInt within => exact .posInt within
  | negInt within => exact .negInt within
  | float is => exact .float (within _ is)
  | string text => exact .string text
  | array _ ih => exact .array ih
  | object sorted _ ih => exact .object sorted ih

namespace Json

mutual

/-- How deep arrays and objects are nested in a value. -/
def depth : Json → Nat
  | .array items => itemsDepth items + 1
  | .object members => membersDepth members + 1
  | _ => 0

def itemsDepth : List Json → Nat
  | [] => 0
  | item :: rest => max (depth item) (itemsDepth rest)

def membersDepth : List (String × Json) → Nat
  | [] => 0
  | (_, value) :: rest => max (depth value) (membersDepth rest)

end

theorem depth_array_le {items : List Json} {levels : Nat} :
    (Json.array items).depth ≤ levels + 1 ↔ ∀ item ∈ items, item.depth ≤ levels := by
  rw [depth, Nat.add_le_add_iff_right]
  induction items with
  | nil => simp [itemsDepth]
  | cons item rest ih => rw [itemsDepth, Nat.max_le, ih, List.forall_mem_cons]

theorem depth_object_le {members : List (String × Json)} {levels : Nat} :
    (Json.object members).depth ≤ levels + 1 ↔ ∀ member ∈ members, member.2.depth ≤ levels := by
  rw [depth, Nat.add_le_add_iff_right]
  induction members with
  | nil => simp [membersDepth]
  | cons member rest ih =>
    obtain ⟨name, value⟩ := member
    rw [membersDepth, Nat.max_le, ih, List.forall_mem_cons]

end Json

namespace SdJwt
open Foundation Crypto

abbrev Bytes := Crypto.Bytes

/-- The texts of `serde_json`. -/
structure SerdeJson where
  float : Rat → String
  finite : Rat → Prop
  fromSlice : Bytes → Option Json
  held : ∀ {bytes value}, fromSlice bytes = some value → value.Held finite
  /-- A value reads back, where each of its floats reads back from its own text
  and it nests no deeper than 127 levels. -/
  reads_back : ∀ {value : Json}, value.Held (fun worth =>
      fromSlice (Text.utf8 (float worth)) = some (.number (.float worth))) → value.depth ≤ 127 →
    fromSlice (Text.utf8 (value.write float)) = some value

/-- A float that reads back from its own text. -/
def SerdeJson.Steady (serde : SerdeJson) (worth : Rat) : Prop :=
  serde.fromSlice (Text.utf8 (serde.float worth)) = some (.number (.float worth))

/-- A value that reads back, as long as no more than the levels left are around it. -/
structure SerdeJson.Reads (serde : SerdeJson) (levels : Nat) (value : Json) : Prop where
  held : value.Held serde.Steady
  shallow : value.depth ≤ levels

theorem SerdeJson.Reads.back {serde : SerdeJson} {value : Json} (reads : serde.Reads 127 value) :
    serde.fromSlice (Text.utf8 (value.write serde.float)) = some value :=
  serde.reads_back reads.held reads.shallow

theorem SerdeJson.Reads.array {serde : SerdeJson} {levels : Nat} {items : List Json}
    (each : ∀ item ∈ items, serde.Reads levels item) : serde.Reads (levels + 1) (.array items) :=
  ⟨.array fun item inside => (each item inside).held,
    Json.depth_array_le.mpr fun item inside => (each item inside).shallow⟩

theorem SerdeJson.Reads.object {serde : SerdeJson} {levels : Nat} {members : List (String × Json)}
    (sorted : members.Pairwise fun left right => left.1 < right.1)
    (each : ∀ member ∈ members, serde.Reads levels member.2) :
    serde.Reads (levels + 1) (.object members) :=
  ⟨.object sorted fun member inside => (each member inside).held,
    Json.depth_object_le.mpr fun member inside => (each member inside).shallow⟩

theorem SerdeJson.Reads.string {serde : SerdeJson} {levels : Nat} (text : String) :
    serde.Reads levels (.string text) := ⟨.string text, Nat.zero_le _⟩

theorem SerdeJson.held_of_steady (serde : SerdeJson) {value : Json} (steady : value.Held serde.Steady) :
    value.Held serde.finite :=
  steady.mono fun _ reads => match serde.held reads with
    | .float is => is

/-- What an SD-JWT asks of a provider: digests, and salts drawn one after the
other, sixteen bytes each. -/
structure CryptoProvider where
  hash : HashAlg → Bytes → Except CryptoError Bytes
  fill : Nat → Except CryptoError { drawn : Bytes // drawn.length = 16 }

inductive Refused where
  | notAnSdJwt | issuerSignature | wrongType | unreadablePayload | unknownHash (name : String)
  | misplacedHashAlgorithm | malformedDisclosure | malformedDigestCarrier
  | forbiddenClaimName (name : String) | claimCollision (name : String) | repeatedDigest
  | repeatedDisclosure | unreferencedDisclosure | missingClaim (name : String) | expired
  | notYetValid | keyBindingMissing | keyBindingUnexpected | noHolderKey | keyBindingSignature
  | keyBindingType | keyBindingUnreadable | keyBindingStale | keyBindingAudience
  | keyBindingNonce | keyBindingHash | unhashable | unsigned
  deriving DecidableEq, Repr

/-- Names the RFC keeps for its own bookkeeping. -/
def RESERVED_NAMES : List String := ["_sd", "...", "_sd_alg"]

/-- One claim as the issuer salted it. -/
structure Disclosure where
  encoded : String
  salt : String
  /-- Absent for an array element, which is disclosed by value alone. -/
  name : Option String
  value : Json
  deriving DecidableEq

variable (serde : SerdeJson) (provider : CryptoProvider)

/-- Three members for a property, two for an array element, a text for the
salt first and for the name second. -/
def Disclosure.read (encoded : String) : Except Refused Disclosure :=
  match (Base64.decode encoded).bind serde.fromSlice with
  | some (.array [.string salt, .string name, value]) => .ok ⟨encoded, salt, some name, value⟩
  | some (.array [.string salt, value]) => .ok ⟨encoded, salt, none, value⟩
  | _ => .error .malformedDisclosure

/-- The hash of a text as it travels, base64url without padding. -/
def digestOf (hash : HashAlg) (encoded : String) : Except Refused String :=
  match provider.hash hash (Text.utf8 encoded) with
  | .ok digest => .ok (Base64.encode digest)
  | .error _ => .error .unhashable

/-- `thumbprint::hash_name` -/
def hashName : HashAlg → Option String
  | .sha256 => some "sha-256"
  | .sha384 => some "sha-384"
  | .sha512 => some "sha-512"
  | _ => none

/-- The hash `_sd_alg` names, the RFC's default when it names none. -/
def hashNamed : Option Json → Except Refused HashAlg
  | none => .ok .sha256
  | some (.string name) =>
    match [HashAlg.sha256, .sha384, .sha512].find? fun hash => hashName hash = some name with
    | some hash => .ok hash
    | none => .error (.unknownHash name)
  | some named => .error (.unknownHash (named.write serde.float))

/-- A presentation cut at its tildes. -/
structure Parts where
  issuerToken : String
  disclosures : List String
  keyBinding : Option String
  /-- Everything up to and including the last tilde: what `sd_hash` covers. -/
  hashed : String
  deriving DecidableEq

/-- The text before the last tilde, and what follows it. -/
def splitLast (presented : String) : Option (String × String) :=
  match (Text.split '~' presented).reverse with
  | last :: before :: rest => some ("~".intercalate (before :: rest).reverse, last)
  | _ => none

def splitPresentation (presented : String) : Except Refused Parts :=
  match splitLast presented with
  | none => .error .notAnSdJwt
  | some (head, tail) =>
    match Text.split '~' head with
    | [] => .error .notAnSdJwt
    | issuerToken :: disclosures =>
      if issuerToken = "" then .error .notAnSdJwt
      else if disclosures.any fun disclosure => disclosure = "" then .error .notAnSdJwt
      else .ok {
        issuerToken, disclosures
        keyBinding := if tail = "" then none else some tail
        hashed := head ++ "~" }

theorem digestOf_injective {hash : HashAlg} (injective : ∀ {one other : Bytes} {digest},
      provider.hash hash one = .ok digest → provider.hash hash other = .ok digest → one = other)
    {one other digest : String} (first : digestOf provider hash one = .ok digest)
    (second : digestOf provider hash other = .ok digest) : one = other := by
  unfold digestOf at first second
  split at first
  · next hashed =>
    split at second
    · next again =>
      have same := Base64.encode_injective
        ((Except.ok.inj first).trans (Except.ok.inj second).symm)
      rw [← same] at again
      exact Text.utf8_injective (injective hashed again)
    · cases second
  · cases first

theorem Disclosure.read_encoded {encoded : String} {disclosure : Disclosure}
    (read : Disclosure.read serde encoded = .ok disclosure) : disclosure.encoded = encoded := by
  unfold Disclosure.read at read
  split at read
  · cases read
    rfl
  · cases read
    rfl
  · cases read

/-- What a disclosure holds is a value of the library. -/
theorem Disclosure.read_held {encoded : String} {disclosure : Disclosure}
    (read : Disclosure.read serde encoded = .ok disclosure) :
    disclosure.value.Held serde.finite := by
  have inside : ∀ members, (Base64.decode encoded).bind serde.fromSlice = some (.array members) →
      ∀ member ∈ members, Json.Held serde.finite member := by
    intro members found
    obtain ⟨bytes, -, parsed⟩ := Option.bind_eq_some_iff.mp found
    cases serde.held parsed with
    | array each => exact each
  unfold Disclosure.read at read
  split at read
  · next found =>
    cases read
    exact inside _ found _ (by simp)
  · next found =>
    cases read
    exact inside _ found _ (by simp)
  · cases read

end SdJwt

end Saffui
