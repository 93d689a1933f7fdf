import Saffui.Foundation.PaddedBase64
import Saffui.SdJwt.Unfolding

/-!
# The compact serialization of a JWS

`serialize_compact` and `deserialize_compact` of `crypto/src/jose/jws`, as the
default context does them, with the checks of a header. An SD-JWT tells none of
their errors apart. What a `jwk` member may hold is taken as a check.
-/

namespace Saffui.SdJwt
open Foundation Crypto

structure JwsSigner where
  algorithm : String
  keyId : Option String
  sign : Bytes → Option Bytes

structure JwsVerifier where
  algorithm : String
  keyId : Option String
  verify : Bytes → Bytes → Bool

/-- `Jwk::check_map`, and the verifier the curve of a holder key dictates. -/
structure Jose where
  checkMap : List (String × Json) → Bool
  holderVerifier : List (String × Json) → Option JwsVerifier

/-- Whether a value may stand under a name of a header. -/
def checkClaim (jose : Jose) (name : String) (value : Json) : Bool :=
  if name ∈ ["alg", "jku", "x5u", "kid", "typ", "cty", "url"] then value.asStr.isSome
  else if name = "crit" then
    match value with
    | .array items => items.all fun item => item.asStr.isSome
    | _ => false
  else if name = "b64" then
    match value with
    | .bool _ => true
    | _ => false
  else if name ∈ ["x5t", "x5t#S256", "nonce"] then
    match value with
    | .string text => (Base64.decode text).isSome
    | _ => false
  else if name = "x5c" then
    match value with
    | .array items => items.all fun item =>
      match item with
      | .string text => (Base64.decodePadded text.toList).isSome
      | _ => false
    | _ => false
  else if name = "jwk" then
    match value with
    | .object members => jose.checkMap members
    | _ => false
  else true

/-- `JwsHeader::from_map` -/
def headerOfMap (jose : Jose) (members : List (String × Json)) : Bool :=
  (members.all fun member => checkClaim jose member.1 member.2) &&
    match SortedMap.lookup "b64" members, SortedMap.lookup "crit" members with
    | some (.bool false), some (.array names) => names.any fun name => name = .string "b64"
    | _, _ => true

/-- A member that is a text. -/
def textOf (members : List (String × Json)) (name : String) : Option String :=
  (SortedMap.lookup name members).bind Json.asStr

/-- The names the header calls critical, where all of them are texts. -/
def critical (header : List (String × Json)) : Option (List String) :=
  match SortedMap.lookup "crit" header with
  | some (.array names) => names.mapM Json.asStr
  | _ => none

/-- Whether the payload is written in base64, as a header says. -/
def payloadEncoded (header : List (String × Json)) : Bool :=
  match critical header, SortedMap.lookup "b64" header with
  | some names, some (.bool encoded) => if "b64" ∈ names then encoded else true
  | _, _ => true

/-- A header as a signer completes it. -/
def signedHeader (header : List (String × Json)) (signer : JwsSigner) : List (String × Json) :=
  let header := SortedMap.place "alg" (.string signer.algorithm) header
  match signer.keyId with
  | some keyId => SortedMap.place "kid" (.string keyId) header
  | none => header

variable (serde : SerdeJson)

def serializeCompact (payload : Bytes) (header : List (String × Json)) (signer : JwsSigner) :
    Option String := do
  let first := Base64.encode (Text.utf8 ((Json.object (signedHeader header signer)).write serde.float))
  let second ←
    if payloadEncoded header then some (Base64.encode payload)
    else (Text.readUtf8 payload).filter fun text => '.' ∉ text.toList
  let message := first ++ "." ++ second
  let signature ← signer.sign (Text.utf8 message)
  return message ++ "." ++ Base64.encode signature

/-- Whether a verifier takes a header for its own: the algorithm, the key where
one is expected, and nothing critical, as no name is acceptable there. -/
def acceptsHeader (members : List (String × Json)) (verifier : JwsVerifier) : Bool :=
  SortedMap.lookup "alg" members = some (.string verifier.algorithm) &&
    (match verifier.keyId with
    | some expected => textOf members "kid" = some expected
    | none => true) &&
    match SortedMap.lookup "crit" members with
    | some (.array names) => names.all fun name => name.asStr.isNone
    | _ => true

/-- The members of the object that bytes write. -/
def readObject (bytes : Bytes) : Option (List (String × Json)) :=
  match serde.fromSlice bytes with
  | some (.object members) => some members
  | _ => none

/-- The members of a header as it is read. -/
def readHeader (jose : Jose) (header : String) : Option (List (String × Json)) :=
  ((Base64.decode header).bind (readObject serde)).filter (headerOfMap jose)

/-- The payload of a token whose signature verifies, and its header. What is
critical being refused, none can ask for a payload that is not in base64. -/
def deserializeCompact (jose : Jose) (input : String) (verifier : JwsVerifier) :
    Option (Bytes × List (String × Json)) :=
  match Text.split '.' input with
  | [header, payload, signature] => do
    let members ← readHeader serde jose header
    guard (acceptsHeader members verifier)
    let signature ← Base64.decode signature
    guard (verifier.verify (Text.utf8 (header ++ "." ++ payload)) signature)
    let payload ← Base64.decode payload
    return (payload, members)
  | _ => none

end Saffui.SdJwt
