import Saffui.Authz.Operators
import Saffui.Foundation.Doubles
import Saffui.SdJwt.Conceal
import Saffui.SdJwt.Jws

/-!
# Presenting and verifying

`crypto/src/sd_jwt/present.rs` and `verify_presentation` of
`crypto/src/sd_jwt/verify.rs`: what a holder sends, and what a verifier makes
of it. Instants are compared as doubles, the integers of the policy rounded to
them and every sum rounded again.
-/

namespace Saffui.SdJwt
open Foundation Foundation.Outcome Crypto

/-- An early return of an error. -/
def refuse (condition : Prop) [Decidable condition] (error : Refused) : Except Refused Unit :=
  if condition then .error error else .ok ()

/-- `Option::ok_or` -/
def okOr {α : Type} (error : Refused) : Option α → Except Refused α
  | some value => .ok value
  | none => .error error

/-- The issued SD-JWT: the token, then every disclosure, each followed by a tilde. -/
def Concealment.issued (concealment : Concealment) (signedPayload : String) : String :=
  concealment.disclosures.foldl (fun issued disclosure => issued ++ disclosure ++ "~")
    (signedPayload ++ "~")

variable (serde : SerdeJson) (provider : CryptoProvider) (jose : Jose)

/-- A presentation of an issued SD-JWT holding the disclosures `keep` accepts. -/
def selectDisclosures (issued : String) (keep : Disclosure → Bool) : Except Refused String := do
  let parts ← splitPresentation issued
  refuse (parts.keyBinding.isSome = true) .keyBindingUnexpected
  parts.disclosures.foldlM (fun presentation encoded => do
    let disclosure ← Disclosure.read serde encoded
    return if keep disclosure then presentation ++ encoded ++ "~" else presentation)
    (parts.issuerToken ++ "~")

/-- The payload of a compact JWS, read without its signature being checked. -/
def unverifiedPayload (token : String) : Except Refused (List (String × Json)) := do
  let payload ← okOr .notAnSdJwt (Text.split '.' token)[1]?
  okOr .unreadablePayload ((Base64.decode payload).bind (readObject serde))

/-- The claims of a key binding token, their names in order. -/
def bindingClaims (audience nonce digest : String) (issuedAt : Int) : List (String × Json) :=
  [("aud", .string audience), ("iat", .number (Authz.ofInt issuedAt)), ("nonce", .string nonce),
    ("sd_hash", .string digest)]

def BINDING_HEADER : List (String × Json) := [("typ", .string "kb+jwt")]

/-- A key binding token appended to a presentation. -/
def bindPresentation (presentation : String) (holder : JwsSigner) (audience nonce : String)
    (issuedAt : Int) : Except Refused String := do
  let parts ← splitPresentation presentation
  refuse (parts.keyBinding.isSome = true) .keyBindingUnexpected
  let payload ← unverifiedPayload serde parts.issuerToken
  let hash ← hashNamed serde (SortedMap.lookup "_sd_alg" payload)
  let digest ← digestOf provider hash parts.hashed
  let claims := Json.object (bindingClaims audience nonce digest issuedAt)
  let token ← okOr .unsigned
    (serializeCompact serde (Text.utf8 (claims.write serde.float)) BINDING_HEADER holder)
  return presentation ++ token

/-- What a key binding token must answer. -/
structure KeyBinding where
  audience : String
  nonce : String
  maxAge : Int

/-- What the verifier settled before the presentation arrived. -/
structure VerifyingPolicy where
  tokenType : String
  requiredClaims : List String
  keyBinding : Option KeyBinding
  now : Int
  leeway : Int

/-- A presentation that verified. -/
structure Verified where
  claims : SortedMap String Json
  holderKey : Option (List (String × Json))

/-- `i64 as f64` -/
def asDouble (value : Int) : Rat := Authz.roundInt value

def eqIgnoreAsciiCase (one other : String) : Bool :=
  Text.toAsciiLowercase one = Text.toAsciiLowercase other

/-- Whether a token is of a type, in any case of letters. -/
def isTyped (header : List (String × Json)) (tokenType : String) : Bool :=
  (textOf header "typ").any fun typ => eqIgnoreAsciiCase typ tokenType

/-- A claim that must be a number where it is there, and of which some are refused. -/
def checkTime (unreadable error : Refused) (refused : Rat → Bool) :
    Option Json → Except Refused Unit
  | none => .ok ()
  | some value => do
    let instant ← okOr unreadable (Authz.asF64 value)
    refuse (refused instant = true) error

def checkRequired (claims : SortedMap String Json) (required : List String) : Except Refused Unit :=
  match required.find? fun name => (claims.get? name).isNone with
  | some missing => .error (.missingClaim missing)
  | none => .ok ()

/-- Required claims present, and the token inside the window it states. -/
def checkValidity (claims : SortedMap String Json) (policy : VerifyingPolicy) :
    Except Refused Unit := do
  checkRequired claims policy.requiredClaims
  let now := asDouble policy.now
  let leeway := asDouble policy.leeway
  checkTime .unreadablePayload .expired (fun expiry => nearestDouble (expiry + leeway) ≤ now)
    (claims.get? "exp")
  checkTime .unreadablePayload .notYetValid (fun start => nearestDouble (now + leeway) < start)
    (claims.get? "nbf")

/-- The key the issuer named by value in `cnf.jwk`. -/
def holderKeyOf (claims : SortedMap String Json) : Option (List (String × Json)) :=
  match claims.get? "cnf" with
  | some (.object confirmation) =>
    match SortedMap.lookup "jwk" confirmation with
    | some (.object key) => if jose.checkMap key then some key else none
    | _ => none
  | _ => none

/-- Whether a key binding token is of now: issued within the window, and not
past an end it states. -/
def checkFreshness (claims : List (String × Json)) (binding : KeyBinding)
    (policy : VerifyingPolicy) : Except Refused Unit := do
  let issued ← okOr .keyBindingUnreadable ((SortedMap.lookup "iat" claims).bind Authz.asF64)
  let now := asDouble policy.now
  let leeway := asDouble policy.leeway
  refuse (nearestDouble (now + leeway) < issued ∨
    issued < nearestDouble (now - asDouble binding.maxAge)) .keyBindingStale
  checkTime .keyBindingUnreadable .keyBindingStale
    (fun expiry => nearestDouble (expiry + leeway) ≤ now) (SortedMap.lookup "exp" claims)

/-- A claim of a key binding token that must be a text. -/
def stated (claims : List (String × Json)) (name : String) : Except Refused String :=
  okOr .keyBindingUnreadable (textOf claims name)

/-- Signed by the holder key, typed, fresh, meant for this verifier and this
request, and over exactly what was presented. -/
def checkKeyBinding (hash : HashAlg) (hashed token : String) (holder : List (String × Json))
    (binding : KeyBinding) (policy : VerifyingPolicy) : Except Refused Unit := do
  let verifier ← okOr .noHolderKey (jose.holderVerifier holder)
  let (payload, header) ← okOr .keyBindingSignature (deserializeCompact serde jose token verifier)
  refuse (isTyped header "kb+jwt" = false) .keyBindingType
  let claims ← okOr .keyBindingUnreadable (readObject serde payload)
  checkFreshness claims binding policy
  refuse ((← stated claims "aud") ≠ binding.audience) .keyBindingAudience
  refuse ((← stated claims "nonce") ≠ binding.nonce) .keyBindingNonce
  refuse ((← stated claims "sd_hash") ≠ (← digestOf provider hash hashed)) .keyBindingHash

/-- The steps before anything is unfolded: the presentation cut, its key
binding asked for exactly where it is there, and the payload of the issuer. -/
def readIssued (presented : String) (issuer : JwsVerifier) (policy : VerifyingPolicy) :
    Except Refused (Parts × List (String × Json)) := do
  let parts ← splitPresentation presented
  refuse (policy.keyBinding.isSome ∧ parts.keyBinding.isNone) .keyBindingMissing
  refuse (policy.keyBinding.isNone ∧ parts.keyBinding.isSome) .keyBindingUnexpected
  let (payload, header) ←
    okOr .issuerSignature (deserializeCompact serde jose parts.issuerToken issuer)
  refuse (isTyped header policy.tokenType = false) .wrongType
  let payload ← okOr .unreadablePayload (readObject serde payload)
  return (parts, payload)

/-- The key binding of a presentation, checked where both sides have one. -/
def checkBound (parts : Parts) (hash : HashAlg) (holderKey : Option (List (String × Json)))
    (policy : VerifyingPolicy) : Except Refused Unit :=
  match policy.keyBinding, parts.keyBinding with
  | some binding, some token => do
    let holder ← okOr .noHolderKey holderKey
    checkKeyBinding serde provider jose hash parts.hashed token holder binding policy
  | _, _ => .ok ()

/-- The steps after it: the validity of the claims, and the key binding. -/
def checkVerified (parts : Parts) (hash : HashAlg) (claims : SortedMap String Json)
    (policy : VerifyingPolicy) : Except Refused Verified := do
  checkValidity claims policy
  let holderKey := holderKeyOf jose claims
  checkBound serde provider jose parts hash holderKey policy
  return ⟨claims, holderKey⟩

def verifyPresentation (fuel : Nat) (presented : String) (issuer : JwsVerifier)
    (policy : VerifyingPolicy) : Outcome Refused Verified := do
  let (parts, payload) ← settled (readIssued serde jose presented issuer policy)
  let hash ← settled (hashNamed serde (SortedMap.lookup "_sd_alg" payload))
  let claims ← unfoldClaims serde provider fuel payload parts.disclosures
  settled (checkVerified serde provider jose parts hash claims policy)

@[simp] theorem refuse_eq_ok {condition : Prop} [Decidable condition] {error : Refused}
    {passed : Unit} : refuse condition error = .ok passed ↔ ¬condition := by
  unfold refuse
  split
  · next holds => simp [holds]
  · next fails => simp [fails]

@[simp] theorem okOr_eq_ok {α : Type} {error : Refused} {found : Option α} {value : α} :
    okOr error found = .ok value ↔ found = some value := by
  cases found <;> simp [okOr]

theorem readObject_eq_some {serde : SerdeJson} {bytes : Bytes} {members : List (String × Json)} :
    readObject serde bytes = some members ↔ serde.fromSlice bytes = some (.object members) := by
  unfold readObject
  split
  · next found read => simp [read]
  · next other =>
    simp only [reduceCtorEq, false_iff]
    exact other members

end Saffui.SdJwt
