import Saffui.Clients
import Saffui.Json

/-!
# Tokens read back

Source: `verify_compact` of `saffui-core/src/tokens/jws.rs` and
`verify_access_token` and `read_identity_hint` of `verify.rs`. The base64 of the parts, the JSON they
hold and the signature are those of other packages: `TokenPackages` stands
for what they answer.
-/

namespace Saffui.Tokens

inductive SignatureAlgorithm where
  | es256
  deriving DecidableEq, Repr

def SignatureAlgorithm.name : SignatureAlgorithm → String
  | .es256 => "ES256"

def SignatureAlgorithm.parse (name : String) : Option SignatureAlgorithm :=
  [SignatureAlgorithm.es256].find? fun algorithm => algorithm.name = name

/-- A key of a realm, its public half. -/
structure SigningKey where
  keyId : String
  algorithm : SignatureAlgorithm
  publicJwk : Json
  deriving DecidableEq

/-- What the packages around answer: base64url without padding, JSON, and
whether a signature verifies. -/
structure TokenPackages where
  decode : String → Option Bytes
  readJson : Bytes → Option Json
  verify : SignatureAlgorithm → Json → String → Bytes → Bool

structure VerifiedToken where
  tokenType : Option String
  claims : Json
  deriving DecidableEq

section Verify

variable (packages : TokenPackages)

def readPart (part : String) : Option Json := packages.decode part >>= packages.readJson

/-- Verifies a compact token against the keys of a realm: the key is the one
of the `kid` among them, and the algorithm the one kept with it. -/
def verifyCompact (token : String) (keys : List SigningKey) : Option VerifiedToken :=
  match Text.split '.' token with
  | [header, claims, signature] => do
    let readHeader ← readPart packages header
    let key ← keys.find? fun key => (readHeader.index "kid").asStr = some key.keyId
    let algorithm ← (readHeader.index "alg").asStr
    if SignatureAlgorithm.parse algorithm ≠ some key.algorithm then none
    else do
      let signature ← packages.decode signature
      if !packages.verify key.algorithm key.publicJwk (header ++ "." ++ claims) signature then none
      else do
        let claims ← readPart packages claims
        return ⟨(readHeader.index "typ").asStr, claims⟩
  | _ => none

/-- What a verified access token says. -/
structure AccessTokenClaims where
  subject : String
  clientId : String
  scopes : List String
  tokenId : String
  issuedAt : Int
  expiresAt : Int
  /-- The session behind the token, when a person is. -/
  session : Option Uuid
  deriving DecidableEq, Repr

def ACCESS_TOKEN_TYPE : String := "at+jwt"

/-- How far ahead of this node the clock of the node that signed may be. -/
def CLOCK_SKEW_SECONDS : Int := 30

/-- The second of an instant. -/
def unixTimestamp (now : Instant) : Int := now / 1000000

/-- The session a token names: a name that is no identifier is no token. -/
def readSessionClaim (claims : Json) : Option (Option Uuid) :=
  match claims with
  | .object members =>
    match Json.field members "sid" with
    | none => some none
    | some named => (named.asStr.bind Uuid.parse).map some
  | _ => some none

/-- What the claims of an access token say at an instant, of a realm named by
its issuer. -/
def readClaims (claims : Json) (issuer : String) (now : Instant) : Option AccessTokenClaims := do
  let expiresAt ← (claims.index "exp").asI64
  let issuedAt ← (claims.index "iat").asI64
  if (claims.index "iss").asStr ≠ some issuer ∨ expiresAt ≤ unixTimestamp now ∨
      issuedAt > unixTimestamp now + CLOCK_SKEW_SECONDS then none
  else do
    let subject ← (claims.index "sub").asStr
    let clientId ← (claims.index "client_id").asStr
    let scope ← (claims.index "scope").asStr
    let tokenId ← (claims.index "jti").asStr
    let session ← readSessionClaim claims
    return {
      subject, clientId, tokenId, issuedAt, expiresAt, session
      scopes := Text.words scope }

/-- What an identity token says when a client presents it back. -/
structure IdentityHint where
  clientId : String
  session : Uuid
  /-- The person the token was issued for. -/
  subject : String
  deriving DecidableEq, Repr

def IDENTITY_TOKEN_TYPE : String := "JWT"

/-- Reads an identity token a client presents back as a hint, whenever it
expired. -/
def readIdentityHint (issuer token : String) (keys : List SigningKey) : Option IdentityHint := do
  let verified ← verifyCompact packages token keys
  let claims := verified.claims
  if verified.tokenType ≠ some IDENTITY_TOKEN_TYPE ∨ (claims.index "iss").asStr ≠ some issuer then
    none
  else do
    let clientId ← (claims.index "aud").asStr
    let session ← (claims.index "sid").asStr.bind Uuid.parse
    let subject ← (claims.index "sub").asStr
    return ⟨clientId, session, subject⟩

end Verify

end Saffui.Tokens
