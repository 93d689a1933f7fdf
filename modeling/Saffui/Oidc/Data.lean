import Saffui.Login.Session
import Saffui.Tokens

/-!
# What signing in keeps, and what is told from it

Source: `saffui-core/src/oidc/code.rs`, `tokens/store.rs`, `login/store.rs`,
`login/throttle.rs`, `consent/mod.rs`, `ports/crypto.rs`,
`crypto/src/adapters/webauthn.rs`, and the functions of `oidc/authorize.rs`,
`oidc/token.rs` and `oidc/pkce.rs` that read no storage.

A secret (a refresh token, a code, the secret of a session or of a browser)
is drawn, handed out, and kept by its digest; the product uses one presented
by its digest alone. It is known here by that digest.
-/

namespace Saffui.Oidc
open Saffui.Login Saffui.Tokens

structure RefreshToken where
  tokenDigest : Bytes
  /-- Every token that descends from one grant to one client. -/
  family : Uuid
  clientId : String
  person : Uuid
  session : Uuid
  /-- What was granted at first. -/
  scopes : List String
  issuedAt : Instant
  expiresAt : Instant
  deriving DecidableEq, Repr

/-- A refresh token as it is kept, with what became of it. -/
structure StoredRefreshToken where
  token : RefreshToken
  usedAt : Option Instant
  revokedAt : Option Instant
  deriving DecidableEq, Repr

/-- The longest a refresh token lives: 30 days. -/
def REFRESH_TOKEN_LIFETIME : Instant := 30 * 24 * 60 * 60 * 1000000

/-- A proof by a security key that was started and waits for its answer. -/
structure PendingKeyProof where
  state : Bytes
  options : Json
  deriving DecidableEq

/-- An authorization request that waits for its person to sign in, or to
allow the client. -/
structure PendingAuthorization where
  id : Uuid
  /-- The digest of the secret of the browser that started the request. -/
  browserDigest : Bytes
  clientId : String
  redirectUri : String
  scopes : List String
  state : Option String
  nonce : Option String
  codeChallenge : String
  expiresAt : Instant
  /-- The person an identity token hint named. -/
  expectedPerson : Option Uuid
  /-- The person who proved their password and owes a second factor. -/
  firstFactor : Option Uuid
  keyProof : Option PendingKeyProof
  /-- The client asked with `prompt=consent`. -/
  consentPrompted : Bool
  /-- The session whose person the request waits for to consent. -/
  consentSession : Option Uuid
  deriving DecidableEq

structure AuthorizationCode where
  codeDigest : Bytes
  clientId : String
  person : Uuid
  session : Uuid
  redirectUri : String
  scopes : List String
  nonce : Option String
  codeChallenge : String
  authenticatedAt : Instant
  expiresAt : Instant
  deriving DecidableEq, Repr

/-- A code as its row keeps it, with what became of it. -/
structure StoredCode where
  code : AuthorizationCode
  spentAt : Option Instant
  replayedAt : Option Instant
  /-- The refresh tokens its exchange started. -/
  family : Option Uuid
  deriving DecidableEq, Repr

/-- What an exchange of a code that was already spent finds. -/
structure ReplayedCode where
  person : Uuid
  session : Uuid
  family : Option Uuid
  deriving DecidableEq, Repr

/-- How long a code lives: 60 seconds. -/
def CODE_LIFETIME : Instant := 60 * 1000000

/-- How long a request waits: 10 minutes. -/
def PENDING_LIFETIME : Instant := 10 * 60 * 1000000

/-- The longest `state` or `nonce` a client may send. -/
def OPAQUE_VALUE_MAX_BYTES : Nat := 512

structure TotpAuthenticator where
  person : Uuid
  sealedSecret : Bytes
  /-- Empty until a first code proved the application holds the secret. -/
  confirmedAt : Option Instant
  lastStep : Option Int
  createdAt : Instant
  deriving DecidableEq, Repr

inductive TotpUse where
  | confirmation
  | signIn
  deriving DecidableEq, Repr

structure SecurityKey where
  credentialId : Bytes
  person : Uuid
  record : Bytes
  createdAt : Instant
  lastUsedAt : Option Instant
  deriving DecidableEq, Repr

/-- An enrollment of a key that was started. -/
structure KeyEnrollment where
  state : Bytes
  expiresAt : Instant
  deriving DecidableEq, Repr

structure KeyCeremony where
  options : Json
  state : Bytes
  deriving DecidableEq

structure EnrolledKey where
  credentialId : Bytes
  record : Bytes
  deriving DecidableEq, Repr

structure KeyProof where
  credentialId : Bytes
  /-- The record to keep in place of the one held, when the counter moved. -/
  record : Option Bytes
  deriving DecidableEq, Repr

inductive KeyRefusal where
  | refused
  | copySuspected
  | failed
  deriving DecidableEq, Repr

/-- What a key proved: which it is, and the counter it signed. -/
structure ProvenKey where
  credentialId : Bytes
  counter : Nat
  deriving DecidableEq, Repr

/-- What a record that reads holds of its key. -/
structure HeldKey where
  credentialId : Bytes
  counter : Nat
  deriving DecidableEq, Repr

/-- What `update_credential` did: whether the key moved, and its record then,
where it can be written. -/
structure UpdatedKey where
  moved : Option Bool
  record : Option Bytes
  deriving DecidableEq, Repr

/-- Why the library refuses an answer. -/
inductive WebauthnError where
  | credentialPossibleCompromise
  | other
  deriving DecidableEq, Repr

/-- The `webauthn-rs` library, and whether keys are served with it. A state
and a record are texts only it reads. -/
structure KeyLibrary where
  served : Bool
  readsState : Bytes → Bool
  readsProofAnswer : Json → Bool
  /-- `finish_securitykey_authentication` -/
  finishAuthentication : Json → Bytes → Except WebauthnError ProvenKey
  readKey : Bytes → Option HeldKey
  updateCredential : Bytes → ProvenKey → UpdatedKey
  readsEnrollmentState : Bytes → Bool
  readsEnrollmentAnswer : Json → Bool
  /-- `finish_securitykey_registration`: the key, and its record where it can
  be written. -/
  finishRegistration : Json → Bytes → Option (Bytes × Option Bytes)

section Keys

variable (library : KeyLibrary)

/-- The record, of those held, of the key that answered. -/
def findHeld (held : List Bytes) (credentialId : Bytes) : Option (Bytes × HeldKey) :=
  (held.filterMap fun record => (library.readKey record).map fun key => (record, key)).find?
    fun read => read.2.credentialId = credentialId

/-- The counter that is kept now decides. A key that counts nothing answers
zero forever. -/
def finishProof (state : Bytes) (answer : Json) (held : List Bytes) : Except KeyRefusal KeyProof :=
  if !library.served || !library.readsState state then .error .failed
  else if !library.readsProofAnswer answer then .error .refused
  else match library.finishAuthentication answer state with
    | .error .credentialPossibleCompromise => .error .copySuspected
    | .error .other => .error .refused
    | .ok proven =>
      match findHeld library held proven.credentialId with
      | none => .error .refused
      | some (record, key) =>
        if (proven.counter > 0 || key.counter > 0) && proven.counter ≤ key.counter then
          .error .copySuspected
        else
          let updated := library.updateCredential record proven
          if updated.moved = some true then
            match updated.record with
            | some record => .ok ⟨proven.credentialId, some record⟩
            | none => .error .failed
          else .ok ⟨proven.credentialId, none⟩

def finishEnrollment (state : Bytes) (answer : Json) : Except KeyRefusal EnrolledKey :=
  if !library.served || !library.readsEnrollmentState state then .error .failed
  else if !library.readsEnrollmentAnswer answer then .error .refused
  else match library.finishRegistration answer state with
    | none => .error .refused
    | some (credentialId, some record) => .ok ⟨credentialId, record⟩
    | some (_, none) => .error .failed

end Keys

/-- How many codes in a row a person may get wrong. -/
def MAX_CODE_FAILURES : Nat := 10

/-- How long a started enrollment of a key waits: 5 minutes. -/
def KEY_ENROLLMENT_LIFETIME : Instant := 5 * 60 * 1000000

/-- How many keys a person may hold. -/
def MAX_SECURITY_KEYS : Nat := 10

/-- The start of the bucket an instant falls in, of so many seconds. -/
def startOf (bucketSeconds : Int) (now : Instant) : Instant :=
  let seconds := now / 1000000
  (seconds - seconds % bucketSeconds) * 1000000

def BUCKET_SECONDS : Int := 300

def LONG_BUCKET_SECONDS : Int := 3600

def LONG_WINDOW_BUCKETS : Int := 24

def startBucket (now : Instant) : Instant := startOf BUCKET_SECONDS now

/-- The start of the hour an instant falls in. -/
def startLongBucket (now : Instant) : Instant := startOf LONG_BUCKET_SECONDS now

/-- The start of the oldest hour that still counts. -/
def startLongWindow (now : Instant) : Instant :=
  startLongBucket now - LONG_BUCKET_SECONDS * (LONG_WINDOW_BUCKETS - 1) * 1000000

/-- The start of the oldest bucket that still counts. -/
def startWindow (now : Instant) : Instant := startBucket now - BUCKET_SECONDS * 1000000

def MAX_RECENT_FAILURES : Nat := 5

def MAX_RECENT_ATTEMPTS_PER_ADDRESS : Nat := 30

def MAX_RECENT_ATTEMPTS_PER_BROWSER : Nat := 30

def MAX_RECENT_FAILURES_PER_NAME : Nat := 50

def MAX_DAILY_FAILURES : Nat := 100

def MAX_DAILY_FAILURES_PER_BROWSER : Nat := 20

def MAX_PENDING_SIGN_INS_PER_ADDRESS : Nat := 60

def isLocked (recentFailures : Nat) : Bool := recentFailures ≥ MAX_RECENT_FAILURES

example : startBucket 1499000000 = 1200000000 ∧ startWindow 1500000000 = 1200000000 := by decide

/-- The counters of a browser that signed in with a name before. -/
structure BrowserCounters where
  attempts : Bytes
  recent : Bytes
  today : Bytes
  deriving DecidableEq, Repr

/-- The counters one attempt on a name is counted under. -/
structure Brake where
  name : Bytes
  nameToday : Bytes
  address : Option Bytes
  addressAndName : Option Bytes
  browser : Option BrowserCounters
  deriving DecidableEq, Repr

structure Consent where
  person : Uuid
  clientId : String
  /-- Every scope allowed so far. -/
  scopes : List String
  grantedAt : Instant
  deriving DecidableEq, Repr

/-- What decides whether a person owes a client their consent. -/
structure ConsentTerms where
  requiresConsent : Bool
  allowed : Option (List String)
  deriving DecidableEq, Repr

/-- Whether the person must be asked before the client gets a code. -/
def isConsentOwed (terms : ConsentTerms) (prompted : Bool) (asked : List String) : Bool :=
  let allowed := terms.allowed.any fun kept => asked.all fun scope => scope ∈ kept
  prompted || (terms.requiresConsent && !allowed)

/-- What a browser holds of its session. -/
structure SessionTicket where
  session : Uuid
  secretDigest : Bytes
  deriving DecidableEq, Repr

/-- What a client sent to the token endpoint, a secret by its digest. -/
structure TokenRequest where
  scope : Option String
  clientId : String
  clientSecretDigest : Option Bytes
  deriving DecidableEq, Repr

/-- What a client sent to the authorization endpoint. -/
structure AuthorizationParameters where
  responseType : Option String
  clientId : Option String
  redirectUri : Option String
  scope : Option String
  state : Option String
  nonce : Option String
  codeChallenge : Option String
  codeChallengeMethod : Option String
  prompt : Option String
  maxAge : Option String
  idTokenHint : Option String
  deriving DecidableEq, Repr

inductive OAuthError where
  | invalidRequest | invalidScope | unsupportedResponseType | loginRequired | consentRequired
  | accessDenied
  deriving DecidableEq, Repr

/-- What a client is sent back with. -/
inductive Returned where
  | code (digest : Bytes)
  | error (error : OAuthError)
  deriving DecidableEq, Repr

/-- Where the browser goes: the redirect URI of a client, and what
`write_return_location` writes after it. -/
structure ReturnLocation where
  redirectUri : String
  issuer : String
  state : Option String
  answer : Returned
  deriving DecidableEq, Repr

/-- What an access token of a person says. -/
structure AccessToken where
  issuer : String
  subject : Uuid
  clientId : String
  scopes : List String
  session : Uuid
  deriving DecidableEq, Repr

/-- What an identity token says. -/
structure IdentityToken where
  issuer : String
  person : Uuid
  clientId : String
  scopes : List String
  nonce : Option String
  session : Uuid
  authenticatedAt : Instant
  methods : List AuthenticationMethod
  deriving DecidableEq, Repr

structure TokenResponse where
  accessToken : AccessToken
  idToken : Option IdentityToken
  /-- The refresh token, by its digest. -/
  refreshToken : Bytes
  deriving DecidableEq, Repr

/-- What a counter of the brake is of, part by part. -/
inductive CounterPart where
  | text (text : String)
  | device (device : Uuid)
  deriving DecidableEq, Repr

/-- The node a request reaches: what it is named in tokens, and the packages
it calls. -/
structure App extends TokenPackages where
  keyLibrary : KeyLibrary
  /-- `str::to_lowercase` -/
  toLowercase : String → String
  /-- The keyed digest of a counter of the brake: its kind and its parts. -/
  digestCounter : Nat → List CounterPart → Option Bytes
  /-- `name_issuer` of the realm. -/
  issuer : String
  /-- The base64url of the SHA-256 of a verifier. -/
  challengeOf : String → String
  /-- Whether a password is the one a hash was made of. -/
  verifyPassword : Bytes → String → Bool
  /-- A hash nobody's password matches. -/
  decoyHash : String

section Read

variable (app : App)

def isUnreserved (character : Char) : Bool :=
  Text.isAsciiAlphanumeric character || character ∈ ['-', '.', '_', '~']

def isWellFormedChallenge (challenge : String) : Bool :=
  challenge.utf8ByteSize = 43 && (app.decode challenge).any fun bytes => bytes.length = 32

/-- Whether `verifier` is the secret `challenge` was made from. -/
def matchesChallenge (verifier challenge : String) : Bool :=
  43 ≤ verifier.utf8ByteSize && verifier.utf8ByteSize ≤ 128 && verifier.toList.all isUnreserved &&
    app.challengeOf verifier = challenge

end Read

/-- What `prompt` and `max_age` ask of the session that would answer. -/
structure ProofAsked where
  /-- A sign-in now, whatever session there is. -/
  fresh : Bool
  /-- No page. -/
  silent : Bool
  /-- The person is asked to allow the client again. -/
  consent : Bool
  /-- A session older than this many seconds does not answer. -/
  maxAge : Option Int
  deriving DecidableEq, Repr

/-- What one more word of `prompt` asks. -/
def readPrompt (asked : ProofAsked) : String → Option ProofAsked
  | "none" => some { asked with silent := true }
  | "login" => some { asked with fresh := true }
  | "select_account" => some { asked with fresh := true }
  | "consent" => some { asked with consent := true }
  | _ => none

def readDecimal (text : String) : Int :=
  text.toList.foldl (fun number digit => number * 10 + (digit.toNat - '0'.toNat)) 0

/-- Reads `prompt` and `max_age`. A value the realm does not know, `none`
beside another, or an age that is no number of seconds is refused. -/
def readProofAsked (prompt maxAge : Option String) : Option ProofAsked := do
  let prompts := Text.words (prompt.getD "")
  let asked ← prompts.foldlM readPrompt ⟨false, false, false, none⟩
  if asked.silent ∧ prompts.length > 1 then none
  else match maxAge.filter (· ≠ "") with
    | none => some asked
    | some written =>
      if written.utf8ByteSize > 10 ∨ !written.toList.all Text.isAsciiDigit then none
      else some { asked with maxAge := some (readDecimal written) }

/-- Adds a scope asked, of those allowed, once. -/
def addScope (allowed granted : List String) (token : String) : Except ErrorCode (List String) := do
  checkScopeToken token
  if token ∉ allowed then .error .scopeNotAllowed
  else .ok (if token ∈ granted then granted else granted ++ [token])

/-- Narrows what may be given to what was asked for. Asked for nothing, the
whole is given. -/
def narrowScopes (asked : Option String) (allowed : List String) : Except ErrorCode (List String) :=
  match asked with
  | none => .ok allowed
  | some asked => (Text.words asked).foldlM (addScope allowed) []

example : readProofAsked (some "login consent") (some "60") = some ⟨true, false, true, some 60⟩ ∧
    readProofAsked (some "none login") none = none := by
  decide

end Saffui.Oidc
