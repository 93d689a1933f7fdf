import Saffui.Oidc.Login

/-!
# The token endpoint, and what takes tokens back

Source: `saffui-core/src/clients/authenticate.rs`, `tokens/mint.rs`,
`oidc/token.rs`, `oidc/refresh.rs`, `oidc/revoke.rs` and `oidc/logout.rs`.
The form of a request is read before: what a grant needs is there. Of the
tokens minted the model keeps what they say; the roles they may say are read
from tables of their own.
-/

namespace Saffui.Oidc
open Saffui.Foundation Saffui.Foundation.Language Saffui.Login Saffui.Tokens

def readNamedClient (clientId : String) : Run (Option Client) :=
  match checkClientIdentifier clientId with
  | .error _ => pure none
  | .ok () => query (.readClient clientId)

/-- Authenticates a client by the secret it presents. One without a secret is
compared against a digest nothing matches. -/
def authenticateClient (clientId : String) (presented : Bytes) : Run Client := do
  let client ← readNamedClient clientId
  let expected := (client.bind Client.secretDigest).getD (List.replicate 32 0)
  orFail .clientAuthenticationFailed
    (client.filter fun known => presented = expected && known.enabled)

/-- Identifies the client behind a request made for a person. A public client
is only named. -/
def identifyClient (clientId : String) (presented : Option Bytes) : Run Client :=
  match presented with
  | some digest => authenticateClient clientId digest
  | none => do
    let client ← readNamedClient clientId
    orFail .clientAuthenticationFailed
      (client.filter fun known => known.enabled && known.secretDigest.isNone)

structure RefreshGrant where
  /-- The family the new token belongs to. -/
  family : Uuid
  clientId : String
  session : Session
  scopes : List String

/-- Mints a refresh token and keeps its digest. It never outlives its
session. -/
def issueRefreshToken (grant : RefreshGrant) : Run Bytes := do
  let digest ← drawSecret
  let instant ← tellNow
  let inserted ← query (.insertRefreshToken {
    tokenDigest := digest
    family := grant.family
    clientId := grant.clientId
    person := grant.session.person
    session := grant.session.id
    scopes := grant.scopes
    issuedAt := instant
    expiresAt := min (instant + REFRESH_TOKEN_LIFETIME) grant.session.expiresAt })
  refuseIf (!inserted) .conflict
  return digest

structure Granted where
  clientId : String
  session : Session
  person : Person
  /-- What this answer carries. The refresh token keeps its own. -/
  scopes : List String
  nonce : Option String
  family : RefreshGrant

/-- Mints everything a client gets for a person: an access token, an identity
token when `openid` was granted, and the next refresh token of the family. -/
def answerForPerson (app : App) (granted : Granted) : Run TokenResponse := do
  let signed ← ask .signs
  refuseIf (!signed) .cryptoUnavailable
  let refreshToken ← issueRefreshToken granted.family
  return {
    accessToken := {
      issuer := app.issuer, subject := granted.person.id, clientId := granted.clientId
      scopes := granted.scopes, session := granted.session.id }
    idToken := if "openid" ∈ granted.scopes then some {
        issuer := app.issuer, person := granted.person.id, clientId := granted.clientId
        scopes := granted.scopes, nonce := granted.nonce, session := granted.session.id
        authenticatedAt := granted.session.authenticatedAt, methods := granted.session.methods }
      else none
    refreshToken }

/-- The session and its person, when both stand and the person is the one
named. -/
def requireLiveSubject (session person : Uuid) : Run (Session × Person) := do
  let found ← readLiveSubject session
  orFail .grantInvalid (found.filter fun subject => subject.2.id = person)

/-- What a client sends to exchange a code, the code by its digest. -/
structure CodeRequest extends TokenRequest where
  code : Bytes
  redirectUri : String
  codeVerifier : String
  deriving DecidableEq, Repr

/-- A code presented after it was spent: the refresh tokens its first exchange
started are taken back. -/
def takeBackWhatACodeObtained (digest : Bytes) (clientId : String) (now : Instant) : Run Unit := do
  let replayed ← query (.markCodeReplayed digest clientId now)
  match replayed.bind ReplayedCode.family with
  | none => pure ()
  | some family =>
    let _ ← query (.revokeRefreshFamily family now)

/-- What a client must hold for a code of a person: their consent, where it
requires one. It is held until the unit ends. -/
def requireHeldConsent (client : Client) (person : Uuid) (scopes : List String) : Run Unit :=
  if client.requiresConsent then do
    let allowed ← query (.holdConsent person client.clientId)
    refuseIf (isConsentOwed ⟨true, allowed⟩ false scopes) .grantInvalid
  else pure ()

/-- Spends the code, in a unit of its own that commits whatever follows. -/
def spendCode (request : CodeRequest) : Run (Client × AuthorizationCode) := do
  beginWork
  let client ← identifyClient request.clientId request.clientSecretDigest
  refuseIf (!client.allowsAuthorizationCode) .grantNotAllowed
  let instant ← tellNow
  let spent ← query (.spendAuthorizationCode request.code instant)
  match spent with
  | none => do
    takeBackWhatACodeObtained request.code client.clientId instant
    commitWork
    failed .grantInvalid
  | some code => do
    commitWork
    return (client, code)

def exchangeCode (app : App) (request : CodeRequest) : Run TokenResponse := do
  let (client, code) ← spendCode request
  refuseIf (code.clientId ≠ client.clientId || code.redirectUri ≠ request.redirectUri ||
    !matchesChallenge app request.codeVerifier code.codeChallenge) .grantInvalid
  beginWork
  let (session, person) ← requireLiveSubject code.session code.person
  requireHeldConsent client person.id code.scopes
  let family ← mintId
  let bound ← query (.bindCodeFamily request.code family)
  refuseIf (!bound) .grantInvalid
  let response ← answerForPerson app {
    clientId := client.clientId, session, person, scopes := code.scopes, nonce := code.nonce
    family := { family, clientId := client.clientId, session, scopes := code.scopes } }
  commitWork
  return response

/-- What a client sends to rotate a refresh token, by its digest. -/
structure RefreshRequest extends TokenRequest where
  refreshToken : Bytes
  deriving DecidableEq, Repr

/-- A token presented after it was used is a token someone copied: what
descends from it is taken back. One revoked already is written no more. -/
def takeBackReplayed (digest : Bytes) (clientId : String) (now : Instant) : Run Unit := do
  let known ← query (.readRefreshToken digest)
  match known.filter fun known => known.usedAt.isSome && known.revokedAt.isNone &&
      known.token.clientId = clientId with
  | none => pure ()
  | some replayed =>
    let _ ← query (.revokeRefreshFamily replayed.token.family now)
    commitWork

/-- One unit of work spends the token and writes the next. -/
def rotateRefreshToken (app : App) (request : RefreshRequest) : Run TokenResponse := do
  let instant ← tellNow
  beginWork
  let client ← identifyClient request.clientId request.clientSecretDigest
  refuseIf (!client.allowsAuthorizationCode) .grantNotAllowed
  let spent ← query (.spendRefreshToken request.refreshToken client.clientId instant)
  match spent with
  | none => do
    takeBackReplayed request.refreshToken client.clientId instant
    failed .grantInvalid
  | some spent => do
    let (session, person) ← requireLiveSubject spent.session spent.person
    let scopes ← ofExcept ((narrowScopes request.scope spent.scopes).mapError .failed)
    let response ← answerForPerson app {
      clientId := client.clientId, session, person, scopes, nonce := none
      family := { family := spent.family, clientId := client.clientId, session, scopes := spent.scopes } }
    commitWork
    return response

/-- A token presented to be revoked: its text, and its digest. -/
structure PresentedToken where
  text : String
  digest : Bytes
  deriving DecidableEq, Repr

/-- Whether a text is an access token of the realm. -/
def verifyAccessToken (app : App) (token : String) : Run (Option AccessTokenClaims) := do
  let keys ← query .listSigningKeys
  match verifyCompact app.toTokenPackages token keys with
  | none => return none
  | some verified =>
    if verified.tokenType ≠ some ACCESS_TOKEN_TYPE then return none
    else
      let instant ← tellNow
      return readClaims verified.claims app.issuer instant

/-- Revokes a refresh token of the calling client, and with it everything
that descends from the same grant. -/
def revokeToken (app : App) (clientId : String) (secretDigest : Option Bytes)
    (token : PresentedToken) : Run Unit := do
  beginWork
  let client ← identifyClient clientId secretDigest
  let known ← query (.readRefreshToken token.digest)
  match known.filter fun stored => stored.token.clientId = client.clientId with
  | some stored =>
    if stored.revokedAt.isSome then pure ()
    else
      let instant ← tellNow
      let _ ← query (.revokeRefreshFamily stored.token.family instant)
      commitWork
  | none =>
    let claims ← verifyAccessToken app token.text
    refuseIf claims.isSome .tokenTypeUnsupported

/-- What an identity token of the realm says, when one is presented. -/
def readHint (app : App) (hint : Option String) : Run (Option IdentityHint) :=
  match hint with
  | none => pure none
  | some token => do
    let keys ← query .listSigningKeys
    return readIdentityHint app.toTokenPackages app.issuer token keys

/-- Ends the session at once when the request carries an identity token of
that very session; else the person is asked. Whether they were. -/
def beginLogout (app : App) (hint : Option String) (ticket : Option SessionTicket) : Run Bool := do
  beginWork
  let session ← match ticket with
    | some ticket => findLiveSession ticket
    | none => pure none
  let hint ← readHint app hint
  match session with
  | some session =>
    if hint.all fun hint => hint.session ≠ session.id then return true
    else do
      closeSession session
      commitWork
      return false
  | none => do
    commitWork
    return false

/-- Ends the session of a person who confirmed that they sign out. -/
def confirmLogout (ticket : SessionTicket) : Run Unit := do
  beginWork
  let live ← findLiveSession ticket
  match live with
  | some session => do
    closeSession session
    commitWork
  | none => pure ()

end Saffui.Oidc
