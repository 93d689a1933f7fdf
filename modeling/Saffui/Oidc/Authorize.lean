import Saffui.Oidc.Token

/-!
# The authorization endpoint and the page of consents

Source: `saffui-core/src/oidc/authorize.rs`, `consent/answer.rs` and
`consent/manage.rs`. A location the browser is sent to is the redirect URI
and what is written after it; the texts of the pages are not modelled.
-/

namespace Saffui.Oidc
open Saffui.Foundation Saffui.Foundation.Language Saffui.Login Saffui.Tokens

structure TrustedRequest where
  client : Client
  redirectUri : String
  scopes : List String
  state : Option String
  nonce : Option String
  codeChallenge : String
  /-- How the person must have proved who they are for a session to serve. -/
  proof : ProofAsked

def isControl (character : Char) : Bool :=
  character.toNat < 0x20 || (0x7f ≤ character.toNat && character.toNat ≤ 0x9f)

/-- Too long, or with a character no client writes on purpose. -/
def isUnacceptable (value : String) : Bool :=
  value.utf8ByteSize > OPAQUE_VALUE_MAX_BYTES || value.toList.any isControl

section Authorize

variable (app : App)

/-- Sends the client an error, on the redirect URI it registered. -/
def tellClient {α : Type} (redirectUri : String) (state : Option String) (error : OAuthError) :
    Run α :=
  .fail (.returned ⟨redirectUri, app.issuer, state, .error error⟩)

/-- What is asked, or the error the client is told. -/
def orTell {α : Type} (redirectUri : String) (state : Option String) (error : OAuthError) :
    Option α → Run α
  | some value => pure value
  | none => tellClient app redirectUri state error

/-- Trusts the client and its redirect URI, and only then reads what it asks.
The unit stays open. -/
def trustRequest (parameters : AuthorizationParameters) : Run TrustedRequest := do
  beginWork
  let clientId ← orFail .clientNotFound parameters.clientId
  let named ← readNamedClient clientId
  let client ← orFail .clientNotFound
    (named.filter fun client => client.enabled && client.allowsAuthorizationCode)
  let redirectUri ← orFail .redirectUriMismatch
    (parameters.redirectUri.filter fun asked => asked ∈ client.redirectUris)
  let state := parameters.state.filter fun state => !isUnacceptable state
  if parameters.state.any isUnacceptable || parameters.nonce.any isUnacceptable then
    tellClient app redirectUri state .invalidRequest
  else if parameters.responseType ≠ some "code" then
    tellClient app redirectUri state .unsupportedResponseType
  else do
    let codeChallenge ← orTell app redirectUri state .invalidRequest
      (parameters.codeChallenge.filter fun challenge => isWellFormedChallenge app challenge &&
        parameters.codeChallengeMethod = some "S256")
    let proof ← orTell app redirectUri state .invalidRequest
      (readProofAsked parameters.prompt parameters.maxAge)
    let scopes ← orTell app redirectUri state .invalidScope
      (narrowScopes (some (parameters.scope.getD "")) client.scopes).toOption
    return ⟨client, redirectUri, scopes, state, parameters.nonce, codeChallenge, proof⟩

structure CodeGrant where
  clientId : String
  redirectUri : String
  scopes : List String
  state : Option String
  nonce : Option String
  codeChallenge : String
  person : Uuid
  session : Uuid
  authenticatedAt : Instant

/-- Mints a code, keeps its digest, and tells where to send the browser. -/
def issueCode (grant : CodeGrant) : Run ReturnLocation := do
  let digest ← drawSecret
  let instant ← tellNow
  let inserted ← query (.insertAuthorizationCode {
    codeDigest := digest
    clientId := grant.clientId
    person := grant.person
    session := grant.session
    redirectUri := grant.redirectUri
    scopes := grant.scopes
    nonce := grant.nonce
    codeChallenge := grant.codeChallenge
    authenticatedAt := grant.authenticatedAt
    expiresAt := instant + CODE_LIFETIME })
  refuseIf (!inserted) .conflict
  return ⟨grant.redirectUri, app.issuer, grant.state, .code digest⟩

/-- The person an identity token hint names: one this realm gave this very
client. -/
def readExpected (trusted : TrustedRequest) (hint : String) : Run Uuid := do
  let named ← readHint app (some hint)
  orTell app trusted.redirectUri trusted.state .invalidRequest
    ((named.filter fun named => named.clientId = trusted.client.clientId).bind fun named =>
      Uuid.parse named.subject)

/-- The session that answers, and the person the hint names: the session of
someone else does not answer for them. -/
def holdSessionToHint (trusted : TrustedRequest) (hint : Option String) (session : Option Session) :
    Run (Option Session × Option Uuid) :=
  match hint.filter (· ≠ "") with
  | some hint => do
    let expected ← readExpected app trusted hint
    return (session.filter fun session => session.person = expected, some expected)
  | none => pure (session, none)

/-- Whether a person must allow the client before it gets a code. What they
allowed is read only where it decides. -/
def isConsentOwedBy (client : Client) (prompted : Bool) (person : Uuid) (scopes : List String) :
    Run Bool := do
  let held ← if client.requiresConsent && !prompted then
      query (.readConsent person client.clientId)
    else pure none
  return isConsentOwed ⟨client.requiresConsent, held.map Consent.scopes⟩ prompted scopes

/-- Keeps a request until a person signs in for it, or until the person of
`consentSession` answers. Its id, and the digest of what only the browser
that asked holds. -/
def keepPendingAuthorization (trusted : TrustedRequest) (expectedPerson consentSession : Option Uuid) :
    Run (Uuid × Bytes) := do
  let browserDigest ← drawSecret
  let id ← mintId
  let instant ← tellNow
  let inserted ← query (.insertPendingAuthorization {
    id, browserDigest
    clientId := trusted.client.clientId
    redirectUri := trusted.redirectUri
    scopes := trusted.scopes
    state := trusted.state
    nonce := trusted.nonce
    codeChallenge := trusted.codeChallenge
    expiresAt := instant + PENDING_LIFETIME
    expectedPerson
    firstFactor := none
    keyProof := none
    consentPrompted := trusted.proof.consent
    consentSession })
  refuseIf (!inserted) .conflict
  return (id, browserDigest)

/-- Leaves a request waiting, and commits. It is counted against the caller
first. -/
def leaveRequestWaiting (trusted : TrustedRequest) (expectedPerson consentSession : Option Uuid) :
    Run (Uuid × Bytes) := do
  admitPendingSignIn app
  let kept ← keepPendingAuthorization trusted expectedPerson consentSession
  commitWork
  return kept

inductive Authorization where
  | granted (location : ReturnLocation)
  | signInRequired (request : Uuid) (browserDigest : Bytes)
  | consentRequired (request : Uuid) (browserDigest : Bytes)
  deriving DecidableEq, Repr

/-- The session that would answer a request: one its ticket proves, proven no
longer ago than the client allows. -/
def findSessionFor (proof : ProofAsked) (ticket : Option SessionTicket) : Run (Option Session) := do
  let session ← match ticket.filter fun _ => !proof.fresh with
    | some ticket => findAnsweringSession ticket
    | none => pure none
  let instant ← tellNow
  return session.filter fun session => proof.maxAge.all fun maxAge =>
    (instant - session.authenticatedAt).tdiv 1000000 < maxAge

/-- What a session answers to the client: a code, or nothing before its person
allowed it. -/
def answerWithSession (trusted : TrustedRequest) (expectedPerson : Option Uuid) (session : Session) :
    Run Authorization := do
  let owed ← isConsentOwedBy trusted.client trusted.proof.consent session.person trusted.scopes
  if owed then
    if trusted.proof.silent then tellClient app trusted.redirectUri trusted.state .consentRequired
    else do
      let (request, browserDigest) ← leaveRequestWaiting app trusted expectedPerson (some session.id)
      return .consentRequired request browserDigest
  else do
    let location ← issueCode app {
      clientId := trusted.client.clientId
      redirectUri := trusted.redirectUri
      scopes := trusted.scopes
      state := trusted.state
      nonce := trusted.nonce
      codeChallenge := trusted.codeChallenge
      person := session.person
      session := session.id
      authenticatedAt := session.authenticatedAt }
    commitWork
    return .granted location

/-- Handles a request to the authorization endpoint. -/
def beginAuthorization (parameters : AuthorizationParameters) (ticket : Option SessionTicket) :
    Run Authorization := do
  let trusted ← trustRequest app parameters
  let session ← findSessionFor trusted.proof ticket
  let (session, expectedPerson) ← holdSessionToHint app trusted parameters.idTokenHint session
  match session with
  | some session => answerWithSession app trusted expectedPerson session
  | none =>
    if trusted.proof.silent then tellClient app trusted.redirectUri trusted.state .loginRequired
    else do
      let (request, browserDigest) ← leaveRequestWaiting app trusted expectedPerson none
      return .signInRequired request browserDigest

/-- What a person typed on one form of the sign-in page. -/
inductive SignInAnswer where
  | password (name : String) (password : Bytes)
  | code (code : String)
  | key (answer : Json)

/-- What the page of a pending request asks next. -/
structure OwedSecondFactor where
  code : Bool
  key : Option Json

inductive SignInStep where
  | finished (location : ReturnLocation) (ticket : SessionTicket)
  | secondFactorRequired (owed : OwedSecondFactor)
  | consentRequired (request : Uuid) (ticket : SessionTicket)

inductive Proven where
  | signedIn (signedIn : SignedIn)
  | owes (owed : OwedSecondFactor)

/-- Writes on a request whose password was proven for it, and what is asked
next. -/
def leaveSecondFactorOwed (request : Uuid) (owed : SecondFactor) : Run Proven := do
  let keyProof := owed.key.map fun ceremony => (⟨ceremony.state, ceremony.options⟩ : PendingKeyProof)
  beginWork
  let instant ← tellNow
  let waiting ← query (.markFirstFactor request owed.person.id keyProof instant)
  commitWork
  refuseIf (!waiting) .authorizationRequestExpired
  return .owes ⟨owed.code, keyProof.map PendingKeyProof.options⟩

/-- Proves one answer for a pending request. -/
def proveAnswer (pending : PendingAuthorization) (answer : SignInAnswer) : Run Proven :=
  match answer with
  | .password name password => do
    let step ← signInWithPassword app name password
    match step with
    | .signedIn signedIn => return .signedIn signedIn
    | .secondFactorRequired owed => leaveSecondFactorOwed pending.id owed
  | .code code => do
    let person ← orFail .authorizationRequestExpired pending.firstFactor
    let signedIn ← finishSignInWithCode app person code
    return .signedIn signedIn
  | .key answer => do
    let person ← orFail .authorizationRequestExpired pending.firstFactor
    let proof ← orFail .authorizationRequestExpired pending.keyProof
    let signedIn ← finishSignInWithKey app person proof.state answer
    return .signedIn signedIn

/-- Whether the person who just signed in must allow the client of a request
before it gets a code. A client gone since is asked for. -/
def isConsentOwedAfterSignIn (pending : PendingAuthorization) (person : Uuid) : Run Bool :=
  if pending.consentPrompted then pure true
  else do
    let terms ← query (.readConsentTerms person pending.clientId)
    return terms.all fun terms => isConsentOwed terms false pending.scopes

/-- Ends the session of a submission that lost its request to another. -/
def endOrphanSession (session : Uuid) : Run Unit := do
  let read ← query (.readSession session)
  match read with
  | some orphan => do
    closeSession orphan.session
    commitWork
  | none => pure ()

/-- A request read or taken, when it is there and this browser started it. -/
def requireBrowser (pending : Option PendingAuthorization) (browserDigest : Bytes) :
    Run PendingAuthorization :=
  orFail .authorizationRequestExpired
    (pending.filter fun known => browserDigest = known.browserDigest)

def isHintedAtAnother (pending : PendingAuthorization) (person : Uuid) : Bool :=
  pending.expectedPerson.any (· ≠ person)

/-- The request the person signed in for, taken: of two submissions of one
page, the other signed in for nothing, and its session ends here. -/
def takeRequest (request session : Uuid) : Run PendingAuthorization := do
  let instant ← tellNow
  let taken ← query (.takePendingAuthorization request instant)
  match taken with
  | some pending => return pending
  | none => do
    endOrphanSession session
    failed .authorizationRequestExpired

/-- Leaves the request waiting for the consent of the person signed in. -/
def leaveConsentOwed (request : Uuid) (signedIn : SignedIn) : Run SignInStep := do
  let instant ← tellNow
  let marked ← query (.markConsentOwed request signedIn.session instant)
  if !marked then do
    endOrphanSession signedIn.session
    failed .authorizationRequestExpired
  else do
    commitWork
    return .consentRequired request signedIn.ticket

/-- Finishes the request of a person who owes nothing more. -/
def finishRequest (request : Uuid) (signedIn : SignedIn) : Run SignInStep := do
  let pending ← takeRequest request signedIn.session
  if isHintedAtAnother pending signedIn.person.id then do
    commitWork
    return .finished ⟨pending.redirectUri, app.issuer, pending.state, .error .loginRequired⟩
      signedIn.ticket
  else do
    let instant ← tellNow
    let location ← issueCode app {
      clientId := pending.clientId
      redirectUri := pending.redirectUri
      scopes := pending.scopes
      state := pending.state
      nonce := pending.nonce
      codeChallenge := pending.codeChallenge
      person := signedIn.person.id
      session := signedIn.session
      authenticatedAt := instant }
    commitWork
    return .finished location signedIn.ticket

/-- Takes one answer of a person on the page of a pending request, and
finishes the request when they owe nothing more. -/
def finishSignIn (request : Uuid) (browserDigest : Bytes) (answer : SignInAnswer) :
    Run SignInStep := do
  beginWork
  let instant ← tellNow
  let read ← query (.readPendingAuthorization request instant)
  dropWork
  let pending ← requireBrowser read browserDigest
  let proven ← proveAnswer app pending answer
  match proven with
  | .owes owed => return .secondFactorRequired owed
  | .signedIn signedIn => do
    beginWork
    let owed ← if isHintedAtAnother pending signedIn.person.id then pure false
      else isConsentOwedAfterSignIn pending signedIn.person.id
    if owed then leaveConsentOwed request signedIn else finishRequest app request signedIn

inductive ConsentDecision where
  | allow
  | deny
  deriving DecidableEq, Repr

/-- Checks that a request waits for a consent, from this browser and in the
session of this ticket, and gives that session. -/
def checkWaitingConsent (pending : Option PendingAuthorization) (browserDigest : Bytes)
    (ticket : SessionTicket) : Run (PendingAuthorization × Session) := do
  let pending ← requireBrowser pending browserDigest
  let waitingIn ← orFail .authorizationRequestExpired pending.consentSession
  let found ← findAnsweringSession ticket
  let session ← orFail .authorizationRequestExpired (found.filter fun session => session.id = waitingIn)
  return (pending, session)

/-- Keeps what the person allowed, and gives the client its code. -/
def allowClient (pending : PendingAuthorization) (session : Session) : Run ReturnLocation := do
  let named ← readNamedClient pending.clientId
  let client ← orFail .clientNotFound
    (named.filter fun client => client.enabled && client.allowsAuthorizationCode)
  if client.requiresConsent then do
    let instant ← tellNow
    query (.addConsent ⟨session.person, client.clientId, pending.scopes, instant⟩)
  else pure ()
  issueCode app {
    clientId := client.clientId
    redirectUri := pending.redirectUri
    scopes := pending.scopes
    state := pending.state
    nonce := pending.nonce
    codeChallenge := pending.codeChallenge
    person := session.person
    session := session.id
    authenticatedAt := session.authenticatedAt }

/-- Takes the answer of the person. Taken before it is checked: a refusal
abandons the unit of work, and the request waits again. -/
def answerConsent (request : Uuid) (browserDigest : Bytes) (ticket : Option SessionTicket)
    (decision : ConsentDecision) : Run ReturnLocation := do
  let ticket ← orFail .authorizationRequestExpired ticket
  beginWork
  let instant ← tellNow
  let taken ← query (.takePendingAuthorization request instant)
  let (pending, session) ← checkWaitingConsent taken browserDigest ticket
  let location ← match decision with
    | .allow => allowClient app pending session
    | .deny => pure ⟨pending.redirectUri, app.issuer, pending.state, .error .accessDenied⟩
  commitWork
  return location

end Authorize

/-- Removes a consent, and revokes every refresh token its client holds for
the person. -/
def withdrawConsent (person : Uuid) (clientId : String) : Run Unit := do
  let deleted ← match checkClientIdentifier clientId with
    | .ok () => query (.deleteConsent person clientId)
    | .error _ => pure false
  refuseIf (!deleted) .consentNotFound
  let instant ← tellNow
  let _ ← query (.revokeRefreshFamiliesOfClient person clientId instant)

/-- The live session a ticket proves, when it still answers for its person and
that person may still sign in. -/
def findSignedInSession (ticket : SessionTicket) : Run Session := do
  let found ← findAnsweringSession ticket
  let session ← orFail .sessionRequired found
  let person ← query (.readPerson session.person)
  let _ ← orFail .sessionRequired (person.filter Person.enabled)
  return session

def withdrawMyConsent (ticket : Option SessionTicket) (clientId : String) : Run Unit := do
  let ticket ← orFail .sessionRequired ticket
  beginWork
  let session ← findSignedInSession ticket
  withdrawConsent session.person clientId
  commitWork

/-- Withdraws a consent of a person in their place, for an administrator. -/
def withdrawPersonConsent (person : Uuid) (clientId : String) : Run Unit := do
  beginWork
  withdrawConsent person clientId
  commitWork

end Saffui.Oidc
