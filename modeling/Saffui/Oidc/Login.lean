import Saffui.Oidc.Store

/-!
# Signing in, and setting up a second factor

Source: `saffui-core/src/login/session.rs`, `throttle.rs`, `flow.rs`,
`enroll.rs`, `unlock.rs`, and the steps `password.rs`, `totp.rs` and
`webauthn.rs`. A program begins, commits and drops the units the source does.
The browsers a person is known by and the events of the audit chain are
written in tables the model leaves out.
-/

namespace Saffui.Oidc
open Saffui.Foundation Saffui.Foundation.Language Saffui.Login

/-- A program over the storage of a realm. -/
abbrev Run (α : Type) := language.Prog α

def failed {α : Type} (code : ErrorCode) : Run α := .fail (.failed code)

/-- What is there, or the refusal. -/
def orFail {α : Type} (code : ErrorCode) : Option α → Run α
  | some value => pure value
  | none => failed code

def refuseIf (refused : Bool) (code : ErrorCode) : Run Unit := if refused then failed code else pure ()

def tellNow : Run Instant := inquire (L := language) .now

def ask (question : Ask) : Run (Ans question) := inquire (L := language) question

def query (op : Op) : Run (Res op) := exec (L := language) op

/-- Begins a unit of work; one left open is dropped. -/
def beginWork : Run Unit := beginUnit

def commitWork : Run Unit := commitUnit

def dropWork : Run Unit := dropUnit

/-- A draw of the other kind stands for a random source that fails. -/
def mintId : Run Uuid := do
  match ← newId (L := language) with
  | .id id => pure id
  | .secret _ => failed .randomUnavailable

/-- Draws a secret, and gives the digest it is kept by. -/
def drawSecret : Run Bytes := do
  match ← newId (L := language) with
  | .secret digest => pure digest
  | .id _ => failed .randomUnavailable

def openSession (person : Uuid) (methods : List AuthenticationMethod) :
    Run (Session × SessionTicket) := do
  let digest ← drawSecret
  let instant ← tellNow
  let id ← mintId
  let session : Session :=
    { id, person, methods, secretDigest := digest, state := .active, authenticatedAt := instant
      expiresAt := instant + SESSION_LIFETIME }
  let inserted ← query (.insertSession session)
  refuseIf (!inserted) .conflict
  return (session, ⟨id, digest⟩)

/-- The live session a ticket proves, with whether its person holds a
factor. -/
def readProvenSession (ticket : SessionTicket) : Run (Option ReadSession) := do
  let read ← query (.readSession ticket.session)
  let instant ← tellNow
  return read.filter fun known => known.session.secretDigest = ticket.secretDigest &&
    known.session.state = .active && known.session.expiresAt > instant

def findLiveSession (ticket : SessionTicket) : Run (Option Session) := do
  let read ← readProvenSession ticket
  return read.map ReadSession.session

/-- The live session a ticket proves, when it still answers for its person. -/
def findAnsweringSession (ticket : SessionTicket) : Run (Option Session) := do
  let read ← readProvenSession ticket
  return (read.filter answersForItsPerson).map ReadSession.session

/-- The session a code names and its person, when both still stand. -/
def readLiveSubject (session : Uuid) : Run (Option (Session × Person)) := do
  let instant ← tellNow
  let read ← query (.readSession session)
  match read.filter fun known => stands known instant with
  | none => return none
  | some read =>
    let person ← query (.readPerson read.session.person)
    return (person.filter Person.enabled).map fun person => (read.session, person)

/-- Ends a session, and with it every refresh token it gave. One another
request ended meanwhile is left to it. -/
def closeSession (session : Session) : Run Unit := do
  let ended ← query (.endSession session.id)
  if ended then
    let instant ← tellNow
    let _ ← query (.revokeRefreshTokensOfSession session.id instant)
  else pure ()

section Brake

variable (app : App)

def digestCounter (kind : Nat) (parts : List CounterPart) : Run Bytes :=
  orFail .cryptoUnavailable (app.digestCounter kind parts)

/-- The two counters that lock a name for everyone: the window, and the
day. -/
def digestNameLocks (typed : String) : Run (Bytes × Bytes) := do
  let name ← digestCounter app 1 [.text typed]
  let nameToday ← digestCounter app 5 [.text typed]
  return (name, nameToday)

/-- The counters of an attempt on what was typed, from its caller. -/
def Brake.ofTyped (typed : String) : Run Brake := do
  let address ← ask .callerAddress
  let (name, nameToday) ← digestNameLocks app typed
  match address with
  | none => return ⟨name, nameToday, none, none, none⟩
  | some address =>
    let byAddress ← digestCounter app 2 [.text address]
    let byBoth ← digestCounter app 3 [.text address, .text typed]
    return ⟨name, nameToday, some byAddress, some byBoth, none⟩

/-- Counts the attempt under a browser the realm keeps for the person, apart
from the name and from the address. -/
def Brake.countBrowserApart (brake : Brake) (typed : String) (device : Uuid) : Run Brake := do
  let attempts ← digestCounter app 10 [.device device]
  let recent ← digestCounter app 6 [.device device, .text typed]
  let today ← digestCounter app 7 [.device device, .text typed]
  return { brake with browser := some ⟨attempts, recent, today⟩ }

/-- The brake of a step, once its unit found whether the browser is known. -/
def Brake.ofCaller (brake : Brake) (typed : String) (person : Option Uuid) : Run Brake := do
  let device ← ask (.knownBrowser person)
  match device with
  | some device => brake.countBrowserApart app typed device
  | none => return brake

/-- Counts an attempt against its address, or its browser, or refuses it. -/
def Brake.admit (brake : Brake) (now : Instant) : Run Unit :=
  let (counter, most) := match brake.browser with
    | some browser => (some browser.attempts, MAX_RECENT_ATTEMPTS_PER_BROWSER)
    | none => (brake.address, MAX_RECENT_ATTEMPTS_PER_ADDRESS)
  match counter with
  | none => pure ()
  | some counter => do
    let recent ← query (.countLoginFailures counter (startWindow now))
    refuseIf (recent ≥ most) .hashingBusy
    query (.recordLoginFailure counter (startBucket now))

/-- Whether the name is locked for this attempt. A known browser answers for
its own failures, and only for them. -/
def Brake.isNameLocked (brake : Brake) (now : Instant) : Run Bool :=
  match brake.browser with
  | some browser => do
    let recent ← query (.countLoginFailures browser.recent (startWindow now))
    if isLocked recent then return true
    else
      let today ← query (.countLoginFailures browser.today (startLongWindow now))
      return today ≥ MAX_DAILY_FAILURES_PER_BROWSER
  | none => do
    let failedForTheName ← query (.countLoginFailures brake.name (startWindow now))
    let failedToday ← query (.countLoginFailures brake.nameToday (startLongWindow now))
    match brake.addressAndName with
    | some byBoth =>
      let failedHere ← query (.countLoginFailures byBoth (startWindow now))
      return isLocked failedHere || failedForTheName ≥ MAX_RECENT_FAILURES_PER_NAME ||
        failedToday ≥ MAX_DAILY_FAILURES
    | none => return isLocked failedForTheName || failedToday ≥ MAX_DAILY_FAILURES

/-- Counts a failed guess. Every failure counts in the day of the name. -/
def Brake.recordFailure (brake : Brake) (now : Instant) : Run Unit := do
  query (.recordLoginFailure brake.nameToday (startLongBucket now))
  match brake.browser with
  | some browser =>
    query (.recordLoginFailure browser.recent (startBucket now))
    query (.recordLoginFailure browser.today (startLongBucket now))
  | none =>
    query (.recordLoginFailure brake.name (startBucket now))
    match brake.addressAndName with
    | some byBoth => query (.recordLoginFailure byBoth (startBucket now))
    | none => pure ()

/-- Clears the browser that proved the person. -/
def Brake.forgetBrowserFailures (brake : Brake) : Run Unit :=
  match brake.browser with
  | some browser => do
    query (.forgetLoginFailures browser.recent)
    query (.forgetLoginFailures browser.today)
  | none => pure ()

/-- Counts one more sign-in left waiting by the caller, or refuses it. -/
def admitPendingSignIn : Run Unit := do
  let now ← tellNow
  let kept ← ask .keptBrowser
  let address ← ask .callerAddress
  match kept.map (fun device => (11, CounterPart.device device)) <|>
      address.map (fun address => (4, CounterPart.text address)) with
  | none => pure ()
  | some (kind, part) =>
    let counter ← digestCounter app kind [part]
    let waiting ← query (.countLoginFailures counter (startWindow now))
    refuseIf (waiting ≥ MAX_PENDING_SIGN_INS_PER_ADDRESS) .signInRequestsTooFrequent
    query (.recordLoginFailure counter (startBucket now))

end Brake

/-- A person who just signed in, and the ticket of their new session. -/
structure SignedIn where
  person : Person
  session : Uuid
  ticket : SessionTicket
  deriving DecidableEq, Repr

/-- What a person owes after their password. One of the two is enough. -/
structure SecondFactor where
  person : Person
  code : Bool
  key : Option KeyCeremony

inductive FirstStep where
  | signedIn (signedIn : SignedIn)
  | secondFactorRequired (owed : SecondFactor)

/-- Proves who a person is by their name and their password. The counters are
read and the attempt counted in a unit that commits before anything is
hashed. -/
def verifyPassword (app : App) (typedName : String) (password : Bytes) : Run (Person × Brake) := do
  refuseIf (password.length > PASSWORD_MAX_BYTES) .signInFailed
  let typed := app.toLowercase (Text.trim typedName)
  let brake ← Brake.ofTyped app typed
  let hasFreeShare ← ask .hasFreeShare
  refuseIf (!hasFreeShare) .hashingBusy
  let now ← tellNow
  beginWork
  let person ← match normalizeUsername typedName with
    | some username => query (.readPersonByUsername username)
    | none => pure none
  let brake ← brake.ofCaller app typed (person.map Person.id)
  brake.admit now
  let locked ← brake.isNameLocked now
  let person := person.filter fun _ => !locked
  let stored ← query (.readPassword (person.elim 0 Person.id))
  commitWork
  refuseIf locked .signInFailed
  let shared ← ask .hasFreeShare
  refuseIf (!shared) .hashingBusy
  let verified := app.verifyPassword password (stored.getD app.decoyHash)
  match person.filter fun person => verified && person.enabled with
  | some person => return (person, brake)
  | none =>
    beginWork
    brake.recordFailure now
    commitWork
    failed .signInFailed

inductive KeyProofStart where
  | noKeyHeld
  | notServed
  | started (ceremony : KeyCeremony)

def startKeyProof (app : App) (person : Uuid) : Run KeyProofStart := do
  let held ← query (.listSecurityKeys person)
  if held.isEmpty then return .noKeyHeld
  else
    if !app.keyLibrary.served then return .notServed
    else
      let started ← ask (.startProof (held.map SecurityKey.record))
      let ceremony ← orFail .cryptoUnavailable started
      return .started ceremony

/-- Opens the session of a person who proved all they owe. -/
def openSessionFor (person : Person) (brake : Brake) (methods : List AuthenticationMethod) :
    Run SignedIn := do
  beginWork
  brake.forgetBrowserFailures
  let (session, ticket) ← openSession person.id methods
  commitWork
  return ⟨person, session.id, ticket⟩

/-- The proof by a key a person owes, where keys are served; one without them
owes the code of their application. -/
def keyOwed (code : Bool) : KeyProofStart → Run (Option KeyCeremony)
  | .started ceremony => pure (some ceremony)
  | .noKeyHeld => pure none
  | .notServed => if code then pure none else failed .securityKeysNotServed

/-- Takes the name and the password of a person. Signs them in when that is
all they owe. -/
def signInWithPassword (app : App) (typedName : String) (password : Bytes) : Run FirstStep := do
  let (person, brake) ← verifyPassword app typedName password
  beginWork
  let totp ← query (.readTotp person.id)
  let code := totp.any fun authenticator => authenticator.confirmedAt.isSome
  let started ← startKeyProof app person.id
  let key ← keyOwed code started
  dropWork
  if code || key.isSome then return .secondFactorRequired ⟨person, code, key⟩
  else
    let signedIn ← openSessionFor person brake [.password]
    return .signedIn signedIn

/-- Whether a code is one of the sealed secret of a person that was never
accepted. It is then accepted, as long as that secret is the one kept. -/
def acceptCode (person : Uuid) (sealedSecret : Bytes) (code : String) (usedFor : TotpUse) :
    Run Bool := do
  let instant ← tellNow
  if instant < 0 then return false
  else
    let found ← ask (.findTotpStep sealedSecret (Text.trim code) instant)
    match found with
    | .error code => failed code
    | .ok none => return false
    | .ok (some step) => query (.acceptTotpStep person sealedSecret step usedFor instant)

/-- What a code of a person is worth, and how many that makes: it is counted
before it is judged, and only for a person who has codes. -/
def judgeCode (person : Uuid) (authenticator : Option TotpAuthenticator) (code : String) :
    Run (Bool × Option Nat) :=
  match authenticator with
  | none => pure (false, none)
  | some known => do
    let attempts ← query (.countCodeAttempt person)
    if attempts ≤ MAX_CODE_FAILURES then
      let accepted ← acceptCode person known.sealedSecret code .signIn
      return (accepted, some attempts)
    else return (false, some attempts)

/-- Counts what a code was worth, and commits. The code that is one too many
is told in the chain. -/
def settleCode (brake : Brake) (person : Uuid) (now : Instant) (accepted : Bool)
    (attempts : Option Nat) : Run Unit := do
  if accepted then query (.clearCodeAttempts person) else brake.recordFailure now
  if !accepted && attempts = some MAX_CODE_FAILURES then
    query (.recordEvent .codesSuspended person)
  else pure ()
  commitWork

/-- Proves that a person holds their authenticator application, and gives the
brake the code was counted under. -/
def verifyCode (app : App) (person : Person) (code : String) : Run Brake := do
  let brake ← Brake.ofTyped app person.username
  let now ← tellNow
  beginWork
  let brake ← brake.ofCaller app person.username (some person.id)
  let locked ← brake.isNameLocked now
  if locked then
    commitWork
    failed .codeRejected
  else
    let totp ← query (.readTotp person.id)
    let authenticator := totp.filter fun known => known.confirmedAt.isSome
    let (accepted, attempts) ← judgeCode person.id authenticator code
    settleCode brake person.id now accepted attempts
    refuseIf (!accepted) .codeRejected
    return brake

/-- Keeps the counter a key moved, in place of the one its proof was compared
to and of no other. Answers why the key is refused, if it is. -/
def judgeKey (keys : List SecurityKey) (instant : Instant) :
    Except KeyRefusal KeyProof → Run (Option KeyRefusal)
  | .ok proof =>
    match keys.find? fun key => key.credentialId = proof.credentialId with
    | some judged => do
      let recorded ← query (.recordKeyUse judged proof.record instant)
      return if recorded then none else some .refused
    | none => pure (some .refused)
  | .error .failed => failed .cryptoUnavailable
  | .error refusal => pure (some refusal)

/-- Counts what the answer of a key was worth, and commits. A counter that
went back is told in the chain. -/
def settleKey (brake : Brake) (person : Uuid) (now : Instant) (refusal : Option KeyRefusal) :
    Run Unit := do
  if refusal.isNone then query (.clearCodeAttemptsBelow person MAX_CODE_FAILURES)
  else brake.recordFailure now
  if refusal = some .copySuspected then query (.recordEvent .keyCopySuspected person) else pure ()
  commitWork

/-- Proves that a person holds one of their security keys, and gives the brake
the answer was counted under. -/
def verifyKey (app : App) (person : Person) (state : Bytes) (answer : Json) : Run Brake := do
  let brake ← Brake.ofTyped app person.username
  let instant ← tellNow
  beginWork
  let brake ← brake.ofCaller app person.username (some person.id)
  let locked ← brake.isNameLocked instant
  if locked then
    commitWork
    failed .keyRejected
  else
    let keys ← query (.listSecurityKeys person.id)
    let proof := finishProof app.keyLibrary state answer (keys.map SecurityKey.record)
    let refusal ← judgeKey keys instant proof
    settleKey brake person.id instant refusal
    refuseIf refusal.isSome .keyRejected
    return brake

/-- The person who owes a second factor, as long as they still may sign in. -/
def readPersonWhoOwes (person : Uuid) (refusal : ErrorCode) : Run Person := do
  beginWork
  let read ← query (.readPerson person)
  dropWork
  orFail refusal (read.filter Person.enabled)

def finishSignInWithKey (app : App) (person : Uuid) (state : Bytes) (answer : Json) :
    Run SignedIn := do
  let person ← readPersonWhoOwes person .keyRejected
  let brake ← verifyKey app person state answer
  openSessionFor person brake [.password, .securityKey]

def finishSignInWithCode (app : App) (person : Uuid) (code : String) : Run SignedIn := do
  let person ← readPersonWhoOwes person .codeRejected
  let brake ← verifyCode app person code
  openSessionFor person brake [.password, .oneTimeCode]

/-- Who a ticket proves, read in a unit that stays open. -/
structure SignedInPerson where
  session : Session
  personHoldsFactor : Bool
  person : Person

def requireSignedInPerson (ticket : Option SessionTicket) : Run SignedInPerson := do
  beginWork
  let ticket ← orFail .sessionRequired ticket
  let proven ← readProvenSession ticket
  let read ← orFail .sessionRequired proven
  let found ← query (.readPerson read.session.person)
  let person ← orFail .sessionRequired (found.filter Person.enabled)
  return ⟨read.session, read.personHoldsFactor, person⟩

/-- Refuses to set up a factor from a session the password alone opened, for
a person who holds one already. -/
def refuseUnprovenSession (session : Session) (holds : Bool) : Run Unit :=
  refuseIf (!provesSecondFactor session && holds) .secondFactorProofRequired

def requireFactorProof (person : Uuid) (session : Session) : Run Unit := do
  let holds ← query (.holdsSecondFactor person)
  refuseUnprovenSession session holds

/-- Ends the sessions of a person the password alone opened, but `kept`, with
their refresh tokens. -/
def closeSessionsWithoutFactor (person : Uuid) (kept : Option Uuid) : Run Unit := do
  let ended ← query (.endSessionsProvenOnlyBy person [.password] kept)
  if ended.isEmpty then pure ()
  else
    let instant ← tellNow
    let _ ← query (.revokeRefreshTokensOfSessions ended instant)

/-- Makes a secret for the signed-in person. It serves for nothing until a
code confirms it. -/
def beginTotpEnrollment (ticket : Option SessionTicket) : Run Unit := do
  let found ← requireSignedInPerson ticket
  refuseUnprovenSession found.session found.personHoldsFactor
  let made ← ask (.sealTotpSecret found.person.id)
  let sealedSecret ← orFail .cryptoUnavailable made
  let instant ← tellNow
  let written ← query (.writePendingTotp ⟨found.person.id, sealedSecret, none, none, instant⟩)
  refuseIf (!written) .authenticatorAlreadyEnrolled
  commitWork

/-- Confirms the authenticator of the signed-in person, who proves again who
they are with their password, and that their application holds the secret. -/
def confirmTotpEnrollment (app : App) (ticket : Option SessionTicket) (password : Bytes)
    (code : String) : Run Unit := do
  let found ← requireSignedInPerson ticket
  dropWork
  let (proven, _) ← verifyPassword app found.person.username password
  refuseIf (proven.id ≠ found.person.id) .signInFailed
  beginWork
  let kept ← query (.readTotp found.person.id)
  let pending ← orFail .codeRejected kept
  refuseIf pending.confirmedAt.isSome .authenticatorAlreadyEnrolled
  requireFactorProof found.person.id found.session
  let accepted ← acceptCode found.person.id pending.sealedSecret code .confirmation
  refuseIf (!accepted) .codeRejected
  query (.clearCodeAttempts found.person.id)
  closeSessionsWithoutFactor found.person.id (some found.session.id)
  commitWork

/-- Takes the authenticator of a person away, for an administrator. -/
def removeTotp (person : Uuid) : Run Unit := do
  beginWork
  let deleted ← query (.deleteTotp person)
  refuseIf (!deleted) .authenticatorNotFound
  query (.clearCodeAttempts person)
  commitWork

/-- Starts the enrollment of a security key for the signed-in person, who
proves again who they are with their password. -/
def beginKeyEnrollment (app : App) (ticket : Option SessionTicket) (password : Bytes) :
    Run Json := do
  let found ← requireSignedInPerson ticket
  refuseIf (!app.keyLibrary.served) .securityKeysNotServed
  dropWork
  let (proven, _) ← verifyPassword app found.person.username password
  refuseIf (proven.id ≠ found.person.id) .signInFailed
  beginWork
  requireFactorProof found.person.id found.session
  let held ← query (.listSecurityKeys found.person.id)
  refuseIf (held.length ≥ MAX_SECURITY_KEYS) .keyRejected
  let started ← ask (.startEnrollment found.person.id (held.map SecurityKey.record))
  let ceremony ← orFail .cryptoUnavailable started
  let instant ← tellNow
  query (.writeKeyEnrollment found.person.id ceremony.state (instant + KEY_ENROLLMENT_LIFETIME))
  commitWork
  return ceremony.options

/-- The key an enrollment enrolls, from the answer of its browser. -/
def readEnrolledKey : Except KeyRefusal EnrolledKey → Run EnrolledKey
  | .ok enrolled => pure enrolled
  | .error .failed => failed .cryptoUnavailable
  | .error _ => failed .keyRejected

/-- Finishes the enrollment the signed-in person started. What was started
serves once: it is taken in a unit that commits before the answer is
judged. -/
def finishKeyEnrollment (app : App) (ticket : Option SessionTicket) (answer : Json) : Run Unit := do
  let found ← requireSignedInPerson ticket
  let instant ← tellNow
  let taken ← query (.takeKeyEnrollment found.person.id instant)
  commitWork
  let state ← orFail .keyRejected taken
  let enrolled ← readEnrolledKey (finishEnrollment app.keyLibrary state answer)
  beginWork
  requireFactorProof found.person.id found.session
  let instant ← tellNow
  let inserted ← query (.insertSecurityKey
    ⟨enrolled.credentialId, found.person.id, enrolled.record, instant, none⟩)
  refuseIf (!inserted) .keyRejected
  closeSessionsWithoutFactor found.person.id (some found.session.id)
  commitWork

/-- Takes every security key of a person away, for an administrator. -/
def removeSecurityKeys (person : Uuid) : Run Unit := do
  beginWork
  let removed ← query (.deleteSecurityKeys person)
  refuseIf (removed = 0) .securityKeyNotFound
  commitWork

/-- Lifts the lock on the name of a person. -/
def unlockPerson (app : App) (username : String) : Run Unit := do
  let username ← orFail .personNotFound (normalizeUsername username)
  beginWork
  let found ← query (.readPersonByUsername username)
  let person ← orFail .personNotFound found
  let (name, nameToday) ← digestNameLocks app person.username
  query (.forgetLoginFailures name)
  query (.forgetLoginFailures nameToday)
  commitWork

/-- Lets a person whose codes were suspended type them again. -/
def resumeCodes (person : Uuid) : Run Unit := do
  beginWork
  let found ← query (.readPerson person)
  let _ ← orFail .personNotFound found
  query (.clearCodeAttempts person)
  commitWork

end Saffui.Oidc
