import Saffui.Foundation.Logs
import Saffui.Oidc.Calls

/-!
# What every unit of a call says for itself

A row a unit writes is backed by other statements of the same call: a refresh
token by the one it follows, or by the code that was exchanged for it; a code
by the session read with it and the request taken with it; a session by the
password accepted before. `Backed` tells so, statement by statement, from the
log alone: it speaks of no storage.
-/

namespace Saffui.Oidc
open Saffui.Foundation Saffui.Foundation.Language Saffui.Login Saffui.Tokens

abbrev Told := language.Told

abbrev Log := language.Log

/-- A statement and its answer. -/
def told (op : Op) (result : Res op) : Told := ⟨op, result⟩

/-- The statements that write no row. -/
def reads : Op → Bool
  | .readClient _ | .readPerson _ | .readPersonByUsername _ | .readPassword _ | .listSigningKeys
  | .readSession _ | .readPendingAuthorization _ _ | .readRefreshToken _ | .readConsent _ _
  | .holdConsent _ _ | .readConsentTerms _ _ | .readTotp _ | .holdsSecondFactor _
  | .listSecurityKeys _ | .countLoginFailures _ _ => true
  | _ => false

theorem writes_of_reads {op : Op} (reading : reads op = true) (seen now : Db) :
    writes op seen now = [] := by
  have unpicked : hits op seen now = [] := by
    rw [List.eq_nil_iff_forall_not_mem]
    intro key hit
    obtain ⟨⟨row, -, picked⟩, -⟩ := mem_hits.mp hit
    cases op <;> first | cases picked | cases reading
  have inserted : inserts op now = none := by
    cases op <;> first | rfl | cases reading
  simp [writes, unpicked, inserted, writeEach]

/-- A unit that only read so far. -/
def Reading (log : Log) : Prop := ∀ one ∈ log.script, reads one.1 = true

theorem Reading.ran {log : Log} (reading : Reading log) (op : Op) (read : reads op = true)
    {result : Res op} : Reading (log.ran op result) := by
  intro one inside
  rcases List.mem_append.mp inside with earlier | last
  · exact reading one earlier
  · rw [List.mem_singleton.mp last]
    exact read

theorem Reading.finish (log : Log) (committed : Bool) : Reading (log.finish committed) := by
  intro one inside
  cases inside

theorem Reading.leads {log : Log} (reading : Reading log) (one : Told) (later : List Told) :
    Leads reads one (log.script ++ one :: later) :=
  ⟨log.script, later, rfl, reading⟩

/-- A statement before which its unit only read. -/
def Leading (one : Told) (script : List Told) : Prop := Leads reads one script

/-- What a code repeats of the request it answers. -/
structure Asked where
  clientId : String
  redirectUri : String
  scopes : List String
  nonce : Option String
  codeChallenge : String
  deriving DecidableEq, Repr

def PendingAuthorization.asked (pending : PendingAuthorization) : Asked :=
  ⟨pending.clientId, pending.redirectUri, pending.scopes, pending.nonce, pending.codeChallenge⟩

def AuthorizationCode.asked (code : AuthorizationCode) : Asked :=
  ⟨code.clientId, code.redirectUri, code.scopes, code.nonce, code.codeChallenge⟩

def TrustedRequest.asked (trusted : TrustedRequest) : Asked :=
  ⟨trusted.client.clientId, trusted.redirectUri, trusted.scopes, trusted.nonce,
    trusted.codeChallenge⟩

/-- What the parameters of a request ask, of the client a unit read. -/
structure Asks (parameters : AuthorizationParameters) (client : Client) (asked : Asked) : Prop where
  named : asked.clientId = client.clientId
  redirectUri : parameters.redirectUri = some asked.redirectUri
  registered : asked.redirectUri ∈ client.redirectUris
  nonce : parameters.nonce = asked.nonce
  codeChallenge : parameters.codeChallenge = some asked.codeChallenge
  scopes : narrowScopes (some (parameters.scope.getD "")) client.scopes = .ok asked.scopes

/-- The person the identity token hint of a request names, when it has one. -/
def Expects (app : App) (parameters : AuthorizationParameters) (script : List Told)
    (expected : Option Uuid) : Prop :=
  match parameters.idTokenHint.filter (· ≠ "") with
  | none => expected = none
  | some hint => ∃ keys named, told .listSigningKeys keys ∈ script ∧
    readIdentityHint app.toTokenPackages app.issuer hint keys = some named ∧ expected.isSome ∧
    expected = Uuid.parse named.subject

theorem Expects.mono {app : App} {parameters : AuthorizationParameters} {script wider : List Told}
    {expected : Option Uuid} (expects : Expects app parameters script expected)
    (inside : script ⊆ wider) : Expects app parameters wider expected := by
  unfold Expects at expects ⊢
  split
  · next absent => rwa [absent] at expects
  · next hint present =>
    rw [present] at expects
    obtain ⟨keys, named, read, same⟩ := expects
    exact ⟨keys, named, inside read, same⟩

/-- A session a unit read, that stood at an instant. -/
structure Standing (script : List Told) (id : Uuid) (session : Session) : Prop where
  read : ∃ known, told (.readSession id) (some known) ∈ script ∧ known.session = session ∧
    ∃ instant, stands known instant = true

theorem Standing.mono {script wider : List Told} {id : Uuid} {session : Session}
    (standing : Standing script id session) (inside : script ⊆ wider) : Standing wider id session := by
  obtain ⟨known, read, same, stood⟩ := standing.read
  exact ⟨known, inside read, same, stood⟩

/-- The refresh token a grant of this session keeps. -/
structure TokenOf (token : RefreshToken) (family : Uuid) (clientId : String) (session : Session)
    (scopes : List String) : Prop where
  family : token.family = family
  clientId : token.clientId = clientId
  ofPerson : token.person = session.person
  inSession : token.session = session.id
  granted : token.scopes = scopes
  expiresAt : token.expiresAt ≤ session.expiresAt

/-- The subject of a grant: a session that stands, and its person. -/
structure Subject (script : List Told) (session person : Uuid) (found : Session) : Prop where
  standing : Standing script session found
  person : ∃ row, told (.readPerson found.person) (some row) ∈ script ∧ row.id = person

theorem Subject.mono {script wider : List Told} {session person : Uuid} {found : Session}
    (subject : Subject script session person found) (inside : script ⊆ wider) :
    Subject wider session person found := by
  obtain ⟨row, read, same⟩ := subject.person
  exact ⟨subject.standing.mono inside, row, inside read, same⟩

/-- A code of a client was spent by a unit of this call that committed. -/
structure SpentCode (log : Log) (request : CodeRequest) (client : Client) (code : AuthorizationCode) :
    Prop where
  unit : ∃ script, (true, script) ∈ log.ended ∧
    told (.readClient request.clientId) (some client) ∈ script ∧
    ∃ instant, told (.spendAuthorizationCode request.code instant) (some code) ∈ script
  ofClient : code.clientId = client.clientId

/-- What a refresh token is kept for. -/
inductive TokenBacked (call : Call) (log : Log) (token : RefreshToken) : Prop where
  /-- It follows the one its unit spent. -/
  | rotated {request : RefreshRequest} {client : Client} {spent : RefreshToken} {session : Session}
      (called : call = .rotateRefreshToken request)
      (spend : ∃ instant, told (.spendRefreshToken request.refreshToken client.clientId instant)
        (some spent) ∈ log.script)
      (subject : Subject log.script spent.session spent.person session)
      (issued : TokenOf token spent.family client.clientId session spent.scopes)
  /-- It is the first of the family the unit of its code opened. -/
  | exchanged {request : CodeRequest} {client : Client} {code : AuthorizationCode}
      {session : Session} (called : call = .exchangeCode request)
      (spent : SpentCode log request client code)
      (subject : Subject log.script code.session code.person session)
      (drawn : Drawn.id token.family ∈ log.drawn)
      (bound : told (.bindCodeFamily request.code token.family) true ∈ log.script)
      (consent : client.requiresConsent → ∃ allowed,
        Leading (told (.holdConsent code.person client.clientId) (some allowed)) log.script)
      (issued : TokenOf token token.family client.clientId session code.scopes)

/-- A call that began by reading a request. -/
def ReadFirst (log : Log) (request : Uuid) (pending : PendingAuthorization) : Prop :=
  ∃ instant, [told (.readPendingAuthorization request instant) (some pending)] <+: log.told

theorem ReadFirst.mono {log later : Log} {request : Uuid} {pending : PendingAuthorization}
    (read : ReadFirst log request pending) (longer : log.told <+: later.told) :
    ReadFirst later request pending := by
  obtain ⟨instant, first⟩ := read
  exact ⟨instant, first.trans longer⟩

/-- A session its call opened, after it read the request it was opened for. -/
structure OpenedFor (log : Log) (request : Uuid) (pending : PendingAuthorization)
    (session : Session) : Prop where
  opened : ∃ script, (true, script) ∈ log.ended ∧ told (.insertSession session) true ∈ script
  read : ReadFirst log request pending

theorem OpenedFor.mono {log later : Log} {request : Uuid} {pending : PendingAuthorization}
    {session : Session} (opened : OpenedFor log request pending session)
    (ended : log.ended ⊆ later.ended) (longer : log.told <+: later.told) :
    OpenedFor later request pending session := by
  obtain ⟨script, committed, inserted⟩ := opened.opened
  exact ⟨⟨script, ended committed, inserted⟩, opened.read.mono longer⟩

/-- What an authorization code is kept for. -/
inductive CodeBacked (app : App) (call : Call) (log : Log) (code : AuthorizationCode) : Prop where
  /-- A session answered a request that asked no sign-in. -/
  | begun {parameters : AuthorizationParameters} {ticket : SessionTicket} {client : Client}
      {session : Session} {proof : ProofAsked} {expected : Option Uuid}
      (called : call = .beginAuthorization parameters (some ticket))
      (read : ∃ id, parameters.clientId = some id ∧
        told (.readClient id) (some client) ∈ log.script)
      (asked : Asks parameters client code.asked)
      (asks : readProofAsked parameters.prompt parameters.maxAge = some proof)
      (fresh : proof.fresh = false)
      (expects : Expects app parameters log.script expected)
      (hinted : ∀ person, expected = some person → code.person = person)
      (standing : Standing log.script ticket.session session)
      (inSession : code.session = session.id)
      (ofPerson : code.person = session.person)
  /-- A person signed in for a request, taken with it. -/
  | finished {request : Uuid} {browserDigest : Bytes} {answer : SignInAnswer}
      {taken pending : PendingAuthorization} {session : Session}
      (called : call = .finishSignIn request browserDigest answer)
      (take : ∃ instant, told (.takePendingAuthorization request instant) (some taken) ∈ log.script)
      (asked : code.asked = taken.asked)
      (hinted : isHintedAtAnother taken code.person = false)
      (opened : OpenedFor log request pending session)
      (inSession : code.session = session.id)
      (ofPerson : code.person = session.person)
  /-- A person allowed the client, in the session and from the browser the
  request waited with. -/
  | allowed {request : Uuid} {browserDigest : Bytes} {ticket : SessionTicket}
      {taken : PendingAuthorization} {session : Session} {client : Client}
      (called : call = .answerConsent request browserDigest (some ticket) .allow)
      (take : ∃ instant, told (.takePendingAuthorization request instant) (some taken) ∈ log.script)
      (browser : taken.browserDigest = browserDigest)
      (waiting : taken.consentSession = some session.id)
      (proves : session.secretDigest = ticket.secretDigest)
      (read : told (.readClient taken.clientId) (some client) ∈ log.script)
      (asked : code.asked = { taken.asked with clientId := client.clientId })
      (standing : Standing log.script ticket.session session)
      (inSession : code.session = session.id)
      (ofPerson : code.person = session.person)

/-- What a request is kept waiting for. -/
structure PendingBacked (app : App) (call : Call) (log : Log) (pending : PendingAuthorization) :
    Prop where
  drawn : Drawn.id pending.id ∈ log.drawn
  unproven : pending.firstFactor = none ∧ pending.keyProof = none
  begun : ∃ parameters ticket client proof, call = .beginAuthorization parameters ticket ∧
    (∃ id, parameters.clientId = some id ∧ told (.readClient id) (some client) ∈ log.script) ∧
    Asks parameters client pending.asked ∧
    readProofAsked parameters.prompt parameters.maxAge = some proof ∧
    Expects app parameters log.script pending.expectedPerson ∧
    ∀ waiting, pending.consentSession = some waiting → proof.fresh = false ∧
      ∃ shown session, ticket = some shown ∧ Standing log.script shown.session session ∧
        session.id = waiting ∧ ∀ person, pending.expectedPerson = some person →
          session.person = person

/-- The password of a person was accepted by this call. -/
structure PasswordAccepted (app : App) (ran : List Told) (name : String) (password : Bytes)
    (person : Uuid) : Prop where
  named : ∃ row username, normalizeUsername name = some username ∧
    told (.readPersonByUsername username) (some row) ∈ ran ∧ row.id = person ∧ row.enabled = true
  stored : ∃ stored, told (.readPassword person) stored ∈ ran ∧
    app.verifyPassword password (stored.getD app.decoyHash) = true

theorem PasswordAccepted.mono {app : App} {ran wider : List Told} {name : String} {password : Bytes}
    {person : Uuid} (accepted : PasswordAccepted app ran name password person) (inside : ran ⊆ wider) :
    PasswordAccepted app wider name password person := by
  obtain ⟨row, username, normalized, read, same⟩ := accepted.named
  obtain ⟨stored, kept, verified⟩ := accepted.stored
  exact ⟨⟨row, username, normalized, inside read, same⟩, stored, inside kept, verified⟩

/-- A call read that a person holds no second factor. -/
structure FactorFree (ran : List Told) (person : Uuid) : Prop where
  totp : ∃ totp : Option TotpAuthenticator, told (.readTotp person) totp ∈ ran ∧
    totp.all (fun authenticator => authenticator.confirmedAt.isNone) = true
  keys : told (.listSecurityKeys person) [] ∈ ran

theorem FactorFree.mono {ran wider : List Told} {person : Uuid} (free : FactorFree ran person)
    (inside : ran ⊆ wider) : FactorFree wider person := by
  obtain ⟨totp, read, unconfirmed⟩ := free.totp
  exact ⟨⟨totp, inside read, unconfirmed⟩, inside free.keys⟩

/-- What a session is opened for. -/
structure SessionBacked (app : App) (call : Call) (log : Log) (session : Session) : Prop where
  drawn : Drawn.id session.id ∈ log.drawn
  active : session.state = .active
  proven : ∃ request browserDigest answer pending,
    call = .finishSignIn request browserDigest answer ∧ ReadFirst log request pending ∧
    pending.browserDigest = browserDigest ∧
    ((session.methods = [.password] ∧ FactorFree log.told session.person ∧
        ∃ name password, answer = .password name password ∧
          PasswordAccepted app log.told name password session.person) ∨
      ∃ second person, session.methods = [.password, second] ∧ second ≠ .password ∧
        pending.firstFactor = some person ∧
        ∃ row, told (.readPerson person) (some row) ∈ log.told ∧ row.id = session.person)

/-- The unit of a code presented after it was spent: the code is marked, and
what it obtained taken back. -/
inductive TakenBack (request : CodeRequest) (client : Client) (instant : Instant) :
    List Told → Prop where
  | nothing {replayed : Option ReplayedCode} (unbound : replayed.bind ReplayedCode.family = none) :
      TakenBack request client instant [told (.readClient request.clientId) (some client),
        told (.spendAuthorizationCode request.code instant) none,
        told (.markCodeReplayed request.code client.clientId instant) replayed]
  | family {replayed : Option ReplayedCode} {family : Uuid} (count : Nat)
      (bound : replayed.bind ReplayedCode.family = some family) :
      TakenBack request client instant [told (.readClient request.clientId) (some client),
        told (.spendAuthorizationCode request.code instant) none,
        told (.markCodeReplayed request.code client.clientId instant) replayed,
        told (.revokeRefreshFamily family instant) count]

/-- Two statements of a unit, one after the other. -/
def Then (first second : Told) (script : List Told) : Prop := [first, second].Sublist script

theorem Then.of_mem {first second : Told} {earlier later : List Told} (one : first ∈ earlier)
    (other : second ∈ later) : Then first second (earlier ++ later) :=
  (List.singleton_sublist.mpr one).append (List.singleton_sublist.mpr other)

/-- The statements that take a factor of a person away. -/
def removesFactor (person : Uuid) : Op → Bool
  | .deleteTotp one => one = person
  | .deleteSecurityKeys one => one = person
  | _ => false

theorem removesFactor_of_reads {person : Uuid} {op : Op} (reading : reads op = true) :
    removesFactor person op = false := by
  cases op <;> first | rfl | cases reading

/-- A factor was set up: the sessions of its person the password alone opened
end after it, but the one it was set up in, and their tokens with them. -/
structure FactorSet (set : Told) (person : Uuid) (script : List Told) : Prop where
  held : ∀ said ∈ script, removesFactor person said.1 = false
  ended : ∃ kept ended, Then set (told (.endSessionsProvenOnlyBy person [.password] kept) ended) script ∧
    (ended ≠ [] → ∃ instant count,
      Then (told (.endSessionsProvenOnlyBy person [.password] kept) ended)
        (told (.revokeRefreshTokensOfSessions ended instant) count) script)

/-- The statements that count a code a person typed. -/
def countsCode : Op → Bool
  | .countCodeAttempt _ => true
  | _ => false

/-- The statements that accept a code. -/
def acceptsCode : Told → Bool
  | ⟨.acceptTotpStep _ _ _ _ _, accepted⟩ => accepted
  | _ => false

/-- The statements that forget the codes a person got wrong. -/
def clearsCodes : Told → Bool
  | ⟨.clearCodeAttempts _, _⟩ | ⟨.clearCodeAttemptsBelow _ _, _⟩ => true
  | _ => false

/-- The events that tell codes suspended. -/
def suspendsCodes : Told → Bool
  | ⟨.recordEvent .codesSuspended _, _⟩ => true
  | _ => false

/-- What became of a code once it was counted. -/
inductive CodeVerdict (person : Uuid) (attempts : Nat) (script : List Told) : Prop where
  | accepted (within : attempts ≤ MAX_CODE_FAILURES)
      (accepts : ∃ judged step instant,
        told (.acceptTotpStep person judged step .signIn instant) true ∈ script)
      (once : script.countP acceptsCode = 1)
      (cleared : Then (told (.countCodeAttempt person) attempts) (told (.clearCodeAttempts person) ())
        script)
      (unsuspended : script.countP suspendsCodes = 0)
  | refused (unaccepted : script.countP acceptsCode = 0) (kept : script.countP clearsCodes = 0)
      (tells : ∀ said ∈ script, suspendsCodes said = true →
        said = told (.recordEvent .codesSuspended person) ())
      (suspended : script.countP suspendsCodes = if attempts = MAX_CODE_FAILURES then 1 else 0)

/-- A unit that judged a code of a person: it counted it first. -/
structure CodeJudged (person : Uuid) (attempts : Nat) (script : List Told) : Prop where
  leads : Leading (told (.countCodeAttempt person) attempts) script
  once : script.countP (fun said => countsCode said.1) = 1
  verdict : CodeVerdict person attempts script

/-- The calls that give a person their codes back. -/
def ResetsCodes (person : Uuid) : Call → Prop
  | .removeTotp one | .resumeCodes one => one = person
  | .confirmTotpEnrollment _ _ _ => True
  | _ => False

def isKeyUse : Op → Bool
  | .recordKeyUse _ _ _ => true
  | _ => false

/-- A unit that judged the proof of a key, against the key as it read it. -/
structure KeyJudged (app : App) (script : List Told) (judged : SecurityKey) (record : Option Bytes)
    (instant : Instant) (believed : Bool) : Prop where
  leads : Leading (told (.recordKeyUse judged record instant) believed) script
  once : script.countP (fun said => isKeyUse said.1) = 1
  proven : ∃ person keys state answer proof,
    Leading (told (.listSecurityKeys person) keys) script ∧
    finishProof app.keyLibrary state answer (keys.map SecurityKey.record) = .ok proof ∧
    keys.find? (fun key => key.credentialId = proof.credentialId) = some judged ∧
    proof.record = record

/-- The enrollment of a key that was started, and taken by this call. -/
structure KeyEnrolled (app : App) (log : Log) (key : SecurityKey) : Prop where
  taken : ∃ script instant state answer, (true, script) ∈ log.ended ∧
    Leading (told (.takeKeyEnrollment key.person instant) (some state)) script ∧
    finishEnrollment app.keyLibrary state answer = .ok ⟨key.credentialId, key.record⟩
  only : ∀ other, told (.insertSecurityKey other) true ∈ log.script → other = key

def isRefreshSpend : Op → Bool
  | .spendRefreshToken _ _ _ => true
  | _ => false

/-- What each statement that writes is backed by. -/
def Backed (app : App) (call : Call) (log : Log) : Told → Prop
  | ⟨.insertRefreshToken token, true⟩ => TokenBacked call log token ∧
    ∀ other, told (.insertRefreshToken other) true ∈ log.script → other = token
  | ⟨.spendRefreshToken digest clientId instant, some spent⟩ =>
    Leading (told (.spendRefreshToken digest clientId instant) (some spent)) log.script ∧
    log.script.countP (fun said => isRefreshSpend said.1) = 1 ∧
    ∃ known, Then (told (.spendRefreshToken digest clientId instant) (some spent))
      (told (.readSession spent.session) (some known)) log.script ∧
      ∃ later, stands known later = true
  | ⟨.bindCodeFamily digest family, true⟩ =>
    Leading (told (.bindCodeFamily digest family) true) log.script ∧ ∃ request client code,
    call = .exchangeCode request ∧ request.code = digest ∧ SpentCode log request client code ∧
    (∃ token, token.family = family ∧ told (.insertRefreshToken token) true ∈ log.script) ∧
    (∀ other, told (.bindCodeFamily digest other) true ∈ log.script → other = family) ∧
    ∀ script, (true, script) ∈ log.ended → ∀ other, told (.bindCodeFamily digest other) true ∉ script
  | ⟨.spendAuthorizationCode digest instant, some code⟩ =>
    Leading (told (.spendAuthorizationCode digest instant) (some code)) log.script ∧
    ∃ request, call = .exchangeCode request ∧ request.code = digest
  | ⟨.spendAuthorizationCode digest instant, none⟩ => ∃ request client,
    call = .exchangeCode request ∧ request.code = digest ∧
    TakenBack request client instant log.script
  | ⟨.markCodeReplayed digest clientId instant, _⟩ => ∃ request client,
    call = .exchangeCode request ∧ request.code = digest ∧ client.clientId = clientId ∧
    TakenBack request client instant log.script
  | ⟨.insertAuthorizationCode code, true⟩ => CodeBacked app call log code ∧
    ∀ other, told (.insertAuthorizationCode other) true ∈ log.script → other = code
  | ⟨.insertPendingAuthorization pending, true⟩ => PendingBacked app call log pending ∧
    ∀ other, told (.insertPendingAuthorization other) true ∈ log.script → other = pending
  | ⟨.insertSession session, true⟩ => SessionBacked app call log session
  | ⟨.takePendingAuthorization request instant, some taken⟩ =>
    Leading (told (.takePendingAuthorization request instant) (some taken)) log.script
  | ⟨.markFirstFactor marked person _ _, true⟩ => ∃ request browserDigest name password pending,
    call = .finishSignIn request browserDigest (.password name password) ∧
    ReadFirst log request pending ∧ pending.id = marked ∧ PasswordAccepted app log.told name password person
  | ⟨.markConsentOwed request waiting _, true⟩ => ∃ browserDigest answer pending session,
    call = .finishSignIn request browserDigest answer ∧ OpenedFor log request pending session ∧
    session.id = waiting ∧ isHintedAtAnother pending session.person = false
  | ⟨.deleteConsent person clientId, true⟩ =>
    Leading (told (.deleteConsent person clientId) true) log.script ∧ ∃ instant count,
    Then (told (.deleteConsent person clientId) true)
      (told (.revokeRefreshFamiliesOfClient person clientId instant) count) log.script ∧
    (∀ token, told (.insertRefreshToken token) true ∉ log.script) ∧
    ∀ consent, told (.addConsent consent) () ∉ log.script
  | ⟨.addConsent consent, _⟩ => ∃ request browserDigest ticket session,
    call = .answerConsent request browserDigest (some ticket) .allow ∧
    Standing log.script ticket.session session ∧ consent.person = session.person
  | ⟨.endSession id, true⟩ => ∃ instant count,
    Then (told (.endSession id) true) (told (.revokeRefreshTokensOfSession id instant) count)
      log.script
  | ⟨.acceptTotpStep person judged step .confirmation instant, true⟩ =>
    FactorSet (told (.acceptTotpStep person judged step .confirmation instant) true) person
      log.script ∧ log.script.countP acceptsCode = 1
  | ⟨.acceptTotpStep person _ _ .signIn _, true⟩ => ∃ attempts, CodeJudged person attempts log.script
  | ⟨.countCodeAttempt person, attempts⟩ => CodeJudged person attempts log.script
  | ⟨.clearCodeAttempts person, _⟩ => ResetsCodes person call ∨
    ∃ attempts, CodeJudged person attempts log.script
  | ⟨.clearCodeAttemptsBelow _ bound, _⟩ => bound = MAX_CODE_FAILURES
  | ⟨.recordEvent .codesSuspended person, _⟩ => CodeJudged person MAX_CODE_FAILURES log.script
  | ⟨.recordKeyUse judged record instant, believed⟩ =>
    KeyJudged app log.script judged record instant believed
  | ⟨.writeKeyEnrollment person _ _, _⟩ => ∃ held,
    Leading (told (.listSecurityKeys person) held) log.script ∧ held.length < MAX_SECURITY_KEYS
  | ⟨.insertSecurityKey key, true⟩ =>
    FactorSet (told (.insertSecurityKey key) true) key.person log.script ∧ KeyEnrolled app log key
  | _ => True

theorem backed_of_reads {app : App} {call : Call} {log : Log} {one : Told}
    (reading : reads one.1 = true) : Backed app call log one := by
  obtain ⟨op, result⟩ := one
  cases op <;> trivial

/-- Every statement of a unit is backed. -/
def UnitBacked (app : App) (call : Call) (log : Log) : Prop :=
  ∀ one ∈ log.script, Backed app call log one

/-- A unit none of whose statements needs anything else so far. -/
def Plain (log : Log) : Prop := ∀ one ∈ log.script, ∀ app call later, Backed app call later one

theorem Reading.plain {log : Log} (reading : Reading log) : Plain log :=
  fun _ inside _ _ _ => backed_of_reads (reading _ inside)

theorem Plain.ran {log : Log} (plain : Plain log) {op : Op} {result : Res op}
    (free : ∀ app call later, Backed app call later ⟨op, result⟩) : Plain (log.ran op result) := by
  intro one inside
  rcases List.mem_append.mp inside with earlier | last
  · exact plain one earlier
  · rw [List.mem_singleton.mp last]
    exact free

theorem Plain.backed {app : App} {call : Call} {log later : Log} (plain : Plain log) :
    ∀ one ∈ log.script, Backed app call later one :=
  fun one inside => plain one inside app call later

/-- The tokens a client is given beside the refresh token a unit kept. -/
structure ResponseOf (response : TokenResponse) (token : RefreshToken) : Prop where
  refreshToken : response.refreshToken = token.tokenDigest
  clientId : response.accessToken.clientId = token.clientId
  session : response.accessToken.session = token.session

/-- What the answer of a call is backed by. -/
def AnswerBacked (call : Call) (answer : Answer) (log : Log) : Prop :=
  match call, answer with
  | .exchangeCode request, .tokens response => ∃ script token client code,
    (true, script) ∈ log.ended ∧ told (.insertRefreshToken token) true ∈ script ∧
    SpentCode log request client code ∧ ResponseOf response token ∧
    response.accessToken.scopes = token.scopes
  | .rotateRefreshToken request, .tokens response => ∃ script token,
    (true, script) ∈ log.ended ∧ told (.insertRefreshToken token) true ∈ script ∧
    ResponseOf response token ∧
    narrowScopes request.scope token.scopes = .ok response.accessToken.scopes
  | .readLiveSubject id, .subject (some subject) => Standing log.script id subject.1
  | _, .tokens _ | _, .subject (some _) => False
  | _, _ => True

section Rules

variable {α : Type} {guar : Log → Prop} {post : α → Log → Prop} {log : Log}

@[simp]
theorem logs_failed {code : ErrorCode} : (failed code : Run α).logs guar post log = True := rfl

@[simp]
theorem logs_orFail {code : ErrorCode} {value : Option α} :
    (orFail code value).logs guar post log = ∀ one, value = some one → post one log := by
  cases value with
  | none => simp [orFail]
  | some value => simp [orFail]

@[simp]
theorem logs_refuseIf {refused : Bool} {code : ErrorCode} {post : Unit → Log → Prop} :
    (refuseIf refused code).logs guar post log = (refused = false → post () log) := by
  cases refused with
  | true => simp [refuseIf]
  | false => simp [refuseIf]

@[simp]
theorem logs_tellNow {post : Instant → Log → Prop} :
    tellNow.logs guar post log = ∀ instant, post instant log := rfl

@[simp]
theorem logs_beginWork {post : Unit → Log → Prop} :
    beginWork.logs guar post log = post () (log.finish false) := rfl

@[simp]
theorem logs_dropWork {post : Unit → Log → Prop} :
    dropWork.logs guar post log = post () (log.finish false) := rfl

@[simp]
theorem logs_commitWork {post : Unit → Log → Prop} :
    commitWork.logs guar post log = (guar log ∧ post () (log.finish true)) := rfl

@[simp]
theorem logs_mintId {post : Uuid → Log → Prop} :
    mintId.logs guar post log = ∀ id, post id (log.drew (.id id)) := by
  simp only [mintId, Prog.logs_bind, eq_iff_iff]
  constructor
  · exact fun holds id => holds (.id id)
  · intro holds drawn
    cases drawn with
    | id id => exact holds id
    | secret digest => trivial

@[simp]
theorem logs_drawSecret {post : Bytes → Log → Prop} :
    drawSecret.logs guar post log = ∀ digest, post digest (log.drew (.secret digest)) := by
  simp only [drawSecret, Prog.logs_bind, eq_iff_iff]
  constructor
  · exact fun holds digest => holds (.secret digest)
  · intro holds drawn
    cases drawn with
    | id id => trivial
    | secret digest => exact holds digest

@[simp]
theorem logs_ite {condition : Prop} [Decidable condition] {yes no : Run α} :
    (if condition then yes else no).logs guar post log =
      ((condition → yes.logs guar post log) ∧ (¬condition → no.logs guar post log)) := by
  by_cases holds : condition
  · simp [holds]
  · simp [holds]

@[simp]
theorem logs_tellClient {app : App} {redirectUri : String} {state : Option String}
    {error : OAuthError} :
    (tellClient app redirectUri state error : Run α).logs guar post log = True := rfl

@[simp]
theorem logs_orTell {app : App} {redirectUri : String} {state : Option String}
    {error : OAuthError} {value : Option α} :
    (orTell app redirectUri state error value).logs guar post log =
      ∀ one, value = some one → post one log := by
  cases value with
  | none => simp [orTell]
  | some value => simp [orTell]

end Rules

end Saffui.Oidc
