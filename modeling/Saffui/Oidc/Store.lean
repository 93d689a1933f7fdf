import Mathlib.Data.List.Sort
import Mathlib.Algebra.GroupWithZero.Nat
import Saffui.Foundation.ReadCommitted
import Saffui.Oidc.Data

/-!
# What a realm keeps of its sign-ins, and the statements over it

Source: `store/src/stores/{clients,persons,sessions,codes,tokens,consents,
authenticators,security_keys,throttle}.rs`. The storage is that of one realm, as
every statement of the source names the tenant and the realm of its unit.

A statement that changes rows is told by three functions, as its SQL is: the
rows its `WHERE` picks, what its `SET` makes of one (nothing, where it
deletes), and the row it inserts. It picks among the rows it saw at its
start, locks them, and asks its `WHERE` again of each as it then finds it; a
`SELECT` inside it keeps to what was seen. A row inserted waits for whoever
writes its key, and gives way to one that is there.

The browsers a realm knows and the chain of audit events are of tables of
their own. Whether a browser is known is answered by the surroundings; of the
events only those that tell codes suspended and a key copied are kept, as
statements that write no row here.
-/

namespace Saffui.Oidc
open Saffui.Foundation Saffui.Login Saffui.Tokens

inductive Key where
  | client (clientId : String)
  | person (id : Uuid)
  | password (person : Uuid)
  | signingKey (keyId : String)
  | session (id : Uuid)
  | pending (id : Uuid)
  | code (digest : Bytes)
  | token (digest : Bytes)
  | consent (person : Uuid) (clientId : String)
  | totp (person : Uuid)
  | codeAttempts (person : Uuid)
  | securityKey (credentialId : Bytes)
  | keyEnrollment (person : Uuid)
  | loginFailures (digest : Bytes) (bucket : Instant)
  deriving DecidableEq

@[reducible]
def Row : Key → Type
  | .client _ => Client
  | .person _ => Person
  | .password _ => String
  | .signingKey _ => SigningKey
  | .session _ => Session
  | .pending _ => PendingAuthorization
  | .code _ => StoredCode
  | .token _ => StoredRefreshToken
  | .consent _ _ => Consent
  | .totp _ => TotpAuthenticator
  | .codeAttempts _ => Nat
  | .securityKey _ => SecurityKey
  | .keyEnrollment _ => KeyEnrollment
  | .loginFailures _ _ => Nat

abbrev Db := AList Row

namespace Db

variable (db : Db)

def client (clientId : String) : Option Client := db.lookup (Key.client clientId)

def person (id : Uuid) : Option Person := db.lookup (Key.person id)

def session (id : Uuid) : Option Session := db.lookup (Key.session id)

def pending (id : Uuid) : Option PendingAuthorization := db.lookup (Key.pending id)

def code (digest : Bytes) : Option StoredCode := db.lookup (Key.code digest)

def token (digest : Bytes) : Option StoredRefreshToken := db.lookup (Key.token digest)

def consent (person : Uuid) (clientId : String) : Option Consent :=
  db.lookup (Key.consent person clientId)

def totp (person : Uuid) : Option TotpAuthenticator := db.lookup (Key.totp person)

def codeAttempts (person : Uuid) : Option Nat := db.lookup (Key.codeAttempts person)

def securityKey (credentialId : Bytes) : Option SecurityKey := db.lookup (Key.securityKey credentialId)

def keyEnrollment (person : Uuid) : Option KeyEnrollment := db.lookup (Key.keyEnrollment person)

end Db

/-- The events of the audit chain the model keeps. -/
inductive EventKind where
  | codesSuspended
  | keyCopySuspected
  deriving DecidableEq, Repr

inductive Op where
  | readClient (clientId : String)
  | readPerson (id : Uuid)
  | readPersonByUsername (username : String)
  | readPassword (person : Uuid)
  | listSigningKeys
  | insertSession (session : Session)
  | readSession (id : Uuid)
  | endSession (id : Uuid)
  | endSessionsProvenOnlyBy (person : Uuid) (methods : List AuthenticationMethod)
      (kept : Option Uuid)
  | insertPendingAuthorization (pending : PendingAuthorization)
  | readPendingAuthorization (id : Uuid) (now : Instant)
  | markFirstFactor (id person : Uuid) (keyProof : Option PendingKeyProof) (now : Instant)
  | markConsentOwed (id session : Uuid) (now : Instant)
  | takePendingAuthorization (id : Uuid) (now : Instant)
  | insertAuthorizationCode (code : AuthorizationCode)
  | spendAuthorizationCode (digest : Bytes) (now : Instant)
  | bindCodeFamily (digest : Bytes) (family : Uuid)
  | markCodeReplayed (digest : Bytes) (clientId : String) (now : Instant)
  | insertRefreshToken (token : RefreshToken)
  | spendRefreshToken (digest : Bytes) (clientId : String) (now : Instant)
  | readRefreshToken (digest : Bytes)
  | revokeRefreshFamily (family : Uuid) (now : Instant)
  | revokeRefreshFamiliesOfClient (person : Uuid) (clientId : String) (now : Instant)
  | revokeRefreshTokensOfSession (session : Uuid) (now : Instant)
  | revokeRefreshTokensOfSessions (sessions : List Uuid) (now : Instant)
  | readConsent (person : Uuid) (clientId : String)
  | holdConsent (person : Uuid) (clientId : String)
  | readConsentTerms (person : Uuid) (clientId : String)
  | addConsent (consent : Consent)
  | deleteConsent (person : Uuid) (clientId : String)
  | readTotp (person : Uuid)
  | writePendingTotp (authenticator : TotpAuthenticator)
  | acceptTotpStep (person : Uuid) (judged : Bytes) (step : Int) (usedFor : TotpUse)
      (now : Instant)
  | deleteTotp (person : Uuid)
  | countCodeAttempt (person : Uuid)
  | clearCodeAttempts (person : Uuid)
  | clearCodeAttemptsBelow (person : Uuid) (bound : Nat)
  | holdsSecondFactor (person : Uuid)
  | insertSecurityKey (key : SecurityKey)
  | listSecurityKeys (person : Uuid)
  | recordKeyUse (judged : SecurityKey) (record : Option Bytes) (now : Instant)
  | deleteSecurityKeys (person : Uuid)
  | writeKeyEnrollment (person : Uuid) (state : Bytes) (expiresAt : Instant)
  | takeKeyEnrollment (person : Uuid) (now : Instant)
  | countLoginFailures (digest : Bytes) (since : Instant)
  | recordLoginFailure (digest : Bytes) (bucket : Instant)
  | forgetLoginFailures (digest : Bytes)
  | recordEvent (kind : EventKind) (person : Uuid)

abbrev Res : Op → Type
  | .readClient _ => Option Client
  | .readPerson _ | .readPersonByUsername _ => Option Person
  | .readPassword _ => Option String
  | .listSigningKeys => List SigningKey
  | .readSession _ => Option ReadSession
  | .endSessionsProvenOnlyBy _ _ _ => List Uuid
  | .readPendingAuthorization _ _ | .takePendingAuthorization _ _ => Option PendingAuthorization
  | .spendAuthorizationCode _ _ => Option AuthorizationCode
  | .markCodeReplayed _ _ _ => Option ReplayedCode
  | .spendRefreshToken _ _ _ => Option RefreshToken
  | .readRefreshToken _ => Option StoredRefreshToken
  | .readConsent _ _ => Option Consent
  | .holdConsent _ _ => Option (List String)
  | .readConsentTerms _ _ => Option ConsentTerms
  | .readTotp _ => Option TotpAuthenticator
  | .countCodeAttempt _ => Nat
  | .listSecurityKeys _ => List SecurityKey
  | .takeKeyEnrollment _ _ => Option Bytes
  | .revokeRefreshFamily _ _ | .revokeRefreshFamiliesOfClient _ _ _
  | .revokeRefreshTokensOfSession _ _ | .revokeRefreshTokensOfSessions _ _
  | .deleteSecurityKeys _ | .countLoginFailures _ _ => Nat
  | .addConsent _ | .clearCodeAttempts _ | .clearCodeAttemptsBelow _ _ | .writeKeyEnrollment _ _ _
  | .recordLoginFailure _ _ | .forgetLoginFailures _ | .recordEvent _ _ => Unit
  | .insertSession _ | .endSession _ | .insertPendingAuthorization _ | .markFirstFactor _ _ _ _
  | .markConsentOwed _ _ _ | .insertAuthorizationCode _ | .bindCodeFamily _ _
  | .insertRefreshToken _ | .deleteConsent _ _ | .writePendingTotp _ | .acceptTotpStep _ _ _ _ _
  | .deleteTotp _ | .holdsSecondFactor _ | .insertSecurityKey _ | .recordKeyUse _ _ _ => Bool

section Tests

def ofSession (test : Uuid → Session → Bool) : (key : Key) → Row key → Bool
  | .session id, session => test id session
  | _, _ => false

def ofPending (test : Uuid → PendingAuthorization → Bool) : (key : Key) → Row key → Bool
  | .pending id, pending => test id pending
  | _, _ => false

def ofCode (test : Bytes → StoredCode → Bool) : (key : Key) → Row key → Bool
  | .code digest, stored => test digest stored
  | _, _ => false

def ofToken (test : Bytes → StoredRefreshToken → Bool) : (key : Key) → Row key → Bool
  | .token digest, stored => test digest stored
  | _, _ => false

def ofConsent (test : Uuid → String → Bool) : (key : Key) → Row key → Bool
  | .consent person clientId, _ => test person clientId
  | _, _ => false

def ofTotp (test : Uuid → TotpAuthenticator → Bool) : (key : Key) → Row key → Bool
  | .totp person, authenticator => test person authenticator
  | _, _ => false

def ofCodeAttempts (test : Uuid → Nat → Bool) : (key : Key) → Row key → Bool
  | .codeAttempts person, attempts => test person attempts
  | _, _ => false

def ofSecurityKey (test : Bytes → SecurityKey → Bool) : (key : Key) → Row key → Bool
  | .securityKey credentialId, held => test credentialId held
  | _, _ => false

def ofKeyEnrollment (test : Uuid → KeyEnrollment → Bool) : (key : Key) → Row key → Bool
  | .keyEnrollment person, enrollment => test person enrollment
  | _, _ => false

def ofLoginFailures (test : Bytes → Bool) : (key : Key) → Row key → Bool
  | .loginFailures digest _, _ => test digest
  | _, _ => false

end Tests

/-- A token of the family was revoked. -/
def hasRevokedKin (db : Db) (family : Uuid) : Bool :=
  !(keysWhere db (ofToken fun _ kin => kin.token.family = family && kin.revokedAt.isSome)).isEmpty

def pickRevocation (family : Uuid) : (key : Key) → Row key → Option Instant
  | .token _, kin => if kin.token.family = family then kin.revokedAt else none
  | _, _ => none

def pickPerson (username : String) : (key : Key) → Row key → Option Person
  | .person _, person => if person.username = username then some person else none
  | _, _ => none

def pickSigningKey : (key : Key) → Row key → Option SigningKey
  | .signingKey _, key => some key
  | _, _ => none

def pickSecurityKey (person : Uuid) : (key : Key) → Row key → Option SecurityKey
  | .securityKey _, held => if held.person = person then some held else none
  | _, _ => none

def pickFailures (digest : Bytes) (since : Instant) : (key : Key) → Row key → Option Nat
  | .loginFailures one bucket, failures => if one = digest ∧ bucket ≥ since then some failures else none
  | _, _ => none

/-- A confirmed authenticator application, or a security key. -/
def personHoldsFactor (db : Db) (person : Uuid) : Bool :=
  (Db.totp db person).any (fun authenticator => authenticator.confirmedAt.isSome) ||
    !(scan db (pickSecurityKey person)).isEmpty

/-- A token as it reads: revoked from the first revocation in its family. -/
def readToken (db : Db) (stored : StoredRefreshToken) : StoredRefreshToken :=
  { stored with
    revokedAt := stored.revokedAt <|> (scan db (pickRevocation stored.token.family)).min? }

/-- The keys of a person, the oldest first. -/
def listKeys (db : Db) (person : Uuid) : List SecurityKey :=
  (scan db (pickSecurityKey person)).insertionSort fun first second =>
    first.createdAt < second.createdAt ∨
      (first.createdAt = second.createdAt ∧ first.credentialId ≤ second.credentialId)

/-- The rows the `WHERE` of a statement picks. -/
def picks (op : Op) (seen : Db) : (key : Key) → Row key → Bool :=
  match op with
  | .endSession id => ofSession fun key session => key = id && session.state = .active
  | .endSessionsProvenOnlyBy person methods kept => ofSession fun key session =>
    session.person = person && session.state = .active && session.methods = methods &&
      some key ≠ kept
  | .markFirstFactor id _ _ now => ofPending fun key pending => key = id && pending.expiresAt > now
  | .markConsentOwed id _ now => ofPending fun key pending =>
    key = id && pending.expiresAt > now && pending.consentSession.isNone
  | .takePendingAuthorization id now => ofPending fun key pending =>
    key = id && pending.expiresAt > now
  | .spendAuthorizationCode digest now => ofCode fun key stored =>
    key = digest && stored.spentAt.isNone && stored.code.expiresAt > now
  | .bindCodeFamily digest _ => ofCode fun key stored =>
    key = digest && stored.spentAt.isSome && stored.replayedAt.isNone
  | .markCodeReplayed digest clientId _ => ofCode fun key stored =>
    key = digest && stored.code.clientId = clientId && stored.spentAt.isSome &&
      stored.replayedAt.isNone
  | .spendRefreshToken digest clientId now => ofToken fun key stored =>
    key = digest && stored.token.clientId = clientId && stored.usedAt.isNone &&
      stored.revokedAt.isNone && stored.token.expiresAt > now &&
      !hasRevokedKin seen stored.token.family
  | .revokeRefreshFamily family _ => ofToken fun _ stored =>
    stored.token.family = family && stored.revokedAt.isNone
  | .revokeRefreshFamiliesOfClient person clientId _ => ofToken fun _ stored =>
    stored.token.person = person && stored.token.clientId = clientId && stored.revokedAt.isNone &&
      (Db.session seen stored.token.session).any fun session => session.person = person
  | .revokeRefreshTokensOfSession session _ => ofToken fun _ stored =>
    stored.token.session = session && stored.revokedAt.isNone
  | .revokeRefreshTokensOfSessions sessions _ => ofToken fun _ stored =>
    stored.token.session ∈ sessions && stored.revokedAt.isNone
  | .deleteConsent person clientId => ofConsent fun one other => one = person && other = clientId
  | .acceptTotpStep person judged step usedFor _ => ofTotp fun key authenticator =>
    key = person && authenticator.sealedSecret = judged &&
      authenticator.confirmedAt.isNone = decide (usedFor = .confirmation) &&
      authenticator.lastStep.all (· < step)
  | .deleteTotp person => ofTotp fun key _ => key = person
  | .clearCodeAttempts person => ofCodeAttempts fun key _ => key = person
  | .clearCodeAttemptsBelow person bound => ofCodeAttempts fun key attempts =>
    key = person && attempts < bound
  | .recordKeyUse judged _ _ => ofSecurityKey fun key held =>
    key = judged.credentialId && held.person = judged.person && held.record = judged.record &&
      held.lastUsedAt = judged.lastUsedAt
  | .deleteSecurityKeys person => ofSecurityKey fun _ held => held.person = person
  | .takeKeyEnrollment person now => ofKeyEnrollment fun key enrollment =>
    key = person && enrollment.expiresAt > now
  | .forgetLoginFailures digest => ofLoginFailures fun one => one = digest
  | _ => fun _ _ => false

/-- What a statement makes of a row it picked: nothing, where it deletes. -/
def sets (op : Op) (key : Key) (row : Row key) : Option (Row key) :=
  match op, key, row with
  | .endSession _, .session _, session => some { session with state := .ended }
  | .endSessionsProvenOnlyBy _ _ _, .session _, session => some { session with state := .ended }
  | .markFirstFactor _ person keyProof _, .pending _, pending =>
    some { pending with firstFactor := some person, keyProof := keyProof }
  | .markConsentOwed _ session _, .pending _, pending =>
    some { pending with consentSession := some session }
  | .takePendingAuthorization _ _, .pending _, _ => none
  | .spendAuthorizationCode _ now, .code _, stored => some { stored with spentAt := some now }
  | .bindCodeFamily _ family, .code _, stored => some { stored with family := some family }
  | .markCodeReplayed _ _ now, .code _, stored => some { stored with replayedAt := some now }
  | .spendRefreshToken _ _ now, .token _, stored => some { stored with usedAt := some now }
  | .revokeRefreshFamily _ now, .token _, stored => some { stored with revokedAt := some now }
  | .revokeRefreshFamiliesOfClient _ _ now, .token _, stored =>
    some { stored with revokedAt := some now }
  | .revokeRefreshTokensOfSession _ now, .token _, stored =>
    some { stored with revokedAt := some now }
  | .revokeRefreshTokensOfSessions _ now, .token _, stored =>
    some { stored with revokedAt := some now }
  | .deleteConsent _ _, .consent _ _, _ => none
  | .acceptTotpStep _ _ step _ now, .totp _, authenticator =>
    some { authenticator with
      lastStep := some step, confirmedAt := authenticator.confirmedAt <|> some now }
  | .deleteTotp _, .totp _, _ => none
  | .clearCodeAttempts _, .codeAttempts _, _ => none
  | .clearCodeAttemptsBelow _ _, .codeAttempts _, _ => none
  | .recordKeyUse judged record now, .securityKey _, held =>
    some { held with record := record.getD judged.record, lastUsedAt := some now }
  | .deleteSecurityKeys _, .securityKey _, _ => none
  | .takeKeyEnrollment _ _, .keyEnrollment _, _ => none
  | .forgetLoginFailures _, .loginFailures _ _, _ => none
  | _, _, row => some row

/-- The row a statement inserts, beside what is there under its key. Nothing,
where what is there stands. -/
def inserts (op : Op) (now : Db) : Option (Write Row) :=
  let new := fun (key : Key) (row : Row key) =>
    if (now.lookup key).isNone then some (⟨key, some row⟩ : Write Row) else none
  match op with
  | .insertSession session => new (.session session.id) session
  | .insertPendingAuthorization pending => new (.pending pending.id) pending
  | .insertAuthorizationCode code => new (.code code.codeDigest) ⟨code, none, none, none⟩
  | .insertRefreshToken token => new (.token token.tokenDigest) ⟨token, none, none⟩
  | .insertSecurityKey key => new (.securityKey key.credentialId) key
  | .addConsent consent =>
    let widened := match Db.consent now consent.person consent.clientId with
      | some kept =>
        { consent with scopes := kept.scopes ++ consent.scopes.filter (· ∉ kept.scopes) }
      | none => consent
    some ⟨.consent consent.person consent.clientId, some widened⟩
  | .writePendingTotp authenticator =>
    match Db.totp now authenticator.person with
    | some kept =>
      if kept.confirmedAt.isNone then
        some ⟨.totp authenticator.person, some { kept with
          sealedSecret := authenticator.sealedSecret, createdAt := authenticator.createdAt
          lastStep := none }⟩
      else none
    | none => some ⟨.totp authenticator.person,
        some { authenticator with confirmedAt := none, lastStep := none }⟩
  | .countCodeAttempt person =>
    some ⟨.codeAttempts person, some ((Db.codeAttempts now person).elim 1 fun counted =>
      min counted 1000000 + 1)⟩
  | .writeKeyEnrollment person state expiresAt =>
    some ⟨.keyEnrollment person, some ⟨state, expiresAt⟩⟩
  | .recordLoginFailure digest bucket =>
    let failures : Option Nat := now.lookup (.loginFailures digest bucket)
    some ⟨.loginFailures digest bucket, some (failures.elim 1 (· + 1))⟩
  | _ => none

/-- The key of the row a statement would insert. -/
def insertedKey : Op → Option Key
  | .insertSession session => some (.session session.id)
  | .insertPendingAuthorization pending => some (.pending pending.id)
  | .insertAuthorizationCode code => some (.code code.codeDigest)
  | .insertRefreshToken token => some (.token token.tokenDigest)
  | .insertSecurityKey key => some (.securityKey key.credentialId)
  | .addConsent consent => some (.consent consent.person consent.clientId)
  | .writePendingTotp authenticator => some (.totp authenticator.person)
  | .countCodeAttempt person => some (.codeAttempts person)
  | .writeKeyEnrollment person _ _ => some (.keyEnrollment person)
  | .recordLoginFailure digest bucket => some (.loginFailures digest bucket)
  | _ => none

/-- The rows a statement changes: those it picked that still pass. -/
def hits (op : Op) (seen now : Db) : List Key :=
  (keysWhere seen (picks op seen)).filter fun key => (now.lookup key).any (picks op seen key)

def writes (op : Op) (seen now : Db) : List (Write Row) :=
  writeEach (hits op seen now) (fun key => (now.lookup key).bind (sets op key)) ++
    (inserts op now).toList

def locks (op : Op) (seen : Db) : List (Key × LockMode) :=
  match op with
  | .holdConsent person clientId =>
    if (Db.consent seen person clientId).isSome then [(.consent person clientId, .share)] else []
  | op => (keysWhere seen (picks op seen)).map (·, .exclusive) ++
      ((insertedKey op).map (·, LockMode.exclusive)).toList

/-- What a statement answers. -/
def answer (op : Op) (seen now : Db) : Res op :=
  let changed := !(hits op seen now).isEmpty
  match op with
  | .readClient clientId => Db.client seen clientId
  | .readPerson id => Db.person seen id
  | .readPersonByUsername username => (scan seen (pickPerson username)).head?
  | .readPassword person => seen.lookup (Key.password person)
  | .listSigningKeys => scan seen pickSigningKey
  | .readSession id => (Db.session seen id).map fun session =>
    ⟨session, personHoldsFactor seen session.person⟩
  | .endSessionsProvenOnlyBy person methods kept =>
    (hits (.endSessionsProvenOnlyBy person methods kept) seen now).filterMap fun key =>
      match key with
      | .session id => some id
      | _ => none
  | .readPendingAuthorization id instant => (Db.pending seen id).filter fun pending =>
    pending.expiresAt > instant
  | .takePendingAuthorization id _ => if changed then Db.pending now id else none
  | .spendAuthorizationCode digest _ =>
    if changed then (Db.code now digest).map StoredCode.code else none
  | .markCodeReplayed digest _ _ =>
    if changed then (Db.code now digest).map fun stored =>
      ⟨stored.code.person, stored.code.session, stored.family⟩
    else none
  | .spendRefreshToken digest _ _ =>
    if changed then (Db.token now digest).map StoredRefreshToken.token else none
  | .readRefreshToken digest => (Db.token seen digest).map (readToken seen)
  | .readConsent person clientId => Db.consent seen person clientId
  | .holdConsent person clientId =>
    if (Db.consent seen person clientId).isSome then
      (Db.consent now person clientId).map Consent.scopes
    else none
  | .readConsentTerms person clientId => (Db.client seen clientId).map fun client =>
    ⟨client.requiresConsent, (Db.consent seen person clientId).map Consent.scopes⟩
  | .readTotp person => Db.totp seen person
  | .countCodeAttempt person => (Db.codeAttempts now person).elim 1 fun counted =>
    min counted 1000000 + 1
  | .listSecurityKeys person => listKeys seen person
  | .takeKeyEnrollment person _ =>
    if changed then (Db.keyEnrollment now person).map KeyEnrollment.state else none
  | .holdsSecondFactor person => personHoldsFactor seen person
  | .revokeRefreshFamily family instant => (hits (.revokeRefreshFamily family instant) seen now).length
  | .revokeRefreshFamiliesOfClient person clientId instant =>
    (hits (.revokeRefreshFamiliesOfClient person clientId instant) seen now).length
  | .revokeRefreshTokensOfSession session instant =>
    (hits (.revokeRefreshTokensOfSession session instant) seen now).length
  | .revokeRefreshTokensOfSessions sessions instant =>
    (hits (.revokeRefreshTokensOfSessions sessions instant) seen now).length
  | .deleteSecurityKeys person => (hits (.deleteSecurityKeys person) seen now).length
  | .countLoginFailures digest since => (scan seen (pickFailures digest since)).sum
  | .addConsent _ | .clearCodeAttempts _ | .clearCodeAttemptsBelow _ _ | .writeKeyEnrollment _ _ _
  | .recordLoginFailure _ _ | .forgetLoginFailures _ | .recordEvent _ _ => ()
  | .insertSession session => (inserts (.insertSession session) now).isSome
  | .insertPendingAuthorization pending => (inserts (.insertPendingAuthorization pending) now).isSome
  | .insertAuthorizationCode code => (inserts (.insertAuthorizationCode code) now).isSome
  | .insertRefreshToken token => (inserts (.insertRefreshToken token) now).isSome
  | .insertSecurityKey key => (inserts (.insertSecurityKey key) now).isSome
  | .writePendingTotp authenticator => (inserts (.writePendingTotp authenticator) now).isSome
  | .endSession _ | .markFirstFactor _ _ _ _ | .markConsentOwed _ _ _ | .bindCodeFamily _ _
  | .deleteConsent _ _ | .acceptTotpStep _ _ _ _ _ | .deleteTotp _ | .recordKeyUse _ _ _ => changed

def run (op : Op) (seen now : Db) : List (Write Row) × Res op :=
  (writes op seen now, answer op seen now)

theorem insertedKey_of_inserts {op : Op} {now : Db} {write : Write Row}
    (inserted : inserts op now = some write) : insertedKey op = some write.1 := by
  cases op with
  | insertSession | insertPendingAuthorization | insertAuthorizationCode | insertRefreshToken
  | insertSecurityKey =>
    simp only [inserts] at inserted
    split at inserted
    · rw [← Option.some.inj inserted]
      rfl
    · cases inserted
  | addConsent | countCodeAttempt | writeKeyEnrollment | recordLoginFailure =>
    rw [← Option.some.inj inserted]
    rfl
  | writePendingTotp =>
    simp only [inserts] at inserted
    split at inserted
    · split at inserted
      · rw [← Option.some.inj inserted]
        rfl
      · cases inserted
    · rw [← Option.some.inj inserted]
      rfl
  | _ => cases inserted

/-- What a statement writes it picked, or inserts. -/
theorem mem_writes {op : Op} {seen now : Db} {write : Write Row} (inside : write ∈ writes op seen now) :
    (write.1 ∈ hits op seen now ∧ write.2 = (now.lookup write.1).bind (sets op write.1)) ∨
      inserts op now = some write := by
  rcases List.mem_append.mp inside with updated | inserted
  · exact Or.inl (mem_writeEach_iff.mp updated)
  · exact Or.inr (Option.mem_toList.mp inserted)

theorem mem_hits {op : Op} {seen now : Db} {key : Key} :
    key ∈ hits op seen now ↔ (∃ row, seen.lookup key = some row ∧ picks op seen key row = true) ∧
      ∃ row, now.lookup key = some row ∧ picks op seen key row = true := by
  rw [hits, List.mem_filter, mem_keysWhere_iff, Option.any_eq_true]

theorem run_locked (op : Op) (seen now : Db) (write : Write Row)
    (inside : write ∈ (run op seen now).1) : (write.1, LockMode.exclusive) ∈ locks op seen := by
  have picked : (write.1, LockMode.exclusive) ∈
      (keysWhere seen (picks op seen)).map (·, LockMode.exclusive) ++
        ((insertedKey op).map (·, LockMode.exclusive)).toList := by
    rcases mem_writes inside with ⟨hit, -⟩ | inserted
    · exact List.mem_append_left _ (List.mem_map.mpr ⟨_, (List.mem_filter.mp hit).1, rfl⟩)
    · rw [insertedKey_of_inserts inserted]
      simp
  cases op with
  | holdConsent person clientId =>
    rcases mem_writes inside with ⟨hit, -⟩ | inserted
    · obtain ⟨⟨row, -, impossible⟩, -⟩ := mem_hits.mp hit
      cases impossible
    · cases inserted
  | _ => exact picked

/-- What is drawn: an identifier, or a secret, known by its digest. -/
inductive Drawn where
  | id (id : Uuid)
  | secret (digest : Bytes)
  deriving DecidableEq

/-- What a program asks its surroundings. -/
inductive Ask where
  | now
  /-- Whether a share of the hashers is free. -/
  | hasFreeShare
  /-- The address of the caller, as the counters name it. -/
  | callerAddress
  /-- The browser of the caller, proven to be one the realm keeps for a
  person. -/
  | knownBrowser (person : Option Uuid)
  /-- The browser of the caller, when the realm keeps it for anyone. -/
  | keptBrowser
  /-- Whether the key of the realm opens and signs the tokens of an answer,
  the roles they say read. -/
  | signs
  | startProof (held : List Bytes)
  | startEnrollment (person : Uuid) (held : List Bytes)
  /-- A one-time secret, made and sealed for a person. -/
  | sealTotpSecret (person : Uuid)
  /-- The time step of which a code is the code of a sealed secret. -/
  | findTotpStep (sealedSecret : Bytes) (code : String) (now : Instant)

abbrev Ans : Ask → Type
  | .now => Instant
  | .hasFreeShare | .signs => Bool
  | .callerAddress => Option String
  | .knownBrowser _ | .keptBrowser => Option Uuid
  | .startProof _ | .startEnrollment _ _ => Option KeyCeremony
  | .sealTotpSecret _ => Option Bytes
  | .findTotpStep _ _ _ => Except ErrorCode (Option Int)

/-- Why a call was refused: told to the person, or sent to the client. -/
inductive Refusal where
  | failed (code : ErrorCode)
  | returned (location : ReturnLocation)
  deriving DecidableEq, Repr

@[reducible]
def language : Language where
  Key := Key
  Row := Row
  Op := Op
  Res := Res
  locks := locks
  run := run
  run_locked := run_locked
  Ask := Ask
  Ans := Ans
  Id := Drawn
  Err := Refusal

end Saffui.Oidc
