import Saffui.Foundation.Runs
import Saffui.Oidc.Authorize

/-!
# The calls of a realm, and how they may only move its rows

Every call of the model under one type, so that a run interleaves any of them.
No call writes a client, a person, a password or a signing key. A session, a
code and a refresh token are never deleted; a session ends once, a code is
spent and replayed once, a token used and revoked once. `movement` says so of
every statement.
-/

namespace Saffui.Oidc
open Saffui.Foundation Saffui.Foundation.Language Saffui.Login

inductive Call where
  | beginAuthorization (parameters : AuthorizationParameters) (ticket : Option SessionTicket)
  | finishSignIn (request : Uuid) (browserDigest : Bytes) (answer : SignInAnswer)
  | answerConsent (request : Uuid) (browserDigest : Bytes) (ticket : Option SessionTicket)
      (decision : ConsentDecision)
  | exchangeCode (request : CodeRequest)
  | rotateRefreshToken (request : RefreshRequest)
  | revokeToken (clientId : String) (secretDigest : Option Bytes) (token : PresentedToken)
  | beginLogout (hint : Option String) (ticket : Option SessionTicket)
  | confirmLogout (ticket : SessionTicket)
  | withdrawMyConsent (ticket : Option SessionTicket) (clientId : String)
  | withdrawPersonConsent (person : Uuid) (clientId : String)
  | beginTotpEnrollment (ticket : Option SessionTicket)
  | confirmTotpEnrollment (ticket : Option SessionTicket) (password : Bytes) (code : String)
  | removeTotp (person : Uuid)
  | beginKeyEnrollment (ticket : Option SessionTicket) (password : Bytes)
  | finishKeyEnrollment (ticket : Option SessionTicket) (answer : Json)
  | removeSecurityKeys (person : Uuid)
  | resumeCodes (person : Uuid)
  | unlockPerson (username : String)
  /-- What a token presented asks of the session it names. -/
  | readLiveSubject (session : Uuid)

inductive Answer where
  | authorization (authorization : Authorization)
  | signIn (step : SignInStep)
  | returned (location : ReturnLocation)
  | tokens (response : TokenResponse)
  | subject (subject : Option (Session × Person))
  | done

/-- The live subject of a session, read in a unit of its own. -/
def askLiveSubject (session : Uuid) : Run (Option (Session × Person)) := do
  beginWork
  readLiveSubject session

def program (app : App) : Call → Run Answer
  | .beginAuthorization parameters ticket => do
    return .authorization (← beginAuthorization app parameters ticket)
  | .finishSignIn request browserDigest answer => do
    return .signIn (← finishSignIn app request browserDigest answer)
  | .answerConsent request browserDigest ticket decision => do
    return .returned (← answerConsent app request browserDigest ticket decision)
  | .exchangeCode request => do return .tokens (← exchangeCode app request)
  | .rotateRefreshToken request => do return .tokens (← rotateRefreshToken app request)
  | .revokeToken clientId secretDigest token => do
    revokeToken app clientId secretDigest token
    return .done
  | .beginLogout hint ticket => do
    let _ ← beginLogout app hint ticket
    return .done
  | .confirmLogout ticket => do
    confirmLogout ticket
    return .done
  | .withdrawMyConsent ticket clientId => do
    withdrawMyConsent ticket clientId
    return .done
  | .withdrawPersonConsent person clientId => do
    withdrawPersonConsent person clientId
    return .done
  | .beginTotpEnrollment ticket => do
    beginTotpEnrollment ticket
    return .done
  | .confirmTotpEnrollment ticket password code => do
    confirmTotpEnrollment app ticket password code
    return .done
  | .removeTotp person => do
    removeTotp person
    return .done
  | .beginKeyEnrollment ticket password => do
    let _ ← beginKeyEnrollment app ticket password
    return .done
  | .finishKeyEnrollment ticket answer => do
    finishKeyEnrollment app ticket answer
    return .done
  | .removeSecurityKeys person => do
    removeSecurityKeys person
    return .done
  | .resumeCodes person => do
    resumeCodes person
    return .done
  | .unlockPerson username => do
    unlockPerson app username
    return .done
  | .readLiveSubject session => do return .subject (← askLiveSubject session)

def calls (app : App) : language.Calls where
  Call := Call
  Answer := Answer
  program := program app

/-- Set once, and not again. -/
def SetOnce (before after : Option Instant) : Prop := before.isSome → after = before

theorem SetOnce.refl (at_ : Option Instant) : SetOnce at_ at_ := fun _ => rfl

theorem SetOnce.trans {first second third : Option Instant} (one : SetOnce first second)
    (other : SetOnce second third) : SetOnce first third := by
  intro set
  have same := one set
  rw [← same]
  exact other (by rw [same]; exact set)

theorem SetOnce.of_none {after : Option Instant} : SetOnce none after := nofun

theorem SetOnce.isSome {before after : Option Instant} (once : SetOnce before after)
    (set : before.isSome) : after.isSome := by
  rwa [once set]

/-- What becomes of a session: it may end. -/
def SessionMoves (before after : Session) : Prop :=
  after = { before with state := after.state } ∧ (before.state = .ended → after.state = .ended)

structure TokenMoves (before after : StoredRefreshToken) : Prop where
  token : after.token = before.token
  used : SetOnce before.usedAt after.usedAt
  revoked : SetOnce before.revokedAt after.revokedAt

structure CodeMoves (before after : StoredCode) : Prop where
  code : after.code = before.code
  spent : SetOnce before.spentAt after.spentAt
  replayed : SetOnce before.replayedAt after.replayedAt
  family : before.replayedAt.isSome → after.family = before.family
  bound : before.family.isSome → after.family.isSome

/-- A row that is there stays, moved as `moves` says. -/
def Stays {α : Type} (moves : α → α → Prop) (before after : Option α) : Prop :=
  ∀ row, before = some row → ∃ next, after = some next ∧ moves row next

theorem Stays.refl {α : Type} {moves : α → α → Prop} (same : ∀ row, moves row row) (row : Option α) :
    Stays moves row row :=
  fun one there => ⟨one, there, same one⟩

theorem Stays.trans {α : Type} {moves : α → α → Prop}
    (chain : ∀ {first second third}, moves first second → moves second third → moves first third)
    {first second third : Option α} (one : Stays moves first second)
    (other : Stays moves second third) : Stays moves first third := by
  intro row there
  obtain ⟨next, found, moved⟩ := one row there
  obtain ⟨last, kept, again⟩ := other next found
  exact ⟨last, kept, chain moved again⟩

def Grows : (key : Key) → Option (Row key) → Option (Row key) → Prop
  | .client _, before, after => after = before
  | .person _, before, after => after = before
  | .password _, before, after => after = before
  | .signingKey _, before, after => after = before
  | .session _, before, after => Stays SessionMoves before after
  | .token _, before, after => Stays TokenMoves before after
  | .code _, before, after => Stays CodeMoves before after
  | _, _, _ => True

theorem SessionMoves.refl (session : Session) : SessionMoves session session := ⟨rfl, id⟩

theorem SessionMoves.trans {first second third : Session} (one : SessionMoves first second)
    (other : SessionMoves second third) : SessionMoves first third := by
  obtain ⟨same, ended⟩ := one
  obtain ⟨again, stays⟩ := other
  refine ⟨?_, fun overlay => stays (ended overlay)⟩
  rw [again, same]

theorem TokenMoves.refl (stored : StoredRefreshToken) : TokenMoves stored stored :=
  ⟨rfl, .refl _, .refl _⟩

theorem TokenMoves.trans {first second third : StoredRefreshToken} (one : TokenMoves first second)
    (other : TokenMoves second third) : TokenMoves first third :=
  ⟨other.token.trans one.token, one.used.trans other.used, one.revoked.trans other.revoked⟩

theorem CodeMoves.refl (stored : StoredCode) : CodeMoves stored stored :=
  ⟨rfl, .refl _, .refl _, fun _ => rfl, id⟩

theorem CodeMoves.trans {first second third : StoredCode} (one : CodeMoves first second)
    (other : CodeMoves second third) : CodeMoves first third :=
  ⟨other.code.trans one.code, one.spent.trans other.spent, one.replayed.trans other.replayed,
    fun replayed => (other.family (one.replayed.isSome replayed)).trans (one.family replayed),
    fun bound => other.bound (one.bound bound)⟩

theorem Grows.refl (key : Key) (row : Option (Row key)) : Grows key row row := by
  cases key with
  | session => exact Stays.refl .refl row
  | token => exact Stays.refl .refl row
  | code => exact Stays.refl .refl row
  | client | person | password | signingKey => rfl
  | _ => trivial

theorem Grows.trans {key : Key} {first second third : Option (Row key)}
    (one : Grows key first second) (other : Grows key second third) : Grows key first third := by
  cases key with
  | session => exact Stays.trans .trans one other
  | token => exact Stays.trans .trans one other
  | code => exact Stays.trans .trans one other
  | client | person | password | signingKey => exact Eq.trans other one
  | _ => trivial

theorem Stays.of_none {α : Type} {moves : α → α → Prop} {after : Option α} :
    Stays moves none after := nofun

theorem Stays.of_some {α : Type} {moves : α → α → Prop} {row next : α} (moved : moves row next) :
    Stays moves (some row) (some next) := by
  intro one there
  obtain rfl := Option.some.inj there
  exact ⟨next, rfl, moved⟩

/-- What a statement makes of a row it picked is a move of it. -/
theorem sets_grows {op : Op} {seen : Db} {key : Key} {row : Row key}
    (picked : picks op seen key row = true) : Grows key (some row) (sets op key row) := by
  cases key with
  | client | person | password | signingKey => cases op <;> cases picked
  | session id =>
    cases op with
    | endSession | endSessionsProvenOnlyBy => exact Stays.of_some ⟨rfl, fun _ => rfl⟩
    | _ => cases picked
  | token digest =>
    cases op with
    | spendRefreshToken =>
      simp only [picks, ofToken, Bool.and_eq_true] at picked
      obtain ⟨⟨⟨⟨-, unused⟩, -⟩, -⟩, -⟩ := picked
      refine Stays.of_some ⟨rfl, ?_, .refl _⟩
      intro used
      rw [Option.isNone_iff_eq_none.mp unused] at used
      cases used
    | revokeRefreshFamily | revokeRefreshTokensOfSession | revokeRefreshTokensOfSessions =>
      simp only [picks, ofToken, Bool.and_eq_true] at picked
      refine Stays.of_some ⟨rfl, .refl _, ?_⟩
      intro revoked
      rw [Option.isNone_iff_eq_none.mp picked.2] at revoked
      cases revoked
    | revokeRefreshFamiliesOfClient =>
      simp only [picks, ofToken, Bool.and_eq_true] at picked
      refine Stays.of_some ⟨rfl, .refl _, ?_⟩
      intro revoked
      rw [Option.isNone_iff_eq_none.mp picked.1.2] at revoked
      cases revoked
    | _ => cases picked
  | code digest =>
    cases op with
    | spendAuthorizationCode =>
      simp only [picks, ofCode, Bool.and_eq_true] at picked
      refine Stays.of_some ⟨rfl, ?_, .refl _, fun _ => rfl, id⟩
      intro spent
      rw [Option.isNone_iff_eq_none.mp picked.1.2] at spent
      cases spent
    | bindCodeFamily =>
      simp only [picks, ofCode, Bool.and_eq_true] at picked
      refine Stays.of_some ⟨rfl, .refl _, .refl _, ?_, fun _ => rfl⟩
      intro replayed
      rw [Option.isNone_iff_eq_none.mp picked.2] at replayed
      cases replayed
    | markCodeReplayed =>
      simp only [picks, ofCode, Bool.and_eq_true] at picked
      refine Stays.of_some ⟨rfl, .refl _, ?_, fun _ => rfl, id⟩
      intro replayed
      rw [Option.isNone_iff_eq_none.mp picked.2] at replayed
      cases replayed
    | _ => cases picked
  | _ => trivial

/-- A row inserted was not there, or is of a table whose rows move as they
may. -/
theorem inserts_grows {op : Op} {now : Db} {write : Write Row} (inserted : inserts op now = some write) :
    Grows write.1 (now.lookup write.1) write.2 := by
  cases op with
  | insertSession | insertAuthorizationCode | insertRefreshToken =>
    simp only [inserts] at inserted
    split at inserted
    · next absent =>
      obtain rfl := Option.some.inj inserted
      rw [Option.isNone_iff_eq_none.mp absent]
      exact Stays.of_none
    · cases inserted
  | insertPendingAuthorization | insertSecurityKey =>
    simp only [inserts] at inserted
    split at inserted
    · obtain rfl := Option.some.inj inserted
      trivial
    · cases inserted
  | addConsent | countCodeAttempt | writeKeyEnrollment | recordLoginFailure =>
    obtain rfl := Option.some.inj inserted
    trivial
  | writePendingTotp =>
    have named := insertedKey_of_inserts inserted
    obtain ⟨key, row⟩ := write
    obtain rfl := Option.some.inj named
    trivial
  | _ => cases inserted

/-- A statement that inserts picks nothing. -/
theorem inserts_of_picks {op : Op} {seen now : Db} {key : Key} {row : Row key}
    (picked : picks op seen key row = true) : inserts op now = none := by
  cases op with
  | insertSession | insertAuthorizationCode | insertRefreshToken | insertPendingAuthorization
  | insertSecurityKey | addConsent | countCodeAttempt | writeKeyEnrollment | writePendingTotp
  | recordLoginFailure =>
    cases picked
  | _ => rfl

theorem nodup_writes (op : Op) (seen now : Db) : ((writes op seen now).map Sigma.fst).Nodup := by
  have keys : (writeEach (hits op seen now) fun key => (now.lookup key).bind (sets op key)).map
      Sigma.fst = hits op seen now := by
    simp [writeEach, Function.comp_def]
  have once : (hits op seen now).Nodup := (nodup_keysWhere _).filter _
  cases inserted : inserts op now with
  | none => simpa [writes, inserted, keys] using once
  | some write =>
    have none_hit : hits op seen now = [] := by
      rw [List.eq_nil_iff_forall_not_mem]
      intro key hit
      obtain ⟨⟨row, -, picked⟩, -⟩ := mem_hits.mp hit
      rw [inserts_of_picks picked] at inserted
      cases inserted
    simp [writes, none_hit, inserted, writeEach]

/-- How every statement may only move the rows. -/
def movement : Growth language where
  Grows := Grows
  refl := Grows.refl
  trans := Grows.trans
  run op seen now key := by
    rcases lookup_overlay_cases key (writes op seen now) now with same | written
    · change Grows key _ ((overlay (writes op seen now) now).lookup key)
      rw [same]
      exact Grows.refl key _
    · change Grows key _ ((overlay (writes op seen now) now).lookup key)
      rcases mem_writes written with ⟨hit, set⟩ | inserted
      · obtain ⟨-, row, found, picked⟩ := mem_hits.mp hit
        change (overlay (writes op seen now) now).lookup key = _ at set
        rw [set, found]
        exact sets_grows picked
      · exact inserts_grows inserted
  once := nodup_writes

end Saffui.Oidc
