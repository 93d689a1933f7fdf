import Saffui.Authz.RoleClaims
import Saffui.Oidc.Data
import Saffui.Tokens.Realms

/-!
# What a client is told of a token

Source: `saffui-core/src/oidc/introspect.rs`, over the tables a decision reads
and the refresh tokens a realm keeps, by their digest. What is told of an
access token is what it says; the roles are those held now.
-/

namespace Saffui.Tokens.Introspect
open Foundation Authz Login RoleClaims

/-- What is said of a token. Of a token that does not stand, only that. -/
structure Introspection where
  active : Bool
  scope : Option String
  clientId : Option String
  sub : Option String
  iss : Option String
  exp : Option Int
  iat : Option Int
  jti : Option String
  sid : Option String
  tokenType : Option String
  /-- The roles the person holds now, not those the token was made with. -/
  realmAccess : Option Json
  resourceAccess : Option Json
  deriving DecidableEq

def Introspection.default : Introspection :=
  ⟨false, none, none, none, none, none, none, none, none, none, none, none⟩

def ROLES_SCOPE : String := "roles"

/-- A refresh token that was neither spent nor revoked, and has not expired. -/
def isLive (stored : Oidc.StoredRefreshToken) (now : Instant) : Bool :=
  stored.usedAt.isNone && stored.revokedAt.isNone && stored.token.expiresAt > now

/-- When an answer that says roles ends: no later than the first of them. -/
def endOf (claims : AccessTokenClaims) (roles : Option RoleClaims) : Int :=
  match roles.bind RoleClaims.ends with
  | some ends => min (unixTimestamp ends) claims.expiresAt
  | none => claims.expiresAt

/-- The roles of an application are told to it alone. -/
def ofAccess (client : Client) (issuer : String) (claims : AccessTokenClaims)
    (roles : Option RoleClaims) : Introspection where
  active := true
  scope := some (String.intercalate " " claims.scopes)
  clientId := some claims.clientId
  sub := some claims.subject
  iss := some issuer
  exp := some (endOf claims roles)
  iat := some claims.issuedAt
  jti := some claims.tokenId
  sid := claims.session.map Uuid.text
  tokenType := some "Bearer"
  realmAccess := roles.map RoleClaims.writeRealmAccess
  resourceAccess :=
    if client.clientId = claims.clientId then
      roles.map fun roles => roles.writeResourceAccess claims.clientId
    else none

def ofRefresh (issuer : String) (token : Oidc.RefreshToken) : Introspection where
  active := true
  scope := some (String.intercalate " " token.scopes)
  clientId := some token.clientId
  sub := some token.person.text
  iss := some issuer
  exp := some (unixTimestamp token.expiresAt)
  iat := some (unixTimestamp token.issuedAt)
  jti := none
  sid := some token.session.text
  tokenType := none
  realmAccess := none
  resourceAccess := none

section Introspect

variable (node : Node) (around : Around) (state : RealmState) (client : Client) (issuer : String)

def readAskedRoles (claims : AccessTokenClaims) (person : Option Uuid) (now : Instant) :
    AskM (Option RoleClaims) :=
  match person with
  | none => return none
  | some person =>
    if ROLES_SCOPE ∈ claims.scopes then do
      let roles ← readRoleClaims around state person claims.clientId now
      return some roles
    else return none

def tellOfPerson (claims : AccessTokenClaims) (now : Instant) (person : Option Uuid) :
    AskM Introspection := do
  let roles ← readAskedRoles around state claims person now
  return ofAccess client issuer claims roles

def introspectAccess (claims : AccessTokenClaims) (now : Instant) : AskM Introspection :=
  match claims.session with
  | none => tellOfPerson around state client issuer claims now none
  | some session => do
    match ← Authz.readLiveSubject around state session with
    | none => return .default
    | some (_, person) => tellOfPerson around state client issuer claims now (some person.id)

def introspectRefresh (kept : Option Oidc.StoredRefreshToken) (now : Instant) :
    AskM Introspection := do
  let stored ← readStorage around kept
  match stored.filter fun stored => isLive stored now && stored.token.clientId = client.clientId with
  | none => return .default
  | some stored => do
    match ← Authz.readLiveSubject around state stored.token.session with
    | none => return .default
    | some _ => return ofRefresh issuer stored.token

/-- Tells a client whether a token stands, and what it says. -/
def introspectToken (realms : String → Option RealmState)
    (refreshTokens : String → Bytes → Option Oidc.StoredRefreshToken) (realm : String)
    (clientId : Option String) (clientSecret : Option Bytes) (token : Option String) :
    AskM Introspection := do
  let state ← resolveRealm around realms realm
  match clientId, clientSecret with
  | some clientId, some clientSecret => do
    readStorage around ()
    let client ← Authz.authenticateClient node around state clientId clientSecret
    match token with
    | none => AskM.fail .requestInvalid
    | some token => do
      let now ← readClock around
      match ← Authz.verifyAccessToken node around state (Authz.nameIssuer node realm) token with
      | some claims =>
        introspectAccess around state client (Authz.nameIssuer node realm) claims now
      | none =>
        introspectRefresh around state client (Authz.nameIssuer node realm)
          (refreshTokens realm (node.sha256 (Text.utf8 token))) now
  | _, _ => AskM.fail .clientAuthenticationFailed

end Introspect

section Told

variable {node : Node} {around : Around} {state : RealmState} {client : Client} {issuer : String}
  {claims : AccessTokenClaims} {now : Instant} {before after : Readings} {answer : Introspection}

/-- A session that answers for an enabled person, at an instant the clock
showed meanwhile. -/
def Lives (around : Around) (state : RealmState) (before after : Readings)
    (session person : Uuid) : Prop :=
  ∃ read reading kept, Shown before after reading ∧ state.readSession session = some read ∧
    stands read (around.now reading) ∧ state.readPerson read.session.person = some kept ∧
    kept.enabled ∧ kept.id = person

/-- The person behind an access token, where one is. -/
inductive Behind (around : Around) (state : RealmState) (before after : Readings)
    (claims : AccessTokenClaims) : Option Uuid → Prop where
  | service (alone : claims.session = none) : Behind around state before after claims none
  | person {session person : Uuid} (named : claims.session = some session)
      (lives : Lives around state before after session person) :
      Behind around state before after claims (some person)

/-- The roles an answer says of a person, at an instant. -/
def rolesAt (state : RealmState) (claims : AccessTokenClaims) (now : Instant) :
    Option Uuid → Option RoleClaims
  | none => none
  | some person =>
    if ROLES_SCOPE ∈ claims.scopes then
      some (gather (state.heldRoles person now) claims.clientId)
    else none

theorem lives_of_readLiveSubject {session : Uuid} {opened : Session} {person : Person}
    (ran : Authz.readLiveSubject around state session before = .ok (some (opened, person), after)) :
    Lives around state before after session person.id := by
  obtain ⟨read, reading, shown, known, standing, kept, enabled⟩ := readLiveSubject_ok ran
  exact ⟨read, reading, person, shown, known, standing, kept, enabled, rfl⟩

theorem Lives.widen {first last : Readings} {session person : Uuid}
    (lives : Lives around state before after session person) (earlier : first.Follows before)
    (later : after.Follows last) : Lives around state first last session person := by
  obtain ⟨read, reading, kept, shown, lives⟩ := lives
  exact ⟨read, reading, kept, shown.widen earlier later, lives⟩

theorem Behind.widen {first last : Readings} {person : Option Uuid}
    (behind : Behind around state before after claims person) (earlier : first.Follows before)
    (later : after.Follows last) : Behind around state first last claims person := by
  cases behind with
  | service alone => exact .service alone
  | person named lives => exact .person named (lives.widen earlier later)

theorem onward_tellOfPerson (person : Option Uuid) :
    Onward (tellOfPerson around state client issuer claims now person) := by
  refine Onward.bind ?_ fun roles => onward_pure _
  unfold readAskedRoles
  split
  · exact onward_pure _
  · next person =>
    refine onward_ite (Onward.bind ?_ fun roles => onward_pure _) (onward_pure _)
    exact (onward_readHeldRoles around state person now).bind fun held => onward_pure _

theorem onward_introspectAccess :
    Onward (introspectAccess around state client issuer claims now) := by
  unfold introspectAccess
  split
  · exact onward_tellOfPerson _
  · refine (onward_readLiveSubject around state _).bind fun found => ?_
    cases found with
    | none => exact onward_pure _
    | some found => exact onward_tellOfPerson _

theorem onward_introspectRefresh (kept : Option Oidc.StoredRefreshToken) :
    Onward (introspectRefresh around state client issuer kept now) := by
  refine (onward_readStorage around kept).bind fun stored => ?_
  split
  · exact onward_pure _
  · refine (onward_readLiveSubject around state _).bind fun found => ?_
    cases found <;> exact onward_pure _

theorem tellOfPerson_ok {person : Option Uuid}
    (ran : tellOfPerson around state client issuer claims now person before = .ok (answer, after)) :
    answer = ofAccess client issuer claims (rolesAt state claims now person) := by
  obtain ⟨roles, asked, ask, ran⟩ := AskM.bind_eq_ok ran
  rw [AskM.pure_eq_ok ran]
  congr 1
  cases person with
  | none => exact AskM.pure_eq_ok ask
  | some person =>
    simp only [readAskedRoles, rolesAt] at ask ⊢
    split at ask
    · next wanted =>
      rw [if_pos wanted]
      obtain ⟨claims, read, reads, ask⟩ := AskM.bind_eq_ok ask
      obtain ⟨ways, listed, list, reads⟩ := AskM.bind_eq_ok reads
      rw [AskM.pure_eq_ok ask, AskM.pure_eq_ok reads, readHeldRoles_ok list]
    · next unwanted =>
      rw [if_neg unwanted]
      exact AskM.pure_eq_ok ask

theorem introspectAccess_ok
    (ran : introspectAccess around state client issuer claims now before = .ok (answer, after)) :
    answer = .default ∨ ∃ person, Behind around state before after claims person ∧
      answer = ofAccess client issuer claims (rolesAt state claims now person) := by
  unfold introspectAccess at ran
  cases named : claims.session with
  | none =>
    rw [named] at ran
    exact Or.inr ⟨none, .service named, tellOfPerson_ok ran⟩
  | some session =>
    rw [named] at ran
    obtain ⟨found, looked, look, ran⟩ := AskM.bind_eq_ok ran
    cases found with
    | none => exact Or.inl (AskM.pure_eq_ok ran)
    | some found =>
      obtain ⟨opened, person⟩ := found
      have lives := (lives_of_readLiveSubject look).widen le_rfl (onward_tellOfPerson _ _ _ _ ran)
      exact Or.inr ⟨some person.id, .person named lives, tellOfPerson_ok ran⟩

theorem introspectRefresh_ok {kept : Option Oidc.StoredRefreshToken}
    (ran : introspectRefresh around state client issuer kept now before = .ok (answer, after)) :
    answer = .default ∨ ∃ stored person, kept = some stored ∧ isLive stored now ∧
      stored.token.clientId = client.clientId ∧
      Lives around state before after stored.token.session person ∧
      answer = ofRefresh issuer stored.token := by
  obtain ⟨found, read, reads, ran⟩ := AskM.bind_eq_ok ran
  have begun := onward_readStorage around _ _ _ _ reads
  rw [readStorage_ok reads] at ran
  cases filtered : kept.filter fun stored =>
      isLive stored now && stored.token.clientId = client.clientId with
  | none =>
    rw [filtered] at ran
    exact Or.inl (AskM.pure_eq_ok ran)
  | some stored =>
    rw [filtered] at ran
    obtain ⟨found, passes⟩ := Option.filter_eq_some_iff.mp filtered
    obtain ⟨live, own⟩ := Bool.and_eq_true_iff.mp passes
    obtain ⟨subject, looked, look, ran⟩ := AskM.bind_eq_ok ran
    cases subject with
    | none => exact Or.inl (AskM.pure_eq_ok ran)
    | some subject =>
      obtain ⟨opened, person⟩ := subject
      have lives := (lives_of_readLiveSubject look).widen begun (onward_pure _ _ _ _ ran)
      exact Or.inr ⟨stored, person.id, found, live, of_decide_eq_true own, lives,
        AskM.pure_eq_ok ran⟩

/-- What an active answer stands for, to a client at an instant. -/
inductive Told (node : Node) (around : Around) (state : RealmState) (before after : Readings)
    (client : Client) (issuer token : String) (kept : Option Oidc.StoredRefreshToken)
    (now : Instant) : Introspection → Prop where
  | access {claims : AccessTokenClaims} {person : Option Uuid}
      (verified : Verified node around state before after issuer token claims)
      (behind : Behind around state before after claims person) :
      Told node around state before after client issuer token kept now
        (ofAccess client issuer claims (rolesAt state claims now person))
  | refresh {stored : Oidc.StoredRefreshToken} {person : Uuid} (found : kept = some stored)
      (live : isLive stored now) (own : stored.token.clientId = client.clientId)
      (lives : Lives around state before after stored.token.session person) :
      Told node around state before after client issuer token kept now
        (ofRefresh issuer stored.token)

variable {realms : String → Option RealmState}
  {refreshTokens : String → Bytes → Option Oidc.StoredRefreshToken} {realm : String}
  {clientId : Option String} {clientSecret : Option Bytes} {token : String}

/-- A client is told that a token stands, and what for, or nothing of it. -/
theorem introspectToken_ok
    (ran : introspectToken node around realms refreshTokens realm clientId clientSecret
      (some token) before = .ok (answer, after)) :
    ∃ state client named presented reading, realms realm = some state ∧ state.enabled ∧
      clientId = some named ∧ clientSecret = some presented ∧
      Authenticated node state named presented client ∧ Shown before after reading ∧
      (answer = .default ∨ Told node around state before after client
        (Authz.nameIssuer node realm) token (refreshTokens realm (node.sha256 (Text.utf8 token)))
        (around.now reading) answer) := by
  obtain ⟨state, located, locate, ran⟩ := AskM.bind_eq_ok ran
  have found := onward_resolveRealm around _ _ _ _ _ locate
  obtain ⟨known, enabled⟩ := resolveRealm_ok locate
  cases clientId with
  | none => cases ran
  | some named =>
    cases clientSecret with
    | none => cases ran
    | some presented =>
      obtain ⟨⟨⟩, begun, begin, ran⟩ := AskM.bind_eq_ok ran
      obtain ⟨client, identified, identify, ran⟩ := AskM.bind_eq_ok ran
      obtain ⟨now, clocked, clock, ran⟩ := AskM.bind_eq_ok ran
      obtain ⟨rfl, shown⟩ := readClock_ok clock
      obtain ⟨read, verified, verify, ran⟩ := AskM.bind_eq_ok ran
      have opened : before.Follows identified := calc
        before.clock ≤ located.clock := found
        _ ≤ begun.clock := onward_readStorage around _ _ _ _ begin
        _ ≤ identified.clock := onward_authenticateClient node around state _ _ _ _ _ identify
      have started := opened.trans (onward_readClock around _ _ _ clock)
      have checked := onward_verifyAccessToken node around state _ _ _ _ _ verify
      have ended : verified.Follows after := by
        cases read with
        | some claims => exact onward_introspectAccess _ _ _ ran
        | none => exact onward_introspectRefresh _ _ _ _ ran
      refine ⟨state, client, named, presented, identified.clock, known, enabled, rfl, rfl,
        authenticateClient_ok identify, shown.widen opened (checked.trans ended), ?_⟩
      cases read with
      | some claims =>
        rcases introspectAccess_ok ran with none | ⟨person, behind, told⟩
        · exact Or.inl none
        · have proven := (verifyAccessToken_ok verify).widen started ended
          exact Or.inr (told ▸ .access proven (behind.widen (started.trans checked) le_rfl))
      | none =>
        rcases introspectRefresh_ok ran with none | ⟨stored, person, found, live, own, lives, told⟩
        · exact Or.inl none
        · exact Or.inr (told ▸ .refresh found live own (lives.widen (started.trans checked) le_rfl))

/-- The names an answer says, of the roles of the realm. -/
def Introspection.realmRoles (answer : Introspection) : List Json :=
  answer.realmAccess.elim [] namesIn

/-- The names an answer says, of the roles of the client of the token. -/
def Introspection.clientRoles (answer : Introspection) : List Json :=
  answer.resourceAccess.elim [] fun access => namesIn (access.index (answer.clientId.getD ""))

theorem realmRoles_ofAccess (roles : Option RoleClaims) :
    (ofAccess client issuer claims roles).realmRoles =
      (roles.elim [] RoleClaims.realm).map Json.string := by
  cases roles with
  | none => rfl
  | some roles => exact namesIn_writeNames roles.realm

theorem clientRoles_ofAccess (roles : Option RoleClaims) :
    (ofAccess client issuer claims roles).clientRoles =
      if client.clientId = claims.clientId then (roles.elim [] RoleClaims.client).map Json.string
      else [] := by
  by_cases own : client.clientId = claims.clientId
  · cases roles with
    | none => simp [Introspection.clientRoles, ofAccess]
    | some roles =>
      simp [Introspection.clientRoles, ofAccess, own, RoleClaims.writeResourceAccess,
        Json.index_ofMap, Json.gather, namesIn_writeNames]
  · simp [Introspection.clientRoles, ofAccess, own]

theorem endOf_le (claims : AccessTokenClaims) (roles : Option RoleClaims) :
    endOf claims roles ≤ claims.expiresAt := by
  unfold endOf
  split
  · exact min_le_right _ _
  · exact le_rfl

/-- An answer ends no later than the first of the roles it says. -/
theorem endOf_le_ends (claims : AccessTokenClaims) (roles : RoleClaims) :
    ((endOf claims (some roles) * 1000000 : Int) : WithTop Instant) ≤ whenEnds roles.ends := by
  rw [endOf, Option.bind_some]
  cases ends : roles.ends with
  | none => exact le_top
  | some limit =>
    apply WithTop.coe_le_coe.mpr
    have earlier := min_le_left (unixTimestamp limit) claims.expiresAt
    have floor : unixTimestamp limit * 1000000 ≤ limit := Int.ediv_mul_le _ (by decide)
    calc min (unixTimestamp limit) claims.expiresAt * 1000000
        ≤ unixTimestamp limit * 1000000 := by omega
      _ ≤ limit := floor

/-- A role that is said is held until what is gathered ends, while the rows
stand. -/
theorem said_until {later : RealmState} {person : Uuid} {instant : Instant} {clientId : String}
    {way : HeldRole} (stands : Stands state later) (passed : now ≤ instant)
    (early : (instant : WithTop Instant) <
      whenEnds (gather (state.heldRoles person now) clientId).ends)
    (inside : way ∈ state.heldRoles person now) (said : isSaid clientId way) :
    ∃ again ∈ later.heldRoles person instant,
      again.clientId = way.clientId ∧ again.name = way.name := by
  obtain ⟨longest, there, client, name, lasts⟩ := said_lasts oneRole_heldRoles inside said
  have stood := standsAt_later stands (mem_heldRoles.mp there) passed (early.trans_le lasts)
  exact ⟨longest, mem_heldRoles.mpr stood, client, name⟩

/-- What an answer says of the roles of a person: those held as it was given,
where the token asks for them, and until it ends only such as are still held. -/
structure Says (state : RealmState) (client : Client) (claims : AccessTokenClaims) (now : Instant)
    (answer : Introspection) (person : Uuid) : Prop where
  realm : ROLES_SCOPE ∈ claims.scopes → ∀ name, Json.string name ∈ answer.realmRoles ↔
    ∃ way ∈ state.heldRoles person now, way.clientId = none ∧ way.name = name
  client : ROLES_SCOPE ∈ claims.scopes → client.clientId = claims.clientId → ∀ name,
    Json.string name ∈ answer.clientRoles ↔
      ∃ way ∈ state.heldRoles person now, way.clientId = some claims.clientId ∧ way.name = name
  still : ∀ later, Stands state later → ∀ ends, answer.exp = some ends → ∀ instant, now ≤ instant →
    instant < ends * 1000000 →
    (∀ name, Json.string name ∈ answer.realmRoles →
      ∃ way ∈ later.heldRoles person instant, way.clientId = none ∧ way.name = name) ∧
    ∀ name, Json.string name ∈ answer.clientRoles →
      ∃ way ∈ later.heldRoles person instant,
        way.clientId = some claims.clientId ∧ way.name = name

theorem ofAccess_roles (person : Uuid) : Says state client claims now
    (ofAccess client issuer claims (rolesAt state claims now (some person))) person := by
  have named : ∀ {name : String} {names : List String},
      Json.string name ∈ names.map Json.string ↔ name ∈ names :=
    List.mem_map_of_injective fun _ _ => Json.string.inj
  by_cases asked : ROLES_SCOPE ∈ claims.scopes
  · have roles : rolesAt state claims now (some person) =
        some (gather (state.heldRoles person now) claims.clientId) := if_pos asked
    have realm : ∀ name, Json.string name ∈ (ofAccess client issuer claims
        (rolesAt state claims now (some person))).realmRoles ↔
          ∃ way ∈ state.heldRoles person now, way.clientId = none ∧ way.name = name := by
      intro name
      rw [realmRoles_ofAccess, roles, Option.elim_some, named]
      exact mem_realm oneRole_heldRoles name
    have own : ∀ name, Json.string name ∈ (ofAccess client issuer claims
        (rolesAt state claims now (some person))).clientRoles ↔ client.clientId = claims.clientId ∧
          ∃ way ∈ state.heldRoles person now,
            way.clientId = some claims.clientId ∧ way.name = name := by
      intro name
      rw [clientRoles_ofAccess, roles, Option.elim_some]
      split
      · next same =>
        rw [named, mem_client oneRole_heldRoles name]
        exact (and_iff_right same).symm
      · next other =>
        exact ⟨fun none => (List.not_mem_nil none).elim, fun both => (other both.1).elim⟩
    refine ⟨fun _ => realm, fun _ same name => (own name).trans (and_iff_right same), ?_⟩
    intro later stands ends expires instant passed early
    have reach : (instant : WithTop Instant) <
        whenEnds (gather (state.heldRoles person now) claims.clientId).ends := by
      rw [roles] at expires
      obtain rfl := Option.some.inj expires
      exact (WithTop.coe_lt_coe.mpr early).trans_le (endOf_le_ends claims _)
    constructor
    · intro name said
      obtain ⟨way, inside, owner, rfl⟩ := (realm name).mp said
      obtain ⟨again, there, same, called⟩ :=
        said_until stands passed reach inside (by simp [isSaid, owner])
      exact ⟨again, there, same.trans owner, called⟩
    · intro name said
      obtain ⟨-, way, inside, owner, rfl⟩ := (own name).mp said
      obtain ⟨again, there, same, called⟩ :=
        said_until stands passed reach inside (by simp [isSaid, owner])
      exact ⟨again, there, same.trans owner, called⟩
  · have roles : rolesAt state claims now (some person) = none := if_neg asked
    refine ⟨fun wanted => (asked wanted).elim, fun wanted => (asked wanted).elim, ?_⟩
    intro later stands ends expires instant passed early
    rw [realmRoles_ofAccess, clientRoles_ofAccess, roles]
    simp

/-- Of a token that does not stand a client is told nothing; of one that does,
what stands still: an access token that verifies, and the session behind it
answers, with no role past its end; or a refresh token of the client itself
that can be spent, while its session answers. What is judged at an instant is
judged at one the clock showed meanwhile. -/
theorem told_until_it_ends
    (ran : introspectToken node around realms refreshTokens realm clientId clientSecret
      (some token) before = .ok (answer, after)) :
    (answer.active = false → answer = .default) ∧ (answer.active = true →
      ∃ state client named presented reading, realms realm = some state ∧ state.enabled ∧
        clientId = some named ∧ clientSecret = some presented ∧
        Authenticated node state named presented client ∧ Shown before after reading ∧
        ((∃ claims person,
            Verified node around state before after (Authz.nameIssuer node realm) token claims ∧
            Behind around state before after claims person ∧ answer.sub = some claims.subject ∧
            answer.clientId = some claims.clientId ∧
            (∃ ends, answer.exp = some ends ∧ ends ≤ claims.expiresAt) ∧
            (answer.resourceAccess ≠ none → client.clientId = claims.clientId) ∧
            (person = none → answer.realmAccess = none ∧ answer.resourceAccess = none) ∧
            ∀ one, person = some one → Says state client claims (around.now reading) answer one) ∨
          ∃ stored person, refreshTokens realm (node.sha256 (Text.utf8 token)) = some stored ∧
            isLive stored (around.now reading) ∧ stored.token.clientId = client.clientId ∧
            Lives around state before after stored.token.session person ∧
            answer = ofRefresh (Authz.nameIssuer node realm) stored.token)) := by
  obtain ⟨state, client, named, presented, reading, known, enabled, identified, secret, caller,
    shown, told⟩ := introspectToken_ok ran
  rcases told with rfl | told
  · refine ⟨fun _ => rfl, fun active => ?_⟩
    cases active
  constructor
  · intro inactive
    cases told with
    | access => cases inactive
    | refresh => cases inactive
  intro _
  refine ⟨state, client, named, presented, reading, known, enabled, identified, secret, caller,
    shown, ?_⟩
  cases told with
  | @access claims person verified behind =>
    refine Or.inl ⟨claims, person, verified, behind, rfl, rfl, ⟨_, rfl, endOf_le _ _⟩, ?_, ?_, ?_⟩
    · intro said
      by_contra other
      exact said (if_neg other)
    · rintro rfl
      refine ⟨rfl, ?_⟩
      simp [ofAccess, rolesAt]
    · rintro one rfl
      exact ofAccess_roles one
  | @refresh stored person found live own lives =>
    exact Or.inr ⟨stored, person, found, live, own, lives, rfl⟩

theorem verifies_of_verified {token : String}
    (verified : Verified node around state before after issuer token claims) :
    ∃ reading, Shown before after reading ∧ Tokens.verifyAccessToken node.packages issuer token state.keys
      (around.now reading) = some claims := by
  obtain ⟨compact, reading, shown, verifies, typed, read⟩ := verified.verifies
  refine ⟨reading, shown, ?_⟩
  rw [Tokens.verifyAccessToken, verifies]
  exact (if_neg (not_not.mpr typed)).trans read

/-- What a client is told of an access token is what the realm minted it with,
before it expires and while its session answers, at instants the clock showed
meanwhile. -/
theorem told_was_minted {float : Rat → String} {world : World} {scope : RealmScope}
    (reached : Reachable float world) (lawful : Lawful float node.packages world)
    (apart : KeysApart world) (unforged : Unforged node.packages world token)
    (keys : ∀ state, realms realm = some state → state.keys = world.keys scope)
    (ran : introspectToken node around realms refreshTokens realm clientId clientSecret
      (some token) before = .ok (answer, after)) (access : answer.tokenType = some "Bearer") :
    ∃ one ∈ world.minted, one.realm = scope ∧ IsToken node.packages world token one ∧
      ∃ subject issued tokenId, one.minting = .access subject issued tokenId ∧
        subject.issuer = Authz.nameIssuer node realm ∧ answer.sub = some subject.subject ∧
        answer.clientId = some subject.clientId ∧
        ((∀ scope ∈ subject.scopes, checkScopeToken scope = .ok ()) →
          answer.scope = some (String.intercalate " " subject.scopes)) ∧
        answer.sid = subject.session.map Uuid.text ∧
        (∃ ends, answer.exp = some ends ∧ ends ≤ subject.expiresAt (unixTimestamp issued)) ∧
        (∃ reading, Shown before after reading ∧
          around.now reading < subject.expiresAt (unixTimestamp issued) * 1000000) ∧
        ∀ session, subject.session = some session →
          ∃ state person, realms realm = some state ∧
            Lives around state before after session person := by
  obtain ⟨state, client, named, presented, reading, known, -, -, -, -, -, told⟩ :=
    introspectToken_ok ran
  rcases told with rfl | told
  · cases access
  cases told with
  | refresh => cases access
  | @access claims person verified behind =>
    obtain ⟨at_reading, shown, accepted⟩ := verifies_of_verified verified
    rw [keys state known] at accepted
    obtain ⟨one, minted, home, is_token, subject, issued, tokenId, minting, issuer, sub, client_of,
      scopes, session, expires, early⟩ := access_minted reached lawful apart unforged accepted
    refine ⟨one, minted, home, is_token, subject, issued, tokenId, minting, issuer, ?_, ?_, ?_, ?_,
      ⟨_, rfl, expires ▸ endOf_le _ _⟩, ⟨at_reading, shown, expires ▸ early⟩, ?_⟩
    · simp only [ofAccess, sub]
    · simp only [ofAccess, client_of]
    · intro admitted
      simp only [ofAccess, scopes admitted]
    · simp only [ofAccess, session]
    · intro behind_it names
      rw [← session] at names
      cases behind with
      | service alone =>
        rw [alone] at names
        cases names
      | person same lives =>
        rw [same] at names
        cases names
        exact ⟨state, _, known, lives⟩

end Told

def editorSubject : AccessTokenSubject where
  issuer := "http://id/realms/r"
  subject := (7 : Uuid).text
  clientId := "webapp"
  scopes := ["roles"]
  session := some 5
  roles := none

def editorMinting : Minting := .access editorSubject 0 9

def editorToken : String :=
  signingInput writeNoFloat billingKey editorMinting.tokenType editorMinting.claims ++ "." ++
    Base64.encode billingSignature

def editorWorld : World where
  keys := Function.update (fun _ => []) billingRealm [billingKey]
  opened := [(billingRealm, ⟨billingKey, [0]⟩)]
  signed := [editorMinting.sign writeNoFloat billingKey billingSignature]
  minted := [⟨billingRealm, billingKey, editorMinting, editorToken⟩]

def editorDocuments : List Json :=
  [Json.ofMap (header billingKey editorMinting.tokenType) id, Json.ofMap editorMinting.claims id]

def editorNode : Node :=
  { mailNode with
    packages :=
      { decode := Base64.decode
        readJson := fun bytes =>
          editorDocuments.find? fun json => Text.utf8 (json.write writeNoFloat) = bytes
        verify := fun _ jwk input signature => jwk = billingKey.publicJwk &&
          input = signingInput writeNoFloat billingKey editorMinting.tokenType
            editorMinting.claims && signature = billingSignature } }

def editorApp : Client := ⟨"webapp", some mailSecretDigest, true, false, [], false, [], true⟩

def editorSession : Session := ⟨5, 7, [], .active, [.password], 0, 43200000000⟩

/-- Ada edits an application until two minutes have passed, and is signed in. -/
def editorRealm : RealmState :=
  { staffRealm with
    clients := [editorApp]
    keys := [billingKey]
    sessions := [editorSession]
    persons := [⟨7, "ada", none, false, true⟩] }

def editorRealms (realm : String) : Option RealmState :=
  if realm = "r" then some editorRealm else none

def editorClaims : AccessTokenClaims :=
  ⟨(7 : Uuid).text, "webapp", ["roles"], (9 : Uuid).text, 0, 300, some 5⟩

def editorAnswer : Introspection :=
  ofAccess editorApp "http://id/realms/r" editorClaims
    (some ⟨["admin"], ["editor"], some 120000000⟩)

theorem editorWorld_reached : Reachable writeNoFloat editorWorld := by
  have made : Reachable writeNoFloat
      ⟨Function.update (fun _ => []) billingRealm [billingKey], [], [], []⟩ :=
    .single (.createKey World.empty billingRealm billingKey [] [] rfl)
  have opened : Reachable writeNoFloat
      ⟨Function.update (fun _ => []) billingRealm [billingKey],
        [(billingRealm, ⟨billingKey, [0]⟩)], [], []⟩ :=
    made.tail (.openKey _ billingRealm (fun _ => some [0]) ⟨billingKey, [0]⟩ (by decide))
  have timed : editorMinting.Timed := by
    refine ⟨⟨by decide, by decide⟩, ?_⟩
    intro ends named
    cases named
  exact opened.tail (.mintAccess _ billingRealm ⟨billingKey, [0]⟩
    (fun _ _ _ => some billingSignature) 0 9 editorSubject billingSignature
    ⟨editorToken, 300, "roles"⟩ List.mem_cons_self timed rfl rfl)

theorem editorWorld_lawful : Lawful writeNoFloat editorNode.packages editorWorld := by
  constructor
  · intro text
    rfl
  · intro document written _
    have either : document = header billingKey editorMinting.tokenType ∨
        document = editorMinting.claims := by
      simpa [World.documents, editorWorld] using written
    rcases either with rfl | rfl
    · decide
    · decide +kernel

theorem editorToken_verified : verifyCompact editorNode.packages editorToken editorRealm.keys =
    some ⟨some ACCESS_TOKEN_TYPE, Json.ofMap editorMinting.claims id⟩ := by
  apply verifyCompact_signed editorWorld_lawful
  · exact List.mem_cons_self
  · exact List.mem_cons_of_mem _ List.mem_cons_self
  · apply Minting.kept
    refine ⟨⟨by decide, by decide⟩, ?_⟩
    intro ends named
    cases named
  · rfl
  · simp [editorNode]

theorem editor_told : introspectToken editorNode calm editorRealms (fun _ _ => none) "r"
    (some "webapp") (some (textBytes "s3cret")) (some editorToken) ⟨0, 0⟩ =
      .ok (editorAnswer, ⟨3, 7⟩) := by
  have located : resolveRealm calm editorRealms "r" ⟨0, 0⟩ = .ok (editorRealm, ⟨0, 1⟩) := rfl
  have begun : readStorage calm () ⟨0, 1⟩ = .ok ((), ⟨0, 2⟩) := rfl
  have proven : Authz.authenticateClient editorNode calm editorRealm "webapp" (textBytes "s3cret")
      ⟨0, 2⟩ = .ok (editorApp, ⟨0, 3⟩) := rfl
  have clocked : readClock calm ⟨0, 3⟩ = .ok (50000000, ⟨1, 3⟩) := rfl
  have verified : Authz.verifyAccessToken editorNode calm editorRealm "http://id/realms/r"
      editorToken ⟨1, 3⟩ = .ok (some editorClaims, ⟨2, 4⟩) := by
    have listed : readStorage calm editorRealm.keys ⟨1, 3⟩ = .ok (editorRealm.keys, ⟨1, 4⟩) := rfl
    have again : readClock calm ⟨1, 4⟩ = .ok (50000000, ⟨2, 4⟩) := rfl
    have read : readClaims (Json.ofMap editorMinting.claims id) "http://id/realms/r" 50000000 =
        some editorClaims := by decide
    rw [Authz.verifyAccessToken, AskM.bind_ok listed, editorToken_verified]
    dsimp only
    rw [if_neg (by decide), AskM.bind_ok again, read]
    rfl
  have live : Authz.readLiveSubject calm editorRealm 5 ⟨2, 4⟩ =
      .ok (some (editorSession, ⟨7, "ada", none, false, true⟩), ⟨3, 6⟩) := rfl
  have roles : readAskedRoles calm editorRealm editorClaims (some 7) 50000000 ⟨3, 6⟩ =
      .ok (some ⟨["admin"], ["editor"], some 120000000⟩, ⟨3, 7⟩) := by rfl
  have issuer : Authz.nameIssuer editorNode "r" = "http://id/realms/r" := rfl
  have named : editorClaims.session = some 5 := rfl
  rw [introspectToken, AskM.bind_ok located]
  dsimp only
  rw [AskM.bind_ok begun, AskM.bind_ok proven, AskM.bind_ok clocked, issuer, AskM.bind_ok verified]
  dsimp only
  rw [introspectAccess, named]
  dsimp only
  rw [AskM.bind_ok live]
  dsimp only
  rw [tellOfPerson, AskM.bind_ok roles]
  rfl

theorem editorWorld_keysApart : KeysApart editorWorld := by
  have keys : editorWorld.keys = billingWorld.keys := by simp only [editorWorld, billingWorld]
  intro one other
  rw [keys]
  exact billingWorld_keysApart one other

theorem editorToken_unforged : Unforged editorNode.packages editorWorld editorToken := by
  intro realm key inside input part signature joined decoded verifies
  simp only [editorNode, Bool.and_eq_true, decide_eq_true_eq] at verifies
  obtain ⟨⟨jwk, same⟩, -⟩ := verifies
  exact ⟨_, List.mem_singleton.mpr rfl, jwk.symm, same.symm⟩

/-- The application of the editor is told of her two roles for seventy seconds
more. -/
theorem editor_told_until_it_ends : editorAnswer.exp = some 120 ∧
    editorAnswer.realmRoles = [.string "admin"] ∧ editorAnswer.clientRoles = [.string "editor"] ∧
    ∃ state client claims person, editorRealms "r" = some state ∧
      Says state client claims 50000000 editorAnswer person := by
  obtain ⟨-, active⟩ := told_until_it_ends editor_told
  refine ⟨by decide, by decide, by decide, ?_⟩
  obtain ⟨state, client, -, -, reading, known, -, -, -, -, -, told⟩ := active rfl
  rcases told with ⟨claims, person, -, -, -, -, -, -, alone, roles⟩ | ⟨stored, -, found, -⟩
  · cases person with
    | none => cases (alone rfl).1
    | some person => exact ⟨state, client, claims, person, known, roles person rfl⟩
  · cases found

/-- What is told of the token of the editor is what it was minted with. -/
theorem editor_told_was_minted : ∃ one ∈ editorWorld.minted, one.realm = billingRealm ∧
    IsToken editorNode.packages editorWorld editorToken one ∧
    ∃ subject issued tokenId, one.minting = .access subject issued tokenId ∧
      editorAnswer.sub = some subject.subject ∧ editorAnswer.sid = subject.session.map Uuid.text := by
  have keys : ∀ state, editorRealms "r" = some state → state.keys = editorWorld.keys billingRealm := by
    intro state known
    obtain rfl := Option.some.inj known
    rfl
  obtain ⟨one, minted, home, is_token, subject, issued, tokenId, minting, -, sub, -, -, session, -⟩ :=
    told_was_minted editorWorld_reached editorWorld_lawful editorWorld_keysApart
      editorToken_unforged keys editor_told rfl
  exact ⟨one, minted, home, is_token, subject, issued, tokenId, minting, sub, session⟩

end Saffui.Tokens.Introspect
