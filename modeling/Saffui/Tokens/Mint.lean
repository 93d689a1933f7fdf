import Mathlib.Algebra.Group.Int.Defs
import Saffui.Foundation.Base64
import Saffui.Login.Session
import Saffui.Tokens

/-!
# Tokens minted

Source: `sign_compact` of `saffui-core/src/tokens/jws.rs`, `mint_access_token`
and `mint_identity_token` of `mint.rs`, `open_signing_key` of
`keys/jwks.rs`, and what `authz/grants.rs` writes of the roles of a person.

The signature is the signer's: `sign` is what it answers for a private key
and a text, `none` where it fails. A random identifier that cannot be drawn is
`none` too.
-/

namespace Saffui

/-- The name a method has in a token (RFC 8176). -/
def Login.AuthenticationMethod.name : Login.AuthenticationMethod → String
  | .password => "pwd"
  | .oneTimeCode => "otp"
  | .securityKey => "pop"

namespace Json

/-- An `i64` as a number of a document. -/
def ofI64 : Int → Json
  | .ofNat value => .number (.posInt value)
  | .negSucc value => .number (.negInt value)

/-- The members of an object as `json!` gathers them: in order, a later one in
place of an earlier one of its name. -/
def gather (members : List (String × Json)) : Foundation.SortedMap String Json :=
  members.foldl (fun map member => map.insert member.1 member.2) .empty

theorem asI64_ofI64 {value read : Int} (asked : (ofI64 value).asI64 = some read) : read = value := by
  cases value with
  | ofNat value =>
    simp only [ofI64, asI64] at asked
    split at asked
    · cases asked
      rfl
    · cases asked
  | negSucc value =>
    cases asked
    exact (Int.negSucc_eq value).symm

theorem Kept.ofI64 {value : Int} (low : -2 ^ 63 ≤ value) (high : value < 2 ^ 63) :
    Kept (ofI64 value) := by
  cases value with
  | ofNat value => exact .posInt (by simp at high; omega)
  | negSucc value => exact .negInt (by omega)

/-- A map of which every value is kept. -/
def KeptMap (map : Foundation.SortedMap String Json) : Prop :=
  ∀ name value, map.get? name = some value → Kept value

theorem KeptMap.empty : KeptMap .empty := by
  intro name value read
  cases read

theorem KeptMap.insert {map : Foundation.SortedMap String Json} {name : String} {value : Json}
    (kept : KeptMap map) (new : Kept value) : KeptMap (map.insert name value) := by
  intro asked found read
  rw [Foundation.SortedMap.get?_insert] at read
  split at read
  · cases read
    exact new
  · exact kept asked found read

theorem KeptMap.gather {members : List (String × Json)} (each : ∀ member ∈ members, Kept member.2) :
    KeptMap (gather members) := by
  have fold : ∀ (members : List (String × Json)) (map : Foundation.SortedMap String Json),
      (∀ member ∈ members, Kept member.2) → KeptMap map →
      KeptMap (members.foldl (fun map member => map.insert member.1 member.2) map) := by
    intro members
    induction members with
    | nil => exact fun map _ kept => kept
    | cons member members ih =>
      intro map each kept
      obtain ⟨here, rest⟩ := List.forall_mem_cons.mp each
      exact ih _ rest (kept.insert here)
  exact fold members .empty each KeptMap.empty

theorem KeptMap.kept {map : Foundation.SortedMap String Json} (kept : KeptMap map) :
    Kept (ofMap map id) := by
  rw [ofMap_id]
  apply Kept.object map.sorted
  intro member inside
  exact kept member.1 member.2 ((map.mem_entries_iff member.1 member.2).mp inside)

end Json

namespace Tokens

open Foundation Json Login
open Text (utf8)

/-- How long an access token lives. -/
def ACCESS_TOKEN_LIFETIME_SECONDS : Nat := 300

/-- How long an identity token is good for. -/
def IDENTITY_TOKEN_LIFETIME_SECONDS : Nat := 300

/-- `i64::saturating_add_unsigned` -/
def saturatingAdd (value : Int) (added : Nat) : Int := min (value + added) (2 ^ 63 - 1)

/-- What a token for one client tells of the roles of a person. -/
structure RoleClaims where
  realm : List String
  client : List String
  /-- When the first of these roles ends. -/
  ends : Option Instant
  deriving DecidableEq, Repr

structure AccessTokenSubject where
  issuer : String
  subject : String
  clientId : String
  scopes : List String
  /-- The session behind the token, when a person is. -/
  session : Option Uuid
  roles : Option RoleClaims
  deriving DecidableEq, Repr

/-- Whom an identity token is of. The name a person shows stands beside them:
nothing else reads it. -/
structure IdentityTokenSubject where
  issuer : String
  person : Person
  displayName : Option String
  clientId : String
  scopes : List String
  nonce : Option String
  session : Uuid
  authenticatedAt : Instant
  methods : List AuthenticationMethod
  deriving DecidableEq, Repr

/-- The key of the realm, opened. -/
structure MintingKey where
  key : SigningKey
  privateKey : Bytes
  deriving DecidableEq

structure IssuedAccessToken where
  token : String
  expiresIn : Nat
  scope : String
  deriving DecidableEq, Repr

/-- The key that signs for a realm in an algorithm, the newest of them, opened
where it is stored. -/
def openSigningKey (openSealed : SigningKey → Option Bytes) (keys : List SigningKey)
    (algorithm : SignatureAlgorithm) : Except ErrorCode MintingKey :=
  match keys.reverse.find? fun key => key.algorithm = algorithm with
  | none => .error .cryptoUnavailable
  | some key =>
    match openSealed key with
    | none => .error .cryptoUnavailable
    | some privateKey => .ok ⟨key, privateKey⟩

def openMintingKey (openSealed : SigningKey → Option Bytes) (keys : List SigningKey) :
    Except ErrorCode MintingKey :=
  openSigningKey openSealed keys .es256

namespace RoleClaims

def writeNames (names : List String) : Json := ofMap (gather [("roles", .array (names.map .string))]) id

def writeRealmAccess (roles : RoleClaims) : Json := writeNames roles.realm

def writeResourceAccess (roles : RoleClaims) (clientId : String) : Json :=
  ofMap (gather [(clientId, writeNames roles.client)]) id

end RoleClaims

section Sign

variable (float : Rat → String) (sign : SignatureAlgorithm → Bytes → String → Option Bytes)

/-- The header of a token of a kind. -/
def header (key : SigningKey) (tokenType : String) : SortedMap String Json :=
  gather [("alg", .string key.algorithm.name), ("kid", .string key.keyId),
    ("typ", .string tokenType)]

/-- What is signed: the header and the claims, and a dot between them. -/
def signingInput (key : SigningKey) (tokenType : String) (claims : SortedMap String Json) : String :=
  Base64.encode (utf8 ((ofMap (header key tokenType) id).write float)) ++ "." ++
    Base64.encode (utf8 ((ofMap claims id).write float))

/-- Signs claims under a key: the three parts joined by dots. -/
def signCompact (key : MintingKey) (tokenType : String) (claims : SortedMap String Json) :
    Option String := do
  let token := signingInput float key.key tokenType claims
  let signature ← sign key.key.algorithm key.privateKey token
  return token ++ "." ++ Base64.encode signature

def signClaims (key : MintingKey) (tokenType : String) (claims : SortedMap String Json) :
    Except ErrorCode String :=
  match signCompact float sign key tokenType claims with
  | none => .error .cryptoUnavailable
  | some token => .ok token

/-- When an access token issued at a second expires: one that names a role
lives no longer than the role. -/
def AccessTokenSubject.expiresAt (subject : AccessTokenSubject) (issuedAt : Int) : Int :=
  let lifetimeEnds := saturatingAdd issuedAt ACCESS_TOKEN_LIFETIME_SECONDS
  match subject.roles.bind RoleClaims.ends with
  | none => lifetimeEnds
  | some ends => min (unixTimestamp ends) lifetimeEnds

/-- What every access token claims. -/
def AccessTokenSubject.members (subject : AccessTokenSubject) (issuedAt : Int) (tokenId : Uuid) :
    SortedMap String Json :=
  gather
    [("iss", .string subject.issuer), ("sub", .string subject.subject),
      ("aud", .string subject.issuer), ("client_id", .string subject.clientId),
      ("scope", .string (" ".intercalate subject.scopes)), ("iat", ofI64 issuedAt),
      ("exp", ofI64 (subject.expiresAt issuedAt)), ("jti", .string tokenId.text)]

/-- What an access token claims, of a session and of roles where it has them. -/
def AccessTokenSubject.claims (subject : AccessTokenSubject) (issuedAt : Int) (tokenId : Uuid) :
    SortedMap String Json :=
  let claims := subject.members issuedAt tokenId
  let claims := match subject.session with
    | none => claims
    | some session => claims.insert "sid" (.string session.text)
  match subject.roles with
  | none => claims
  | some roles =>
    (claims.insert "realm_access" roles.writeRealmAccess).insert "resource_access"
      (roles.writeResourceAccess subject.clientId)

/-- Mints an access token signed by the key of the realm. -/
def mintAccessToken (now : Instant) (drawn : Option Uuid) (key : MintingKey)
    (subject : AccessTokenSubject) : Except ErrorCode IssuedAccessToken := do
  let issuedAt := unixTimestamp now
  let tokenId ← match drawn with
    | none => .error .randomUnavailable
    | some tokenId => .ok tokenId
  let token ← signClaims float sign key ACCESS_TOKEN_TYPE (subject.claims issuedAt tokenId)
  return {
    token
    expiresIn := (subject.expiresAt issuedAt - issuedAt).toNat
    scope := " ".intercalate subject.scopes }

/-- Names what proved the person, and tells when it took more than one factor. -/
def writeMethods (methods : List AuthenticationMethod) : Json :=
  let names := methods.map AuthenticationMethod.name
  let names := if names.length > 1 then names ++ ["mfa"] else names
  .array (names.map .string)

/-- Writes what the granted scopes allow to be told of a person. -/
def writePersonClaims (claims : SortedMap String Json) (subject : IdentityTokenSubject) :
    SortedMap String Json :=
  let claims := if "profile" ∈ subject.scopes then
      let claims := claims.insert "preferred_username" (.string subject.person.username)
      match subject.displayName with
      | none => claims
      | some name => claims.insert "name" (.string name)
    else claims
  match subject.person.email with
  | none => claims
  | some email =>
    if "email" ∈ subject.scopes then
      (claims.insert "email" (.string email)).insert "email_verified"
        (.bool subject.person.emailVerified)
    else claims

/-- What an identity token claims. -/
def IdentityTokenSubject.claims (subject : IdentityTokenSubject) (issuedAt : Int) :
    SortedMap String Json :=
  let claims := gather
    [("iss", .string subject.issuer), ("sub", .string subject.person.id.text),
      ("aud", .string subject.clientId), ("iat", ofI64 issuedAt),
      ("exp", ofI64 (saturatingAdd issuedAt IDENTITY_TOKEN_LIFETIME_SECONDS)),
      ("auth_time", ofI64 (unixTimestamp subject.authenticatedAt)),
      ("sid", .string subject.session.text)]
  let claims := match subject.nonce with
    | none => claims
    | some nonce => claims.insert "nonce" (.string nonce)
  writePersonClaims (claims.insert "amr" (writeMethods subject.methods)) subject

/-- Mints the identity token of a person for one client. -/
def mintIdentityToken (now : Instant) (key : MintingKey) (subject : IdentityTokenSubject) :
    Except ErrorCode String :=
  signClaims float sign key IDENTITY_TOKEN_TYPE (subject.claims (unixTimestamp now))

theorem signClaims_token {key : MintingKey} {tokenType token : String}
    {claims : SortedMap String Json} {signature : Bytes}
    (signs : sign key.key.algorithm key.privateKey (signingInput float key.key tokenType claims) =
      some signature)
    (minted : signClaims float sign key tokenType claims = .ok token) :
    token = signingInput float key.key tokenType claims ++ "." ++ Base64.encode signature := by
  have compact : signCompact float sign key tokenType claims =
      some (signingInput float key.key tokenType claims ++ "." ++ Base64.encode signature) := by
    rw [signCompact, signs]
    rfl
  rw [signClaims, compact] at minted
  exact (Except.ok.inj minted).symm

theorem mintAccessToken_token {now : Instant} {tokenId : Uuid} {key : MintingKey}
    {subject : AccessTokenSubject} {issued : IssuedAccessToken}
    (minted : mintAccessToken float sign now (some tokenId) key subject = .ok issued) :
    signClaims float sign key ACCESS_TOKEN_TYPE (subject.claims (unixTimestamp now) tokenId) =
      .ok issued.token := by
  change (signClaims float sign key ACCESS_TOKEN_TYPE (subject.claims (unixTimestamp now) tokenId)
    >>= fun token => pure (⟨token, _, _⟩ : IssuedAccessToken)) = _ at minted
  cases signed : signClaims float sign key ACCESS_TOKEN_TYPE
      (subject.claims (unixTimestamp now) tokenId) with
  | error code =>
    rw [signed] at minted
    cases minted
  | ok token =>
    rw [signed] at minted
    have same := Except.ok.inj minted
    rw [← same]

end Sign

theorem AccessTokenSubject.index_claims (subject : AccessTokenSubject) (issuedAt : Int)
    (tokenId : Uuid) (claims : Json)
    (written : claims = ofMap (subject.claims issuedAt tokenId) id) :
    claims.index "iss" = .string subject.issuer ∧ claims.index "sub" = .string subject.subject ∧
      claims.index "client_id" = .string subject.clientId ∧
      claims.index "scope" = .string (" ".intercalate subject.scopes) ∧
      claims.index "exp" = ofI64 (subject.expiresAt issuedAt) := by
  subst written
  simp only [index_ofMap]
  unfold AccessTokenSubject.claims
  cases subject.session with
  | none =>
    cases subject.roles with
    | none => simp [AccessTokenSubject.members, gather]
    | some roles => simp [AccessTokenSubject.members, gather]
  | some session =>
    cases subject.roles with
    | none => simp [AccessTokenSubject.members, gather]
    | some roles => simp [AccessTokenSubject.members, gather]

theorem readSessionClaim_claims (subject : AccessTokenSubject) (issuedAt : Int) (tokenId : Uuid) :
    readSessionClaim (ofMap (subject.claims issuedAt tokenId) id) = some subject.session := by
  have found : SortedMap.lookup "sid" (subject.claims issuedAt tokenId).entries =
      subject.session.map fun session => .string session.text := by
    change (subject.claims issuedAt tokenId).get? "sid" = _
    unfold AccessTokenSubject.claims
    cases subject.session with
    | none =>
      cases subject.roles with
      | none => simp [AccessTokenSubject.members, gather]
      | some roles => simp [AccessTokenSubject.members, gather]
    | some session =>
      cases subject.roles with
      | none => simp [AccessTokenSubject.members, gather]
      | some roles => simp [AccessTokenSubject.members, gather]
  rw [ofMap_id, readSessionClaim, field_entries, found]
  cases subject.session with
  | none => rfl
  | some session => simp [asStr, Uuid.parse_text]

theorem get?_writePersonClaims {subject : IdentityTokenSubject} {claims : SortedMap String Json}
    {name : String}
    (apart : name ∉ ["preferred_username", "name", "email", "email_verified"]) :
    (writePersonClaims claims subject).get? name = claims.get? name := by
  simp only [List.mem_cons, List.not_mem_nil, or_false, not_or] at apart
  obtain ⟨username, shown, email, verified⟩ := apart
  have profile : (if "profile" ∈ subject.scopes then
      let claims := claims.insert "preferred_username" (.string subject.person.username)
      match subject.displayName with
      | none => claims
      | some name => claims.insert "name" (.string name)
    else claims).get? name = claims.get? name := by
    split
    · cases subject.displayName with
      | none => simp [username]
      | some display => simp [username, shown]
    · rfl
  unfold writePersonClaims
  cases subject.person.email with
  | none => exact profile
  | some address =>
    simp only
    split
    · rw [SortedMap.get?_insert, if_neg verified, SortedMap.get?_insert, if_neg email]
      exact profile
    · exact profile

theorem IdentityTokenSubject.index_claims (subject : IdentityTokenSubject) (issuedAt : Int)
    (claims : Json) (written : claims = ofMap (subject.claims issuedAt) id) :
    claims.index "iss" = .string subject.issuer ∧
      claims.index "sub" = .string subject.person.id.text ∧
      claims.index "aud" = .string subject.clientId ∧
      claims.index "sid" = .string subject.session.text := by
  subst written
  simp only [index_ofMap]
  unfold IdentityTokenSubject.claims
  have written : ∀ {name : String} (claims : SortedMap String Json),
      name ∈ ["iss", "sub", "aud", "sid"] →
      (writePersonClaims (claims.insert "amr" (writeMethods subject.methods)) subject).get? name =
        claims.get? name := by
    intro name claims inside
    have apart : name ∉ ["preferred_username", "name", "email", "email_verified"] ∧
        name ≠ "amr" := by
      simp only [List.mem_cons, List.not_mem_nil, or_false] at inside
      rcases inside with rfl | rfl | rfl | rfl <;> decide
    rw [get?_writePersonClaims apart.1, SortedMap.get?_insert, if_neg apart.2]
  simp only
  rw [written _ (by decide), written _ (by decide), written _ (by decide), written _ (by decide)]
  cases subject.nonce with
  | none => simp [gather]
  | some nonce => simp [gather]

theorem saturatingAdd_within {value : Int} (added : Nat) (low : -2 ^ 63 ≤ value) :
    -2 ^ 63 ≤ saturatingAdd value added ∧ saturatingAdd value added < 2 ^ 63 := by
  unfold saturatingAdd
  omega

theorem RoleClaims.writeNames_kept (names : List String) : Kept (writeNames names) := by
  apply KeptMap.kept
  apply KeptMap.gather
  simp only [List.mem_singleton, forall_eq]
  apply Kept.array
  intro item inside
  obtain ⟨name, -, rfl⟩ := List.mem_map.mp inside
  exact .string name

theorem header_kept (key : SigningKey) (tokenType : String) : KeptMap (header key tokenType) := by
  apply KeptMap.gather
  simp only [List.forall_mem_cons]
  exact ⟨.string _, .string _, .string _, by simp⟩

theorem AccessTokenSubject.claims_kept {subject : AccessTokenSubject} {issuedAt : Int}
    (tokenId : Uuid) (low : -2 ^ 63 ≤ issuedAt) (high : issuedAt < 2 ^ 63)
    (ends : ∀ ends ∈ subject.roles.bind RoleClaims.ends, -2 ^ 63 ≤ unixTimestamp ends) :
    KeptMap (subject.claims issuedAt tokenId) := by
  have expiry : Kept (ofI64 (subject.expiresAt issuedAt)) := by
    have lifetime := saturatingAdd_within ACCESS_TOKEN_LIFETIME_SECONDS low
    unfold AccessTokenSubject.expiresAt
    cases found : subject.roles.bind RoleClaims.ends with
    | none => exact Kept.ofI64 lifetime.1 lifetime.2
    | some last =>
      have after := ends last found
      exact Kept.ofI64 (le_min after lifetime.1) (lt_of_le_of_lt (min_le_right _ _) lifetime.2)
  have first : KeptMap (subject.members issuedAt tokenId) := by
    apply KeptMap.gather
    simp only [List.forall_mem_cons]
    exact ⟨.string _, .string _, .string _, .string _, .string _, Kept.ofI64 low high, expiry,
      .string _, by simp⟩
  have second : KeptMap (match subject.session with
      | none => subject.members issuedAt tokenId
      | some session =>
        (subject.members issuedAt tokenId).insert "sid" (.string session.text)) := by
    cases subject.session with
    | none => exact first
    | some session => exact first.insert (.string _)
  unfold AccessTokenSubject.claims
  cases subject.roles with
  | none => exact second
  | some roles =>
    apply KeptMap.insert
    · exact second.insert (RoleClaims.writeNames_kept _)
    · apply KeptMap.kept
      apply KeptMap.gather
      simp only [List.mem_singleton, forall_eq]
      exact RoleClaims.writeNames_kept _

theorem writePersonClaims_kept {claims : SortedMap String Json} (kept : KeptMap claims)
    (subject : IdentityTokenSubject) : KeptMap (writePersonClaims claims subject) := by
  have profile : KeptMap (if "profile" ∈ subject.scopes then
      let claims := claims.insert "preferred_username" (.string subject.person.username)
      match subject.displayName with
      | none => claims
      | some name => claims.insert "name" (.string name)
    else claims) := by
    split
    · cases subject.displayName with
      | none => exact kept.insert (.string _)
      | some display => exact (kept.insert (.string _)).insert (.string _)
    · exact kept
  unfold writePersonClaims
  cases subject.person.email with
  | none => exact profile
  | some address =>
    simp only
    split
    · exact (profile.insert (.string _)).insert (.bool _)
    · exact profile

theorem writeMethods_kept (methods : List AuthenticationMethod) : Kept (writeMethods methods) := by
  apply Kept.array
  intro item inside
  obtain ⟨name, -, rfl⟩ := List.mem_map.mp inside
  exact .string name

theorem IdentityTokenSubject.claims_kept {subject : IdentityTokenSubject} {issuedAt : Int}
    (low : -2 ^ 63 ≤ issuedAt) (high : issuedAt < 2 ^ 63)
    (proven : -2 ^ 63 ≤ unixTimestamp subject.authenticatedAt ∧
      unixTimestamp subject.authenticatedAt < 2 ^ 63) :
    KeptMap (subject.claims issuedAt) := by
  have lifetime := saturatingAdd_within IDENTITY_TOKEN_LIFETIME_SECONDS low
  have first : KeptMap (gather
      [("iss", .string subject.issuer), ("sub", .string subject.person.id.text),
        ("aud", .string subject.clientId), ("iat", ofI64 issuedAt),
        ("exp", ofI64 (saturatingAdd issuedAt IDENTITY_TOKEN_LIFETIME_SECONDS)),
        ("auth_time", ofI64 (unixTimestamp subject.authenticatedAt)),
        ("sid", .string subject.session.text)]) := by
    apply KeptMap.gather
    simp only [List.forall_mem_cons]
    exact ⟨.string _, .string _, .string _, Kept.ofI64 low high, Kept.ofI64 lifetime.1 lifetime.2,
      Kept.ofI64 proven.1 proven.2, .string _, by simp⟩
  unfold IdentityTokenSubject.claims
  apply writePersonClaims_kept
  apply KeptMap.insert
  · cases subject.nonce with
    | none => exact first
    | some nonce => exact first.insert (.string _)
  · exact writeMethods_kept subject.methods

end Tokens

end Saffui
