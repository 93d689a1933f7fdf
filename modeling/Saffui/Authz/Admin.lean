import Saffui.Authz.Decide
import Saffui.Tokens.Realms

/-!
# The administration plane and its clients

Source: `saffui-core/src/authz/capability.rs`, `authorize_admin_call` of
`authz/admin.rs`, `create_client` of `clients/manage.rs`, `register_client` of
`clients/register.rs` and `check_redirect_uri` of `clients/mod.rs`.

What a call draws (the secret, the identifier, the instant) is given. The event
that records a client is not kept: it refuses nothing.
-/

namespace Saffui.Authz.Admin

open Tokens
open Text (utf8)

/-- The capabilities of the administration plane: a closed vocabulary. -/
inductive Capability where
  | realmRead | clientRead | clientWrite | auditRead | userRead | userWrite | roleRead | roleWrite
  | policyRead | policyWrite
  deriving DecidableEq, Repr

/-- A client with what only the administration plane reads of it. -/
structure RegisteredClient extends Client where
  id : Uuid
  name : String
  postLogoutRedirectUris : List String
  /-- What the client may do on the administration plane of its realm. -/
  capabilities : List Capability
  createdAt : Instant
  deriving DecidableEq, Repr

/-- A client to register. With redirect URIs it sends people through the
authorization endpoint; without, it asks for tokens as itself. -/
structure NewClient where
  clientId : String
  name : String
  scopes : List String
  capabilities : List Capability
  redirectUris : List String
  postLogoutRedirectUris : List String
  /-- A public application runs where no secret can be kept: it gets none. -/
  isPublic : Bool
  requiresConsent : Bool
  /-- The client of the administration plane that asks, when one does. -/
  createdBy : Option String
  deriving DecidableEq, Repr

/-- What one registration draws: 32 bytes, an identifier, and the instant. -/
structure Draws where
  random : Option Bytes
  id : Option Uuid
  now : Instant
  deriving DecidableEq, Repr

/-- What is left of a text after one it starts with. -/
def strip (start text : List Char) : Option (List Char) :=
  if start.isPrefixOf text then some (text.drop start.length) else none

/-- The host of an authority: what the last bracket closes, or what stands
before the first colon. -/
def readHost (authority : List Char) : List Char :=
  if ']' ∈ authority then
    let address := (authority.reverse.dropWhile fun character => character ≠ ']').tail.reverse
    address.dropWhile fun character => character = '['
  else authority.takeWhile fun character => character ≠ ':'

/-- An https URL, or an http URL of this machine, with a host, without a
fragment or credentials. -/
def checkRedirectUri (text : String) : Except ErrorCode Unit :=
  let characters := text.toList
  let plain := text.utf8ByteSize ≤ 2000 ∧ '#' ∉ characters ∧
    !characters.any fun character => Text.isWhitespace character || Text.isControl character
  let read := match strip "https://".toList characters with
    | some rest => some (true, rest)
    | none => (strip "http://".toList characters).map fun rest => (false, rest)
  match read with
  | none => .error .redirectUriInvalid
  | some (secure, rest) =>
    let authority := rest.takeWhile fun character => character ≠ '/' && character ≠ '?'
    let host := readHost authority
    let isLocal := String.ofList host ∈ ["localhost", "127.0.0.1", "::1"]
    if plain ∧ host ≠ [] ∧ '@' ∉ authority ∧ (secure ∨ isLocal) then .ok ()
    else .error .redirectUriInvalid

example : checkRedirectUri "http://[::1]:8080/cb" = .ok () ∧
    checkRedirectUri "http://app.example.org/cb" = .error .redirectUriInvalid := by
  decide +kernel

/-- `Option::ok_or` -/
def okOr {α : Type} (found : Option α) (code : ErrorCode) : Except ErrorCode α :=
  match found with
  | none => .error code
  | some value => .ok value

def refuseIf (refused : Prop) [Decidable refused] (code : ErrorCode) : Except ErrorCode Unit :=
  if refused then .error code else .ok ()

/-- What `register_client` refuses of a client before anything is drawn. -/
def checkNewClient (wanted : NewClient) : Except ErrorCode Unit := do
  checkClientIdentifier wanted.clientId
  wanted.scopes.forM checkScopeToken
  (wanted.redirectUris ++ wanted.postLogoutRedirectUris).forM checkRedirectUri
  refuseIf (wanted.redirectUris = [] ∧
    (wanted.postLogoutRedirectUris ≠ [] ∨ wanted.requiresConsent)) .requestInvalid
  let name := Text.trim wanted.name
  refuseIf (¬(1 ≤ name.length ∧ name.length ≤ 120) ∨ name.toList.any Text.isUnshowable)
    .clientNameInvalid
  refuseIf (wanted.isPublic ∧ wanted.redirectUris = []) .requestInvalid
  refuseIf (wanted.redirectUris ≠ [] ∧ wanted.capabilities ≠ []) .requestInvalid

section Register

variable (sha256 : Bytes → Bytes)

/-- The secret the realm generates, none for a public application. -/
def drawSecret (draws : Draws) (wanted : NewClient) : Except ErrorCode (Option Bytes) :=
  if wanted.isPublic then .ok none
  else do
    let random ← okOr draws.random .randomUnavailable
    return some (utf8 (Foundation.Base64.encode random))

/-- The client a registration keeps. -/
def makeClient (wanted : NewClient) (secret : Option Bytes) (id : Uuid) (now : Instant) :
    RegisteredClient where
  id
  clientId := wanted.clientId
  name := Text.trim wanted.name
  secretDigest := secret.map sha256
  allowsClientCredentials := !wanted.isPublic && wanted.redirectUris = []
  allowsAuthorizationCode := wanted.redirectUris ≠ []
  redirectUris := wanted.redirectUris
  postLogoutRedirectUris := wanted.postLogoutRedirectUris
  requiresConsent := wanted.requiresConsent
  scopes := wanted.scopes
  capabilities := wanted.capabilities
  enabled := true
  createdAt := now

/-- Registers a client among those of a realm, and returns its secret unless it
is public. -/
def registerClient (draws : Draws) (kept : List RegisteredClient) (wanted : NewClient) :
    Except ErrorCode (RegisteredClient × Option Bytes) := do
  checkNewClient wanted
  let secret ← drawSecret draws wanted
  let id ← okOr draws.id .randomUnavailable
  let client := makeClient sha256 wanted secret id draws.now
  refuseIf (kept.any fun known => known.clientId = client.clientId) .clientIdentifierTaken
  return (client, secret)

/-- Who is calling the administration plane, once the guard let it through. -/
structure AdminCaller where
  realm : String
  scope : RealmScope
  client : RegisteredClient
  deriving DecidableEq, Repr

/-- Creates a client on behalf of an administrator: nobody hands out more than
they have. -/
def createClient (draws : Draws) (kept : List RegisteredClient) (caller : AdminCaller)
    (wanted : NewClient) : Except ErrorCode (RegisteredClient × Option Bytes) :=
  if wanted.capabilities.any fun granted => granted ∉ caller.client.capabilities then
    .error .capabilityMissing
  else registerClient sha256 draws kept { wanted with createdBy := some caller.client.clientId }

end Register

/-- The scope a token must carry to reach the administration plane at all. -/
def ADMIN_SCOPE : String := "admin"

def nameIssuer (origin realm : String) : String := origin ++ "/realms/" ++ realm

section Guard

variable (packages : TokenPackages) (origin : String)

/-- The claims of a token that may call the plane: an access token of the
realm, of no session, and of the scope `admin`. -/
def authenticateCall (realm : String) (keys : List SigningKey) (now : Instant) (token : String) :
    Except ErrorCode AccessTokenClaims :=
  match Tokens.verifyAccessToken packages (nameIssuer origin realm) token keys now with
  | none => .error .adminAuthenticationFailed
  | some claims =>
    if claims.session.isSome ∨ ADMIN_SCOPE ∉ claims.scopes then .error .adminAuthenticationFailed
    else .ok claims

/-- Lets a call through, or refuses it. `locate` is where the enabled realms
are, `keys` what a realm lists of its keys, and `clients` its clients when
they are read. -/
def authorizeAdminCall (locate : String → Option RealmScope) (keys : RealmScope → List SigningKey)
    (now : Instant) (clients : RealmScope → List RegisteredClient) (realm : String)
    (bearerToken : Option String) (required : Capability) : Except ErrorCode AdminCaller := do
  let token ← okOr bearerToken .adminAuthenticationFailed
  let scope ← okOr (if isRealmName realm then locate realm else none) .adminAuthenticationFailed
  let claims ← authenticateCall packages origin realm (keys scope) now token
  let read := (clients scope).find? fun client => client.clientId = claims.clientId
  let client ← okOr (read.filter fun client => client.enabled) .adminAuthenticationFailed
  refuseIf (required ∉ client.capabilities) .capabilityMissing
  return ⟨realm, scope, client⟩

end Guard

end Saffui.Authz.Admin
