import Saffui.Ids
import Saffui.Error
import Saffui.Ports

/-!
# The clients of a realm

Source: `saffui-core/src/clients/mod.rs`. A client holds the fields the
modelled functions read; its name, its capabilities, where it sends a person
who signs out and when it was made are read by none of them.
-/

namespace Saffui

/-- Bytes, of which the product only compares digests and secrets. -/
abbrev Bytes := List UInt8

structure Client where
  /-- The public identifier, unique in its realm. -/
  clientId : String
  /-- The digest of its secret. A public application has none. -/
  secretDigest : Option Bytes
  allowsClientCredentials : Bool
  allowsAuthorizationCode : Bool
  redirectUris : List String
  requiresConsent : Bool
  scopes : List String
  enabled : Bool
  deriving DecidableEq, Repr

/-- 1 to 64 letters, digits, hyphens, dots or underscores, and not in the
shape of the identifier of a person: a token issued to a service names it as
its subject, and could be taken for one of that person. -/
def checkClientIdentifier (text : String) : Except ErrorCode Unit :=
  let allowed := fun character => Text.isAsciiAlphanumeric character || character ∈ ['-', '.', '_']
  let shapedAsAPerson := (Uuid.parse text).isSome
  if 1 ≤ text.utf8ByteSize ∧ text.utf8ByteSize ≤ 64 ∧ text.toList.all allowed ∧
      !shapedAsAPerson then .ok ()
  else .error .clientIdentifierInvalid

/-- 1 to 64 bytes a scope may be written with. -/
def checkScopeToken (text : String) : Except ErrorCode Unit :=
  let allowed := fun character => Text.within 0x21 0x21 character ||
    Text.within 0x23 0x5b character || Text.within 0x5d 0x7e character
  if 1 ≤ text.utf8ByteSize ∧ text.utf8ByteSize ≤ 64 ∧ text.toList.all allowed then .ok ()
  else .error .scopeInvalid

end Saffui
