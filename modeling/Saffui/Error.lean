/-!
# The catalog of refusals

Source: `saffui-core/src/error.rs`, the codes the modelled functions return.
-/

namespace Saffui

inductive ErrorCode where
  | internal | storageUnavailable | conflict | randomUnavailable | cryptoUnavailable
  | requestInvalid
  | realmNotFound | personNotFound
  | clientAuthenticationFailed | clientIdentifierInvalid | scopeNotAllowed | grantNotAllowed
  | clientNotFound | clientIdentifierTaken | clientNameInvalid | redirectUriInvalid
  | redirectUriMismatch | scopeInvalid
  | adminAuthenticationFailed | capabilityMissing
  | signInFailed | hashingBusy | signInRequestsTooFrequent | authorizationRequestExpired
  | sessionRequired
  | authenticatorAlreadyEnrolled | authenticatorNotFound | codeRejected | secondFactorProofRequired
  | keyRejected | securityKeysNotServed | securityKeyNotFound
  | consentNotFound
  | tokenInvalid | grantInvalid | tokenTypeUnsupported
  | roleNameInvalid | roleNameTaken | roleNotFound | groupNameInvalid | groupNameTaken
  | groupNotFound | roleTextInvalid | heldTooMany | relationInvalid | relationNotFound
  | policyInvalid | policyNameTaken | policyNotFound | resourceTypeTaken | namedByPolicy
  deriving DecidableEq, Repr

end Saffui
