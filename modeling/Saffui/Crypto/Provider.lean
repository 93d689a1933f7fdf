import Saffui.Foundation.Bytes

/-!
# The seam of the provider

`crypto/src/provider/mod.rs`: the errors a provider surfaces and the digests it
names, with the failure `ports/crypto.rs` of the core has for all of them. What
computes a digest is taken as a function.
-/

namespace Saffui.Crypto

abbrev Bytes := List UInt8

inductive CryptoError where
  | unsupportedAlgorithm | invalidKey | operationFailed | invalidParams | keyStore
  | fipsUnavailable | attestationUnsupported
  deriving DecidableEq, Repr

inductive HashAlg where
  | sha1 | sha256 | sha384 | sha512 | sha3_256 | sha3_384 | sha3_512
  deriving DecidableEq, Repr

/-- The length of a digest in bytes. -/
def HashAlg.outputLen : HashAlg → Nat
  | .sha1 => 20
  | .sha256 | .sha3_256 => 32
  | .sha384 | .sha3_384 => 48
  | .sha512 | .sha3_512 => 64

/-- What the ports of the core say of any of these errors. -/
structure CryptoFailure where
  deriving DecidableEq, Repr

/-- A keyed digest: of a key and a message, under a hash. -/
abbrev HmacProvider := HashAlg → Bytes → Bytes → Except CryptoError Bytes

end Saffui.Crypto
