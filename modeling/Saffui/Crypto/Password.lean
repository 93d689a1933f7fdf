import Saffui.Crypto.Provider
import Saffui.Foundation.PaddedBase64
import Saffui.Utf8

/-!
# Passwords derived with PBKDF2

Source: `crypto/src/password/storage.rs`, the PBKDF2 family of
`crypto/src/password/legacy.rs` and `pbkdf2_hmac` of
`crypto/src/provider/openssl/kdf.rs`: what is written for a password, and the
verification of what was written or imported. The other stored formats are
verified by the provider and not here.
-/

namespace Saffui.Crypto.Password

open Foundation Foundation.Bytes Outcome

/-- A derivation: of a password, a salt, a count and the length asked. -/
abbrev Kdf := HashAlg → Bytes → Bytes → UInt32 → Nat → Outcome CryptoError Bytes

/-- What OpenSSL derives into a buffer of the length asked, where it does not fail. -/
abbrev Pkcs5 := HashAlg → Bytes → Bytes → UInt32 → (len : Nat) → Option (Vector UInt8 len)

/-- `OpenSslKdf::pbkdf2_hmac` -/
def pbkdf2Hmac (openssl : Pkcs5) : Kdf := fun hash passphrase salt iterations len => do
  refuseIf (iterations = 0) .invalidParams
  match openssl hash passphrase salt iterations len with
  | some out => pure out.toList
  | none => throw .operationFailed

inductive StoredPassword where
  | argon2id (encoded : String)
  | pbkdf2 (algorithm : String) (iterations : UInt32) (salt hash : String)
  deriving DecidableEq, Repr

/-- The stored shapes of `LegacyHash` that are of the PBKDF2 family, and the
one Argon2id credentials are handed over as. -/
inductive LegacyHash where
  | argon2id (encoded : String)
  | pbkdf2HmacSha1 (iterations : UInt32) (salt hash : String)
  | pbkdf2HmacSha256 (iterations : UInt32) (salt hash : String)
  | pbkdf2HmacSha512 (iterations : UInt32) (salt hash : String)
  | djangoPbkdf2Sha256 (iterations : UInt32) (salt hash : String)
  | djangoPbkdf2Sha1 (iterations : UInt32) (salt hash : String)
  | aspNetIdentityV2 (binary : Bytes)
  | aspNetIdentityV3 (binary : Bytes)
  | pbkdf2NamedPrf (variant : String) (iterations : UInt32) (salt hash : String)
  deriving DecidableEq, Repr

def PBKDF2_SALT_LEN : Nat := 16

def encodeBase64 (bytes : Bytes) : String := String.ofList (Base64.encodePadded bytes)

/-- `data_encoding::BASE64`: it decodes what it encoded, and may decode more. -/
structure DataEncoding where
  decode : String → Option Bytes
  decodes : ∀ bytes, decode (encodeBase64 bytes) = some bytes

variable (encoding : DataEncoding)

def b64 (text : String) : Except CryptoError Bytes :=
  match encoding.decode text with
  | some bytes => .ok bytes
  | none => .error .invalidParams

/-- The PRF a PBKDF2 algorithm name asks for. -/
def pbkdf2Prf (name : String) : Except CryptoError HashAlg :=
  match Text.toAsciiLowercase name with
  | "pbkdf2-sha1" | "pbkdf2withhmacsha1" => .ok .sha1
  | "pbkdf2-sha256" | "pbkdf2withhmacsha256" => .ok .sha256
  | "pbkdf2-sha512" | "pbkdf2withhmacsha512" => .ok .sha512
  | _ => .error .unsupportedAlgorithm

/-- `StoredPassword::hash_pbkdf2`, with the salt the provider draws. -/
def hashPbkdf2 (kdf : Kdf) (drawn : Except CryptoError (Vector UInt8 PBKDF2_SALT_LEN))
    (algorithm : String) (iterations : UInt32) (password : String) :
    Outcome CryptoError StoredPassword := do
  let hash ← settled (pbkdf2Prf algorithm)
  let salt ← settled drawn
  let derived ← kdf hash (Text.utf8 password) salt.toList iterations hash.outputLen
  return .pbkdf2 (Text.toAsciiLowercase algorithm) iterations (encodeBase64 salt.toList)
    (encodeBase64 derived)

def StoredPassword.toLegacyHash : StoredPassword → Except CryptoError LegacyHash
  | .argon2id encoded => .ok (.argon2id encoded)
  | .pbkdf2 algorithm iterations salt hash => do
    match ← pbkdf2Prf algorithm with
    | .sha1 => .ok (.pbkdf2HmacSha1 iterations salt hash)
    | .sha256 => .ok (.pbkdf2HmacSha256 iterations salt hash)
    | .sha512 => .ok (.pbkdf2HmacSha512 iterations salt hash)
    | _ => .error .unsupportedAlgorithm

def MIN_PBKDF2_HASH_LEN : Nat := 16

def MAX_PBKDF2_ITERATIONS : UInt32 := 10000000

def pbkdf2Check (kdf : Kdf) (alg : HashAlg) (password : String) (salt : Bytes)
    (iterations : UInt32) (expected : Bytes) : Outcome CryptoError Bool := do
  refuseIf (expected.length < MIN_PBKDF2_HASH_LEN ∨ iterations = 0) .invalidParams
  refuseIf (iterations > MAX_PBKDF2_ITERATIONS) .invalidParams
  let derived ← kdf alg (Text.utf8 password) salt iterations expected.length
  return decide (derived = expected)

/-- A record of base64 salt and hash. -/
def normalizedCheck (kdf : Kdf) (alg : HashAlg) (password : String) (iterations : UInt32)
    (salt hash : String) : Outcome CryptoError Bool := do
  let salt ← settled (b64 encoding salt)
  let hash ← settled (b64 encoding hash)
  pbkdf2Check kdf alg password salt iterations hash

/-- A record whose salt is plain text. -/
def djangoCheck (kdf : Kdf) (alg : HashAlg) (password : String) (iterations : UInt32)
    (salt hash : String) : Outcome CryptoError Bool := do
  let hash ← settled (b64 encoding hash)
  pbkdf2Check kdf alg password (Text.utf8 salt) iterations hash

/-- `[0x00] salt(16) subkey(32)` -/
def aspnetV2 (kdf : Kdf) (password : String) (binary : Bytes) : Outcome CryptoError Bool := do
  refuseIf (binary.length ≠ 1 + 16 + 32) .invalidParams
  let marker ← within binary[0]?
  refuseIf (marker ≠ 0x00) .invalidParams
  let salt ← within (slice binary 1 17)
  let subkey ← within (slice binary 17 49)
  pbkdf2Check kdf .sha1 password salt 1000 subkey

/-- The number of four bytes from a place on. -/
def be (binary : Bytes) (place : Nat) : Outcome CryptoError Nat := do
  let first ← within binary[place]?
  let second ← within binary[place + 1]?
  let third ← within binary[place + 2]?
  let fourth ← within binary[place + 3]?
  return ofBigEndian [first, second, third, fourth]

def prfOf : Nat → Except CryptoError HashAlg
  | 0 => .ok .sha1
  | 1 => .ok .sha256
  | 2 => .ok .sha512
  | _ => .error .unsupportedAlgorithm

/-- `[0x01] prf(u32) iterations(u32) saltLen(u32) salt subkey`, where a pointer
has the bits given. -/
def aspnetV3 (bits : Nat) (kdf : Kdf) (password : String) (binary : Bytes) :
    Outcome CryptoError Bool := do
  refuseIf (binary.length < 13) .invalidParams
  let marker ← within binary[0]?
  refuseIf (marker ≠ 0x01) .invalidParams
  let prf ← be binary 1
  let iterations ← be binary 5
  let declared ← be binary 9
  let saltLen := declared % 2 ^ bits
  let saltStart := 13
  -- `checked_add`
  refuseIf (saltStart + saltLen ≥ 2 ^ bits) .invalidParams
  let subkeyStart := saltStart + saltLen
  refuseIf (binary.length ≤ subkeyStart) .invalidParams
  let alg ← settled (prfOf prf)
  let salt ← within (slice binary saltStart subkeyStart)
  let subkey ← within (slice binary subkeyStart binary.length)
  pbkdf2Check kdf alg password salt (UInt32.ofNat iterations) subkey

/-- What a verification asks of the provider. -/
structure PasswordProvider where
  kdf : Kdf
  verifyLegacyArgon2 : String → String → Except CryptoError Bool

def LegacyHash.verify (bits : Nat) (provider : PasswordProvider) (password : String) :
    LegacyHash → Outcome CryptoError Bool
  | .argon2id encoded => settled (provider.verifyLegacyArgon2 password encoded)
  | .pbkdf2HmacSha1 iterations salt hash =>
    normalizedCheck encoding provider.kdf .sha1 password iterations salt hash
  | .pbkdf2HmacSha256 iterations salt hash =>
    normalizedCheck encoding provider.kdf .sha256 password iterations salt hash
  | .pbkdf2HmacSha512 iterations salt hash =>
    normalizedCheck encoding provider.kdf .sha512 password iterations salt hash
  | .djangoPbkdf2Sha256 iterations salt hash =>
    djangoCheck encoding provider.kdf .sha256 password iterations salt hash
  | .djangoPbkdf2Sha1 iterations salt hash =>
    djangoCheck encoding provider.kdf .sha1 password iterations salt hash
  | .aspNetIdentityV2 binary => aspnetV2 provider.kdf password binary
  | .aspNetIdentityV3 binary => aspnetV3 bits provider.kdf password binary
  | .pbkdf2NamedPrf variant iterations salt hash => do
    let alg ← settled (pbkdf2Prf variant)
    normalizedCheck encoding provider.kdf alg password iterations salt hash

theorem b64_encodeBase64 (bytes : Bytes) : b64 encoding (encodeBase64 bytes) = .ok bytes := by
  rw [b64, encoding.decodes]

theorem toAsciiLowercase_idem (text : String) :
    Text.toAsciiLowercase (Text.toAsciiLowercase text) = Text.toAsciiLowercase text := by
  apply String.toList_injective
  rw [Text.toAsciiLowercase, Text.toAsciiLowercase, String.toList_map, String.toList_map,
    List.map_map]
  apply List.map_congr_left
  intro character _
  rw [Function.comp_apply]
  by_cases upper : Text.isAsciiUppercase character = true
  · have lowered : ∀ value < 128, Text.isAsciiUppercase (Char.ofNat value) = true →
        Text.isAsciiUppercase (Char.ofNat ((Char.ofNat value).toNat + 32)) = false := by
      decide +kernel
    have small : character.toNat < 128 := by
      simp only [Text.isAsciiUppercase, Bool.and_eq_true, decide_eq_true_eq] at upper
      have last : character.toNat ≤ 'Z'.toNat := upper.2
      have number : 'Z'.toNat = 90 := rfl
      omega
    have other := lowered character.toNat small
    rw [Char.ofNat_toNat] at other
    rw [if_pos upper, if_neg (by rw [other upper]; decide)]
  · rw [if_neg upper, if_neg upper]

/-- The PRF a name asks for is one of three, and its lowercase asks for the same. -/
theorem pbkdf2Prf_eq_ok {name : String} {hash : HashAlg} (resolved : pbkdf2Prf name = .ok hash) :
    (hash = .sha1 ∨ hash = .sha256 ∨ hash = .sha512) ∧
      pbkdf2Prf (Text.toAsciiLowercase name) = .ok hash := by
  refine ⟨?_, ?_⟩
  · unfold pbkdf2Prf at resolved
    split at resolved <;> cases resolved <;> simp
  · rw [pbkdf2Prf, toAsciiLowercase_idem]
    exact resolved

theorem pbkdf2Hmac_length {openssl : Pkcs5} {hash : HashAlg} {passphrase salt derived : Bytes}
    {iterations : UInt32} {len : Nat}
    (returned : pbkdf2Hmac openssl hash passphrase salt iterations len = pure derived) :
    iterations ≠ 0 ∧ derived.length = len := by
  obtain ⟨_, passed, returned⟩ := bind_eq_pure.mp returned
  refine ⟨refuseIf_eq_pure.mp passed, ?_⟩
  split at returned
  · next out _ =>
    rw [← pure_inj.mp returned]
    exact out.length_toList
  · cases returned

/-- What was derived is found again, as long as the count is one the verification takes. -/
theorem pbkdf2Check_derived {kdf : Kdf} {alg : HashAlg} {password : String} {salt derived : Bytes}
    {iterations : UInt32}
    (returned : kdf alg (Text.utf8 password) salt iterations derived.length = pure derived)
    (long : MIN_PBKDF2_HASH_LEN ≤ derived.length) (counted : iterations ≠ 0) :
    pbkdf2Check kdf alg password salt iterations derived = pure true ↔
      iterations ≤ MAX_PBKDF2_ITERATIONS := by
  have passed : ¬(derived.length < MIN_PBKDF2_HASH_LEN ∨ iterations = 0) := by
    rintro (short | zero)
    · omega
    · exact counted zero
  rw [pbkdf2Check, refuseIf_neg passed, pure_bind]
  constructor
  · intro verified
    obtain ⟨_, within, -⟩ := bind_eq_pure.mp verified
    exact UInt32.not_lt.mp (refuseIf_eq_pure.mp within)
  · intro within
    rw [refuseIf_neg (UInt32.not_lt.mpr within), pure_bind, returned, pure_bind, decide_eq_true rfl]

theorem outputLen_long (hash : HashAlg) : MIN_PBKDF2_HASH_LEN ≤ hash.outputLen := by
  cases hash <;> decide

theorem normalizedCheck_encoded (kdf : Kdf) (alg : HashAlg) (password : String)
    (iterations : UInt32) (salt hash : Bytes) :
    normalizedCheck encoding kdf alg password iterations (encodeBase64 salt) (encodeBase64 hash) =
      pbkdf2Check kdf alg password salt iterations hash := by
  rw [normalizedCheck, b64_encodeBase64, b64_encodeBase64, settled_ok, settled_ok, pure_bind,
    pure_bind]

/-- What was written for a password is handed over as it was derived. -/
theorem verified_as_derived {openssl : Pkcs5}
    {drawn : Except CryptoError (Vector UInt8 PBKDF2_SALT_LEN)} {algorithm : String}
    {iterations : UInt32} {password : String} {stored : StoredPassword}
    (hashed : hashPbkdf2 (pbkdf2Hmac openssl) drawn algorithm iterations password = pure stored) :
    ∃ hash salt derived, iterations ≠ 0 ∧ MIN_PBKDF2_HASH_LEN ≤ derived.length ∧
      pbkdf2Hmac openssl hash (Text.utf8 password) salt iterations derived.length = pure derived ∧
      ∀ bits argon2, (∃ legacy, stored.toLegacyHash = .ok legacy ∧
          legacy.verify encoding bits ⟨pbkdf2Hmac openssl, argon2⟩ password = pure true) ↔
        pbkdf2Check (pbkdf2Hmac openssl) hash password salt iterations derived = pure true := by
  obtain ⟨hash, resolved, hashed⟩ := bind_eq_pure.mp hashed
  obtain ⟨salt, -, hashed⟩ := bind_eq_pure.mp hashed
  obtain ⟨derived, returned, hashed⟩ := bind_eq_pure.mp hashed
  obtain ⟨counted, size⟩ := pbkdf2Hmac_length returned
  obtain ⟨known, lowered⟩ := pbkdf2Prf_eq_ok (settled_eq_pure.mp resolved)
  have long : MIN_PBKDF2_HASH_LEN ≤ derived.length := by
    rw [size]
    exact outputLen_long hash
  rw [← size] at returned
  refine ⟨hash, salt.toList, derived, counted, long, returned, fun bits argon2 => ?_⟩
  rw [← pure_inj.mp hashed]
  rcases known with rfl | rfl | rfl
  all_goals
    simp only [StoredPassword.toLegacyHash, lowered, bind, Except.bind, Except.ok.injEq,
      exists_eq_left', LegacyHash.verify, normalizedCheck_encoded]

/-- What was written for a password is handed over, and verifies with it exactly when its count is
at most the most a verification derives with. -/
theorem written_verifies (openssl : Pkcs5)
    (drawn : Except CryptoError (Vector UInt8 PBKDF2_SALT_LEN)) (algorithm : String)
    (iterations : UInt32) (password : String) (bits : Nat)
    (argon2 : String → String → Except CryptoError Bool) {stored : StoredPassword}
    (hashed : hashPbkdf2 (pbkdf2Hmac openssl) drawn algorithm iterations password = pure stored) :
    (∃ legacy, stored.toLegacyHash = .ok legacy ∧
        legacy.verify encoding bits ⟨pbkdf2Hmac openssl, argon2⟩ password = pure true) ↔
      iterations ≤ MAX_PBKDF2_ITERATIONS := by
  obtain ⟨hash, salt, derived, counted, long, returned, verified⟩ := verified_as_derived encoding hashed
  rw [verified, pbkdf2Check_derived returned long counted]

/-- What is derived with SHA-256 of one password and one salt, for two counts. -/
def derivations : Pkcs5 := fun _ _ _ iterations _ =>
  let known : Bytes := if iterations = 1000 then
      [78, 251, 43, 187, 109, 46, 181, 142, 168, 222, 174, 213, 68, 23, 174, 47, 216, 127, 213, 10,
        138, 133, 104, 112, 147, 99, 218, 96, 212, 86, 6, 6]
    else
      [183, 195, 31, 124, 35, 198, 154, 5, 129, 142, 24, 127, 118, 10, 2, 138, 213, 174, 118, 67,
        121, 79, 39, 194, 108, 63, 118, 60, 205, 120, 114, 190]
  some (Vector.ofFn fun place => known.getD place 0)

/-- A decoder of texts that are padded at their end alone. -/
def paddedOnce : DataEncoding where
  decode text := Base64.decodePadded text.toList
  decodes bytes := by
    rw [encodeBase64, String.toList_ofList, Base64.decodePadded_encodePadded]

def countedSalt : Vector UInt8 PBKDF2_SALT_LEN :=
  #v[0, 1, 2, 3, 4, 5, 6, 7, 8, 9, 10, 11, 12, 13, 14, 15]

/-- What is stored for the password "secret". -/
def storedSecret (iterations : UInt32) (derived : Vector UInt8 32) : StoredPassword :=
  .pbkdf2 (Text.toAsciiLowercase "pbkdf2-sha256") iterations (encodeBase64 countedSalt.toList)
    (encodeBase64 derived.toList)

theorem secret_hashed {iterations : UInt32} (counted : iterations ≠ 0) {derived : Vector UInt8 32}
    (known : derivations .sha256 (Text.utf8 "secret") countedSalt.toList iterations 32 =
      some derived) :
    hashPbkdf2 (pbkdf2Hmac derivations) (.ok countedSalt) "pbkdf2-sha256" iterations "secret" =
      pure (storedSecret iterations derived) := by
  have lower : Text.toAsciiLowercase "pbkdf2-sha256" = "pbkdf2-sha256" := by
    apply String.toList_injective
    rw [Text.toAsciiLowercase, String.toList_map]
    decide
  have resolved : pbkdf2Prf "pbkdf2-sha256" = .ok .sha256 := by
    simp [pbkdf2Prf, lower]
  have returned : pbkdf2Hmac derivations .sha256 (Text.utf8 "secret") countedSalt.toList iterations
      HashAlg.sha256.outputLen = pure derived.toList := by
    rw [pbkdf2Hmac, refuseIf_neg counted, pure_bind]
    simp only [HashAlg.outputLen, known]
  rw [hashPbkdf2, resolved, settled_ok, pure_bind, settled_ok, pure_bind, returned, pure_bind]
  rfl

theorem secret_verifies :
    (∃ legacy, (storedSecret 1000 ((derivations .sha256 [] [] 1000 32).get rfl)).toLegacyHash =
        .ok legacy ∧
      legacy.verify paddedOnce 64 ⟨pbkdf2Hmac derivations, fun _ _ => .ok false⟩ "secret" =
        pure true) ↔
      (1000 : UInt32) ≤ MAX_PBKDF2_ITERATIONS :=
  written_verifies paddedOnce derivations (.ok countedSalt) "pbkdf2-sha256" 1000 "secret" 64
    (fun _ _ => .ok false) (secret_hashed (by decide) rfl)

/-- A count past the bound is written, and never verified. -/
theorem ten_million_and_one_locks :
    ¬∀ stored, hashPbkdf2 (pbkdf2Hmac derivations) (.ok countedSalt) "pbkdf2-sha256" 10000001
        "secret" = pure stored →
      ∃ legacy, stored.toLegacyHash = .ok legacy ∧
        legacy.verify paddedOnce 64 ⟨pbkdf2Hmac derivations, fun _ _ => .ok false⟩ "secret" =
          pure true := by
  intro claimed
  have hashed := @secret_hashed 10000001 (by decide) _ rfl
  obtain ⟨hash, salt, derived, counted, long, returned, verified⟩ :=
    verified_as_derived paddedOnce hashed
  have checked := (verified 64 fun _ _ => .ok false).mp (claimed _ hashed)
  have bounded := (pbkdf2Check_derived returned long counted).mp checked
  exact absurd bounded (by decide)

/-- A derivation that answers where the count is one a verification may ask for. Elsewhere it may
panic. -/
def Serves (kdf : Kdf) : Prop :=
  ∀ alg password salt iterations len, iterations ≠ 0 → iterations ≤ MAX_PBKDF2_ITERATIONS →
    Returns (kdf alg password salt iterations len)

/-- A blob of ASP.NET Identity v3: its marker, three numbers, a salt and a subkey. -/
def v3Layout (prf count declared : Nat) (rest : Bytes) : Bytes :=
  0x01 :: (bigEndian 4 prf ++ (bigEndian 4 count ++ (bigEndian 4 declared ++ rest)))

/-- A record says which PRF, salt and count its stored bytes were derived with. -/
def LegacyHash.Stated (bits : Nat) (alg : HashAlg) (salt : Bytes) (iterations : UInt32)
    (stored : Bytes) : LegacyHash → Prop
  | .argon2id _ => False
  | .pbkdf2HmacSha1 count saltText hash =>
    alg = .sha1 ∧ count = iterations ∧ b64 encoding saltText = .ok salt ∧
      b64 encoding hash = .ok stored
  | .pbkdf2HmacSha256 count saltText hash =>
    alg = .sha256 ∧ count = iterations ∧ b64 encoding saltText = .ok salt ∧
      b64 encoding hash = .ok stored
  | .pbkdf2HmacSha512 count saltText hash =>
    alg = .sha512 ∧ count = iterations ∧ b64 encoding saltText = .ok salt ∧
      b64 encoding hash = .ok stored
  | .djangoPbkdf2Sha256 count saltText hash =>
    alg = .sha256 ∧ count = iterations ∧ Text.utf8 saltText = salt ∧ b64 encoding hash = .ok stored
  | .djangoPbkdf2Sha1 count saltText hash =>
    alg = .sha1 ∧ count = iterations ∧ Text.utf8 saltText = salt ∧ b64 encoding hash = .ok stored
  | .aspNetIdentityV2 binary =>
    alg = .sha1 ∧ iterations = 1000 ∧ salt.length = 16 ∧ stored.length = 32 ∧
      binary = 0x00 :: (salt ++ stored)
  | .aspNetIdentityV3 binary => ∃ prf declared : Nat, prfOf prf = .ok alg ∧ declared < 2 ^ 32 ∧
      salt.length = declared % 2 ^ bits ∧
      binary = v3Layout prf iterations.toNat declared (salt ++ stored)
  | .pbkdf2NamedPrf variant count saltText hash =>
    pbkdf2Prf variant = .ok alg ∧ count = iterations ∧ b64 encoding saltText = .ok salt ∧
      b64 encoding hash = .ok stored

/-- A record of the PBKDF2 family. -/
def LegacyHash.IsPbkdf2 : LegacyHash → Prop
  | .argon2id _ => False
  | _ => True

variable {kdf : Kdf}

theorem pbkdf2Check_returns (serves : Serves kdf) (alg : HashAlg) (password : String)
    (salt : Bytes) (iterations : UInt32) (expected : Bytes) :
    Returns (pbkdf2Check kdf alg password salt iterations expected) := by
  refine returns_bind (returns_refuseIf _ _) fun _ first => ?_
  refine returns_bind (returns_refuseIf _ _) fun _ second => ?_
  have counted := not_or.mp (refuseIf_eq_pure.mp first)
  have bounded := UInt32.not_lt.mp (refuseIf_eq_pure.mp second)
  exact returns_bind (serves alg _ salt iterations _ counted.2 bounded) fun _ _ => returns_pure _

/-- A match is of as many bytes as are stored, and of sixteen at least. -/
theorem pbkdf2Check_true {alg : HashAlg} {password : String} {salt : Bytes} {iterations : UInt32}
    {expected : Bytes}
    (verified : pbkdf2Check kdf alg password salt iterations expected = pure true) :
    MIN_PBKDF2_HASH_LEN ≤ expected.length ∧
      kdf alg (Text.utf8 password) salt iterations expected.length = pure expected := by
  obtain ⟨_, first, verified⟩ := bind_eq_pure.mp verified
  obtain ⟨_, -, verified⟩ := bind_eq_pure.mp verified
  obtain ⟨derived, returned, verified⟩ := bind_eq_pure.mp verified
  have same : derived = expected := of_decide_eq_true (pure_inj.mp verified)
  have counted := not_or.mp (refuseIf_eq_pure.mp first)
  rw [same] at returned
  exact ⟨Nat.not_lt.mp counted.1, returned⟩

theorem be_append (before after : Bytes) {value : Nat} (small : value < 2 ^ 32) :
    be (before ++ (bigEndian 4 value ++ after)) before.length = pure value := by
  obtain ⟨first, second, third, fourth, shape⟩ := List.length_eq_four.mp (bigEndian_length 4 value)
  have read : ofBigEndian [first, second, third, fourth] = value := by
    rw [← shape]
    exact ofBigEndian_bigEndian (by simpa using small)
  have placed (place : Nat) (below : place < 4) :
      (before ++ (bigEndian 4 value ++ after))[before.length + place]? =
        [first, second, third, fourth][place]? := by
    rw [List.getElem?_append_right (by omega), Nat.add_sub_cancel_left, shape,
      List.getElem?_append_left (by simpa using below)]
  have start := placed 0 (by decide)
  rw [Nat.add_zero] at start
  rw [be, start, placed 1 (by decide), placed 2 (by decide), placed 3 (by decide)]
  simp [read]

/-- A blob is read as its marker, three numbers and what is left for a salt and a subkey. -/
theorem aspnetV3_layout (bits : Nat) (kdf : Kdf) (password : String) {prf count declared : Nat}
    (one : prf < 2 ^ 32) (two : count < 2 ^ 32) (three : declared < 2 ^ 32) (rest : Bytes) :
    aspnetV3 bits kdf password (v3Layout prf count declared rest) = (do
      refuseIf (13 + declared % 2 ^ bits ≥ 2 ^ bits) .invalidParams
      refuseIf (rest.length ≤ declared % 2 ^ bits) .invalidParams
      let alg ← settled (prfOf prf)
      pbkdf2Check kdf alg password (rest.take (declared % 2 ^ bits)) (UInt32.ofNat count)
        (rest.drop (declared % 2 ^ bits))) := by
  have size : (v3Layout prf count declared rest).length = 13 + rest.length := by
    simp only [v3Layout, List.length_cons, List.length_append, bigEndian_length]
    omega
  have marker : (v3Layout prf count declared rest)[0]? = some 0x01 := rfl
  have first : be (v3Layout prf count declared rest) 1 = pure prf :=
    be_append [0x01] _ one
  have second : be (v3Layout prf count declared rest) 5 = pure count := by
    have placed := be_append (0x01 :: bigEndian 4 prf) (bigEndian 4 declared ++ rest) two
    rw [List.length_cons, bigEndian_length, List.cons_append] at placed
    exact placed
  have third : be (v3Layout prf count declared rest) 9 = pure declared := by
    have placed := be_append (0x01 :: (bigEndian 4 prf ++ bigEndian 4 count)) rest three
    rw [List.length_cons, List.length_append, bigEndian_length, bigEndian_length, List.cons_append,
      List.append_assoc] at placed
    exact placed
  have long : ¬(v3Layout prf count declared rest).length < 13 := by omega
  rw [aspnetV3, refuseIf_neg long, pure_bind, marker, within_some, pure_bind,
    refuseIf_neg (by decide), pure_bind, first, pure_bind, second, pure_bind, third, pure_bind]
  dsimp only
  by_cases overflows : 13 + declared % 2 ^ bits ≥ 2 ^ bits
  · rw [refuseIf_pos overflows]
    rfl
  by_cases short : rest.length ≤ declared % 2 ^ bits
  · have past : (v3Layout prf count declared rest).length ≤ 13 + declared % 2 ^ bits := by omega
    rw [refuseIf_neg overflows, pure_bind, refuseIf_pos past, refuseIf_pos short]
    rfl
  have enough : ¬(v3Layout prf count declared rest).length ≤ 13 + declared % 2 ^ bits := by omega
  have head : (0x01 :: (bigEndian 4 prf ++ (bigEndian 4 count ++ bigEndian 4 declared))).length = 13 := by
    simp only [List.length_cons, List.length_append, bigEndian_length]
  have salted : slice (v3Layout prf count declared rest) 13 (13 + declared % 2 ^ bits) =
      some (rest.take (declared % 2 ^ bits)) := by
    have middle := slice_middle (0x01 :: (bigEndian 4 prf ++ (bigEndian 4 count ++ bigEndian 4 declared)))
      (rest.take (declared % 2 ^ bits)) (rest.drop (declared % 2 ^ bits))
    rw [head, List.length_take, Nat.min_eq_left (by omega), List.take_append_drop] at middle
    simpa [v3Layout] using middle
  have keyed : slice (v3Layout prf count declared rest) (13 + declared % 2 ^ bits)
      (v3Layout prf count declared rest).length = some (rest.drop (declared % 2 ^ bits)) := by
    have middle := slice_middle
      (0x01 :: (bigEndian 4 prf ++ (bigEndian 4 count ++ (bigEndian 4 declared ++
        rest.take (declared % 2 ^ bits))))) (rest.drop (declared % 2 ^ bits)) []
    have before : (0x01 :: (bigEndian 4 prf ++ (bigEndian 4 count ++ (bigEndian 4 declared ++
        rest.take (declared % 2 ^ bits))))).length = 13 + declared % 2 ^ bits := by
      simp only [List.length_cons, List.length_append, bigEndian_length, List.length_take]
      omega
    have whole : 13 + declared % 2 ^ bits + (rest.length - declared % 2 ^ bits) =
        (v3Layout prf count declared rest).length := by omega
    rw [before, List.length_drop, whole] at middle
    simpa [v3Layout] using middle
  rw [refuseIf_neg overflows, refuseIf_neg short, pure_bind, pure_bind, refuseIf_neg enough,
    pure_bind, pure_bind]
  rw [salted, keyed]
  rfl

/-- A blob that is long enough and bears the marker is laid out so. -/
theorem exists_v3Layout {binary : Bytes} (long : 13 ≤ binary.length)
    (marked : binary[0]? = some 0x01) :
    ∃ prf count declared rest, prf < 2 ^ 32 ∧ count < 2 ^ 32 ∧ declared < 2 ^ 32 ∧
      binary = v3Layout prf count declared rest := by
  cases binary with
  | nil => cases marked
  | cons first tail =>
    have same : first = 0x01 := Option.some.inj marked
    have four (part : Bytes) (size : part.length = 4) :
        bigEndian 4 (ofBigEndian part) = part ∧ ofBigEndian part < 2 ^ 32 := by
      have back := bigEndian_ofBigEndian part
      have below := ofBigEndian_lt part
      rw [size] at back below
      exact ⟨back, by simpa using below⟩
    rw [List.length_cons] at long
    obtain ⟨one, small⟩ := four (tail.take 4) (by rw [List.length_take]; omega)
    obtain ⟨two, least⟩ := four ((tail.drop 4).take 4) (by
      rw [List.length_take, List.length_drop]
      omega)
    obtain ⟨three, fewest⟩ := four ((tail.drop 8).take 4) (by
      rw [List.length_take, List.length_drop]
      omega)
    refine ⟨_, _, _, tail.drop 12, small, least, fewest, ?_⟩
    have split (place : Nat) : (tail.drop place).take 4 ++ tail.drop (place + 4) = tail.drop place := by
      rw [← List.drop_drop, List.take_append_drop]
    rw [v3Layout, one, two, three, same, split 8, split 4, List.take_append_drop]

theorem aspnetV3_returns (serves : Serves kdf) (bits : Nat) (password : String) (binary : Bytes) :
    Returns (aspnetV3 bits kdf password binary) := by
  by_cases short : binary.length < 13
  · exact ⟨.error .invalidParams, by rw [aspnetV3, refuseIf_pos short]; rfl⟩
  · cases marker : binary[0]? with
    | none =>
      rw [List.getElem?_eq_none_iff] at marker
      omega
    | some first =>
      by_cases marked : first = 0x01
      · obtain ⟨prf, count, declared, rest, one, two, three, rfl⟩ :=
          exists_v3Layout (Nat.not_lt.mp short) (marked ▸ marker)
        rw [aspnetV3_layout bits kdf password one two three]
        refine returns_bind (returns_refuseIf _ _) fun _ _ => ?_
        refine returns_bind (returns_refuseIf _ _) fun _ _ => ?_
        refine returns_bind (returns_settled _) fun alg _ => ?_
        exact pbkdf2Check_returns serves alg password _ _ _
      · refine ⟨.error .invalidParams, ?_⟩
        rw [aspnetV3, refuseIf_neg short, pure_bind, marker, within_some, pure_bind,
          refuseIf_pos marked]
        rfl

/-- A blob of 49 bytes is a marker, sixteen bytes of salt and a subkey of 32. -/
theorem aspnetV2_layout (kdf : Kdf) (password : String) {salt subkey : Bytes}
    (salted : salt.length = 16) (keyed : subkey.length = 32) (marker : UInt8) :
    aspnetV2 kdf password (marker :: (salt ++ subkey)) = (do
      refuseIf (marker ≠ 0x00) .invalidParams
      pbkdf2Check kdf .sha1 password salt 1000 subkey) := by
  have size : ¬(marker :: (salt ++ subkey)).length ≠ 1 + 16 + 32 := by
    rw [List.length_cons, List.length_append, salted, keyed]
    decide
  have first : slice (marker :: (salt ++ subkey)) 1 17 = some salt := by
    have middle := slice_middle [marker] salt subkey
    rwa [salted] at middle
  have second : slice (marker :: (salt ++ subkey)) 17 49 = some subkey := by
    have middle := slice_middle (marker :: salt) subkey []
    rw [List.length_cons, salted, keyed, List.append_nil, List.cons_append] at middle
    exact middle
  have head : (marker :: (salt ++ subkey))[0]? = some marker := rfl
  rw [aspnetV2, refuseIf_neg size, pure_bind, head, within_some, pure_bind, first, second,
    within_some, within_some]
  simp only [pure_bind]

theorem exists_v2Layout {binary : Bytes} (size : binary.length = 1 + 16 + 32) :
    ∃ marker salt subkey, salt.length = 16 ∧ subkey.length = 32 ∧
      binary = marker :: (salt ++ subkey) := by
  cases binary with
  | nil => cases size
  | cons marker tail =>
    rw [List.length_cons] at size
    refine ⟨marker, tail.take 16, tail.drop 16, ?_, ?_, ?_⟩
    · rw [List.length_take]
      omega
    · rw [List.length_drop]
      omega
    · rw [List.take_append_drop]

theorem aspnetV2_returns (serves : Serves kdf) (password : String) (binary : Bytes) :
    Returns (aspnetV2 kdf password binary) := by
  by_cases sized : binary.length = 1 + 16 + 32
  · obtain ⟨marker, salt, subkey, salted, keyed, rfl⟩ := exists_v2Layout sized
    rw [aspnetV2_layout kdf password salted keyed]
    exact returns_bind (returns_refuseIf _ _) fun _ _ =>
      pbkdf2Check_returns serves .sha1 password salt 1000 subkey
  · exact ⟨.error .invalidParams, by rw [aspnetV2, refuseIf_pos sized]; rfl⟩

/-- No record makes a verification read past what it holds, or derive out of bounds. -/
theorem verify_returns {provider : PasswordProvider} (serves : Serves provider.kdf) (bits : Nat)
    (password : String) (record : LegacyHash) :
    Returns (record.verify encoding bits provider password) := by
  have normalized (alg : HashAlg) (iterations : UInt32) (salt hash : String) :
      Returns (normalizedCheck encoding provider.kdf alg password iterations salt hash) :=
    returns_bind (returns_settled _) fun salt _ => returns_bind (returns_settled _) fun hash _ =>
      pbkdf2Check_returns serves alg password salt iterations hash
  have django (alg : HashAlg) (iterations : UInt32) (salt hash : String) :
      Returns (djangoCheck encoding provider.kdf alg password iterations salt hash) :=
    returns_bind (returns_settled _) fun hash _ =>
      pbkdf2Check_returns serves alg password _ iterations hash
  cases record with
  | argon2id encoded => exact returns_settled _
  | pbkdf2HmacSha1 iterations salt hash => exact normalized .sha1 iterations salt hash
  | pbkdf2HmacSha256 iterations salt hash => exact normalized .sha256 iterations salt hash
  | pbkdf2HmacSha512 iterations salt hash => exact normalized .sha512 iterations salt hash
  | djangoPbkdf2Sha256 iterations salt hash => exact django .sha256 iterations salt hash
  | djangoPbkdf2Sha1 iterations salt hash => exact django .sha1 iterations salt hash
  | aspNetIdentityV2 binary => exact aspnetV2_returns serves password binary
  | aspNetIdentityV3 binary => exact aspnetV3_returns serves bits password binary
  | pbkdf2NamedPrf variant iterations salt hash =>
    exact returns_bind (returns_settled _) fun alg _ => normalized alg iterations salt hash

/-- What a derivation gave, of sixteen bytes at least. -/
def Derived (kdf : Kdf) (alg : HashAlg) (password : String) (salt : Bytes) (iterations : UInt32)
    (stored : Bytes) : Prop :=
  MIN_PBKDF2_HASH_LEN ≤ stored.length ∧
    kdf alg (Text.utf8 password) salt iterations stored.length = pure stored

theorem aspnetV3_true {bits : Nat} {password : String} {binary : Bytes}
    (verified : aspnetV3 bits kdf password binary = pure true) :
    ∃ alg salt iterations stored,
      (LegacyHash.aspNetIdentityV3 binary).Stated encoding bits alg salt iterations stored ∧
        Derived kdf alg password salt iterations stored := by
  have opened := verified
  rw [aspnetV3] at opened
  obtain ⟨_, long, opened⟩ := bind_eq_pure.mp opened
  obtain ⟨marker, placed, opened⟩ := bind_eq_pure.mp opened
  obtain ⟨_, marked, -⟩ := bind_eq_pure.mp opened
  have head : binary[0]? = some 0x01 := by
    cases first : binary[0]? with
    | none =>
      rw [first] at placed
      cases placed
    | some byte =>
      rw [first, within_some] at placed
      rw [pure_inj.mp placed, not_not.mp (refuseIf_eq_pure.mp marked)]
  obtain ⟨prf, count, declared, rest, one, two, three, rfl⟩ :=
    exists_v3Layout (Nat.not_lt.mp (refuseIf_eq_pure.mp long)) head
  rw [aspnetV3_layout bits kdf password one two three] at verified
  obtain ⟨_, -, verified⟩ := bind_eq_pure.mp verified
  obtain ⟨_, enough, verified⟩ := bind_eq_pure.mp verified
  obtain ⟨alg, resolved, verified⟩ := bind_eq_pure.mp verified
  refine ⟨alg, _, _, _, ⟨prf, declared, settled_eq_pure.mp resolved, three, ?_, ?_⟩,
    pbkdf2Check_true verified⟩
  · have longer := Nat.not_le.mp (refuseIf_eq_pure.mp enough)
    rw [List.length_take]
    omega
  · rw [List.take_append_drop, UInt32.toNat_ofNat', Nat.mod_eq_of_lt two]

/-- A record is matched only by the derivation it states. -/
theorem verify_true {bits : Nat} {provider : PasswordProvider} {password : String}
    {record : LegacyHash} (family : record.IsPbkdf2)
    (verified : record.verify encoding bits provider password = pure true) :
    ∃ alg salt iterations stored, record.Stated encoding bits alg salt iterations stored ∧
      Derived provider.kdf alg password salt iterations stored := by
  have normalized {alg : HashAlg} {iterations : UInt32} {saltText hash : String}
      (checked : normalizedCheck encoding provider.kdf alg password iterations saltText hash =
        pure true) :
      ∃ salt stored, b64 encoding saltText = .ok salt ∧ b64 encoding hash = .ok stored ∧
        Derived provider.kdf alg password salt iterations stored := by
    obtain ⟨salt, salted, checked⟩ := bind_eq_pure.mp checked
    obtain ⟨stored, hashed, checked⟩ := bind_eq_pure.mp checked
    exact ⟨salt, stored, settled_eq_pure.mp salted, settled_eq_pure.mp hashed,
      pbkdf2Check_true checked⟩
  have django {alg : HashAlg} {iterations : UInt32} {saltText hash : String}
      (checked : djangoCheck encoding provider.kdf alg password iterations saltText hash =
        pure true) :
      ∃ stored, b64 encoding hash = .ok stored ∧
        Derived provider.kdf alg password (Text.utf8 saltText) iterations stored := by
    obtain ⟨stored, hashed, checked⟩ := bind_eq_pure.mp checked
    exact ⟨stored, settled_eq_pure.mp hashed, pbkdf2Check_true checked⟩
  cases record with
  | argon2id encoded => exact absurd family id
  | pbkdf2HmacSha1 iterations saltText hash =>
    obtain ⟨salt, stored, salted, hashed, derived⟩ := normalized verified
    exact ⟨.sha1, salt, iterations, stored, ⟨rfl, rfl, salted, hashed⟩, derived⟩
  | pbkdf2HmacSha256 iterations saltText hash =>
    obtain ⟨salt, stored, salted, hashed, derived⟩ := normalized verified
    exact ⟨.sha256, salt, iterations, stored, ⟨rfl, rfl, salted, hashed⟩, derived⟩
  | pbkdf2HmacSha512 iterations saltText hash =>
    obtain ⟨salt, stored, salted, hashed, derived⟩ := normalized verified
    exact ⟨.sha512, salt, iterations, stored, ⟨rfl, rfl, salted, hashed⟩, derived⟩
  | djangoPbkdf2Sha256 iterations saltText hash =>
    obtain ⟨stored, hashed, derived⟩ := django verified
    exact ⟨.sha256, _, iterations, stored, ⟨rfl, rfl, rfl, hashed⟩, derived⟩
  | djangoPbkdf2Sha1 iterations saltText hash =>
    obtain ⟨stored, hashed, derived⟩ := django verified
    exact ⟨.sha1, _, iterations, stored, ⟨rfl, rfl, rfl, hashed⟩, derived⟩
  | aspNetIdentityV2 binary =>
    have checked : aspnetV2 provider.kdf password binary = pure true := verified
    obtain ⟨_, sized, -⟩ := bind_eq_pure.mp checked
    obtain ⟨marker, salt, subkey, salted, keyed, rfl⟩ :=
      exists_v2Layout (not_not.mp (refuseIf_eq_pure.mp sized))
    rw [aspnetV2_layout provider.kdf password salted keyed] at checked
    obtain ⟨_, marked, checked⟩ := bind_eq_pure.mp checked
    have zero := not_not.mp (refuseIf_eq_pure.mp marked)
    exact ⟨.sha1, salt, 1000, subkey, ⟨rfl, rfl, salted, keyed, by rw [zero]⟩,
      pbkdf2Check_true checked⟩
  | aspNetIdentityV3 binary => exact aspnetV3_true encoding verified
  | pbkdf2NamedPrf variant iterations saltText hash =>
    obtain ⟨alg, resolved, verified⟩ := bind_eq_pure.mp verified
    obtain ⟨salt, stored, salted, hashed, derived⟩ := normalized verified
    exact ⟨alg, salt, iterations, stored, ⟨settled_eq_pure.mp resolved, rfl, salted, hashed⟩,
      derived⟩

/-- A blob written as its format says is read as the fields it was written from. -/
theorem aspnetV3_read (bits : Nat) (kdf : Kdf) (password : String) {prf : Nat} {alg : HashAlg}
    (known : prfOf prf = .ok alg) {count : UInt32} (counted : count ≠ 0)
    (bounded : count ≤ MAX_PBKDF2_ITERATIONS) {salt subkey : Bytes} (fits : salt.length < 2 ^ 32)
    (held : (v3Layout prf count.toNat salt.length (salt ++ subkey)).length < 2 ^ bits)
    (long : MIN_PBKDF2_HASH_LEN ≤ subkey.length) :
    aspnetV3 bits kdf password (v3Layout prf count.toNat salt.length (salt ++ subkey)) = (do
      let derived ← kdf alg (Text.utf8 password) salt count subkey.length
      return decide (derived = subkey)) := by
  have small : prf < 2 ^ 32 := by
    unfold prfOf at known
    split at known
    · decide
    · decide
    · decide
    · cases known
  have size : (v3Layout prf count.toNat salt.length (salt ++ subkey)).length =
      13 + salt.length + subkey.length := by
    simp only [v3Layout, List.length_cons, List.length_append, bigEndian_length]
    omega
  have whole : salt.length % 2 ^ bits = salt.length := Nat.mod_eq_of_lt (by omega)
  have least : 0 < subkey.length := Nat.lt_of_lt_of_le (by decide) long
  have counts : ¬(subkey.length < MIN_PBKDF2_HASH_LEN ∨ count = 0) := by
    rintro (short | zero)
    · omega
    · exact counted zero
  rw [aspnetV3_layout bits kdf password small count.toNat_lt fits, whole,
    refuseIf_neg (by omega), pure_bind, refuseIf_neg (by rw [List.length_append]; omega), pure_bind,
    known, settled_ok, pure_bind, List.take_left, List.drop_left, UInt32.ofNat_toNat, pbkdf2Check,
    refuseIf_neg counts, pure_bind, refuseIf_neg (UInt32.not_lt.mpr bounded), pure_bind]

/-- Whatever an imported record holds, its verification reads within it and derives within the
bounds, and matches only what it states; and a v3 blob is read as the fields it was written from. -/
theorem imported_fail_closed (bits : Nat) (provider : PasswordProvider)
    (serves : Serves provider.kdf) (password : String) :
    (∀ record : LegacyHash, record.IsPbkdf2 →
      Returns (record.verify encoding bits provider password) ∧
      (record.verify encoding bits provider password = pure true →
        ∃ alg salt iterations stored, record.Stated encoding bits alg salt iterations stored ∧
          Derived provider.kdf alg password salt iterations stored)) ∧
    ∀ prf alg (count : UInt32) (salt subkey : Bytes), prfOf prf = .ok alg → count ≠ 0 →
      count ≤ MAX_PBKDF2_ITERATIONS → salt.length < 2 ^ 32 →
      (v3Layout prf count.toNat salt.length (salt ++ subkey)).length < 2 ^ bits →
      MIN_PBKDF2_HASH_LEN ≤ subkey.length →
      (LegacyHash.aspNetIdentityV3 (v3Layout prf count.toNat salt.length (salt ++ subkey))).verify
          encoding bits provider password = (do
        let derived ← provider.kdf alg (Text.utf8 password) salt count subkey.length
        return decide (derived = subkey)) := by
  constructor
  · intro record family
    exact ⟨verify_returns encoding serves bits password record, verify_true encoding family⟩
  · intro prf alg count salt subkey known counted bounded fits held long
    exact aspnetV3_read bits provider.kdf password known counted bounded fits held long

def derivingProvider : PasswordProvider := ⟨pbkdf2Hmac derivations, fun _ _ => .ok false⟩

theorem derivingProvider_serves : Serves derivingProvider.kdf := by
  intro alg password salt iterations len counted bounded
  refine ⟨.ok (((derivations alg password salt iterations len).get rfl).toList), ?_⟩
  change pbkdf2Hmac derivations alg password salt iterations len = _
  rw [pbkdf2Hmac, refuseIf_neg counted]
  rfl

def secretKey : Bytes := ((derivations .sha256 [] [] 1000 32).get rfl).toList

/-- A blob of ASP.NET Identity for the password "secret". -/
def secretBlob : LegacyHash :=
  .aspNetIdentityV3 (v3Layout 1 1000 16 (countedSalt.toList ++ secretKey))

theorem secret_blob_read :
    (Returns (secretBlob.verify paddedOnce 64 derivingProvider "secret") ∧
      (secretBlob.verify paddedOnce 64 derivingProvider "secret" = pure true →
        ∃ alg salt iterations stored, secretBlob.Stated paddedOnce 64 alg salt iterations stored ∧
          Derived derivingProvider.kdf alg "secret" salt iterations stored)) ∧
    secretBlob.verify paddedOnce 64 derivingProvider "secret" = (do
      let derived ← derivingProvider.kdf .sha256 (Text.utf8 "secret") countedSalt.toList 1000 32
      return decide (derived = secretKey)) := by
  have closed := imported_fail_closed paddedOnce 64 derivingProvider derivingProvider_serves "secret"
  have sized : secretKey.length = 32 := Vector.length_toList
  have read := closed.2 1 .sha256 1000 countedSalt.toList secretKey rfl (by decide) (by decide)
    (by decide)
  refine ⟨closed.1 secretBlob trivial, ?_⟩
  rw [sized] at read
  refine read ?_ (by decide)
  simp only [v3Layout, List.length_cons, List.length_append, bigEndian_length, sized]
  decide

end Saffui.Crypto.Password
