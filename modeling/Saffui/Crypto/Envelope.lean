import Saffui.Crypto.Provider
import Saffui.Foundation.IdealAead
import Saffui.Ids
import Saffui.Utf8

/-!
# Secrets at rest

Source: `crypto/src/envelope.rs`, with `provider/openssl/aead.rs` below it and
`adapters/seal.rs` above it. A key of the deployment wraps one data key for each realm and generation, and a
data key seals values, each bound to its scope by the additional authenticated
data. What the library of the cipher computes, the derivation of keys and what
is drawn are taken as functions and as answers.
-/

namespace Saffui.Crypto.Envelope
open Saffui.Foundation Saffui.Foundation.Bytes Saffui.Foundation.Outcome

abbrev Crypted (α : Type) := Outcome CryptoError α

inductive AeadAlg where
  | a128Gcm | a192Gcm | a256Gcm | chaCha20Poly1305
  deriving DecidableEq, Repr

def AeadAlg.keyLen : AeadAlg → Nat
  | .a128Gcm => 16
  | .a192Gcm => 24
  | .a256Gcm | .chaCha20Poly1305 => 32

def NONCE_LEN : Nat := 12

def TAG_LEN : Nat := 16

/-- An array of twelve bytes. -/
abbrev Nonce := { bytes : Bytes // bytes.length = NONCE_LEN }

/-- The buffer a tag is written to. -/
abbrev Tag := { bytes : Bytes // bytes.length = TAG_LEN }

/-- `openssl::symm::encrypt_aead`: of a key, a nonce, what is authenticated beside, and a
plaintext. -/
abbrev EncryptAead := AeadAlg → Bytes → Bytes → Bytes → Bytes → Option (Bytes × Tag)

/-- `openssl::symm::decrypt_aead` -/
abbrev DecryptAead := AeadAlg → Bytes → Bytes → Bytes → Bytes → Bytes → Option Bytes

def checkLengths (alg : AeadAlg) (key nonce : Bytes) : Crypted Unit := do
  refuseIf (key.length ≠ alg.keyLen) .invalidKey
  refuseIf (nonce.length ≠ NONCE_LEN) .invalidParams

def operated {α : Type} : Option α → Crypted α
  | some result => pure result
  | none => throw .operationFailed

/-- The ciphertext, and the tag after it. -/
def encrypt (encryptAead : EncryptAead) (alg : AeadAlg) (key nonce aad plaintext : Bytes) :
    Crypted Bytes := do
  checkLengths alg key nonce
  let (body, tag) ← operated (encryptAead alg key nonce aad plaintext)
  return body ++ tag.val

def decrypt (decryptAead : DecryptAead) (alg : AeadAlg) (key nonce aad ciphertext : Bytes) :
    Crypted Bytes := do
  checkLengths alg key nonce
  refuseIf (ciphertext.length < TAG_LEN) .invalidParams
  let middle ← minus ciphertext.length TAG_LEN
  let body ← within (slice ciphertext 0 middle)
  let tag ← within (slice ciphertext middle ciphertext.length)
  operated (decryptAead alg key nonce aad body tag)

/-- The magic, and the version of the layout. -/
def MAGIC : Bytes := [0x53, 0x41, 0x46, 0x31]

def VERSION_LEN : Nat := 4

/-- Where the nonce starts: after the magic and the version of the key. -/
def HEADER_LEN : Nat := MAGIC.length + VERSION_LEN

def DEK_LEN : Nat := 32

def MIN_KEK_LEN : Nat := 16

def WRAP_INFO : Bytes := Text.utf8 "saffui/kek-wrap/v1"

/-- A data key, and the generation it belongs to. -/
structure RealmDek where
  version : UInt32
  key : Bytes
  deriving DecidableEq, Repr

/-- Which secret, in which realm, a ciphertext belongs to. -/
structure SecretScope where
  tenant : String
  realmId : String
  purpose : String
  id : String
  deriving DecidableEq, Repr

/-- A field after its length, as 32 bits hold it. -/
def prefixed (field : String) : Bytes :=
  bigEndian VERSION_LEN (field.utf8ByteSize % 2 ^ 32) ++ Text.utf8 field

/-- What is authenticated of a scope: each field after its length. -/
def SecretScope.aad (scope : SecretScope) : Bytes :=
  MAGIC ++ [scope.tenant, scope.realmId, scope.purpose, scope.id].flatMap prefixed

/-- Whether a stored value is a sealed one, of this layout. -/
def isSealed (stored : Bytes) : Bool := MAGIC.isPrefixOf stored

/-- The generation a value was sealed under, if it is a sealed one. -/
def dekVersion (stored : Bytes) : Crypted (Option UInt32) := do
  if !isSealed stored || stored.length < HEADER_LEN then return none
  else
    let held ← within (slice stored MAGIC.length HEADER_LEN)
    return if held.length = VERSION_LEN then some (UInt32.ofNat (ofBigEndian held)) else none

/-- Seals under any key of the right width, with a nonce drawn for it. -/
def sealWith (encryptAead : EncryptAead) (drawn : Except CryptoError Nonce) (key : Bytes)
    (version : UInt32) (scope : SecretScope) (plaintext : Bytes) : Crypted Bytes := do
  let nonce ← settled drawn
  let ciphertext ← encrypt encryptAead .a256Gcm key nonce.val scope.aad plaintext
  return MAGIC ++ bigEndian VERSION_LEN version.toNat ++ nonce.val ++ ciphertext

/-- Opens what was sealed. -/
def openWith (decryptAead : DecryptAead) (key : Bytes) (version : UInt32) (scope : SecretScope)
    (stored : Bytes) : Crypted Bytes := do
  let stamped ← dekVersion stored
  refuseIf (stamped ≠ some version) .invalidKey
  refuseIf (stored.length < HEADER_LEN + NONCE_LEN) .invalidKey
  let nonce ← within (slice stored HEADER_LEN (HEADER_LEN + NONCE_LEN))
  let ciphertext ← within (slice stored (HEADER_LEN + NONCE_LEN) stored.length)
  decrypt decryptAead .a256Gcm key nonce scope.aad ciphertext

/-- HKDF: of a digest, a key, a salt, a label and a length. -/
abbrev Hkdf := HashAlg → Bytes → Option Bytes → Bytes → Nat → Except CryptoError Bytes

/-- The key that wraps, derived of the key of the deployment. -/
def wrappingKey (hkdf : Hkdf) (kek : Bytes) : Crypted Bytes :=
  settled (hkdf .sha256 kek none WRAP_INFO DEK_LEN)

/-- A deployment's key, long enough. -/
def newEnvelope (kek : String) : Crypted Bytes := do
  refuseIf (kek.utf8ByteSize < MIN_KEK_LEN) .invalidKey
  return Text.utf8 kek

def wrapDek (encryptAead : EncryptAead) (hkdf : Hkdf) (kek : Bytes)
    (drawn : Except CryptoError Nonce) (scope : SecretScope) (dek : RealmDek) : Crypted Bytes := do
  let key ← wrappingKey hkdf kek
  sealWith encryptAead drawn key dek.version scope dek.key

def unwrapDek (decryptAead : DecryptAead) (hkdf : Hkdf) (kek : Bytes) (scope : SecretScope)
    (version : UInt32) (wrapped : Bytes) : Crypted RealmDek := do
  let wrapping ← wrappingKey hkdf kek
  let key ← openWith decryptAead wrapping version scope wrapped
  refuseIf (key.length ≠ DEK_LEN) .invalidKey
  return ⟨version, key⟩

/-- A scope whose fields have lengths of 32 bits. -/
structure SecretScope.Short (scope : SecretScope) : Prop where
  tenant : scope.tenant.utf8ByteSize < 2 ^ 32
  realmId : scope.realmId.utf8ByteSize < 2 ^ 32
  purpose : scope.purpose.utf8ByteSize < 2 ^ 32
  id : scope.id.utf8ByteSize < 2 ^ 32

theorem prefixed_inj {one other : String} {rest more : Bytes} (first : one.utf8ByteSize < 2 ^ 32)
    (second : other.utf8ByteSize < 2 ^ 32)
    (same : prefixed one ++ rest = prefixed other ++ more) : one = other ∧ rest = more := by
  rw [prefixed, prefixed, Nat.mod_eq_of_lt first, Nat.mod_eq_of_lt second, List.append_assoc,
    List.append_assoc] at same
  obtain ⟨counts, fields⟩ := List.append_inj same (by rw [bigEndian_length, bigEndian_length])
  have sizes : one.utf8ByteSize = other.utf8ByteSize := bigEndian_injective first second counts
  obtain ⟨texts, rests⟩ := List.append_inj fields (by rw [Text.utf8_length, Text.utf8_length, sizes])
  exact ⟨Text.utf8_injective texts, rests⟩

/-- Only one scope has its authenticated data. -/
theorem aad_injective {one other : SecretScope} (first : one.Short) (second : other.Short)
    (same : one.aad = other.aad) : one = other := by
  simp only [SecretScope.aad, List.flatMap_cons, List.flatMap_nil] at same
  have fields := List.append_cancel_left same
  obtain ⟨tenants, fields⟩ := prefixed_inj first.tenant second.tenant fields
  obtain ⟨realms, fields⟩ := prefixed_inj first.realmId second.realmId fields
  obtain ⟨purposes, fields⟩ := prefixed_inj first.purpose second.purpose fields
  obtain ⟨ids, -⟩ := prefixed_inj first.id second.id fields
  cases one
  cases other
  dsimp only at tenants realms purposes ids
  rw [tenants, realms, purposes, ids]

/-- The bytes of a sealed value: the magic, the version, the nonce and the ciphertext. -/
def frame (version : UInt32) (nonce : Nonce) (ciphertext : Bytes) : Bytes :=
  MAGIC ++ bigEndian VERSION_LEN version.toNat ++ nonce.val ++ ciphertext

theorem header_length (version : UInt32) :
    (MAGIC ++ bigEndian VERSION_LEN version.toNat).length = HEADER_LEN := by
  rw [List.length_append, bigEndian_length, HEADER_LEN]

theorem checkLengths_eq {alg : AeadAlg} {key nonce : Bytes} {passed : Unit} :
    checkLengths alg key nonce = pure passed ↔
      key.length = alg.keyLen ∧ nonce.length = NONCE_LEN := by
  rw [checkLengths, bind_eq_pure]
  simp only [refuseIf_eq_pure, not_not]
  exact ⟨fun ⟨_, key, nonce⟩ => ⟨key, nonce⟩, fun ⟨key, nonce⟩ => ⟨(), key, nonce⟩⟩

theorem operated_eq {α : Type} {result : Option α} {value : α} :
    operated result = pure value ↔ result = some value := by
  cases result with
  | none => exact ⟨nofun, nofun⟩
  | some held =>
    rw [operated, pure_inj, Option.some.injEq]

/-- What a seal writes. -/
theorem sealWith_eq {encryptAead : EncryptAead} {drawn : Except CryptoError Nonce} {key : Bytes}
    {version : UInt32} {scope : SecretScope} {plaintext stored : Bytes} :
    sealWith encryptAead drawn key version scope plaintext = pure stored ↔
      ∃ (nonce : Nonce) (body : Bytes) (tag : Tag), drawn = .ok nonce ∧
        key.length = AeadAlg.a256Gcm.keyLen ∧
        encryptAead .a256Gcm key nonce.val scope.aad plaintext = some (body, tag) ∧
        stored = frame version nonce (body ++ tag.val) := by
  unfold sealWith encrypt
  simp only [bind_eq_pure, settled_eq_pure, checkLengths_eq, operated_eq, pure_inj]
  constructor
  · rintro ⟨nonce, drawn, code, ⟨_, ⟨wide, -⟩, ⟨body, tag⟩, answered, rfl⟩, rfl⟩
    exact ⟨nonce, body, tag, drawn, wide, answered, rfl⟩
  · rintro ⟨nonce, body, tag, drawn, wide, answered, rfl⟩
    exact ⟨nonce, drawn, body ++ tag.val, ⟨(), ⟨wide, nonce.2⟩, (body, tag), answered, rfl⟩, rfl⟩

theorem slice_front (front back : Bytes) : slice (front ++ back) 0 front.length = some front := by
  have found := slice_middle [] front back
  rwa [List.nil_append, List.length_nil, Nat.zero_add] at found

theorem slice_back (front back : Bytes) :
    slice (front ++ back) front.length (front ++ back).length = some back := by
  have found := slice_middle front back []
  rwa [List.append_nil, ← List.length_append] at found

theorem dekVersion_header (version : UInt32) (rest : Bytes) :
    dekVersion (MAGIC ++ (bigEndian VERSION_LEN version.toNat ++ rest)) = pure (some version) := by
  have count : (bigEndian VERSION_LEN version.toNat).length = VERSION_LEN := bigEndian_length _ _
  have sealed : isSealed (MAGIC ++ (bigEndian VERSION_LEN version.toNat ++ rest)) = true :=
    List.isPrefixOf_iff_prefix.mpr (List.prefix_append _ _)
  have long : ¬(MAGIC ++ (bigEndian VERSION_LEN version.toNat ++ rest)).length < HEADER_LEN := by
    rw [← List.append_assoc, List.length_append, header_length]
    omega
  have held : slice (MAGIC ++ (bigEndian VERSION_LEN version.toNat ++ rest)) MAGIC.length
      HEADER_LEN = some (bigEndian VERSION_LEN version.toNat) := by
    have found := slice_middle MAGIC (bigEndian VERSION_LEN version.toNat) rest
    rwa [count] at found
  have read : UInt32.ofNat (ofBigEndian (bigEndian VERSION_LEN version.toNat)) = version := by
    rw [ofBigEndian_bigEndian version.toNat_lt, UInt32.ofNat_toNat]
  rw [dekVersion, sealed]
  simp only [Bool.not_true, Bool.false_or, decide_eq_true_eq, long, if_false, held, within_some,
    pure_bind, count, if_true, read]

/-- A stored value bears no generation, or one after the magic. -/
theorem dekVersion_cases (stored : Bytes) :
    dekVersion stored = pure none ∨ ∃ (version : UInt32) (rest : Bytes),
      stored = MAGIC ++ (bigEndian VERSION_LEN version.toNat ++ rest) := by
  by_cases sealed : isSealed stored = true
  · by_cases short : stored.length < HEADER_LEN
    · left
      rw [dekVersion, sealed]
      simp [short]
    · right
      obtain ⟨rest, rfl⟩ := List.isPrefixOf_iff_prefix.mp sealed
      have enough : VERSION_LEN ≤ rest.length := by
        rw [List.length_append, HEADER_LEN] at short
        omega
      have count : (rest.take VERSION_LEN).length = VERSION_LEN := List.length_take_of_le enough
      have small : ofBigEndian (rest.take VERSION_LEN) < 2 ^ 32 := by
        have bound := ofBigEndian_lt (rest.take VERSION_LEN)
        rwa [count] at bound
      refine ⟨UInt32.ofNat (ofBigEndian (rest.take VERSION_LEN)), rest.drop VERSION_LEN, ?_⟩
      have read := bigEndian_ofBigEndian (rest.take VERSION_LEN)
      rw [count] at read
      rw [UInt32.toNat_ofNat', Nat.mod_eq_of_lt small, read, List.take_append_drop]
  · left
    rw [dekVersion, Bool.eq_false_iff.mpr sealed]
    rfl

theorem checkLengths_returns (alg : AeadAlg) (key nonce : Bytes) :
    Returns (checkLengths alg key nonce) :=
  returns_bind (returns_refuseIf _ _) fun _ _ => returns_refuseIf _ _

theorem operated_returns {α : Type} (result : Option α) : Returns (operated result) := by
  cases result with
  | none => exact ⟨.error .operationFailed, rfl⟩
  | some value => exact ⟨.ok value, rfl⟩

/-- A ciphertext too short for a tag is refused, if its key was not. -/
theorem decrypt_short (decryptAead : DecryptAead) (alg : AeadAlg) (key nonce aad : Bytes)
    {ciphertext : Bytes} (short : ciphertext.length < TAG_LEN) :
    ∃ error, decrypt decryptAead alg key nonce aad ciphertext = throw error := by
  obtain ⟨checked, same⟩ := checkLengths_returns alg key nonce
  rw [decrypt, same]
  cases checked with
  | error error => exact ⟨error, rfl⟩
  | ok passed =>
    refine ⟨.invalidParams, ?_⟩
    rw [settled_ok, pure_bind, refuseIf_pos short]
    rfl

/-- A ciphertext with a tag at its end. -/
theorem decrypt_tagged (decryptAead : DecryptAead) (alg : AeadAlg) (key nonce aad body : Bytes)
    (tag : Tag) : decrypt decryptAead alg key nonce aad (body ++ tag.val) = (do
      checkLengths alg key nonce
      operated (decryptAead alg key nonce aad body tag.val)) := by
  have count : (body ++ tag.val).length = body.length + TAG_LEN := by
    rw [List.length_append, tag.2]
  have long : ¬(body ++ tag.val).length < TAG_LEN := by omega
  have least : TAG_LEN ≤ (body ++ tag.val).length := by omega
  have middle : (body ++ tag.val).length - TAG_LEN = body.length := by omega
  unfold decrypt
  rw [refuseIf_neg long, minus_of_le least, middle]
  simp only [pure_bind, slice_front, slice_back, within_some]

theorem exists_tagged {ciphertext : Bytes} (long : ¬ciphertext.length < TAG_LEN) :
    ∃ (body : Bytes) (tag : Tag), ciphertext = body ++ tag.val := by
  have count : (ciphertext.drop (ciphertext.length - TAG_LEN)).length = TAG_LEN := by
    rw [List.length_drop]
    omega
  exact ⟨_, ⟨_, count⟩, (List.take_append_drop _ _).symm⟩

/-- A value with a nonce and a ciphertext after its header. -/
theorem openWith_frame (decryptAead : DecryptAead) (key : Bytes) (version : UInt32)
    (scope : SecretScope) (nonce : Nonce) (ciphertext : Bytes) :
    openWith decryptAead key version scope (frame version nonce ciphertext) =
      decrypt decryptAead .a256Gcm key nonce.val scope.aad ciphertext := by
  have stamped : dekVersion (frame version nonce ciphertext) = pure (some version) := by
    rw [frame, List.append_assoc, List.append_assoc]
    exact dekVersion_header version _
  have front : (MAGIC ++ bigEndian VERSION_LEN version.toNat ++ nonce.val).length =
      HEADER_LEN + NONCE_LEN := by
    rw [List.length_append, header_length, nonce.2]
  have long : ¬(frame version nonce ciphertext).length < HEADER_LEN + NONCE_LEN := by
    rw [frame, List.length_append, front]
    omega
  have drawn : slice (frame version nonce ciphertext) HEADER_LEN (HEADER_LEN + NONCE_LEN) =
      some nonce.val := by
    have found := slice_middle (MAGIC ++ bigEndian VERSION_LEN version.toNat) nonce.val ciphertext
    rwa [header_length, nonce.2, ← List.append_assoc] at found
  have code : slice (frame version nonce ciphertext) (HEADER_LEN + NONCE_LEN)
      (frame version nonce ciphertext).length = some ciphertext := by
    have found := slice_back (MAGIC ++ bigEndian VERSION_LEN version.toNat ++ nonce.val) ciphertext
    rwa [front] at found
  rw [openWith, stamped, pure_bind, refuseIf_neg (not_not.mpr rfl), refuseIf_neg long, drawn, code]
  rfl

/-- What opens: a value of this layout and generation that the cipher decrypts. -/
theorem openWith_cases (decryptAead : DecryptAead) (key : Bytes) (version : UInt32)
    (scope : SecretScope) (stored : Bytes) :
    (∃ error, openWith decryptAead key version scope stored = throw error) ∨
      ∃ (nonce : Nonce) (body : Bytes) (tag : Tag), stored = frame version nonce (body ++ tag.val) ∧
        openWith decryptAead key version scope stored = (do
          checkLengths .a256Gcm key nonce.val
          operated (decryptAead .a256Gcm key nonce.val scope.aad body tag.val)) := by
  rcases dekVersion_cases stored with plain | ⟨stamped, rest, rfl⟩
  · left
    refine ⟨.invalidKey, ?_⟩
    rw [openWith, plain, pure_bind, refuseIf_pos (by simp)]
    rfl
  · by_cases same : stamped = version
    · subst same
      by_cases short : rest.length < NONCE_LEN
      · left
        refine ⟨.invalidKey, ?_⟩
        have cut : (MAGIC ++ (bigEndian VERSION_LEN stamped.toNat ++ rest)).length <
            HEADER_LEN + NONCE_LEN := by
          rw [← List.append_assoc, List.length_append, header_length]
          omega
        rw [openWith, dekVersion_header, pure_bind, refuseIf_neg (not_not.mpr rfl),
          refuseIf_pos cut]
        rfl
      · have count : (rest.take NONCE_LEN).length = NONCE_LEN :=
          List.length_take_of_le (Nat.le_of_not_lt short)
        have framed : MAGIC ++ (bigEndian VERSION_LEN stamped.toNat ++ rest) =
            frame stamped ⟨rest.take NONCE_LEN, count⟩ (rest.drop NONCE_LEN) := by
          rw [frame, List.append_assoc _ (rest.take NONCE_LEN), List.take_append_drop,
            List.append_assoc]
        rw [framed, openWith_frame]
        by_cases tagless : (rest.drop NONCE_LEN).length < TAG_LEN
        · exact .inl (decrypt_short decryptAead .a256Gcm key _ scope.aad tagless)
        · right
          obtain ⟨body, tag, code⟩ := exists_tagged tagless
          rw [code]
          exact ⟨_, body, tag, rfl, decrypt_tagged decryptAead .a256Gcm key _ scope.aad body tag⟩
    · left
      have other : some stamped ≠ some version := fun held => same (Option.some.inj held)
      refine ⟨.invalidKey, ?_⟩
      rw [openWith, dekVersion_header, pure_bind, refuseIf_pos other]
      rfl

theorem openWith_eq {decryptAead : DecryptAead} {key : Bytes} {version : UInt32}
    {scope : SecretScope} {stored plaintext : Bytes} :
    openWith decryptAead key version scope stored = pure plaintext ↔
      ∃ (nonce : Nonce) (body : Bytes) (tag : Tag), stored = frame version nonce (body ++ tag.val) ∧
        key.length = AeadAlg.a256Gcm.keyLen ∧
        decryptAead .a256Gcm key nonce.val scope.aad body tag.val = some plaintext := by
  constructor
  · intro opened
    rcases openWith_cases decryptAead key version scope stored with
      ⟨error, refused⟩ | ⟨nonce, body, tag, framed, reads⟩
    · rw [refused] at opened
      cases opened
    · rw [reads, bind_eq_pure] at opened
      obtain ⟨_, checked, answered⟩ := opened
      exact ⟨nonce, body, tag, framed, (checkLengths_eq.mp checked).1, operated_eq.mp answered⟩
  · rintro ⟨nonce, body, tag, rfl, wide, answered⟩
    rw [openWith_frame, decrypt_tagged, bind_eq_pure]
    exact ⟨(), checkLengths_eq.mpr ⟨wide, nonce.2⟩, operated_eq.mpr answered⟩

/-- Opening gives a result or an error, whatever the bytes. -/
theorem openWith_returns (decryptAead : DecryptAead) (key : Bytes) (version : UInt32)
    (scope : SecretScope) (stored : Bytes) :
    Returns (openWith decryptAead key version scope stored) := by
  rcases openWith_cases decryptAead key version scope stored with
    ⟨error, refused⟩ | ⟨nonce, body, tag, -, reads⟩
  · exact ⟨.error error, refused⟩
  · rw [reads]
    exact returns_bind (checkLengths_returns _ _ _) fun _ _ => operated_returns _

/-- A library whose decryption gives back what its encryption was given. -/
structure Symm where
  encryptAead : EncryptAead
  decryptAead : DecryptAead
  inverts : ∀ {alg : AeadAlg} {key nonce aad plaintext body : Bytes} {tag : Tag},
    encryptAead alg key nonce aad plaintext = some (body, tag) →
      decryptAead alg key nonce aad body tag.val = some plaintext

/-- What was sealed opens. -/
theorem openWith_sealWith (symm : Symm) {drawn : Except CryptoError Nonce} {key : Bytes}
    {version : UInt32} {scope : SecretScope} {plaintext stored : Bytes}
    (wrote : sealWith symm.encryptAead drawn key version scope plaintext = pure stored) :
    openWith symm.decryptAead key version scope stored = pure plaintext := by
  obtain ⟨nonce, body, tag, -, wide, answered, rfl⟩ := sealWith_eq.mp wrote
  exact openWith_eq.mpr ⟨nonce, body, tag, rfl, wide, symm.inverts answered⟩

/-- A data key that was wrapped is unwrapped. -/
theorem unwrapDek_wrapDek (symm : Symm) {hkdf : Hkdf} {kek : Bytes}
    {drawn : Except CryptoError Nonce} {scope : SecretScope} {dek : RealmDek} {wrapped : Bytes}
    (wide : dek.key.length = DEK_LEN)
    (wrote : wrapDek symm.encryptAead hkdf kek drawn scope dek = pure wrapped) :
    unwrapDek symm.decryptAead hkdf kek scope dek.version wrapped = pure dek := by
  obtain ⟨key, derived, wrote⟩ := bind_eq_pure.mp wrote
  have opened := openWith_sealWith symm wrote
  rw [unwrapDek, derived, pure_bind, opened, pure_bind, refuseIf_neg (not_not.mpr wide), pure_bind]

structure WrappedDataKey where
  generation : UInt32
  wrapped : Bytes
  deriving DecidableEq, Repr

/-- Where a sealed value lives. -/
structure SealPlace where
  tenant : Uuid
  realm : Uuid
  purpose : String
  row : Uuid
  deriving DecidableEq, Repr

def DATA_KEY_PURPOSE : String := "realm-data-key"

/-- What a data key is wrapped for: its realm, and its generation. -/
def dataKeyScope (tenant realm : Uuid) (generation : UInt32) : SecretScope :=
  ⟨tenant.text, realm.text, DATA_KEY_PURPOSE, toString generation.toNat⟩

def SealPlace.scope (place : SealPlace) : SecretScope :=
  ⟨place.tenant.text, place.realm.text, place.purpose, place.row.text⟩

/-- Every error is one failure. -/
def failing {α : Type} (computed : Crypted α) : Outcome CryptoFailure α :=
  computed.adapt fun _ => CryptoFailure.mk

/-- Makes a fresh data key, of bytes that are drawn. -/
def makeDataKey (encryptAead : EncryptAead) (hkdf : Hkdf) (kek : Bytes)
    (drawnKey : Except CryptoError Bytes) (drawn : Except CryptoError Nonce) (tenant realm : Uuid)
    (generation : UInt32) : Outcome CryptoFailure WrappedDataKey := do
  let key ← failing (settled drawnKey)
  let wrapped ← failing
    (wrapDek encryptAead hkdf kek drawn (dataKeyScope tenant realm generation) ⟨generation, key⟩)
  return ⟨generation, wrapped⟩

def unwrapDataKey (decryptAead : DecryptAead) (hkdf : Hkdf) (kek : Bytes) (tenant realm : Uuid)
    (dataKey : WrappedDataKey) : Outcome CryptoFailure RealmDek :=
  failing (unwrapDek decryptAead hkdf kek (dataKeyScope tenant realm dataKey.generation)
    dataKey.generation dataKey.wrapped)

/-- Seals a value in its place, under a data key of its realm. -/
def sealInPlace (symm : Symm) (hkdf : Hkdf) (kek : Bytes) (drawn : Except CryptoError Nonce)
    (dataKey : WrappedDataKey) (place : SealPlace) (plaintext : Bytes) :
    Outcome CryptoFailure Bytes := do
  let dek ← unwrapDataKey symm.decryptAead hkdf kek place.tenant place.realm dataKey
  failing (sealWith symm.encryptAead drawn dek.key dek.version place.scope plaintext)

def openInPlace (symm : Symm) (hkdf : Hkdf) (kek : Bytes) (dataKey : WrappedDataKey)
    (place : SealPlace) (stored : Bytes) : Outcome CryptoFailure Bytes := do
  let dek ← unwrapDataKey symm.decryptAead hkdf kek place.tenant place.realm dataKey
  failing (openWith symm.decryptAead dek.key dek.version place.scope stored)

theorem failing_eq {α : Type} {computed : Crypted α} {value : α} :
    failing computed = pure value ↔ computed = pure value := by
  cases computed with
  | none => exact ⟨nofun, nofun⟩
  | some outcome =>
    cases outcome with
    | error error => exact ⟨nofun, nofun⟩
    | ok held =>
      constructor
      · intro same
        cases same
        rfl
      · intro same
        cases same
        rfl

/-- A data key that was made for a realm unwraps there, to a key of its generation. -/
theorem unwrapDataKey_makeDataKey (symm : Symm) {hkdf : Hkdf} {kek : Bytes}
    {drawnKey : Except CryptoError Bytes} {drawn : Except CryptoError Nonce} {tenant realm : Uuid}
    {generation : UInt32} {dataKey : WrappedDataKey}
    (wide : ∀ key, drawnKey = .ok key → key.length = DEK_LEN)
    (made : makeDataKey symm.encryptAead hkdf kek drawnKey drawn tenant realm generation =
      pure dataKey) :
    ∃ key, drawnKey = .ok key ∧
      unwrapDataKey symm.decryptAead hkdf kek tenant realm dataKey = pure ⟨generation, key⟩ := by
  obtain ⟨key, first, made⟩ := bind_eq_pure.mp made
  obtain ⟨wrapped, second, made⟩ := bind_eq_pure.mp made
  cases pure_inj.mp made
  have filled := settled_eq_pure.mp (failing_eq.mp first)
  have unwrapped := unwrapDek_wrapDek symm (wide key filled) (failing_eq.mp second)
  exact ⟨key, filled, failing_eq.mpr unwrapped⟩

/-- A value opens in the place it was sealed in, under the data key it was sealed under. -/
theorem openInPlace_sealInPlace (symm : Symm) {hkdf : Hkdf} {kek : Bytes}
    {drawn : Except CryptoError Nonce} {dataKey : WrappedDataKey} {place : SealPlace}
    {plaintext stored : Bytes}
    (wrote : sealInPlace symm hkdf kek drawn dataKey place plaintext = pure stored) :
    openInPlace symm hkdf kek dataKey place stored = pure plaintext := by
  obtain ⟨dek, unwrapped, sealed⟩ := bind_eq_pure.mp wrote
  have opened := openWith_sealWith symm (failing_eq.mp sealed)
  rw [openInPlace, unwrapped, pure_bind, failing_eq, opened]

/-- A sealing under an ideal cipher, which answered it with a body and a tag of its own. -/
structure Sealing where
  key : Bytes
  version : UInt32
  scope : SecretScope
  nonce : Nonce
  plaintext : Bytes
  body : Bytes
  tag : Tag
  stored : Bytes
  wrote : sealWith (fun _ _ _ _ _ => some (body, tag)) (.ok nonce) key version scope plaintext =
    pure stored

/-- The encryption a sealing asked for. -/
def Sealing.entry (sealing : Sealing) :
    IdealAead.Encrypted Bytes Bytes Bytes Bytes (Bytes × Bytes) :=
  ⟨sealing.key, sealing.nonce.val, sealing.scope.aad, sealing.plaintext,
    (sealing.body, sealing.tag.val)⟩

/-- The sealings made up to some point, in any order and under any keys. -/
structure History where
  sealings : List Sealing
  consistent : IdealAead.Consistent (sealings.map Sealing.entry)

/-- The decryption of an ideal cipher, after a history. -/
def History.decryptAead (history : History) : DecryptAead := fun _ key nonce aad body tag =>
  IdealAead.decrypt (history.sealings.map Sealing.entry) key nonce aad (body, tag)

/-- The library as it answered in a history, and to nothing else. -/
def History.symm (history : History) : Symm where
  encryptAead alg key nonce aad plaintext :=
    if alg = .a256Gcm then
      (history.sealings.find? fun sealing => sealing.key = key ∧ sealing.nonce.val = nonce ∧
        sealing.scope.aad = aad ∧ sealing.plaintext = plaintext).map
          fun sealing => (sealing.body, sealing.tag)
    else none
  decryptAead := history.decryptAead
  inverts := by
    intro alg key nonce aad plaintext body tag answered
    split at answered
    · obtain ⟨sealing, found, same⟩ := Option.map_eq_some_iff.mp answered
      have asked := List.find?_some found
      obtain ⟨rfl, rfl, rfl, rfl⟩ := of_decide_eq_true asked
      cases same
      exact IdealAead.decrypt_of_mem history.consistent
        (List.mem_map_of_mem (List.mem_of_find?_eq_some found))
    · cases answered

/-- A value was sealed under a key, a version and a scope. -/
def History.Sealed (history : History) (key : Bytes) (version : UInt32) (scope : SecretScope)
    (stored : Bytes) : Prop :=
  ∃ sealing ∈ history.sealings, sealing.key = key ∧ sealing.version = version ∧
    sealing.scope = scope ∧ sealing.stored = stored

/-- A value opens where it was sealed, and is refused with an error where it was not. -/
def History.Binds (history : History) (key : Bytes) (version : UInt32) (scope : SecretScope)
    (stored : Bytes) : Prop :=
  history.Sealed key version scope stored ∨
    ∃ error, openWith history.decryptAead key version scope stored = throw error

/-- A value of a sealing under the key and the authenticated data of the scope, with the version in
its header replaced. -/
def History.Restamped (history : History) (key : Bytes) (version : UInt32) (scope : SecretScope)
    (stored : Bytes) : Prop :=
  ∃ sealing ∈ history.sealings, sealing.key = key ∧ sealing.scope.aad = scope.aad ∧
    stored = frame version sealing.nonce (sealing.body ++ sealing.tag.val)

theorem Sealing.wrote_eq (sealing : Sealing) : sealing.key.length = AeadAlg.a256Gcm.keyLen ∧
    sealing.stored = frame sealing.version sealing.nonce (sealing.body ++ sealing.tag.val) := by
  obtain ⟨nonce, body, tag, drawn, wide, answered, written⟩ := sealWith_eq.mp sealing.wrote
  cases drawn
  cases answered
  exact ⟨wide, written⟩

/-- A sealing of a key that sealed once is made again. -/
theorem History.symm_seals (history : History) {sealing : Sealing}
    (inside : sealing ∈ history.sealings)
    (alone : ∀ other ∈ history.sealings, other.key = sealing.key → other = sealing) :
    sealWith history.symm.encryptAead (.ok sealing.nonce) sealing.key sealing.version sealing.scope
      sealing.plaintext = pure sealing.stored := by
  obtain ⟨wide, written⟩ := sealing.wrote_eq
  refine sealWith_eq.mpr ⟨sealing.nonce, sealing.body, sealing.tag, rfl, wide, ?_, written⟩
  cases found : history.sealings.find? fun other => other.key = sealing.key ∧
      other.nonce.val = sealing.nonce.val ∧ other.scope.aad = sealing.scope.aad ∧
      other.plaintext = sealing.plaintext with
  | none =>
    have unlike := List.find?_eq_none.mp found sealing inside
    exact absurd (decide_eq_true ⟨rfl, rfl, rfl, rfl⟩) unlike
  | some other =>
    have asked := List.find?_some found
    have is := alone other (List.mem_of_find?_eq_some found) (of_decide_eq_true asked).1
    rw [is] at found
    simp only [History.symm, if_true, found, Option.map_some]

/-- What opens after a history: what was sealed, whatever the version in the header. -/
theorem History.opens_iff (history : History) (key : Bytes) (version : UInt32) (scope : SecretScope)
    (stored : Bytes) :
    (∃ plaintext, openWith history.decryptAead key version scope stored = pure plaintext) ↔
      history.Restamped key version scope stored := by
  constructor
  · rintro ⟨plaintext, opened⟩
    obtain ⟨nonce, body, tag, rfl, -, answered⟩ := openWith_eq.mp opened
    obtain ⟨made, listed, ⟨key_eq, nonce_eq, aad_eq, answer_eq⟩, -⟩ :=
      IdealAead.exists_of_decrypt answered
    obtain ⟨sealing, inside, rfl⟩ := List.mem_map.mp listed
    have codes : sealing.body = body ∧ sealing.tag.val = tag.val := Prod.mk.inj answer_eq
    have nonces : sealing.nonce = nonce := Subtype.ext nonce_eq
    exact ⟨sealing, inside, key_eq, aad_eq, by rw [codes.1, codes.2, nonces]⟩
  · rintro ⟨sealing, inside, rfl, aad_eq, rfl⟩
    have answered := IdealAead.decrypt_of_mem history.consistent
      (List.mem_map_of_mem (f := Sealing.entry) inside)
    refine ⟨sealing.plaintext, openWith_eq.mpr
      ⟨sealing.nonce, sealing.body, sealing.tag, rfl, sealing.wrote_eq.1, ?_⟩⟩
    rw [← aad_eq]
    exact answered

theorem binds_iff (history : History) (key : Bytes) (version : UInt32) (scope : SecretScope)
    (stored : Bytes) : history.Binds key version scope stored ↔
      ¬(history.Restamped key version scope stored ∧
        ¬history.Sealed key version scope stored) := by
  have opens := history.opens_iff key version scope stored
  constructor
  · rintro (sealed | ⟨error, refused⟩) ⟨restamped, other⟩
    · exact other sealed
    · obtain ⟨plaintext, opened⟩ := opens.mpr restamped
      rw [refused] at opened
      cases opened
  · intro clean
    by_cases sealed : history.Sealed key version scope stored
    · exact .inl sealed
    · obtain ⟨outcome, answered⟩ := openWith_returns history.decryptAead key version scope stored
      cases outcome with
      | error error => exact .inr ⟨error, answered⟩
      | ok plaintext => exact absurd ⟨opens.mp ⟨plaintext, answered⟩, sealed⟩ clean

/-- Between scopes with lengths of 32 bits, only the version can have been replaced. -/
theorem History.Restamped.elsewhere {history : History} {key : Bytes} {version : UInt32}
    {scope : SecretScope} {stored : Bytes} (short : scope.Short)
    (all : ∀ sealing ∈ history.sealings, sealing.scope.Short)
    (restamped : history.Restamped key version scope stored)
    (other : ¬history.Sealed key version scope stored) :
    ∃ sealing ∈ history.sealings, sealing.key = key ∧ sealing.scope = scope ∧
      sealing.version ≠ version ∧
      stored = frame version sealing.nonce (sealing.body ++ sealing.tag.val) := by
  obtain ⟨sealing, inside, same_key, same_aad, framed⟩ := restamped
  have same_scope := aad_injective (all sealing inside) short same_aad
  refine ⟨sealing, inside, same_key, same_scope, ?_, framed⟩
  intro same_version
  have written := sealing.wrote_eq.2
  rw [same_version, ← framed] at written
  exact other ⟨sealing, inside, same_key, same_version, same_scope, written⟩

/-- A key of one generation binds what it seals to it. -/
theorem binds_of_generation {history : History} {key : Bytes} {version : UInt32}
    {scope : SecretScope} (short : scope.Short)
    (all : ∀ sealing ∈ history.sealings, sealing.scope.Short)
    (generation : ∀ sealing ∈ history.sealings, sealing.key = key → sealing.version = version)
    (stored : Bytes) : history.Binds key version scope stored := by
  rw [binds_iff]
  rintro ⟨restamped, other⟩
  obtain ⟨sealing, inside, same_key, -, apart, -⟩ := restamped.elsewhere short all other
  exact apart (generation sealing inside same_key)

/-- The scope is told by its authenticated data, what was sealed or wrapped comes back, no bytes
panic, and after every history a value opens only where it was sealed, unless the version in its
header was replaced. -/
theorem secrets_bound (history : History) (key : Bytes) (version : UInt32) (scope : SecretScope)
    (stored : Bytes) :
    (∀ one other : SecretScope, one.Short → other.Short → one.aad = other.aad → one = other) ∧
    (∀ (symm : Symm) (drawn : Except CryptoError Nonce) (key : Bytes) (version : UInt32)
      (scope : SecretScope) (plaintext stored : Bytes),
      sealWith symm.encryptAead drawn key version scope plaintext = pure stored →
        openWith symm.decryptAead key version scope stored = pure plaintext) ∧
    (∀ (symm : Symm) (hkdf : Hkdf) (kek : Bytes) (drawn : Except CryptoError Nonce)
      (scope : SecretScope) (dek : RealmDek) (wrapped : Bytes), dek.key.length = DEK_LEN →
      wrapDek symm.encryptAead hkdf kek drawn scope dek = pure wrapped →
        unwrapDek symm.decryptAead hkdf kek scope dek.version wrapped = pure dek) ∧
    (∀ decryptAead : DecryptAead, Returns (openWith decryptAead key version scope stored)) ∧
    (history.Binds key version scope stored ↔
      ¬(history.Restamped key version scope stored ∧ ¬history.Sealed key version scope stored)) :=
  ⟨fun _ _ => aad_injective, fun symm _ _ _ _ _ _ => openWith_sealWith symm,
    fun symm _ _ _ _ _ _ => unwrapDek_wrapDek symm,
    fun decryptAead => openWith_returns decryptAead key version scope stored,
    binds_iff history key version scope stored⟩

/-- One value of a realm, sealed under the first generation of its key. -/
def sealedOnce : Sealing where
  key := List.replicate 32 0
  version := 1
  scope := ⟨"acme", "main", "signing-key", "kid-1"⟩
  nonce := ⟨List.replicate 12 0, rfl⟩
  plaintext := [1]
  body := [207]
  tag := ⟨[240, 8, 201, 124, 39, 23, 140, 205, 210, 240, 245, 237, 205, 36, 162, 57], rfl⟩
  stored := frame 1 ⟨List.replicate 12 0, rfl⟩
    ([207] ++ [240, 8, 201, 124, 39, 23, 140, 205, 210, 240, 245, 237, 205, 36, 162, 57])
  wrote := sealWith_eq.mpr ⟨_, _, _, rfl, rfl, rfl, rfl⟩

/-- That key, wrapped under the key of a deployment. -/
def wrappedOnce : Sealing where
  key := [83, 2, 5, 144, 235, 191, 160, 69, 19, 197, 229, 234, 65, 121, 128, 110, 73, 2, 224, 69,
    69, 54, 228, 133, 252, 113, 76, 125, 244, 78, 192, 232]
  version := 1
  scope := ⟨"acme", "main", "realm-data-key", "1"⟩
  nonce := ⟨1 :: List.replicate 11 0, rfl⟩
  plaintext := List.replicate 32 0
  body := [150, 35, 40, 83, 20, 136, 50, 214, 12, 219, 65, 250, 30, 123, 83, 14, 82, 24, 85, 241,
    223, 82, 44, 53, 13, 189, 48, 193, 176, 111, 103, 95]
  tag := ⟨[17, 51, 20, 138, 10, 38, 247, 233, 59, 173, 192, 207, 209, 224, 137, 29], rfl⟩
  stored := frame 1 ⟨1 :: List.replicate 11 0, rfl⟩
    ([150, 35, 40, 83, 20, 136, 50, 214, 12, 219, 65, 250, 30, 123, 83, 14, 82, 24, 85, 241, 223,
      82, 44, 53, 13, 189, 48, 193, 176, 111, 103, 95] ++
      [17, 51, 20, 138, 10, 38, 247, 233, 59, 173, 192, 207, 209, 224, 137, 29])
  wrote := sealWith_eq.mpr ⟨_, _, _, rfl, rfl, rfl, rfl⟩

def acmeHistory : History where
  sealings := [wrappedOnce, sealedOnce]
  consistent := by
    have apart : wrappedOnce.key ≠ sealedOnce.key := by decide
    intro one first other second is
    have keys := is.1
    simp only [List.map_cons, List.map_nil, List.mem_cons, List.not_mem_nil, or_false] at first second
    rcases first with rfl | rfl <;> rcases second with rfl | rfl
    · rfl
    · exact absurd keys apart
    · exact absurd keys.symm apart
    · rfl

/-- The deployment's key, and the one the library derives of it. -/
def acmeKek : Bytes := Text.utf8 "0123456789abcdef"

def acmeHkdf : Hkdf := fun hash kek salt info length =>
  if hash = .sha256 ∧ kek = acmeKek ∧ salt = none ∧ info = WRAP_INFO ∧ length = DEK_LEN then
    .ok wrappedOnce.key
  else .error .operationFailed

theorem acmeHkdf_wrapping : wrappingKey acmeHkdf acmeKek = pure wrappedOnce.key := by
  rw [wrappingKey, acmeHkdf, if_pos ⟨rfl, rfl, rfl, rfl, rfl⟩]
  rfl

/-- What was sealed and what was wrapped come back, by a library that answers as it did. -/
theorem secrets_bound_acme :
    openWith acmeHistory.symm.decryptAead sealedOnce.key 1 sealedOnce.scope sealedOnce.stored =
        pure sealedOnce.plaintext ∧
      unwrapDek acmeHistory.symm.decryptAead acmeHkdf acmeKek wrappedOnce.scope 1
          wrappedOnce.stored = pure ⟨1, wrappedOnce.plaintext⟩ ∧
      acmeHistory.Binds sealedOnce.key 1 sealedOnce.scope sealedOnce.stored := by
  obtain ⟨-, opens, unwraps, -, bound⟩ :=
    secrets_bound acmeHistory sealedOnce.key 1 sealedOnce.scope sealedOnce.stored
  have sealed : acmeHistory.Sealed sealedOnce.key 1 sealedOnce.scope sealedOnce.stored :=
    ⟨sealedOnce, by simp [acmeHistory], rfl, rfl, rfl, rfl⟩
  refine ⟨opens acmeHistory.symm (.ok sealedOnce.nonce) _ _ _ _ _ ?_,
    unwraps acmeHistory.symm acmeHkdf acmeKek (.ok wrappedOnce.nonce) _ ⟨1, _⟩ _ rfl ?_,
    bound.mpr fun both => both.2 sealed⟩
  · apply acmeHistory.symm_seals (by simp [acmeHistory])
    intro other inside key
    have apart : wrappedOnce.key ≠ sealedOnce.key := by decide
    simp only [acmeHistory, List.mem_cons, List.not_mem_nil, or_false] at inside
    rcases inside with rfl | rfl
    · exact absurd key apart
    · rfl
  · rw [wrapDek, acmeHkdf_wrapping, pure_bind]
    apply acmeHistory.symm_seals (by simp [acmeHistory])
    intro other inside key
    have apart : sealedOnce.key ≠ wrappedOnce.key := by decide
    simp only [acmeHistory, List.mem_cons, List.not_mem_nil, or_false] at inside
    rcases inside with rfl | rfl
    · rfl
    · exact absurd key apart

/-- With a two for the one in its header, it opens under the second. -/
theorem restamped_opens : ¬∀ (history : History) (key : Bytes) (version : UInt32)
    (scope : SecretScope) (stored : Bytes), history.Binds key version scope stored := by
  intro binds
  let history : History := ⟨[sealedOnce], by
    intro one first other second _
    rw [List.mem_singleton.mp first, List.mem_singleton.mp second]⟩
  have bound := binds history sealedOnce.key 2 sealedOnce.scope
    (frame 2 sealedOnce.nonce (sealedOnce.body ++ sealedOnce.tag.val))
  rw [binds_iff] at bound
  apply bound
  constructor
  · exact ⟨sealedOnce, List.mem_singleton_self _, rfl, rfl, rfl⟩
  · rintro ⟨sealing, inside, -, version, -⟩
    rw [List.mem_singleton.mp inside] at version
    cases version

end Saffui.Crypto.Envelope
