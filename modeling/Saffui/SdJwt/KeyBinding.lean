import Saffui.SdJwt.Compact

/-!
# Key binding

What `verify_presentation` accepts, and what `bind_presentation` makes. A key
binding token is asked for exactly by the policy, and it stands for one
presentation alone: the digest it holds is of everything before it.
-/

namespace Saffui.SdJwt
open Foundation Foundation.Outcome Crypto

variable {serde : SerdeJson} {provider : CryptoProvider} {jose : Jose}

/-- A token of an issuer, read: its payload, and a header of the type asked for. -/
structure IssuerRead (serde : SerdeJson) (jose : Jose) (token : String) (issuer : JwsVerifier)
    (tokenType : String) (bytes : Bytes) (header payload : List (String × Json)) : Prop where
  read : deserializeCompact serde jose token issuer = some (bytes, header)
  typed : isTyped header tokenType = true
  parsed : serde.fromSlice bytes = some (.object payload)

/-- A key binding token that passed. -/
structure BindingRead (serde : SerdeJson) (provider : CryptoProvider) (jose : Jose) (hash : HashAlg)
    (hashed token : String) (holder : List (String × Json)) (binding : KeyBinding)
    (policy : VerifyingPolicy) (verifier : JwsVerifier) (bytes : Bytes)
    (header claims : List (String × Json)) (digest : String) : Prop where
  dictated : jose.holderVerifier holder = some verifier
  read : deserializeCompact serde jose token verifier = some (bytes, header)
  typed : isTyped header "kb+jwt" = true
  parsed : serde.fromSlice bytes = some (.object claims)
  fresh : checkFreshness claims binding policy = .ok ()
  audience : textOf claims "aud" = some binding.audience
  nonce : textOf claims "nonce" = some binding.nonce
  covered : textOf claims "sd_hash" = some digest
  digested : digestOf provider hash hashed = .ok digest

theorem readIssued_eq_ok {presented : String} {issuer : JwsVerifier} {policy : VerifyingPolicy}
    {parts : Parts} {payload : List (String × Json)} :
    readIssued serde jose presented issuer policy = .ok (parts, payload) ↔
      splitPresentation presented = .ok parts ∧
      policy.keyBinding.isSome = parts.keyBinding.isSome ∧
      ∃ bytes header,
        IssuerRead serde jose parts.issuerToken issuer policy.tokenType bytes header payload := by
  constructor
  · intro ran
    obtain ⟨found, cut, ran⟩ := bind_eq_ok.mp ran
    obtain ⟨one, wanted, ran⟩ := bind_eq_ok.mp ran
    obtain ⟨two, unwanted, ran⟩ := bind_eq_ok.mp ran
    obtain ⟨⟨bytes, header⟩, read, ran⟩ := bind_eq_ok.mp ran
    obtain ⟨three, typed, ran⟩ := bind_eq_ok.mp ran
    obtain ⟨object, parsed, ran⟩ := bind_eq_ok.mp ran
    obtain ⟨rfl, rfl⟩ := Prod.mk.inj (Except.ok.inj ran)
    refine ⟨cut, ?_, bytes, header, okOr_eq_ok.mp read, ?_, readObject_eq_some.mp (okOr_eq_ok.mp parsed)⟩
    · rw [refuse_eq_ok] at wanted unwanted
      cases policy_binding : policy.keyBinding with
      | none => cases own : found.keyBinding <;> simp_all
      | some binding => cases own : found.keyBinding <;> simp_all
    · simpa using refuse_eq_ok.mp typed
  · intro found
    obtain ⟨cut, agree, bytes, header, read⟩ := found
    have wanted : ¬(policy.keyBinding.isSome ∧ parts.keyBinding.isNone) := by
      rw [agree]
      cases parts.keyBinding <;> simp
    have unwanted : ¬(policy.keyBinding.isNone ∧ parts.keyBinding.isSome) := by
      rw [← agree]
      cases policy.keyBinding <;> simp
    refine bind_eq_ok.mpr ⟨parts, cut, bind_eq_ok.mpr ⟨(), refuse_eq_ok.mpr wanted, ?_⟩⟩
    refine bind_eq_ok.mpr ⟨(), refuse_eq_ok.mpr unwanted, ?_⟩
    refine bind_eq_ok.mpr ⟨(bytes, header), okOr_eq_ok.mpr read.read, ?_⟩
    refine bind_eq_ok.mpr ⟨(), refuse_eq_ok.mpr (by simp [read.typed]), ?_⟩
    exact bind_eq_ok.mpr ⟨payload, okOr_eq_ok.mpr (readObject_eq_some.mpr read.parsed), rfl⟩

theorem checkKeyBinding_eq_ok {hash : HashAlg} {hashed token : String}
    {holder : List (String × Json)} {binding : KeyBinding} {policy : VerifyingPolicy} :
    checkKeyBinding serde provider jose hash hashed token holder binding policy = .ok () ↔
      ∃ verifier bytes header claims digest, BindingRead serde provider jose hash hashed token holder
        binding policy verifier bytes header claims digest := by
  constructor
  · intro ran
    obtain ⟨verifier, dictated, ran⟩ := bind_eq_ok.mp ran
    obtain ⟨⟨bytes, header⟩, read, ran⟩ := bind_eq_ok.mp ran
    obtain ⟨one, typed, ran⟩ := bind_eq_ok.mp ran
    obtain ⟨claims, parsed, ran⟩ := bind_eq_ok.mp ran
    obtain ⟨two, fresh, ran⟩ := bind_eq_ok.mp ran
    obtain ⟨audience, stated_audience, ran⟩ := bind_eq_ok.mp ran
    obtain ⟨three, same_audience, ran⟩ := bind_eq_ok.mp ran
    obtain ⟨nonce, stated_nonce, ran⟩ := bind_eq_ok.mp ran
    obtain ⟨four, same_nonce, ran⟩ := bind_eq_ok.mp ran
    obtain ⟨digest, stated_digest, ran⟩ := bind_eq_ok.mp ran
    obtain ⟨computed, digested, same_digest⟩ := bind_eq_ok.mp ran
    rw [refuse_eq_ok, not_not] at same_audience same_nonce same_digest
    subst same_audience same_nonce same_digest
    exact ⟨verifier, bytes, header, claims, digest,
      { dictated := okOr_eq_ok.mp dictated
        read := okOr_eq_ok.mp read
        typed := by simpa using refuse_eq_ok.mp typed
        parsed := readObject_eq_some.mp (okOr_eq_ok.mp parsed)
        fresh
        audience := okOr_eq_ok.mp stated_audience
        nonce := okOr_eq_ok.mp stated_nonce
        covered := okOr_eq_ok.mp stated_digest
        digested }⟩
  · intro found
    obtain ⟨verifier, bytes, header, claims, digest, read⟩ := found
    refine bind_eq_ok.mpr ⟨verifier, okOr_eq_ok.mpr read.dictated, ?_⟩
    refine bind_eq_ok.mpr ⟨(bytes, header), okOr_eq_ok.mpr read.read, ?_⟩
    refine bind_eq_ok.mpr ⟨(), refuse_eq_ok.mpr (by simp [read.typed]), ?_⟩
    refine bind_eq_ok.mpr ⟨claims, okOr_eq_ok.mpr (readObject_eq_some.mpr read.parsed), ?_⟩
    refine bind_eq_ok.mpr ⟨(), read.fresh, ?_⟩
    refine bind_eq_ok.mpr ⟨binding.audience, okOr_eq_ok.mpr read.audience, ?_⟩
    refine bind_eq_ok.mpr ⟨(), refuse_eq_ok.mpr (by simp), ?_⟩
    refine bind_eq_ok.mpr ⟨binding.nonce, okOr_eq_ok.mpr read.nonce, ?_⟩
    refine bind_eq_ok.mpr ⟨(), refuse_eq_ok.mpr (by simp), ?_⟩
    refine bind_eq_ok.mpr ⟨digest, okOr_eq_ok.mpr read.covered, ?_⟩
    exact bind_eq_ok.mpr ⟨digest, read.digested, refuse_eq_ok.mpr (by simp)⟩

theorem checkBound_eq_ok {parts : Parts} {hash : HashAlg}
    {holderKey : Option (List (String × Json))} {policy : VerifyingPolicy} :
    checkBound serde provider jose parts hash holderKey policy = .ok () ↔
      ∀ binding token, policy.keyBinding = some binding → parts.keyBinding = some token →
        ∃ holder verifier bytes header claims digest, holderKey = some holder ∧
          BindingRead serde provider jose hash parts.hashed token holder binding policy verifier bytes
            header claims digest := by
  unfold checkBound
  split
  · next binding token asked there =>
    constructor
    · intro ran binding_again token_again same_binding same_token
      rw [asked] at same_binding
      rw [there] at same_token
      cases same_binding
      cases same_token
      obtain ⟨holder, named, checked⟩ := bind_eq_ok.mp ran
      obtain ⟨verifier, bytes, header, claims, digest, read⟩ := checkKeyBinding_eq_ok.mp checked
      exact ⟨holder, verifier, bytes, header, claims, digest, okOr_eq_ok.mp named, read⟩
    · intro each
      obtain ⟨holder, verifier, bytes, header, claims, digest, named, read⟩ :=
        each binding token asked there
      exact bind_eq_ok.mpr ⟨holder, okOr_eq_ok.mpr named,
        checkKeyBinding_eq_ok.mpr ⟨verifier, bytes, header, claims, digest, read⟩⟩
  · next absent =>
    simp only [true_iff]
    exact fun binding token asked there => absurd there (absent binding token asked)

/-- An accepted presentation, step by step. -/
theorem verifyPresentation_eq_pure {fuel : Nat} {presented : String} {issuer : JwsVerifier}
    {policy : VerifyingPolicy} {verified : Verified} :
    verifyPresentation serde provider jose fuel presented issuer policy = pure verified ↔
      ∃ parts payload hash claims,
        readIssued serde jose presented issuer policy = .ok (parts, payload) ∧
        hashNamed serde (SortedMap.lookup "_sd_alg" payload) = .ok hash ∧
        unfoldClaims serde provider fuel payload parts.disclosures = pure claims ∧
        checkValidity claims policy = .ok () ∧
        checkBound serde provider jose parts hash (holderKeyOf jose claims) policy = .ok () ∧
        verified = ⟨claims, holderKeyOf jose claims⟩ := by
  constructor
  · intro ran
    obtain ⟨⟨parts, payload⟩, issued, ran⟩ := bind_eq_pure.mp ran
    obtain ⟨hash, hashed, ran⟩ := bind_eq_pure.mp ran
    obtain ⟨claims, unfolded, ran⟩ := bind_eq_pure.mp ran
    obtain ⟨one, valid, ran⟩ := bind_eq_ok.mp (settled_eq_pure.mp ran)
    obtain ⟨two, bound, ended⟩ := bind_eq_ok.mp ran
    exact ⟨parts, payload, hash, claims, settled_eq_pure.mp issued, settled_eq_pure.mp hashed,
      unfolded, valid, bound, (Except.ok.inj ended).symm⟩
  · intro found
    obtain ⟨parts, payload, hash, claims, issued, hashed, unfolded, valid, bound, rfl⟩ := found
    refine bind_eq_pure.mpr ⟨(parts, payload), settled_eq_pure.mpr issued, ?_⟩
    refine bind_eq_pure.mpr ⟨hash, settled_eq_pure.mpr hashed, ?_⟩
    refine bind_eq_pure.mpr ⟨claims, unfolded, settled_eq_pure.mpr ?_⟩
    exact bind_eq_ok.mpr ⟨(), valid, bind_eq_ok.mpr ⟨(), bound, rfl⟩⟩

/-- No two texts have one digest, whichever hashes they are of. -/
def CollisionFree (provider : CryptoProvider) : Prop :=
  ∀ {hash more : HashAlg} {one other digest : Bytes}, provider.hash hash one = .ok digest →
    provider.hash more other = .ok digest → one = other

theorem CollisionFree.same_text (free : CollisionFree provider) {hash more : HashAlg}
    {one other digest : String} (first : digestOf provider hash one = .ok digest)
    (second : digestOf provider more other = .ok digest) : one = other := by
  unfold digestOf at first second
  split at first
  · next hashed =>
    split at second
    · next again =>
      have same := Base64.encode_injective
        ((Except.ok.inj first).trans (Except.ok.inj second).symm)
      rw [← same] at again
      exact Text.utf8_injective (free hashed again)
    · cases second
  · cases first

/-- The payload of a token does not depend on who verifies it. -/
theorem same_payload {token : String} {one other : JwsVerifier} {payload more : Bytes}
    {header others : List (String × Json)}
    (first : deserializeCompact serde jose token one = some (payload, header))
    (second : deserializeCompact serde jose token other = some (more, others)) : payload = more := by
  obtain ⟨head, body, tail, signature, read⟩ := deserializeCompact_eq_some.mp first
  obtain ⟨head_again, body_again, tail_again, signature_again, again⟩ :=
    deserializeCompact_eq_some.mp second
  have parts := again.parts
  rw [read.parts] at parts
  have same : body = body_again := by simp_all
  have decoded := again.payload
  rw [← same, read.payload] at decoded
  exact Option.some.inj decoded

/-- A holder reads the payload that the verifier will. -/
theorem unverifiedPayload_of_read {token : String} {issuer : JwsVerifier} {tokenType : String}
    {bytes : Bytes} {header payload : List (String × Json)}
    (read : IssuerRead serde jose token issuer tokenType bytes header payload) :
    unverifiedPayload serde token = .ok payload := by
  obtain ⟨head, body, tail, signature, parts⟩ := deserializeCompact_eq_some.mp read.read
  refine bind_eq_ok.mpr ⟨body, okOr_eq_ok.mpr (by rw [parts.parts]; rfl), okOr_eq_ok.mpr ?_⟩
  rw [parts.payload, Option.bind_some, readObject_eq_some]
  exact read.parsed

/-- Key binding is there exactly where the policy asks for it, and one token
binds one presentation. -/
theorem key_binding_covers (free : CollisionFree provider) {fuel later : Nat}
    {presented other : String} {issuer issuer_later : JwsVerifier}
    {policy policy_later : VerifyingPolicy} {verified verified_later : Verified}
    (first : verifyPresentation serde provider jose fuel presented issuer policy = pure verified)
    (second : verifyPresentation serde provider jose later other issuer_later policy_later =
      pure verified_later) :
    ∃ parts more, splitPresentation presented = .ok parts ∧ splitPresentation other = .ok more ∧
      parts.keyBinding.isSome = policy.keyBinding.isSome ∧
      (parts.keyBinding.isSome → parts.keyBinding = more.keyBinding → presented = other) := by
  obtain ⟨parts, payload, hash, claims, issued, -, -, -, bound, -⟩ :=
    verifyPresentation_eq_pure.mp first
  obtain ⟨more, payload_later, hash_later, claims_later, issued_later, -, -, -, bound_later, -⟩ :=
    verifyPresentation_eq_pure.mp second
  obtain ⟨cut, agree, -⟩ := readIssued_eq_ok.mp issued
  obtain ⟨cut_later, agree_later, -⟩ := readIssued_eq_ok.mp issued_later
  refine ⟨parts, more, cut, cut_later, agree.symm, fun some_token same => ?_⟩
  obtain ⟨token, there⟩ := Option.isSome_iff_exists.mp some_token
  obtain ⟨binding, asked⟩ := Option.isSome_iff_exists.mp (agree.trans some_token)
  have there_later : more.keyBinding = some token := by rw [← same, there]
  obtain ⟨binding_later, asked_later⟩ := Option.isSome_iff_exists.mp
    (agree_later.trans (by rw [there_later]; rfl))
  obtain ⟨holder, verifier, bytes, header, stated, digest, -, read⟩ :=
    checkBound_eq_ok.mp bound binding token asked there
  obtain ⟨holder_later, verifier_later, bytes_later, header_later, stated_later, digest_later, -, read_later⟩ :=
    checkBound_eq_ok.mp bound_later binding_later token asked_later there_later
  have same_bytes := same_payload read.read read_later.read
  have parsed := read_later.parsed
  rw [← same_bytes, read.parsed] at parsed
  have covered := read_later.covered
  rw [← Json.object.inj (Option.some.inj parsed), read.covered] at covered
  have digested := read_later.digested
  rw [← Option.some.inj covered] at digested
  have same_hashed := free.same_text read.digested digested
  rw [(splitPresentation_eq_ok.mp cut).2, (splitPresentation_eq_ok.mp cut_later).2, Parts.text,
    Parts.text, same_hashed, there, there_later]

/-- A whole number of seconds that a double holds. -/
def Exact (instant : Int) : Prop := instant.natAbs < 2 ^ 53

instance Exact.decidable (instant : Int) : Decidable (Exact instant) :=
  inferInstanceAs (Decidable (instant.natAbs < 2 ^ 53))

theorem asDouble_exact {instant : Int} (exact : Exact instant) : asDouble instant = instant := by
  have small : instant.natAbs < 2 ^ 53 := exact
  have safe := fun value => @Authz.roundInteger_safe value
  unfold asDouble
  cases instant with
  | ofNat value =>
    rw [Authz.roundInt, safe value small]
    rfl
  | negSucc value =>
    rw [Authz.roundInt, safe (value + 1) small]
    rfl

theorem bindingHeader_reads : serde.Reads 127 (.object BINDING_HEADER) := by
  refine .object (List.pairwise_singleton _ _) ?_
  simp only [BINDING_HEADER, List.forall_mem_singleton]
  exact .string _

theorem bindingHeader_allowed (signer : JwsSigner) :
    headerOfMap jose (signedHeader BINDING_HEADER signer) = true :=
  headerOfMap_signedHeader (List.pairwise_singleton _ _) rfl
    (by simp [checkClaim, Json.asStr]) signer

theorem bindingHeader_typed (signer : JwsSigner) :
    isTyped (signedHeader BINDING_HEADER signer) "kb+jwt" = true := by
  have found := lookup_signedHeader (List.pairwise_singleton _ _ : Sorted BINDING_HEADER) signer "typ"
  rw [if_neg (by simp), if_neg (by decide)] at found
  simp [isTyped, textOf, found, BINDING_HEADER, SortedMap.lookup, Json.asStr, eqIgnoreAsciiCase]

section
variable (audience nonce digest : String) {issuedAt : Int}

theorem Exact.held (exact : Exact issuedAt) :
    (Json.number (Authz.ofInt issuedAt)).Held serde.Steady := by
  have small : issuedAt.natAbs < 2 ^ 53 := exact
  cases issuedAt with
  | ofNat value => exact .posInt (lt_trans small (by decide))
  | negSucc value => exact .negInt (by rw [Int.natAbs_negSucc] at small; omega)

theorem bindingClaims_reads (number : (Json.number (Authz.ofInt issuedAt)).Held serde.Steady) :
    serde.Reads 127 (.object (bindingClaims audience nonce digest issuedAt)) := by
  refine .object ?_ ?_
  · simp only [bindingClaims, List.pairwise_cons, List.forall_mem_cons, List.not_mem_nil,
      false_implies, implies_true, List.Pairwise.nil, and_true]
    decide
  · simp only [bindingClaims, List.forall_mem_cons, List.not_mem_nil, false_implies, implies_true,
      and_true]
    exact ⟨.string audience, ⟨number, Nat.zero_le _⟩, .string nonce, .string digest⟩

/-- The instants of a policy, of a binding and of a token, and the ends of the window. -/
structure Instants (binding : KeyBinding) (policy : VerifyingPolicy) (issuedAt : Int) : Prop where
  issued : Exact issuedAt
  now : Exact policy.now
  leeway : Exact policy.leeway
  age : Exact binding.maxAge
  last : Exact (policy.now + policy.leeway)
  first : Exact (policy.now - binding.maxAge)

/-- A token is fresh exactly within the window. -/
theorem bindingClaims_fresh {binding : KeyBinding} {policy : VerifyingPolicy}
    (instants : Instants binding policy issuedAt) :
    checkFreshness (bindingClaims audience nonce digest issuedAt) binding policy = .ok () ↔
      policy.now - binding.maxAge ≤ issuedAt ∧ issuedAt ≤ policy.now + policy.leeway := by
  have iat : (SortedMap.lookup "iat" (bindingClaims audience nonce digest issuedAt)).bind
      Authz.asF64 = some (asDouble issuedAt) := by
    simp [bindingClaims, SortedMap.lookup, Authz.asF64, Authz.asF64_ofInt, asDouble]
  have no_end : SortedMap.lookup "exp" (bindingClaims audience nonce digest issuedAt) = none := by
    simp [bindingClaims, SortedMap.lookup]
  rw [checkFreshness, iat, no_end]
  simp only [okOr, checkTime, bind_eq_ok, Except.ok.injEq, exists_eq_left', refuse_eq_ok, and_true,
    exists_const, asDouble_exact instants.issued, asDouble_exact instants.now,
    asDouble_exact instants.leeway, asDouble_exact instants.age]
  rw [← Int.cast_add, ← Int.cast_sub, nearestDouble_int instants.last,
    nearestDouble_int instants.first, Int.cast_lt, Int.cast_lt]
  omega

end

/-- A presentation without key binding, and the token that was made over it. -/
structure BoundWith (serde : SerdeJson) (provider : CryptoProvider) (presentation : String)
    (signer : JwsSigner) (audience nonce : String) (issuedAt : Int) (parts : Parts)
    (payload : List (String × Json)) (hash : HashAlg) (digest token : String) : Prop where
  cut : splitPresentation presentation = .ok parts
  unbound : parts.keyBinding = none
  read : unverifiedPayload serde parts.issuerToken = .ok payload
  hashed : hashNamed serde (SortedMap.lookup "_sd_alg" payload) = .ok hash
  digested : digestOf provider hash parts.hashed = .ok digest
  signed : serializeCompact serde (Text.utf8 ((Json.object
    (bindingClaims audience nonce digest issuedAt)).write serde.float)) BINDING_HEADER signer =
      some token

theorem bindPresentation_eq_ok {presentation bound audience nonce : String} {signer : JwsSigner}
    {issuedAt : Int} :
    bindPresentation serde provider presentation signer audience nonce issuedAt = .ok bound ↔
      ∃ parts payload hash digest token, BoundWith serde provider presentation signer audience nonce
        issuedAt parts payload hash digest token ∧ bound = presentation ++ token := by
  constructor
  · intro ran
    obtain ⟨parts, cut, ran⟩ := bind_eq_ok.mp ran
    obtain ⟨passed, unbound, ran⟩ := bind_eq_ok.mp ran
    obtain ⟨payload, read, ran⟩ := bind_eq_ok.mp ran
    obtain ⟨hash, hashed, ran⟩ := bind_eq_ok.mp ran
    obtain ⟨digest, digested, ran⟩ := bind_eq_ok.mp ran
    obtain ⟨token, signed, ended⟩ := bind_eq_ok.mp ran
    refine ⟨parts, payload, hash, digest, token, ?_, (Except.ok.inj ended).symm⟩
    exact ⟨cut, by simpa using refuse_eq_ok.mp unbound, read, hashed, digested, okOr_eq_ok.mp signed⟩
  · intro found
    obtain ⟨parts, payload, hash, digest, token, made, rfl⟩ := found
    refine bind_eq_ok.mpr ⟨parts, made.cut, ?_⟩
    refine bind_eq_ok.mpr ⟨(), refuse_eq_ok.mpr (by simp [made.unbound]), ?_⟩
    refine bind_eq_ok.mpr ⟨payload, made.read, bind_eq_ok.mpr ⟨hash, made.hashed, ?_⟩⟩
    refine bind_eq_ok.mpr ⟨digest, made.digested, ?_⟩
    exact bind_eq_ok.mpr ⟨token, okOr_eq_ok.mpr made.signed, rfl⟩

/-- What a holder binds is accepted as it was before, where its claims are fresh. -/
theorem verified_of_fresh {fuel : Nat} {presented bound : String} {issuer verifier : JwsVerifier}
    {policy : VerifyingPolicy} {verified : Verified} {holder : List (String × Json)}
    {signer : JwsSigner} {binding : KeyBinding} {issuedAt : Int}
    (accepted : verifyPresentation serde provider jose fuel presented issuer policy = pure verified)
    (unbound : policy.keyBinding = none) (named : verified.holderKey = some holder)
    (dictated : jose.holderVerifier holder = some verifier) (pair : Pair signer verifier)
    (ran : bindPresentation serde provider presented signer binding.audience binding.nonce issuedAt =
      .ok bound)
    (within : (Json.number (Authz.ofInt issuedAt)).Held serde.Steady)
    (fresh : ∀ digest, checkFreshness (bindingClaims binding.audience binding.nonce digest issuedAt)
      binding policy = .ok ()) :
    verifyPresentation serde provider jose fuel bound issuer
      { policy with keyBinding := some binding } = pure verified := by
  obtain ⟨parts, payload, hash, claims, issued, hashed, unfolded, valid, -, rfl⟩ :=
    verifyPresentation_eq_pure.mp accepted
  obtain ⟨cut, agree, bytes, header, read⟩ := readIssued_eq_ok.mp issued
  obtain ⟨formed, whole⟩ := splitPresentation_eq_ok.mp cut
  rw [unbound] at agree
  have no_token : parts.keyBinding = none := by simpa using agree.symm
  obtain ⟨found, unverified, hash_again, digest, token, made, rfl⟩ := bindPresentation_eq_ok.mp ran
  have same_parts := made.cut
  rw [cut] at same_parts
  cases same_parts
  have same_payload := made.read
  rw [unverifiedPayload_of_read read] at same_payload
  cases same_payload
  have same_hash := made.hashed
  rw [hashed] at same_hash
  cases same_hash
  have signed := made.signed
  have piece := piece_of_serializeCompact rfl signed
  have token_read := deserialize_serialize bindingHeader_reads rfl pair
    (@bindingHeader_allowed jose signer) signed
  have formed_bound : Parts.Formed { parts with keyBinding := some token } :=
    { token := formed.token, disclosures := formed.disclosures, hashed := formed.hashed
      keyBinding := fun other same => by cases same; exact piece }
  have whole_bound : presented ++ token = Parts.text { parts with keyBinding := some token } := by
    rw [whole, Parts.text, Parts.text, no_token, Option.getD_none, String.append_empty]
    rfl
  have cut_bound := splitPresentation_eq_ok.mpr ⟨formed_bound, whole_bound⟩
  have issued_bound : readIssued serde jose (presented ++ token) issuer
      { policy with keyBinding := some binding } =
        .ok ({ parts with keyBinding := some token }, payload) :=
    readIssued_eq_ok.mpr ⟨cut_bound, rfl, bytes, header, read⟩
  refine verifyPresentation_eq_pure.mpr ⟨_, payload, hash, claims, issued_bound, hashed, unfolded,
    valid, checkBound_eq_ok.mpr ?_, rfl⟩
  intro asked other same_binding same_token
  cases same_binding
  cases same_token
  exact ⟨holder, verifier, _, _, _, digest, named,
    { dictated, read := token_read, typed := bindingHeader_typed signer
      parsed := (bindingClaims_reads _ _ _ within).back
      fresh := fresh digest
      audience := rfl, nonce := rfl, covered := rfl, digested := made.digested }⟩

/-- What a holder binds within the window is accepted as it was before, by a
verifier that asks for the key binding that was made. -/
theorem bound_is_verified {fuel : Nat} {presented bound : String} {issuer verifier : JwsVerifier}
    {policy : VerifyingPolicy} {verified : Verified} {holder : List (String × Json)}
    {signer : JwsSigner} {binding : KeyBinding} {issuedAt : Int}
    (accepted : verifyPresentation serde provider jose fuel presented issuer policy = pure verified)
    (unbound : policy.keyBinding = none) (named : verified.holderKey = some holder)
    (dictated : jose.holderVerifier holder = some verifier) (pair : Pair signer verifier)
    (ran : bindPresentation serde provider presented signer binding.audience binding.nonce issuedAt =
      .ok bound)
    (instants : Instants binding policy issuedAt) (old : policy.now - binding.maxAge ≤ issuedAt)
    (young : issuedAt ≤ policy.now + policy.leeway) :
    verifyPresentation serde provider jose fuel bound issuer
      { policy with keyBinding := some binding } = pure verified :=
  verified_of_fresh accepted unbound named dictated pair ran instants.issued.held fun digest =>
    (bindingClaims_fresh _ _ digest instants).mpr ⟨old, young⟩

end Saffui.SdJwt
