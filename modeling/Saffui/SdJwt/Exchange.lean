import Saffui.SdJwt.KeyBinding
import Saffui.SdJwt.Presenter

/-!
# Issued, presented and verified

An issuer signs payloads, a holder keeps some disclosures and binds what is
left, and anyone at all presents a text. What a verifier then accepts was
issued, reveals no more than the claims that were issued and no less than those
that may not be withheld, and was bound by the holder to this very request.

Of the signatures only what they are for is taken: a verifier accepts none but
those over the first two parts of a token that was made (`Unforged`).
-/

namespace Saffui.SdJwt
open Foundation Foundation.Outcome Crypto

variable {serde : SerdeJson} {provider : CryptoProvider} {jose : Jose}

/-- An SD-JWT as an issuer makes one: claims concealed under salts of its own,
and the payload signed. -/
structure Issuance (serde : SerdeJson) (provider : CryptoProvider) (issuer : JwsSigner) where
  fill : Nat → Except CryptoError { drawn : Bytes // drawn.length = 16 }
  claims : List (String × Json)
  places : List Concealed
  decoys : Nat
  concealment : Concealment
  header : List (String × Json)
  token : String
  ideal : Ideal { provider with fill }
  inert : InertSalts serde { provider with fill }
  reads : serde.Reads 125 (.object claims)
  named : ∀ place ∈ places, place.Named
  concealed : concealClaims serde { provider with fill } claims places decoys = .ok concealment
  header_reads : serde.Reads 127 (.object header)
  plain : SortedMap.lookup "crit" header = none
  signed : serializeCompact serde (Text.utf8 ((Json.object concealment.payload).write serde.float))
    header issuer = some token

/-- A presentation as a holder binds one. -/
structure Binding (serde : SerdeJson) (provider : CryptoProvider) (holder : JwsSigner) where
  presentation : String
  audience : String
  nonce : String
  issuedAt : Int
  token : String
  within : (Json.number (Authz.ofInt issuedAt)).Held serde.Steady
  bound : bindPresentation serde provider presentation holder audience nonce issuedAt =
    .ok (presentation ++ token)

/-- A verifier that accepts signatures over tokens that were made, and no others. -/
def Unforged (verifier : JwsVerifier) (made : String → Prop) : Prop :=
  ∀ {message : String} {signature : Bytes}, verifier.verify (Text.utf8 message) signature = true →
    ∃ token, made token ∧ ∃ again, token = message ++ "." ++ Base64.encode again

/-- A token that is read holds the payload of one that was made. -/
theorem Unforged.payload {verifier : JwsVerifier} {made : String → Prop}
    (unforged : Unforged verifier made) {input : String} {payload : Bytes}
    {header : List (String × Json)}
    (read : deserializeCompact serde jose input verifier = some (payload, header)) :
    ∃ token, made token ∧ ∀ {written : Bytes} {members : List (String × Json)} {signer : JwsSigner},
      SortedMap.lookup "crit" members = none →
        serializeCompact serde written members signer = some token → written = payload := by
  obtain ⟨first, second, third, signature, parts⟩ := deserializeCompact_eq_some.mp read
  obtain ⟨token, was_made, again, joined⟩ := unforged parts.verified
  refine ⟨token, was_made, fun plain signed => ?_⟩
  rename_i written members signer
  obtain ⟨sealed, -, same⟩ := (serializeCompact_eq_some plain).mp signed
  have apart := fun part inside => @Text.not_mem_split '.' input part (by rw [parts.parts]; exact inside)
  have split_made : Text.split '.' token = [first, second, Base64.encode again] := by
    rw [joined]
    exact Text.split_joined (apart first (by simp)) (apart second (by simp))
      (Base64.not_mem_encode (by decide) again)
  rw [same, split_signed] at split_made
  have decoded := parts.payload
  rw [← (List.cons.inj (List.cons.inj split_made).2).1, Base64.decode_encode] at decoded
  exact Option.some.inj decoded

theorem Issuance.payload_reads {issuer : JwsSigner} (issuance : Issuance serde provider issuer) :
    serde.Reads 127 (.object issuance.concealment.payload) :=
  (issued_of_concealClaims issuance.ideal issuance.reads issuance.concealed).reads

/-- What is accepted under the key of an issuer is one of its SD-JWTs, with a
part of its disclosures, and reveals the claims without those withheld. -/
theorem verified_was_issued {issuer : JwsSigner} {verifier : JwsVerifier}
    (issuances : List (Issuance serde provider issuer))
    (unforged : Unforged verifier fun token => ∃ issuance ∈ issuances, issuance.token = token)
    {fuel : Nat} {presented : String} {policy : VerifyingPolicy} {verified : Verified}
    (accepted : verifyPresentation serde provider jose fuel presented verifier policy = pure verified) :
    ∃ parts, splitPresentation presented = .ok parts ∧ ∃ issuance ∈ issuances,
      parts.disclosures.Nodup ∧ parts.disclosures ⊆ issuance.concealment.disclosures ∧
      ParentClosed serde provider issuance.concealment.disclosures parts.disclosures ∧
      Json.object verified.claims.entries = withhold (withheldPlaces issuance.places
        issuance.concealment.disclosures parts.disclosures) (.object issuance.claims) := by
  obtain ⟨parts, payload, hash, claims, issued, -, unfolded, -, -, rfl⟩ :=
    verifyPresentation_eq_pure.mp accepted
  obtain ⟨cut, -, bytes, header, read⟩ := readIssued_eq_ok.mp issued
  obtain ⟨token, ⟨issuance, among, rfl⟩, same⟩ := unforged.payload read.read
  have written := same issuance.plain issuance.signed
  have parsed := read.parsed
  rw [← written, issuance.payload_reads.back] at parsed
  rw [← Json.object.inj (Option.some.inj parsed)] at unfolded
  refine ⟨parts, cut, issuance, among, nodup_of_unfoldClaims unfolded, ?_⟩
  obtain ⟨part, closed⟩ := part_of_unfoldClaims issuance.ideal issuance.inert issuance.reads
    issuance.concealed issuance.named unfolded
  exact ⟨part, closed, unfoldClaims_reveals issuance.ideal issuance.reads issuance.concealed
    issuance.named (nodup_of_unfoldClaims unfolded) part unfolded⟩

/-- What is accepted with key binding was bound by the holder, as it was
presented, for this audience and this nonce, and within the window. -/
theorem verified_was_bound (free : CollisionFree provider) {signer : JwsSigner}
    {issuer verifier : JwsVerifier} (bindings : List (Binding serde provider signer))
    (unforged : Unforged verifier fun token => ∃ bound ∈ bindings, bound.token = token)
    {fuel : Nat} {presented : String} {policy : VerifyingPolicy} {verified : Verified}
    (accepted : verifyPresentation serde provider jose fuel presented issuer policy = pure verified)
    {binding : KeyBinding} (asked : policy.keyBinding = some binding)
    {holder : List (String × Json)} (named : verified.holderKey = some holder)
    (dictated : jose.holderVerifier holder = some verifier) :
    ∃ bound ∈ bindings, bound.audience = binding.audience ∧ bound.nonce = binding.nonce ∧
      (∃ token, presented = bound.presentation ++ token ∧ Piece token) ∧
      (Instants binding policy bound.issuedAt →
        policy.now - binding.maxAge ≤ bound.issuedAt ∧
          bound.issuedAt ≤ policy.now + policy.leeway) := by
  obtain ⟨parts, payload, hash, claims, issued, -, -, -, checked, rfl⟩ :=
    verifyPresentation_eq_pure.mp accepted
  obtain ⟨cut, agree, -⟩ := readIssued_eq_ok.mp issued
  obtain ⟨formed, whole⟩ := splitPresentation_eq_ok.mp cut
  rw [asked] at agree
  obtain ⟨token, there⟩ := Option.isSome_iff_exists.mp agree.symm
  obtain ⟨holder_again, verifier_again, bytes, header, stated, digest, named_again, read⟩ :=
    checkBound_eq_ok.mp checked binding token asked there
  have same_holder : holder_again = holder := Option.some.inj (named_again.symm.trans named)
  subst same_holder
  have same_verifier := read.dictated
  rw [dictated] at same_verifier
  cases same_verifier
  obtain ⟨made, ⟨bound, among, rfl⟩, same⟩ := unforged.payload read.read
  obtain ⟨own, unverified, own_hash, own_digest, own_token, with_own, joined⟩ :=
    bindPresentation_eq_ok.mp bound.bound
  have own_token_is : bound.token = own_token := by
    have lists := congrArg String.toList joined
    rw [String.toList_append, String.toList_append] at lists
    exact String.toList_injective (List.append_cancel_left lists)
  subst own_token_is
  have parsed := read.parsed
  rw [← same rfl with_own.signed,
    (bindingClaims_reads _ _ _ bound.within).back] at parsed
  have claims_are := Json.object.inj (Option.some.inj parsed)
  have audience := read.audience
  have nonce := read.nonce
  have covered := read.covered
  have fresh := read.fresh
  rw [← claims_are] at audience nonce covered fresh
  have digested := with_own.digested
  rw [Option.some.inj covered] at digested
  have same_hashed := free.same_text digested read.digested
  obtain ⟨-, own_whole⟩ := splitPresentation_eq_ok.mp with_own.cut
  rw [Parts.text, with_own.unbound, Option.getD_none, String.append_empty] at own_whole
  refine ⟨bound, among, Option.some.inj audience, Option.some.inj nonce,
    ⟨token, ?_, formed.keyBinding token there⟩, fun instants =>
      (bindingClaims_fresh _ _ _ instants).mp fresh⟩
  rw [whole, Parts.text, there, Option.getD_some, own_whole, same_hashed]

theorem piece_of_fresh {drawn : Nat} {rest : List Json} {encoded digest : String}
    (fresh : Fresh serde provider drawn rest encoded digest) : Piece encoded := by
  obtain ⟨bytes, -, rfl⟩ := fresh.made
  refine ⟨fun blank => ?_, Base64.not_mem_encode (by decide) _⟩
  have opens := @Json.write_array serde.float (.string (Base64.encode bytes.val) :: rest)
  have longer := length_le_utf8 ((Json.array (.string (Base64.encode bytes.val) :: rest)).write
    serde.float)
  have nothing : Text.utf8 ((Json.array (.string (Base64.encode bytes.val) :: rest)).write
      serde.float) = [] := Base64.encode_injective blank
  rw [nothing, opens] at longer
  simp at longer

theorem isTyped_signedHeader {header : List (String × Json)} (sorted : Sorted header)
    (signer : JwsSigner) (tokenType : String) :
    isTyped (signedHeader header signer) tokenType = isTyped header tokenType := by
  have found := lookup_signedHeader sorted signer "typ"
  rw [if_neg (by simp), if_neg (by decide)] at found
  rw [isTyped, isTyped, textOf, textOf, found]

/-- A verifier reads what an issuer made of its claims. -/
theorem Issuance.read {issuer : JwsSigner} {verifier : JwsVerifier} (pair : Pair issuer verifier)
    (issuance : Issuance serde provider issuer) {tokenType : String}
    (typed : isTyped issuance.header tokenType = true)
    (allowed : ∀ member ∈ issuance.header, checkClaim jose member.1 member.2 = true) :
    ∃ bytes header, IssuerRead serde jose issuance.token verifier tokenType bytes header
      issuance.concealment.payload := by
  cases issuance.header_reads.held with | object sorted each => ?_
  have read := deserialize_serialize issuance.header_reads issuance.plain pair
    (headerOfMap_signedHeader sorted issuance.plain allowed issuer) issuance.signed
  refine ⟨_, _, read, ?_, issuance.payload_reads.back⟩
  rw [isTyped_signedHeader sorted]
  exact typed

section
variable {issuer : JwsSigner} (issuance : Issuance serde provider issuer)

theorem Issuance.pieces : Piece issuance.token ∧
    ∀ encoded ∈ issuance.concealment.disclosures, Piece encoded := by
  have issued := issued_of_concealClaims issuance.ideal issuance.reads issuance.concealed
  refine ⟨piece_of_serializeCompact issuance.plain issuance.signed, fun encoded inside => ?_⟩
  obtain ⟨drawn, rest, digest, fresh⟩ := issued.made encoded inside
  exact piece_of_fresh fresh

/-- What a holder keeps of what was issued, written. -/
theorem Issuance.selected (keep : Disclosure → Bool) :
    selectDisclosures serde (issuance.concealment.issued issuance.token) keep =
      .ok (written issuance.token (issuance.concealment.disclosures.filter (kept serde keep))) := by
  obtain ⟨token_piece, pieces⟩ := issuance.pieces
  have cut := splitPresentation_written token_piece pieces
  rw [← foldl_written] at cut
  refine selectDisclosures_eq_ok.mpr ⟨_, cut, rfl, fun encoded inside => ?_, rfl⟩
  obtain ⟨name, value, discloses⟩ :=
    (issued_of_concealClaims issuance.ideal issuance.reads issuance.concealed).each encoded inside
  obtain ⟨salt, read⟩ := discloses.read
  exact ⟨_, read⟩

/-- What is verified of the disclosures that were kept is what unfolds to valid claims. -/
theorem Issuance.verified_iff {verifier : JwsVerifier} (pair : Pair issuer verifier)
    {policy : VerifyingPolicy} (unbound : policy.keyBinding = none)
    (typed : isTyped issuance.header policy.tokenType = true)
    (allowed : ∀ member ∈ issuance.header, checkClaim jose member.1 member.2 = true)
    {disclosures : List String} (part : disclosures ⊆ issuance.concealment.disclosures) (fuel : Nat)
    (verified : Verified) :
    verifyPresentation serde provider jose fuel (written issuance.token disclosures) verifier policy =
        pure verified ↔
      unfoldClaims serde provider fuel issuance.concealment.payload disclosures =
          pure verified.claims ∧
        checkValidity verified.claims policy = .ok () ∧
        verified.holderKey = holderKeyOf jose verified.claims := by
  obtain ⟨token_piece, pieces⟩ := issuance.pieces
  have cut := splitPresentation_written token_piece fun encoded inside => pieces encoded (part inside)
  obtain ⟨bytes, header, read⟩ := @Issuance.read serde provider jose _ _ pair issuance _ typed allowed
  have issued_read : readIssued serde jose (written issuance.token disclosures) verifier policy =
      .ok (⟨issuance.token, disclosures, none, written issuance.token disclosures⟩,
        issuance.concealment.payload) :=
    readIssued_eq_ok.mpr ⟨cut, by rw [unbound]; rfl, bytes, header, read⟩
  obtain ⟨hashed, -⟩ := payload_of_concealClaims issuance.ideal issuance.reads issuance.concealed
    issuance.named
  rw [verifyPresentation_eq_pure]
  constructor
  · intro found
    obtain ⟨parts, payload, hash, claims, issued_again, -, unfolded, valid, -, rfl⟩ := found
    rw [issued_read] at issued_again
    cases issued_again
    exact ⟨unfolded, valid, rfl⟩
  · intro found
    obtain ⟨unfolded, valid, key⟩ := found
    refine ⟨_, _, _, verified.claims, issued_read, hashed, unfolded, valid,
      checkBound_eq_ok.mpr fun binding token asked _ => ?_, ?_⟩
    · rw [unbound] at asked
      cases asked
    · rw [← key]

/-- Where the claims that are left are valid, what is kept with the disclosures
that each lies in is verified. -/
theorem Issuance.verifies {verifier : JwsVerifier} (pair : Pair issuer verifier)
    {policy : VerifyingPolicy} (unbound : policy.keyBinding = none)
    (typed : isTyped issuance.header policy.tokenType = true)
    (allowed : ∀ member ∈ issuance.header, checkClaim jose member.1 member.2 = true)
    {disclosures : List String} (once : disclosures.Nodup)
    (part : disclosures ⊆ issuance.concealment.disclosures)
    (closed : ParentClosed serde provider issuance.concealment.disclosures disclosures)
    {claims : SortedMap String Json} (left : Json.object claims.entries =
      withhold (withheldPlaces issuance.places issuance.concealment.disclosures disclosures)
        (.object issuance.claims)) (valid : checkValidity claims policy = .ok ()) :
    ∃ bound, ∀ fuel, bound ≤ fuel → verifyPresentation serde provider jose fuel
      (written issuance.token disclosures) verifier policy =
        pure ⟨claims, holderKeyOf jose claims⟩ := by
  obtain ⟨bound, accepts⟩ := unfoldClaims_accepts issuance.ideal issuance.reads issuance.concealed
    issuance.named once part closed
  refine ⟨bound, fun fuel least => ?_⟩
  obtain ⟨revealed, unfolded, entries⟩ := accepts fuel least
  have same : revealed = claims :=
    SortedMap.ext_entries (Json.object.inj (entries.trans left.symm))
  rw [same] at unfolded
  exact (issuance.verified_iff pair unbound typed allowed part fuel _).mpr ⟨unfolded, valid, rfl⟩

/-- The disclosures a holder keeps are verified exactly where they hold the one
that each lies in and what is left of the claims is valid; and what is verified
are those claims. -/
theorem selected_is_verified {verifier : JwsVerifier} (pair : Pair issuer verifier)
    {policy : VerifyingPolicy} (unbound : policy.keyBinding = none)
    (typed : isTyped issuance.header policy.tokenType = true)
    (allowed : ∀ member ∈ issuance.header, checkClaim jose member.1 member.2 = true)
    (keep : Disclosure → Bool) :
    ∃ presentation disclosures,
      selectDisclosures serde (issuance.concealment.issued issuance.token) keep = .ok presentation ∧
      disclosures = issuance.concealment.disclosures.filter (kept serde keep) ∧
      ((∃ bound, ∀ fuel, bound ≤ fuel → ∃ verified,
        verifyPresentation serde provider jose fuel presentation verifier policy = pure verified) ↔
          ParentClosed serde provider issuance.concealment.disclosures disclosures ∧
          ∃ claims : SortedMap String Json, Json.object claims.entries =
            withhold (withheldPlaces issuance.places issuance.concealment.disclosures disclosures)
              (.object issuance.claims) ∧ checkValidity claims policy = .ok ()) ∧
      ∀ fuel verified,
        verifyPresentation serde provider jose fuel presentation verifier policy = pure verified →
          Json.object verified.claims.entries =
            withhold (withheldPlaces issuance.places issuance.concealment.disclosures disclosures)
              (.object issuance.claims) := by
  refine ⟨_, _, issuance.selected keep, rfl, ?_⟩
  have part : issuance.concealment.disclosures.filter (kept serde keep) ⊆
      issuance.concealment.disclosures := List.filter_subset_self _
  have once := (issued_of_concealClaims issuance.ideal issuance.reads
    issuance.concealed).once.filter (kept serde keep)
  generalize issuance.concealment.disclosures.filter (kept serde keep) = disclosures at *
  have unfolds := fun fuel verified => issuance.verified_iff pair unbound typed allowed part fuel verified
  have reveals : ∀ fuel claims, unfoldClaims serde provider fuel issuance.concealment.payload
      disclosures = pure claims → _ := fun fuel claims => unfoldClaims_reveals issuance.ideal
    issuance.reads issuance.concealed issuance.named once part
  refine ⟨⟨fun accepts => ?_, fun found => ?_⟩, fun fuel verified accepted =>
    reveals fuel verified.claims ((unfolds fuel verified).mp accepted).1⟩
  · obtain ⟨bound, accepts⟩ := accepts
    obtain ⟨verified, accepted⟩ := accepts bound le_rfl
    obtain ⟨unfolded, valid, -⟩ := (unfolds bound verified).mp accepted
    obtain ⟨-, closed⟩ := part_of_unfoldClaims issuance.ideal issuance.inert issuance.reads
      issuance.concealed issuance.named unfolded
    exact ⟨closed, verified.claims, reveals bound _ unfolded, valid⟩
  · obtain ⟨closed, claims, left, valid⟩ := found
    obtain ⟨bound, verifies⟩ :=
      issuance.verifies pair unbound typed allowed once part closed left valid
    exact ⟨bound, fun fuel least => ⟨_, verifies fuel least⟩⟩

end

/-- A signer of one message alone. -/
def signerOf (message : String) : JwsSigner :=
  ⟨"ES256", none, fun asked => if asked = Text.utf8 message then some [] else none⟩

def verifierOf (message : String) : JwsVerifier :=
  ⟨"ES256", none, fun asked _ => decide (asked = Text.utf8 message)⟩

theorem pair_of (message : String) : Pair (signerOf message) (verifierOf message) where
  algorithm := rfl
  keyId := by simp [verifierOf]
  accepts := by
    intro asked signature signed
    by_cases same : asked = Text.utf8 message
    · exact decide_eq_true same
    · simp [signerOf, same] at signed

theorem signerOf_signs (message : String) :
    (signerOf message).sign (Text.utf8 message) = some [] := if_pos rfl

theorem unforged_of {message : String} {made : String → Prop}
    (there : made (message ++ "." ++ Base64.encode [])) : Unforged (verifierOf message) made := by
  intro asked signature verified
  have same := Text.utf8_injective (of_decide_eq_true verified)
  exact ⟨_, there, [], by rw [same]⟩

def letterClaims : List (String × Json) :=
  [("address", .string "Oslo"), ("cnf", .object [("jwk", .object [("kty", .string "EC")])])]

def letterPlaces : List Concealed := [.property ["address"]]

def letterHeader : List (String × Json) := [("typ", .string "dc+sd-jwt")]

def letterPolicy : VerifyingPolicy := ⟨"dc+sd-jwt", ["cnf"], none, 5, 60⟩

theorem letter_concealed : ∃ concealment,
    concealClaims integers counted letterClaims letterPlaces 1 = .ok concealment ∧
      concealment.disclosures.length = 1 := by
  have done : (concealClaims integers counted letterClaims letterPlaces 1).toOption.map
      (fun concealment => concealment.disclosures.length) = some 1 := by
    decide
  cases ran : concealClaims integers counted letterClaims letterPlaces 1 with
  | error refused =>
    rw [ran] at done
    cases done
  | ok concealment =>
    rw [ran] at done
    exact ⟨concealment, rfl, Option.some.inj done⟩

/-- An issuance of the letter, by a signer of this one token. -/
structure Letter (message : String) (issuance : Issuance integers counted (signerOf message)) :
    Prop where
  claims : issuance.claims = letterClaims
  places : issuance.places = letterPlaces
  header : issuance.header = letterHeader
  disclosures : issuance.concealment.disclosures.length = 1
  token : issuance.token = message ++ "." ++ Base64.encode []

theorem letter_issued : ∃ message issuance, Letter message issuance := by
  obtain ⟨concealment, ran, one⟩ := letter_concealed
  have message_is : ∃ message, message = signingInput integers
      (Text.utf8 ((Json.object concealment.payload).write integers.float)) letterHeader
      (signerOf message) := ⟨signingInput integers
        (Text.utf8 ((Json.object concealment.payload).write integers.float)) letterHeader
        (signerOf ""), rfl⟩
  obtain ⟨message, written⟩ := message_is
  exact ⟨message,
    { fill := counted.fill, claims := letterClaims, places := letterPlaces, decoys := 1
      concealment, header := letterHeader, token := message ++ "." ++ Base64.encode []
      ideal := counted_ideal, inert := counted_inert
      reads := ⟨integers_steady ((Json.isHeld_iff _).mp rfl), by decide⟩
      named := by simp [letterPlaces, Concealed.Named]
      concealed := ran
      header_reads := ⟨integers_steady ((Json.isHeld_iff _).mp rfl), by decide⟩
      plain := rfl
      signed := (serializeCompact_eq_some rfl).mpr
        ⟨[], written ▸ signerOf_signs message, written ▸ rfl⟩ },
    ⟨rfl, rfl, rfl, one, rfl⟩⟩

theorem letter_typed {message : String} {issuance : Issuance integers counted (signerOf message)}
    (letter : Letter message issuance) : isTyped issuance.header letterPolicy.tokenType = true := by
  rw [letter.header]
  simp [isTyped, textOf, letterHeader, letterPolicy, SortedMap.lookup, Json.asStr,
    eqIgnoreAsciiCase]

theorem letter_allowed {message : String}
    {issuance : Issuance integers counted (signerOf message)} (letter : Letter message issuance) :
    ∀ member ∈ issuance.header, checkClaim jose member.1 member.2 = true := by
  rw [letter.header]
  simp [letterHeader, checkClaim, Json.asStr]

theorem selected_is_verified_letter :
    ∃ message, ∃ issuance : Issuance integers counted (signerOf message), ∀ keep,
      ∃ presentation disclosures,
        selectDisclosures integers (issuance.concealment.issued issuance.token) keep =
          .ok presentation ∧
        disclosures = issuance.concealment.disclosures.filter (kept integers keep) ∧
        ((∃ bound, ∀ fuel, bound ≤ fuel → ∃ verified, verifyPresentation integers counted
          ⟨fun _ => true, fun _ => none⟩ fuel presentation (verifierOf message) letterPolicy =
            pure verified) ↔
            ParentClosed integers counted issuance.concealment.disclosures disclosures ∧
            ∃ claims : SortedMap String Json, Json.object claims.entries =
              withhold (withheldPlaces issuance.places issuance.concealment.disclosures disclosures)
                (.object issuance.claims) ∧ checkValidity claims letterPolicy = .ok ()) ∧
        ∀ fuel verified, verifyPresentation integers counted ⟨fun _ => true, fun _ => none⟩ fuel
          presentation (verifierOf message) letterPolicy = pure verified →
            Json.object verified.claims.entries =
              withhold (withheldPlaces issuance.places issuance.concealment.disclosures disclosures)
                (.object issuance.claims) := by
  obtain ⟨message, issuance, letter⟩ := letter_issued
  exact ⟨message, issuance, fun keep => selected_is_verified issuance (pair_of message) rfl
    (letter_typed letter) (letter_allowed letter) keep⟩

/-- The letter without its address, verified. -/
theorem letter_verified : ∃ message issuance presentation, Letter message issuance ∧
    ∀ jose : Jose, (∀ members, jose.checkMap members = true) → ∃ fuel verified,
      verifyPresentation integers counted jose fuel presentation (verifierOf message) letterPolicy =
        pure verified ∧ verified.holderKey = some [("kty", .string "EC")] := by
  obtain ⟨message, issuance, letter⟩ := letter_issued
  refine ⟨message, issuance, written issuance.token [], letter, fun jose allows => ?_⟩
  have left : withhold (withheldPlaces issuance.places issuance.concealment.disclosures [])
      (.object issuance.claims) =
        .object [("cnf", .object [("jwk", .object [("kty", .string "EC")])])] := by
    obtain ⟨only, listed⟩ := List.length_eq_one_iff.mp letter.disclosures
    rw [listed, letter.claims, letter.places]
    rfl
  obtain ⟨bound, verifies⟩ := @Issuance.verifies _ _ jose _ issuance _ (pair_of message) letterPolicy
    rfl (letter_typed letter) (letter_allowed letter) [] .nil (List.nil_subset _)
    (by simp [ParentClosed]) ⟨_, List.pairwise_singleton _ _⟩ left.symm rfl
  refine ⟨bound, _, verifies bound le_rfl, ?_⟩
  simp [holderKeyOf, SortedMap.get?, SortedMap.lookup, allows]

theorem verified_was_issued_letter :
    ∃ message, ∃ issuance : Issuance integers counted (signerOf message), ∃ presented verified,
      ∃ parts, splitPresentation presented = .ok parts ∧ ∃ found ∈ [issuance],
        parts.disclosures.Nodup ∧ parts.disclosures ⊆ found.concealment.disclosures ∧
        ParentClosed integers counted found.concealment.disclosures parts.disclosures ∧
        Json.object (verified : Verified).claims.entries = withhold (withheldPlaces found.places
          found.concealment.disclosures parts.disclosures) (.object found.claims) := by
  obtain ⟨message, issuance, presented, letter, verifies⟩ := letter_verified
  obtain ⟨fuel, verified, accepted, -⟩ := verifies ⟨fun _ => true, fun _ => none⟩ fun _ => rfl
  have unforged : Unforged (verifierOf message) fun token =>
      ∃ found ∈ [issuance], found.token = token :=
    unforged_of ⟨issuance, List.mem_singleton_self _, letter.token⟩
  exact ⟨message, issuance, presented, verified, verified_was_issued [issuance] unforged accepted⟩

theorem counted_collisionFree : CollisionFree counted := by
  intro hash more one other digest first second
  exact (Except.ok.inj first).trans (Except.ok.inj second).symm

/-- The binding of the letter. -/
def letterBinding : KeyBinding := ⟨"https://verifier.example", "n-0S6", 300⟩

theorem letter_instants : Instants letterBinding letterPolicy 5 :=
  ⟨by decide, by decide, by decide, by decide, by decide, by decide⟩

/-- The letter as its holder binds it, by a signer of this one token. -/
theorem letter_bound {presentation : String} {fuel : Nat} {issuer : JwsVerifier} {jose : Jose}
    {verified : Verified} (accepted : verifyPresentation integers counted jose fuel presentation
      issuer letterPolicy = pure verified) :
    ∃ message, bindPresentation integers counted presentation (signerOf message)
      letterBinding.audience letterBinding.nonce 5 =
        .ok (presentation ++ (message ++ "." ++ Base64.encode [])) := by
  obtain ⟨parts, payload, hash, claims, issued, hashed, -⟩ := verifyPresentation_eq_pure.mp accepted
  obtain ⟨cut, agree, bytes, header, read⟩ := readIssued_eq_ok.mp issued
  have digested : digestOf counted hash parts.hashed =
      .ok (Base64.encode (Text.utf8 parts.hashed)) := rfl
  have message_is : ∃ message, message = signingInput integers (Text.utf8 ((Json.object
      (bindingClaims letterBinding.audience letterBinding.nonce
        (Base64.encode (Text.utf8 parts.hashed)) 5)).write integers.float)) BINDING_HEADER
      (signerOf message) := ⟨signingInput integers (Text.utf8 ((Json.object
        (bindingClaims letterBinding.audience letterBinding.nonce
          (Base64.encode (Text.utf8 parts.hashed)) 5)).write integers.float)) BINDING_HEADER
        (signerOf ""), rfl⟩
  obtain ⟨message, written⟩ := message_is
  refine ⟨message, bindPresentation_eq_ok.mpr ⟨parts, payload, hash, _, _,
    { cut, unbound := by simpa [letterPolicy] using agree.symm
      read := unverifiedPayload_of_read read, hashed, digested
      signed := (serializeCompact_eq_some rfl).mpr
        ⟨[], written ▸ signerOf_signs message, written ▸ rfl⟩ }, rfl⟩⟩

/-- A world in which the letter is verified, and bound by its holder. -/
structure Exchanged (issuer holder presentation : String) (jose : Jose) (fuel : Nat)
    (verified : Verified) : Prop where
  accepted : verifyPresentation integers counted jose fuel presentation (verifierOf issuer)
    letterPolicy = pure verified
  named : verified.holderKey = some [("kty", .string "EC")]
  dictated : jose.holderVerifier [("kty", .string "EC")] = some (verifierOf holder)
  bound : bindPresentation integers counted presentation (signerOf holder) letterBinding.audience
    letterBinding.nonce 5 = .ok (presentation ++ (holder ++ "." ++ Base64.encode []))

theorem letter_exchanged : ∃ issuer holder presentation jose fuel verified,
    Exchanged issuer holder presentation jose fuel verified := by
  obtain ⟨issuer, issuance, presentation, letter, verifies⟩ := letter_verified
  obtain ⟨fuel, verified, accepted, -⟩ := verifies ⟨fun _ => true, fun _ => none⟩ fun _ => rfl
  obtain ⟨holder, bound⟩ := letter_bound accepted
  obtain ⟨fuel, verified, accepted, named⟩ :=
    verifies ⟨fun _ => true, fun _ => some (verifierOf holder)⟩ fun _ => rfl
  exact ⟨issuer, holder, presentation, _, fuel, verified, accepted, named, rfl, bound⟩

theorem Exchanged.verified {issuer holder presentation : String} {jose : Jose} {fuel : Nat}
    {verified : Verified} (exchanged : Exchanged issuer holder presentation jose fuel verified) :
    verifyPresentation integers counted jose fuel
      (presentation ++ (holder ++ "." ++ Base64.encode [])) (verifierOf issuer)
      { letterPolicy with keyBinding := some letterBinding } = pure verified :=
  verified_of_fresh exchanged.accepted rfl exchanged.named exchanged.dictated (pair_of holder)
    exchanged.bound letter_instants.issued.held fun digest =>
      (bindingClaims_fresh _ _ digest letter_instants).mpr (by decide)

theorem bound_is_verified_letter : ∃ issuer holder presentation bound jose fuel verified,
    bindPresentation integers counted presentation (signerOf holder) letterBinding.audience
      letterBinding.nonce 5 = .ok bound ∧
    verifyPresentation integers counted jose fuel bound (verifierOf issuer)
      { letterPolicy with keyBinding := some letterBinding } = pure verified := by
  obtain ⟨issuer, holder, presentation, jose, fuel, verified, exchanged⟩ := letter_exchanged
  exact ⟨issuer, holder, presentation, _, jose, fuel, verified, exchanged.bound,
    bound_is_verified exchanged.accepted rfl exchanged.named exchanged.dictated (pair_of holder)
      exchanged.bound letter_instants (by decide) (by decide)⟩

theorem key_binding_covers_letter : ∃ issuer bound jose fuel verified,
    verifyPresentation integers counted jose fuel bound (verifierOf issuer)
      { letterPolicy with keyBinding := some letterBinding } = pure verified ∧
    ∃ parts more, splitPresentation bound = .ok parts ∧ splitPresentation bound = .ok more ∧
      parts.keyBinding.isSome = (some letterBinding).isSome ∧
      (parts.keyBinding.isSome → parts.keyBinding = more.keyBinding → bound = bound) := by
  obtain ⟨issuer, holder, presentation, jose, fuel, verified, exchanged⟩ := letter_exchanged
  exact ⟨issuer, _, jose, fuel, verified, exchanged.verified,
    key_binding_covers counted_collisionFree exchanged.verified exchanged.verified⟩

theorem verified_was_bound_letter :
    ∃ holder presented, ∃ bindings : List (Binding integers counted (signerOf holder)),
      ∃ bound ∈ bindings, bound.audience = letterBinding.audience ∧
        bound.nonce = letterBinding.nonce ∧
        (∃ token, presented = bound.presentation ++ token ∧ Piece token) ∧
        (Instants letterBinding { letterPolicy with keyBinding := some letterBinding }
            bound.issuedAt →
          letterPolicy.now - letterBinding.maxAge ≤ bound.issuedAt ∧
            bound.issuedAt ≤ letterPolicy.now + letterPolicy.leeway) := by
  obtain ⟨issuer, holder, presentation, jose, fuel, verified, exchanged⟩ := letter_exchanged
  let made : Binding integers counted (signerOf holder) :=
    ⟨presentation, letterBinding.audience, letterBinding.nonce, 5, _, letter_instants.issued.held,
      exchanged.bound⟩
  have unforged : Unforged (verifierOf holder) fun token => ∃ one ∈ [made], one.token = token :=
    unforged_of ⟨made, List.mem_singleton_self _, rfl⟩
  exact ⟨holder, _, [made], verified_was_bound counted_collisionFree [made] unforged
    exchanged.verified rfl exchanged.named exchanged.dictated⟩

end Saffui.SdJwt
