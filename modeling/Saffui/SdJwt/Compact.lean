import Mathlib.Data.Option.Basic
import Saffui.SdJwt.Cutting
import Saffui.SdJwt.Sealing

/-!
# Signed and read back

A compact token is signed over its first two parts. What a signer writes a
verifier that accepts its signatures reads back, payload and header; and
whatever is read, some signature over those parts was accepted for.
-/

namespace Saffui.SdJwt
open Foundation Crypto

variable (serde : SerdeJson)

/-- What a compact token is signed over. -/
def signingInput (payload : Bytes) (header : List (String × Json)) (signer : JwsSigner) : String :=
  Base64.encode (Text.utf8 ((Json.object (signedHeader header signer)).write serde.float)) ++ "." ++
    Base64.encode payload

variable {serde} {jose : Jose}

theorem serializeCompact_eq_some {payload : Bytes} {header : List (String × Json)}
    {signer : JwsSigner} {token : String} (plain : SortedMap.lookup "crit" header = none) :
    serializeCompact serde payload header signer = some token ↔
      ∃ signature, signer.sign (Text.utf8 (signingInput serde payload header signer)) =
        some signature ∧
          token = signingInput serde payload header signer ++ "." ++ Base64.encode signature := by
  have encoded : payloadEncoded header = true := by simp [payloadEncoded, critical, plain]
  rw [serializeCompact, encoded, if_pos rfl]
  constructor
  · intro written
    obtain ⟨second, same, written⟩ := Option.bind_eq_some_iff.mp written
    cases same
    obtain ⟨signature, signed, written⟩ := Option.bind_eq_some_iff.mp written
    exact ⟨signature, signed, (Option.some.inj written).symm⟩
  · intro found
    obtain ⟨signature, signed, rfl⟩ := found
    exact Option.bind_eq_some_iff.mpr ⟨_, rfl, Option.bind_eq_some_iff.mpr ⟨signature, signed, rfl⟩⟩

theorem readHeader_eq_some {text : String} {members : List (String × Json)} :
    readHeader serde jose text = some members ↔
      (Base64.decode text).bind serde.fromSlice = some (.object members) ∧
        headerOfMap jose members = true := by
  rw [readHeader, Option.filter_eq_some_iff, Option.bind_eq_some_iff, Option.bind_eq_some_iff]
  simp only [readObject_eq_some]

/-- A token that is read: its three parts, and the signature accepted over two of them. -/
structure ReadFrom (serde : SerdeJson) (jose : Jose) (input : String) (verifier : JwsVerifier)
    (payload : Bytes) (members : List (String × Json)) (first second third : String)
    (signature : Bytes) : Prop where
  parts : Text.split '.' input = [first, second, third]
  header : readHeader serde jose first = some members
  accepts : acceptsHeader members verifier = true
  sealed : Base64.decode third = some signature
  verified : verifier.verify (Text.utf8 (first ++ "." ++ second)) signature = true
  payload : Base64.decode second = some payload

theorem deserializeCompact_eq_some {input : String} {verifier : JwsVerifier} {payload : Bytes}
    {members : List (String × Json)} :
    deserializeCompact serde jose input verifier = some (payload, members) ↔
      ∃ first second third signature,
        ReadFrom serde jose input verifier payload members first second third signature := by
  constructor
  · intro read
    unfold deserializeCompact at read
    split at read
    · next first second third parts =>
      obtain ⟨found, header, read⟩ := Option.bind_eq_some_iff.mp read
      obtain ⟨passed, accepts, read⟩ := Option.bind_eq_some_iff.mp read
      obtain ⟨signature, decoded, read⟩ := Option.bind_eq_some_iff.mp read
      obtain ⟨again, verified, read⟩ := Option.bind_eq_some_iff.mp read
      obtain ⟨body, decoded_body, read⟩ := Option.bind_eq_some_iff.mp read
      obtain ⟨rfl, rfl⟩ := Prod.mk.inj (Option.some.inj read)
      refine ⟨first, second, third, signature, parts, header, ?_, decoded, ?_, decoded_body⟩
      · exact (Option.guard_eq_some' _).mp accepts
      · exact (Option.guard_eq_some' _).mp verified
    · cases read
  · intro found
    obtain ⟨first, second, third, signature, read⟩ := found
    rw [deserializeCompact, read.parts]
    dsimp only
    rw [read.header, read.sealed, read.payload]
    simp [read.accepts, read.verified]

/-- A verifier of the signatures of a signer, under one algorithm and, where it
expects a key, the signer's. -/
structure Pair (signer : JwsSigner) (verifier : JwsVerifier) : Prop where
  algorithm : signer.algorithm = verifier.algorithm
  keyId : ∀ expected, verifier.keyId = some expected → signer.keyId = some expected
  accepts : ∀ {message signature}, signer.sign message = some signature →
    verifier.verify message signature = true

theorem lookup_signedHeader {header : List (String × Json)} (sorted : Sorted header)
    (signer : JwsSigner) (name : String) :
    SortedMap.lookup name (signedHeader header signer) =
      if name = "kid" ∧ signer.keyId.isSome then signer.keyId.map .string
      else if name = "alg" then some (.string signer.algorithm)
      else SortedMap.lookup name header := by
  have placed := SortedMap.place_sorted "alg" (.string signer.algorithm) header sorted
  unfold signedHeader
  cases signer.keyId with
  | none => simp [SortedMap.lookup_place _ _ _ _ sorted]
  | some keyId =>
    dsimp only
    rw [SortedMap.lookup_place _ _ _ _ placed, SortedMap.lookup_place _ _ _ _ sorted]
    simp

theorem SerdeJson.Reads.place {levels : Nat} {members : List (String × Json)} {name : String}
    {value : Json} (reads : serde.Reads (levels + 1) (.object members))
    (new : serde.Reads levels value) :
    serde.Reads (levels + 1) (.object (SortedMap.place name value members)) := by
  refine ⟨held_place reads.held new.held, Json.depth_object_le.mpr fun entry inside => ?_⟩
  cases reads.held with | object sorted each => ?_
  have found := SortedMap.lookup_of_mem (SortedMap.place_sorted name value members sorted) inside
  rw [SortedMap.lookup_place _ _ _ _ sorted] at found
  split at found
  · cases found
    exact new.shallow
  · exact Json.depth_object_le.mp reads.shallow _ (SortedMap.mem_of_lookup found)

theorem signedHeader_reads {header : List (String × Json)}
    (reads : serde.Reads 127 (.object header)) (signer : JwsSigner) :
    serde.Reads 127 (.object (signedHeader header signer)) := by
  have placed := @SerdeJson.Reads.place serde 126 header "alg" _ reads (.string signer.algorithm)
  unfold signedHeader
  cases signer.keyId with
  | none => exact placed
  | some keyId => exact placed.place (.string keyId)

theorem acceptsHeader_signedHeader {header : List (String × Json)} (sorted : Sorted header)
    (plain : SortedMap.lookup "crit" header = none) {signer : JwsSigner} {verifier : JwsVerifier}
    (pair : Pair signer verifier) : acceptsHeader (signedHeader header signer) verifier = true := by
  have found := lookup_signedHeader sorted signer
  have algorithm : SortedMap.lookup "alg" (signedHeader header signer) =
      some (.string verifier.algorithm) := by
    rw [found, if_neg (by simp), if_pos rfl, pair.algorithm]
  have critical : SortedMap.lookup "crit" (signedHeader header signer) = none := by
    rw [found, if_neg (by simp), if_neg (by decide), plain]
  unfold acceptsHeader
  rw [algorithm, critical]
  cases expected : verifier.keyId with
  | none => simp
  | some keyId =>
    have signed := pair.keyId keyId expected
    simp [textOf, found, signed, Json.asStr]

theorem headerOfMap_signedHeader {header : List (String × Json)} (sorted : Sorted header)
    (plain : SortedMap.lookup "crit" header = none)
    (each : ∀ member ∈ header, checkClaim jose member.1 member.2 = true) (signer : JwsSigner) :
    headerOfMap jose (signedHeader header signer) = true := by
  have found := lookup_signedHeader sorted signer
  have ordered : Sorted (signedHeader header signer) := by
    have placed := SortedMap.place_sorted "alg" (.string signer.algorithm) header sorted
    unfold signedHeader
    cases signer.keyId with
    | none => exact placed
    | some keyId => exact SortedMap.place_sorted "kid" _ _ placed
  have critical : SortedMap.lookup "crit" (signedHeader header signer) = none := by
    rw [found, if_neg (by simp), if_neg (by decide), plain]
  have all : ∀ member ∈ signedHeader header signer, checkClaim jose member.1 member.2 = true := by
    intro member inside
    have there := SortedMap.lookup_of_mem ordered inside
    rw [found] at there
    split at there
    · next key =>
      obtain ⟨keyId, -, same⟩ := Option.map_eq_some_iff.mp there
      rw [key.1, ← same]
      rfl
    · split at there
      · next algorithm =>
        rw [algorithm, ← Option.some.inj there]
        rfl
      · exact each _ (SortedMap.mem_of_lookup there)
  rw [headerOfMap, Bool.and_eq_true]
  refine ⟨List.all_eq_true.mpr all, ?_⟩
  rw [critical]
  split
  · next absent => cases absent
  · rfl

theorem split_signed (payload : Bytes) (header : List (String × Json)) (signer : JwsSigner)
    (signature : Bytes) :
    Text.split '.' (signingInput serde payload header signer ++ "." ++ Base64.encode signature) =
      [Base64.encode (Text.utf8 ((Json.object (signedHeader header signer)).write serde.float)),
        Base64.encode payload, Base64.encode signature] :=
  Text.split_joined (Base64.not_mem_encode (by decide) _) (Base64.not_mem_encode (by decide) _)
    (Base64.not_mem_encode (by decide) _)

/-- What a signer writes is read back. -/
theorem deserialize_serialize {header : List (String × Json)}
    (reads : serde.Reads 127 (.object header)) (plain : SortedMap.lookup "crit" header = none)
    {signer : JwsSigner} {verifier : JwsVerifier} (pair : Pair signer verifier)
    (allowed : headerOfMap jose (signedHeader header signer) = true) {payload : Bytes}
    {token : String} (signed : serializeCompact serde payload header signer = some token) :
    deserializeCompact serde jose token verifier = some (payload, signedHeader header signer) := by
  obtain ⟨signature, made, rfl⟩ := (serializeCompact_eq_some plain).mp signed
  have sorted : Sorted header := by cases reads.held with | object sorted each => exact sorted
  refine deserializeCompact_eq_some.mpr ⟨_, _, _, signature, split_signed .., ?_,
    acceptsHeader_signedHeader sorted plain pair, Base64.decode_encode signature, pair.accepts made,
    Base64.decode_encode payload⟩
  rw [readHeader_eq_some, Base64.decode_encode]
  exact ⟨(signedHeader_reads reads signer).back, allowed⟩

theorem piece_of_serializeCompact {header : List (String × Json)}
    (plain : SortedMap.lookup "crit" header = none) {signer : JwsSigner} {payload : Bytes}
    {token : String} (signed : serializeCompact serde payload header signer = some token) :
    Piece token := by
  obtain ⟨signature, -, rfl⟩ := (serializeCompact_eq_some plain).mp signed
  have no_tilde := fun bytes => @Base64.not_mem_encode '~' (by decide) bytes
  constructor
  · intro blank
    have parts := congrArg String.toList blank
    simp at parts
  · simp [signingInput, no_tilde]

end Saffui.SdJwt
