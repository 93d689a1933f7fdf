import Mathlib.Data.List.Pairwise
import Saffui.SdJwt.RoundTrip

/-!
# Whoever presents

A presenter may send any texts for disclosures, made up or taken from another
token. Over a payload that `conceal_claims` made, only a part of the issuer's
own disclosures is ever accepted, each with the one it lies in: what is
revealed is always the claims without some of those that may be withheld.
-/

namespace Saffui.SdJwt
open Foundation Foundation.Outcome Foundation.Bytes Crypto

variable {serde : SerdeJson} {provider : CryptoProvider}

theorem exists_of_mem_digestsInMembers {members : List (String × Json)} {digest : String}
    (there : digest ∈ digestsInMembers members) : ∃ name value, (name, value) ∈ members ∧
      digest ∈ if name = "_sd" then digestTexts value else digestsIn value := by
  induction members with
  | nil => cases there
  | cons member rest ih =>
    obtain ⟨name, value⟩ := member
    rw [digestsInMembers, List.mem_append] at there
    rcases there with here | later
    · exact ⟨name, value, List.mem_cons_self, here⟩
    · obtain ⟨other, found, inside, stands⟩ := ih later
      exact ⟨other, found, List.mem_cons_of_mem _ inside, stands⟩

theorem exists_of_mem_digestsInItems {items : List Json} {digest : String}
    (there : digest ∈ digestsInItems items) :
    ∃ item ∈ items, carrierOf item = some digest ∨ digest ∈ digestsIn item := by
  induction items with
  | nil => cases there
  | cons item rest ih =>
    rw [digestsInItems, List.mem_append] at there
    rcases there with here | later
    · refine ⟨item, List.mem_cons_self, ?_⟩
      split at here
      · next carries =>
        rw [List.mem_singleton.mp here]
        exact Or.inl carries
      · exact Or.inr here
    · obtain ⟨found, inside, stands⟩ := ih later
      exact ⟨found, List.mem_cons_of_mem _ inside, stands⟩

theorem not_mem_digestsIn_clean {value : Json} (clean : Clean value) (digest : String) :
    digest ∉ digestsIn value := by
  induction value using Json.inductionOn with
  | array items ih =>
    cases clean with | array each => ?_
    intro there
    obtain ⟨item, inside, carries | within⟩ := exists_of_mem_digestsInItems there
    · rw [carrierOf_of_carried (carried_clean (each item inside))] at carries
      cases carries
    · exact ih item inside (each item inside) within
  | object members ih =>
    cases clean with | object names each => ?_
    intro there
    obtain ⟨name, value, inside, within⟩ := exists_of_mem_digestsInMembers there
    rw [if_neg fun same => names _ inside (by simp [same, RESERVED_NAMES])] at within
    exact ih _ inside (each _ inside) within
  | _ => simp [digestsIn]

variable (provider) in
/-- A digest the issuer made: of a salt alone, or of the disclosure of a claim. -/
def Linked (marks : Marks) (digest : String) : Prop :=
  Decoy provider digest ∨
    ∃ place encoded, marks place = some encoded ∧ digest = digestText provider encoded

theorem Linked.of_under {marks : Marks} {name digest : String}
    (linked : Linked provider (marks.under name) digest) : Linked provider marks digest := by
  rcases linked with decoy | ⟨place, encoded, marked, same⟩
  · exact Or.inl decoy
  · by_cases none_there : place = .property []
    · rw [none_there] at marked
      cases marked
    · rw [Marks.under_apply marks name none_there] at marked
      exact Or.inr ⟨_, encoded, marked, same⟩

/-- The digests that stand in what was made of claims are the issuer's. -/
theorem Veiled.digests_linked {marks : Marks} {claims shown : Json} {region : String → Prop}
    (veiled : Veiled serde provider marks claims shown region) {digest : String}
    (there : digest ∈ digestsIn shown) : Linked provider marks digest := by
  induction veiled with
  | null | bool | number | string => cases there
  | array clean hidden apart =>
    next marks region items =>
    obtain ⟨item, inside, stands⟩ := exists_of_mem_digestsInItems there
    obtain ⟨index, found⟩ := List.getElem?_of_mem inside
    rw [getElem?_veilItems, Nat.zero_add] at found
    obtain ⟨original, among, rfl⟩ := Option.map_eq_some_iff.mp found
    have plain := clean original (List.mem_of_getElem? among)
    cases marked : marks (.element [] index) with
    | none =>
      rw [slot, marked] at stands
      dsimp only at stands
      rw [carrierOf_of_carried (carried_clean plain)] at stands
      rcases stands with carries | within
      · cases carries
      · exact absurd within (not_mem_digestsIn_clean plain digest)
    | some encoded =>
      rcases stands with carries | within
      · rw [carrierOf_slot marked] at carries
        exact Or.inr ⟨_, encoded, marked, (Option.some.inj carries).symm⟩
      · rw [slot, marked] at within
        simp [digestsIn, digestsInMembers] at within
  | object each laid ih =>
    next marks region members shown own part inner =>
    obtain ⟨name, value, inside, stands⟩ := exists_of_mem_digestsInMembers there
    have found := SortedMap.lookup_of_mem laid.sorted inside
    split at stands
    · next own_name =>
      rw [own_name] at found
      rcases laid.digests with ⟨absent, -⟩ | ⟨listed, -⟩
      · rw [absent] at found
        cases found
      · rw [listed] at found
        rw [← Option.some.inj found, digestTexts, List.filterMap_map] at stands
        have among : digest ∈ own := by simpa [Json.asStr, Function.comp_def] using stands
        rcases laid.made digest among with decoy | ⟨member, -, encoded, marked, same⟩
        · exact Or.inl decoy
        · exact Or.inr ⟨_, encoded, marked, same⟩
    · next other =>
      obtain ⟨member, among, rfl, plain, rfl⟩ := laid.of_shown other found
      exact (ih member among stands).of_under

/-- The digests that stand in a disclosed claim are the issuer's. -/
theorem Veiled.disclosed_linked {marks : Marks} {claims shown : Json} {region : String → Prop}
    (veiled : Veiled serde provider marks claims shown region) {place : Concealed}
    {encoded : String} (marked : marks place = some encoded) (stands : place.stands claims)
    {disclosure : Disclosure} (read : Disclosure.read serde encoded = .ok disclosure)
    {digest : String} (there : digest ∈ digestsIn disclosure.value) :
    Linked provider marks digest := by
  induction veiled generalizing place with
  | null | bool | number | string => exact absurd stands (Concealed.not_stands (by simp) (by simp) _)
  | array clean hidden apart =>
    next marks region items =>
    obtain ⟨index, rfl, bound⟩ := Concealed.stands_array stands
    obtain ⟨discloses, -⟩ := hidden index items[index] encoded (List.getElem?_eq_getElem bound) marked
    obtain ⟨salt, reads⟩ := discloses.read
    rw [reads] at read
    rw [← Except.ok.inj read] at there
    exact absurd there (not_mem_digestsIn_clean (clean _ (List.getElem_mem bound)) digest)
  | object each laid ih =>
    next marks region members shown own part inner =>
    obtain ⟨name, value, among, rfl | ⟨deeper, some_place, rfl, stands_in⟩⟩ :=
      Concealed.stands_object stands
    · obtain ⟨-, discloses⟩ := laid.hidden _ among encoded marked
      obtain ⟨salt, reads⟩ := discloses.read
      rw [reads] at read
      rw [← Except.ok.inj read] at there
      exact ((each _ among).digests_linked there).of_under
    · rw [← Marks.under_apply marks name some_place] at marked
      exact (ih _ among marked stands_in).of_under

/-- No salt alone is the text of a disclosure. -/
def InertSalts (serde : SerdeJson) (provider : CryptoProvider) : Prop :=
  ∀ {drawn bytes disclosure}, provider.fill drawn = .ok bytes →
    Disclosure.read serde (Base64.encode bytes.val) ≠ .ok disclosure

/-- Whatever is put in its place at a digest of the issuer is a disclosure of
the issuer, and so is what is put in its place at a digest within. -/
theorem Grounded.marked (ideal : Ideal provider) (inert : InertSalts serde provider)
    {marks : Marks} {claims shown : Json} {region : String → Prop}
    (veiled : Veiled serde provider marks claims shown region)
    (made : ∀ place encoded, marks place = some encoded → place.stands claims ∧
      digestOf provider .sha256 encoded = .ok (digestText provider encoded))
    {available : List String} {placed : List (String × Disclosure)}
    (grounded : Grounded available placed)
    (linked : ∀ digest ∈ available, Linked provider marks digest)
    (each : ∀ one ∈ placed, Disclosure.read serde one.2.encoded = .ok one.2 ∧
      digestOf provider .sha256 one.2.encoded = .ok one.1) :
    ∀ one ∈ placed, ∃ place, marks place = some one.2.encoded := by
  induction grounded with
  | nil => simp
  | cons stands later ih =>
    next available digest disclosure rest =>
    obtain ⟨⟨read, digested⟩, others⟩ := List.forall_mem_cons.mp each
    rcases linked digest stands with ⟨drawn, bytes, filled, salted⟩ | ⟨place, encoded, marked, same⟩
    · rw [ideal.same_text digested salted] at read
      exact absurd read (inert filled)
    · obtain ⟨stands_there, digested_there⟩ := made place encoded marked
      rw [← same] at digested_there
      have same_text := ideal.same_text digested digested_there
      rw [same_text] at read
      refine List.forall_mem_cons.mpr ⟨⟨place, by rw [marked, same_text]⟩, ih ?_ others⟩
      intro digest inside
      rcases List.mem_append.mp inside with before | within
      · exact linked digest before
      · exact veiled.disclosed_linked marked stands_there read within

theorem Presented.nodup {hash : HashAlg} {byDigest : SortedMap String Disclosure}
    {disclosures : List String}
    (presented : Presented serde provider hash byDigest disclosures) : disclosures.Nodup := by
  refine presented.all.nodup_iff.mp (List.pairwise_map.mpr ?_)
  refine byDigest.sorted.imp_of_mem fun first second below same => ?_
  obtain ⟨-, one⟩ := presented.each _ _ ((SortedMap.mem_entries_iff _ _ _).mp first)
  obtain ⟨-, other⟩ := presented.each _ _ ((SortedMap.mem_entries_iff _ _ _).mp second)
  rw [same, other] at one
  rw [Except.ok.inj one] at below
  exact lt_irrefl _ below

/-- No disclosure is accepted twice. -/
theorem nodup_of_unfoldClaims {fuel : Nat} {payload : List (String × Json)}
    {disclosures : List String} {claims : SortedMap String Json}
    (accepted : unfoldClaims serde provider fuel payload disclosures = pure claims) :
    disclosures.Nodup := by
  obtain ⟨hash, -, accepted⟩ := bind_eq_pure.mp accepted
  obtain ⟨unfolding, made, -⟩ := bind_eq_pure.mp accepted
  exact (of_eq_ok (settled_eq_pure.mp made)).1.nodup

/-- A digest stands in the payload, or in one disclosure alone. -/
theorem digests_apart (ideal : Ideal provider) {claims : List (String × Json)}
    (reads : serde.Reads 125 (.object claims)) {concealed : List Concealed} {decoys : Nat}
    {concealment : Concealment}
    (ran : concealClaims serde provider claims concealed decoys = .ok concealment)
    (named : ∀ place ∈ concealed, place.Named) {encoded : String}
    (listed : encoded ∈ concealment.disclosures) {disclosure : Disclosure}
    (read : Disclosure.read serde encoded = .ok disclosure) {digest : String}
    (stands : digest ∈ digestsIn disclosure.value) :
    digest ∉ digestsInMembers (SortedMap.without "_sd_alg" concealment.payload) ∧
      ∀ other ∈ concealment.disclosures, ∀ found, Disclosure.read serde other = .ok found →
        digest ∈ digestsIn found.value → other = encoded := by
  have issued := issued_of_concealClaims ideal reads ran
  obtain ⟨bound, accepts⟩ := unfoldClaims_accepts ideal reads ran named issued.once
    (List.Subset.refl _) fun _ _ other inside _ _ _ _ _ => inside
  obtain ⟨revealed, accepted, -⟩ := accepts bound le_rfl
  obtain ⟨hash, placed, -, came⟩ := unfoldClaims_sound (serde.held_of_steady issued.reads.held) accepted
  have placing : ∀ text ∈ concealment.disclosures, ∀ found, Disclosure.read serde text = .ok found →
      ∃ one ∈ placed, one.2 = found := by
    intro text inside found reads
    obtain ⟨one, among, same⟩ := List.mem_map.mp (came.all.mem_iff.mpr inside)
    obtain ⟨read_one, -⟩ := came.each one among
    rw [same, reads] at read_one
    exact ⟨one, among, (Except.ok.inj read_one).symm⟩
  obtain ⟨one, among, here⟩ := placing encoded listed disclosure read
  rw [← here] at stands
  have parts := List.nodup_append.mp came.once
  constructor
  · intro in_payload
    exact parts.2.2 digest in_payload digest (List.mem_flatMap.mpr ⟨one, among, stands⟩) rfl
  · intro other inside found reads there
    obtain ⟨two, among_two, there_two⟩ := placing other inside found reads
    rw [← there_two] at there
    have apart := (List.nodup_flatMap.mp parts.2.1).2
    have symmetric : Std.Symm (Function.onFun List.Disjoint fun one : String × Disclosure =>
      digestsIn one.2.value) := ⟨fun _ _ disjoint _ first second => disjoint second first⟩
    by_contra different
    have distinct : one ≠ two := by
      intro same
      rw [← Disclosure.read_encoded serde reads, ← Disclosure.read_encoded serde read, ← there_two,
        ← here, same] at different
      exact different rfl
    exact apart.forall among among_two distinct stands there

/-- A grounded digest stood at first, or in another that was put in its place. -/
theorem Grounded.mem_or {available : List String} {placed : List (String × Disclosure)}
    (grounded : Grounded available placed) {one : String × Disclosure} (among : one ∈ placed) :
    one.1 ∈ available ∨ ∃ other ∈ placed, one.1 ∈ digestsIn other.2.value := by
  induction grounded with
  | nil => cases among
  | cons stands later ih =>
    rcases List.mem_cons.mp among with rfl | further
    · exact Or.inl stands
    · rcases ih further with here | ⟨other, inside, there⟩
      · rcases List.mem_append.mp here with before | within
        · exact Or.inl before
        · exact Or.inr ⟨_, List.mem_cons_self, within⟩
      · exact Or.inr ⟨other, List.mem_cons_of_mem _ inside, there⟩

/-- An issued payload is what was made of the claims, and the name of its hash. -/
theorem payload_of_concealClaims (ideal : Ideal provider) {claims : List (String × Json)}
    (reads : serde.Reads 125 (.object claims)) {concealed : List Concealed} {decoys : Nat}
    {concealment : Concealment}
    (ran : concealClaims serde provider claims concealed decoys = .ok concealment)
    (named : ∀ place ∈ concealed, place.Named) :
    hashNamed serde (SortedMap.lookup "_sd_alg" concealment.payload) = .ok .sha256 ∧
    ∃ marks region,
      Veiled serde provider marks (.object claims)
        (.object (SortedMap.without "_sd_alg" concealment.payload)) region ∧
      ∀ place encoded, marks place = some encoded →
        place.stands (.object claims) ∧ encoded ∈ concealment.disclosures := by
  obtain ⟨marks, region, shown, payload, veiled, marked, lengths, stands⟩ :=
    veiled_of_concealClaims ideal reads ran named
  have laid : Sorted shown ∧ SortedMap.lookup "_sd_alg" shown = none := by
    cases veiled with | object each laid => ?_
    exact ⟨laid.sorted, laid.absent "_sd_alg" (by decide) fun member inside same =>
      laid.names member inside (by rw [same]; decide)⟩
  have kept := @without_place _ laid.1 _ (.string "sha-256") laid.2
  rw [payload, SortedMap.lookup_place _ _ _ _ laid.1, if_pos rfl, kept]
  refine ⟨rfl, marks, region, veiled, fun place encoded found => ?_⟩
  have zipped := List.of_mem_zip ((marked place encoded).mp found)
  exact ⟨stands place ((deepestFirst_perm concealed).mem_iff.mp zipped.1), zipped.2⟩

/-- What is accepted of an issued payload is a part of its disclosures, each
with the one it lies in. -/
theorem part_of_unfoldClaims (ideal : Ideal provider) (inert : InertSalts serde provider)
    {claims : List (String × Json)} (reads : serde.Reads 125 (.object claims))
    {concealed : List Concealed} {decoys : Nat} {concealment : Concealment}
    (ran : concealClaims serde provider claims concealed decoys = .ok concealment)
    (named : ∀ place ∈ concealed, place.Named) {presented : List String} {fuel : Nat}
    {revealed : SortedMap String Json}
    (accepted : unfoldClaims serde provider fuel concealment.payload presented = pure revealed) :
    presented ⊆ concealment.disclosures ∧
      ParentClosed serde provider concealment.disclosures presented := by
  have issued := issued_of_concealClaims ideal reads ran
  obtain ⟨sha256, marks, region, veiled, marked⟩ := payload_of_concealClaims ideal reads ran named
  obtain ⟨hash, placed, hashed, came⟩ :=
    unfoldClaims_sound (serde.held_of_steady issued.reads.held) accepted
  rw [sha256] at hashed
  cases hashed
  have made : ∀ place encoded, marks place = some encoded → place.stands (.object claims) ∧
      digestOf provider .sha256 encoded = .ok (digestText provider encoded) := by
    intro place encoded found
    obtain ⟨stands, listed⟩ := marked place encoded found
    obtain ⟨name, value, discloses⟩ := issued.each encoded listed
    exact ⟨stands, discloses.digested⟩
  have all_marked := came.grounded.marked ideal inert veiled made
    (fun digest inside => veiled.digests_linked inside) came.each
  have part : ∀ one ∈ placed, one.2.encoded ∈ concealment.disclosures := by
    intro one among
    obtain ⟨place, found⟩ := all_marked one among
    exact (marked _ _ found).2
  refine ⟨fun encoded inside => ?_, fun encoded inside other listed parent digest read digested
    within => ?_⟩
  · obtain ⟨one, among, rfl⟩ := List.mem_map.mp (came.all.mem_iff.mpr inside)
    exact part one among
  · obtain ⟨one, among, same⟩ := List.mem_map.mp (came.all.mem_iff.mpr inside)
    obtain ⟨-, digested_one⟩ := came.each one among
    rw [same, digested] at digested_one
    obtain ⟨outside, alone⟩ := digests_apart ideal reads ran named listed read within
    rcases came.grounded.mem_or among with at_first | ⟨two, among_two, there⟩
    · rw [← Except.ok.inj digested_one] at at_first
      exact absurd at_first outside
    · rw [← Except.ok.inj digested_one] at there
      have same_text := alone _ (part two among_two) two.2 (came.each two among_two).1 there
      rw [← same_text]
      exact came.all.mem_iff.mp (List.mem_map.mpr ⟨two, among_two, rfl⟩)

/-- Over an issued payload exactly the parts of its disclosures are accepted
that hold each once and with the one it lies in, whatever is presented; and
what is accepted gives the claims without those withheld. -/
theorem accepts_exactly (ideal : Ideal provider) (inert : InertSalts serde provider)
    {claims : List (String × Json)} (reads : serde.Reads 125 (.object claims))
    {concealed : List Concealed} {decoys : Nat} {concealment : Concealment}
    (ran : concealClaims serde provider claims concealed decoys = .ok concealment)
    (named : ∀ place ∈ concealed, place.Named) (presented : List String) :
    ((∃ bound, ∀ fuel, bound ≤ fuel → ∃ revealed,
      unfoldClaims serde provider fuel concealment.payload presented = pure revealed) ↔
        presented.Nodup ∧ presented ⊆ concealment.disclosures ∧
          ParentClosed serde provider concealment.disclosures presented) ∧
    ∀ fuel revealed,
      unfoldClaims serde provider fuel concealment.payload presented = pure revealed →
        Json.object revealed.entries = withhold
          (withheldPlaces concealed concealment.disclosures presented) (.object claims) := by
  refine ⟨⟨fun accepts => ?_, fun parts => ?_⟩, fun fuel revealed accepted => ?_⟩
  · obtain ⟨bound, accepts⟩ := accepts
    obtain ⟨revealed, accepted⟩ := accepts bound le_rfl
    exact ⟨nodup_of_unfoldClaims accepted,
      part_of_unfoldClaims ideal inert reads ran named accepted⟩
  · obtain ⟨once, part, closed⟩ := parts
    obtain ⟨bound, accepts⟩ := unfoldClaims_accepts ideal reads ran named once part closed
    refine ⟨bound, fun fuel least => ?_⟩
    obtain ⟨revealed, accepted, -⟩ := accepts fuel least
    exact ⟨revealed, accepted⟩
  · obtain ⟨part, -⟩ := part_of_unfoldClaims ideal inert reads ran named accepted
    exact unfoldClaims_reveals ideal reads ran named (nodup_of_unfoldClaims accepted) part accepted

theorem utf8_of_readUtf8 {bytes : List UInt8} {text : String}
    (read : Text.readUtf8 bytes = some text) : Text.utf8 text = bytes := by
  rw [Text.readUtf8, String.fromUTF8?] at read
  split at read
  · rw [← Option.some.inj read]
    rfl
  · cases read

/-- The character of code point zero begins no text of JSON. -/
theorem read_zero (readFloat : List Char → Option Number) {text : String} {rest : List Char}
    (starts : text.toList = '\x00' :: rest) : Json.read readFloat text = none := by
  have blank : Json.skipBlanks ('\x00' :: rest) = '\x00' :: rest := rfl
  have none_there : Json.readDigits ('\x00' :: rest) = none := by
    rw [Json.readDigits, List.span_eq_takeWhile_dropWhile, List.takeWhile_cons_of_neg (by decide)]
  rw [Json.read, starts, Json.readValue]
  simp [blank, Json.readNumber, Json.readMagnitude, none_there]

theorem starts_with_zero {text : String} {rest : List UInt8} (starts : Text.utf8 text = 0 :: rest) :
    ∃ more, text.toList = '\x00' :: more := by
  rw [Text.utf8_eq] at starts
  cases listed : text.toList with
  | nil =>
    rw [listed] at starts
    cases starts
  | cons first more =>
    refine ⟨more, ?_⟩
    rw [listed, List.flatMap_cons] at starts
    by_cases ascii : Text.IsAscii first
    · rw [Text.utf8EncodeChar_ascii ascii] at starts
      have zero := congrArg UInt8.toNat (List.cons.inj starts).1
      rw [Text.byteOf, UInt8.toNat_ofNat'] at zero
      have small : first.toNat < 128 := ascii
      have same : first.toNat = 0 := by
        have plain : (0 : UInt8).toNat = 0 := rfl
        omega
      have zero_char : '\x00'.toNat = 0 := rfl
      rw [Char.toNat_inj.mp (same.trans zero_char.symm)]
    · cases encoded : String.utf8EncodeChar first with
      | nil =>
        have some_byte := Char.utf8Size_pos first
        rw [← String.length_utf8EncodeChar, encoded] at some_byte
        cases some_byte
      | cons byte bytes =>
        have high := Text.utf8EncodeChar_high ascii byte (by rw [encoded]; exact List.mem_cons_self)
        rw [encoded] at starts
        rw [(List.cons.inj starts).1] at high
        cases high
theorem readIntegers_zero (bytes : Bytes) : readIntegers (0 :: bytes) = none := by
  rw [readIntegers]
  cases read : Text.readUtf8 (0 :: bytes) with
  | none => rfl
  | some text =>
    obtain ⟨rest, starts⟩ := starts_with_zero (utf8_of_readUtf8 read)
    rw [Option.bind_some, read_zero _ starts]
    rfl

theorem counted_inert : InertSalts integers counted := by
  intro drawn bytes disclosure filled read
  have zero : ∃ rest, bytes.val = 0 :: rest := by
    simp only [counted] at filled
    split at filled
    · rw [← Except.ok.inj filled]
      exact ⟨_, rfl⟩
    · cases filled
  obtain ⟨rest, zero⟩ := zero
  have none_read : integers.fromSlice bytes.val = none := by
    rw [zero]
    exact readIntegers_zero rest
  rw [Disclosure.read, Base64.decode_encode, Option.bind_some, none_read] at read
  cases read

theorem accepts_exactly_address : ∃ concealment,
    concealClaims integers counted addressClaims addressPlaces 1 = .ok concealment ∧
    ∀ presented : List String,
      ((∃ bound, ∀ fuel, bound ≤ fuel → ∃ revealed,
        unfoldClaims integers counted fuel concealment.payload presented = pure revealed) ↔
          presented.Nodup ∧ presented ⊆ concealment.disclosures ∧
            ParentClosed integers counted concealment.disclosures presented) ∧
      ∀ fuel revealed,
        unfoldClaims integers counted fuel concealment.payload presented = pure revealed →
          Json.object revealed.entries = withhold
            (withheldPlaces addressPlaces concealment.disclosures presented)
            (.object addressClaims) := by
  obtain ⟨concealment, ran⟩ := address_concealed
  exact ⟨concealment, ran, fun presented => accepts_exactly counted_ideal counted_inert
    addressClaims_reads ran addressPlaces_named presented⟩

end Saffui.SdJwt
