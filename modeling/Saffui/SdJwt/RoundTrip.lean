import Saffui.SdJwt.Integers
import Saffui.SdJwt.Issued

/-!
# What comes back of what was concealed

Between `conceal_claims` and the unfolding of `verify_presentation`: every part
of the disclosures that holds each disclosure together with the one that
carries its digest is accepted, and gives the claims without those withheld.
-/

namespace Saffui.SdJwt
open Foundation Foundation.Outcome Crypto

variable {serde : SerdeJson} {provider : CryptoProvider}

theorem addDisclosure_ok (ideal : Ideal provider) {byDigest : SortedMap String Disclosure}
    {presented : List String} (known : Presented serde provider .sha256 byDigest presented)
    {encoded : String} {name : Option String} {value : Json}
    (discloses : Discloses serde provider encoded name value) (new : encoded ∉ presented) :
    ∃ after, addDisclosure serde provider .sha256 byDigest encoded = .ok after := by
  obtain ⟨salt, read⟩ := discloses.read
  have absent := get?_other ideal known discloses.digested new
  refine ⟨byDigest.insert (digestText provider encoded) ⟨encoded, salt, name, value⟩, ?_⟩
  rw [addDisclosure, read, discloses.digested]
  simp [bind, Except.bind, absent, pure, Except.pure]

theorem foldlM_addDisclosure (ideal : Ideal provider) {byDigest : SortedMap String Disclosure}
    {presented before : List String}
    (known : Presented serde provider .sha256 byDigest before)
    (each : ∀ encoded ∈ presented, ∃ name value, Discloses serde provider encoded name value)
    (once : (presented ++ before).Nodup) :
    ∃ after, presented.foldlM (addDisclosure serde provider .sha256) byDigest = .ok after := by
  induction presented generalizing byDigest before with
  | nil => exact ⟨byDigest, rfl⟩
  | cons encoded rest ih =>
    obtain ⟨⟨name, value, discloses⟩, later⟩ := List.forall_mem_cons.mp each
    obtain ⟨new, once⟩ := List.nodup_cons.mp once
    obtain ⟨middle, added⟩ := addDisclosure_ok ideal known discloses fun inside =>
      new (List.mem_append_right _ inside)
    have moved : (rest ++ encoded :: before).Nodup :=
      List.perm_middle.nodup_iff.mpr (List.nodup_cons.mpr ⟨new, once⟩)
    obtain ⟨after, folded⟩ := ih (known.add added) later moved
    refine ⟨after, ?_⟩
    rw [List.foldlM_cons, added]
    exact folded

/-- Disclosures of the issuer, none twice, make a table. -/
theorem of_presented (ideal : Ideal provider) {presented : List String}
    (each : ∀ encoded ∈ presented, ∃ name value, Discloses serde provider encoded name value)
    (once : presented.Nodup) :
    ∃ unfolding, Unfolding.of serde provider .sha256 presented = .ok unfolding := by
  have none_yet : Presented serde provider .sha256 .empty [] := ⟨by simp, .refl _⟩
  obtain ⟨byDigest, folded⟩ := foldlM_addDisclosure ideal none_yet each (by simpa using once)
  refine ⟨⟨byDigest, [], []⟩, ?_⟩
  rw [Unfolding.of, folded]
  rfl

theorem decoy_opens_nothing (ideal : Ideal provider) {concealed : List Concealed}
    {concealment : Concealment} (issued : Issued serde provider concealed concealment)
    {table : SortedMap String Disclosure} {presented : List String}
    (known : Presented serde provider .sha256 table presented)
    (part : presented ⊆ concealment.disclosures) {digest : String}
    (decoy : Decoy provider digest) : table.get? digest = none := by
  obtain ⟨drawn, bytes, -, digested⟩ := decoy
  refine get?_other ideal known digested fun inside => ?_
  obtain ⟨drawn, rest, made, fresh⟩ := issued.made _ (part inside)
  obtain ⟨salted, -, same⟩ := fresh.made
  exact disclosureText_ne_salt salted bytes rest same.symm

theorem mem_digestsInMembers {members : List (String × Json)} {name : String} {value : Json}
    (inside : (name, value) ∈ members) {digest : String}
    (there : digest ∈ if name = "_sd" then digestTexts value else digestsIn value) :
    digest ∈ digestsInMembers members := by
  induction members with
  | nil => cases inside
  | cons member rest ih =>
    obtain ⟨first, second⟩ := member
    rw [digestsInMembers, List.mem_append]
    rcases List.mem_cons.mp inside with same | later
    · cases same
      exact Or.inl there
    · exact Or.inr (ih later)

theorem mem_digestsInItems {items : List Json} {item : Json} {digest : String}
    (inside : item ∈ items) (carries : carrierOf item = some digest) :
    digest ∈ digestsInItems items := by
  induction items with
  | nil => cases inside
  | cons first rest ih =>
    rw [digestsInItems, List.mem_append]
    rcases List.mem_cons.mp inside with same | later
    · rw [← same, carries]
      exact Or.inl (List.mem_singleton_self _)
    · exact Or.inr (ih later)

variable {marks : Marks} {members shown : List (String × Json)} {own : List String}
  {part : String → Json} {inner : String → String → Prop} {region : String → Prop}

theorem Laid.own_stands (laid : Laid serde provider marks members shown own part inner region)
    {digest : String} (among : digest ∈ own) : digest ∈ digestsIn (.object shown) := by
  rcases laid.digests with ⟨-, rfl⟩ | ⟨there, -⟩
  · cases among
  · refine mem_digestsInMembers (SortedMap.mem_of_lookup there) ?_
    rw [if_pos rfl, digestTexts, List.filterMap_map]
    exact List.mem_filterMap.mpr ⟨digest, among, rfl⟩

theorem Laid.part_stands (laid : Laid serde provider marks members shown own part inner region)
    {member : String × Json} (among : member ∈ members)
    (plain : marks (.property [member.1]) = none) :
    digestsIn (part member.1) ⊆ digestsIn (.object shown) := by
  intro digest there
  refine mem_digestsInMembers (SortedMap.mem_of_lookup (laid.plain member among plain)) ?_
  rw [if_neg]
  · exact there
  · intro same
    exact laid.names member among (by rw [same]; decide)

/-- Every place within an object is one of its properties, or lies in a member. -/
theorem Concealed.stands_object {place : Concealed} (stands : place.stands (.object members)) :
    ∃ name value, (name, value) ∈ members ∧
      (place = .property [name] ∨ ∃ deeper : Concealed, deeper ≠ .property [] ∧ place = deeper.under name ∧
        deeper.stands value) := by
  cases place with
  | property path =>
    obtain ⟨some_path, there⟩ := stands
    cases path with
    | nil => exact absurd rfl some_path
    | cons name rest =>
      obtain ⟨found, there⟩ := Option.isSome_iff_exists.mp there
      obtain ⟨value, at_name, there⟩ := Option.bind_eq_some_iff.mp there
      refine ⟨name, value, SortedMap.mem_of_lookup at_name, ?_⟩
      cases rest with
      | nil => exact Or.inl rfl
      | cons next rest =>
        exact Or.inr ⟨.property (next :: rest), by simp, rfl, by simp,
          Option.isSome_iff_exists.mpr ⟨found, there⟩⟩
  | element path index =>
    obtain ⟨items, there, bound⟩ := stands
    cases path with
    | nil => cases there
    | cons name rest =>
      obtain ⟨value, at_name, there⟩ := Option.bind_eq_some_iff.mp there
      exact ⟨name, value, SortedMap.mem_of_lookup at_name,
        Or.inr ⟨.element rest index, by simp, rfl, items, there, bound⟩⟩

theorem Concealed.stands_array {items : List Json} {place : Concealed}
    (stands : place.stands (.array items)) :
    ∃ index, place = .element [] index ∧ index < items.length := by
  cases place with
  | property path =>
    obtain ⟨some_path, there⟩ := stands
    cases path with
    | nil => exact absurd rfl some_path
    | cons name rest => cases there
  | element path index =>
    obtain ⟨found, there, bound⟩ := stands
    cases path with
    | nil =>
      cases there
      exact ⟨index, rfl, bound⟩
    | cons name rest => cases there

theorem carrierOf_slot {index : Nat} {item : Json} {encoded : String}
    (marked : marks (.element [] index) = some encoded) :
    carrierOf (slot provider marks index item) = some (digestText provider encoded) := by
  rw [slot, marked]
  rfl

theorem slot_stands {index : Nat} {items : List Json} {encoded : String}
    (bound : index < items.length) (marked : marks (.element [] index) = some encoded) :
    digestText provider encoded ∈ digestsIn (.array (veilItems provider marks 0 items)) := by
  have found := @getElem?_veilItems provider marks 0 index items
  rw [List.getElem?_eq_getElem bound, Nat.zero_add] at found
  exact mem_digestsInItems (List.mem_of_getElem? found) (carrierOf_slot marked)

/-- There is no place in a value that holds no others. -/
theorem Concealed.not_stands {claims : Json} (no_object : ∀ members, claims ≠ .object members)
    (no_array : ∀ items, claims ≠ .array items) (place : Concealed) : ¬place.stands claims := by
  intro stands
  have no_step : ∀ name rest, valueAt (name :: rest) claims = none := by
    intro name rest
    cases claims with
    | object members => exact absurd rfl (no_object members)
    | _ => rfl
  rcases place with (_ | ⟨first, rest⟩) | ⟨_ | ⟨first, rest⟩, index⟩
  · exact stands.1 rfl
  · obtain ⟨-, there⟩ := stands
    rw [no_step] at there
    cases there
  · obtain ⟨items, found, -⟩ := stands
    exact no_array items (Option.some.inj found)
  · obtain ⟨items, found, -⟩ := stands
    rw [no_step] at found
    cases found

/-- Disclosures presented together with each that carries the digest of one of them. -/
def ParentClosed (serde : SerdeJson) (provider : CryptoProvider)
    (disclosures presented : List String) : Prop :=
  ∀ encoded ∈ presented, ∀ other ∈ disclosures, ∀ parent digest,
    Disclosure.read serde other = .ok parent → digestOf provider .sha256 encoded = .ok digest →
      digest ∈ digestsIn parent.value → other ∈ presented

section
variable {disclosures presented : List String}
  (closed : ParentClosed serde provider disclosures presented)
include closed

/-- The digest of a disclosure that is presented, or of one it lies in, stands
in what was made of the claims. -/
theorem Veiled.reaches {claims shown : Json}
    (veiled : Veiled serde provider marks claims shown region)
    (listed : ∀ place encoded, marks place = some encoded → encoded ∈ disclosures)
    {place : Concealed} {encoded : String} (marked : marks place = some encoded)
    (stands : place.stands claims) (there : encoded ∈ presented) :
    ∃ other ∈ presented, ∃ digest, digestOf provider .sha256 other = .ok digest ∧
      digest ∈ digestsIn shown := by
  induction veiled generalizing place with
  | null | bool | number | string => exact absurd stands (Concealed.not_stands (by simp) (by simp) _)
  | array clean hidden apart =>
    next marks region items =>
    obtain ⟨index, rfl, bound⟩ := Concealed.stands_array stands
    obtain ⟨discloses, -⟩ := hidden index items[index] encoded (List.getElem?_eq_getElem bound) marked
    exact ⟨encoded, there, _, discloses.digested, slot_stands bound marked⟩
  | object each laid ih =>
    next marks region members shown own part inner =>
    obtain ⟨name, value, among, rfl | ⟨deeper, some_place, rfl, stands_in⟩⟩ :=
      Concealed.stands_object stands
    · obtain ⟨-, discloses⟩ := laid.hidden _ among encoded marked
      exact ⟨encoded, there, _, discloses.digested,
        laid.own_stands (laid.linked _ among encoded marked)⟩
    · have listed_in : ∀ place text, marks.under name place = some text → text ∈ disclosures := by
        intro place text found
        by_cases same : place = .property []
        · rw [same] at found
          cases found
        · rw [Marks.under_apply marks name same] at found
          exact listed _ text found
      rw [← Marks.under_apply marks name some_place] at marked
      obtain ⟨other, presents, digest, digested, within⟩ :=
        ih _ among listed_in marked stands_in
      cases marked_member : marks (.property [name]) with
      | none => exact ⟨other, presents, digest, digested, laid.part_stands among marked_member within⟩
      | some text =>
        obtain ⟨-, discloses⟩ := laid.hidden _ among text marked_member
        obtain ⟨salt, read⟩ := discloses.read
        have text_there := closed other presents text (listed _ text marked_member) _ digest read
          digested within
        exact ⟨text, text_there, _, discloses.digested,
          laid.own_stands (laid.linked _ among text marked_member)⟩

/-- Every disclosure that is presented is within reach of what was made of the
claims, where what is reached is opened. -/
theorem Veiled.all_reached {claims shown : Json}
    (veiled : Veiled serde provider marks claims shown region)
    (listed : ∀ place encoded, marks place = some encoded → encoded ∈ disclosures)
    {reached : String → Prop} (at_first : ∀ digest ∈ digestsIn shown, reached digest)
    (opening : ∀ encoded ∈ presented, ∀ name value, Discloses serde provider encoded name value →
      reached (digestText provider encoded) → ∀ digest ∈ digestsIn value, reached digest)
    {place : Concealed} {encoded : String} (marked : marks place = some encoded)
    (stands : place.stands claims) (there : encoded ∈ presented) :
    reached (digestText provider encoded) := by
  induction veiled generalizing place with
  | null | bool | number | string => exact absurd stands (Concealed.not_stands (by simp) (by simp) _)
  | array clean hidden apart =>
    next marks region items =>
    obtain ⟨index, rfl, bound⟩ := Concealed.stands_array stands
    exact at_first _ (slot_stands bound marked)
  | object each laid ih =>
    next marks region members shown own part inner =>
    have own_reached : ∀ digest ∈ own, reached digest := fun digest among =>
      at_first digest (laid.own_stands among)
    obtain ⟨name, value, among, rfl | ⟨deeper, some_place, rfl, stands_in⟩⟩ :=
      Concealed.stands_object stands
    · exact own_reached _ (laid.linked _ among encoded marked)
    · have listed_in : ∀ place text, marks.under name place = some text → text ∈ disclosures := by
        intro place text found
        by_cases same : place = .property []
        · rw [same] at found
          cases found
        · rw [Marks.under_apply marks name same] at found
          exact listed _ text found
      rw [← Marks.under_apply marks name some_place] at marked
      refine ih _ among listed_in ?_ marked stands_in
      cases marked_member : marks (.property [name]) with
      | none =>
        exact fun digest within => at_first digest (laid.part_stands among marked_member within)
      | some text =>
        obtain ⟨-, discloses⟩ := laid.hidden _ among text marked_member
        obtain ⟨salt, read⟩ := discloses.read
        obtain ⟨other, presents, digest, digested, within⟩ :=
          (each _ among).reaches closed listed_in marked stands_in there
        have text_there := closed other presents text (listed _ text marked_member) _ digest read
          digested within
        exact opening text text_there _ _ discloses
          (own_reached _ (laid.linked _ among text marked_member))

end

/-- The places whose disclosures are not among those presented. -/
def withheldPlaces (concealed : List Concealed) (disclosures presented : List String) :
    List Concealed :=
  ((deepestFirst concealed).zip disclosures).filterMap fun entry =>
    if entry.2 ∈ presented then none else some entry.1

theorem withheld_withheldPlaces {concealed : List Concealed} {disclosures presented : List String}
    (marked : ∀ place encoded, marks place = some encoded ↔
      (place, encoded) ∈ (deepestFirst concealed).zip disclosures) :
    Withheld presented marks (withheldPlaces concealed disclosures presented) := by
  intro place
  rw [withheldPlaces, List.mem_filterMap]
  constructor
  · intro found
    obtain ⟨⟨other, encoded⟩, inside, same⟩ := found
    by_cases there : encoded ∈ presented
    · simp [there] at same
    · simp only [there, if_false, Option.some.injEq] at same
      rw [← same]
      exact ⟨encoded, (marked other encoded).mpr inside, there⟩
  · intro found
    obtain ⟨encoded, here, absent⟩ := found
    exact ⟨(place, encoded), (marked place encoded).mp here, by simp [absent]⟩

theorem without_place {members : List (String × Json)} (sorted : Sorted members) {name : String}
    {value : Json} (absent : SortedMap.lookup name members = none) :
    SortedMap.without name (SortedMap.place name value members) = members := by
  refine SortedMap.eq_of_lookup (SortedMap.without_sorted _ (SortedMap.place_sorted _ _ _ sorted))
    sorted fun asked => ?_
  rw [SortedMap.lookup_without, SortedMap.lookup_place _ _ _ _ sorted]
  by_cases same : asked = name
  · rw [if_pos same, same, absent]
  · rw [if_neg same, if_neg same]

/-- What was put in its place, where every disclosure was within reach: all of them. -/
theorem all_used {digests : List String} {before after : Unfolding}
    {placed : List (String × Disclosure)} (walked : Walked digests before after placed)
    (unused : before.used = [])
    (reached : ∀ entry ∈ before.byDigest.entries, entry.1 ∈ digests ++ within placed) :
    after.used.length = after.byDigest.entries.length := by
  have fresh : after.used.Nodup := walked.once (by rw [unused]; exact List.nodup_nil)
  have keys : (before.byDigest.entries.map Prod.fst).Nodup :=
    List.pairwise_map.mpr (before.byDigest.sorted.imp fun below => ne_of_lt below)
  have same : after.used.Perm (before.byDigest.entries.map Prod.fst) := by
    apply (List.perm_ext_iff_of_nodup fresh keys).mpr
    intro digest
    rw [walked.used, unused]
    simp only [List.not_mem_nil, or_false]
    constructor
    · intro inside
      obtain ⟨one, among, rfl⟩ := List.mem_map.mp inside
      exact List.mem_map.mpr ⟨one, (SortedMap.mem_entries_iff _ _ _).mpr (walked.opened one among),
        rfl⟩
    · intro inside
      obtain ⟨entry, among, rfl⟩ := List.mem_map.mp inside
      have opens := (SortedMap.mem_entries_iff _ _ _).mp among
      exact walked.all.mem_iff.mp (List.mem_filter.mpr ⟨reached entry among, by rw [opens]; rfl⟩)
  rw [same.length_eq, List.length_map, walked.known]

/-- A part of the disclosures of an issued payload, its table, and what the
unfolding of the payload does under it. -/
structure Unfolds (serde : SerdeJson) (provider : CryptoProvider) (claims : List (String × Json))
    (concealed : List Concealed) (concealment : Concealment) (presented : List String)
    (shown : List (String × Json)) (unfolding : Unfolding) : Prop where
  known : Presented serde provider .sha256 unfolding.byDigest presented
  unused : unfolding.used = []
  held : (Json.object shown).Held serde.Steady
  starts : ∀ fuel, unfoldClaims serde provider fuel concealment.payload presented =
    (unfoldObject (unfoldValue fuel) shown unfolding >>= fun ended =>
      if ended.2.used.length ≠ ended.2.byDigest.entries.length then
        settled (.error .unreferencedDisclosure)
      else pure ended.1)
  lands : ∀ fuel, Lands (unfoldObject (unfoldValue fuel) shown unfolding) unfolding
    (fun _ => True) fun revealed => Json.object revealed.entries =
      withhold (withheldPlaces concealed concealment.disclosures presented) (.object claims)

/-- Under any part of its disclosures, an issued payload unfolds to the claims
without those withheld, as far as it does. -/
theorem unfolds_of_concealClaims (ideal : Ideal provider) {claims : List (String × Json)}
    (reads : serde.Reads 125 (.object claims)) {concealed : List Concealed} {decoys : Nat}
    {concealment : Concealment}
    (ran : concealClaims serde provider claims concealed decoys = .ok concealment)
    (named : ∀ place ∈ concealed, place.Named) {presented : List String}
    (once : presented.Nodup) (part : presented ⊆ concealment.disclosures) :
    ∃ marks region shown unfolding,
      Unfolds serde provider claims concealed concealment presented shown unfolding ∧
      Veiled serde provider marks (.object claims) (.object shown) region ∧
      (∀ place encoded, marks place = some encoded ↔
        (place, encoded) ∈ (deepestFirst concealed).zip concealment.disclosures) ∧
      (deepestFirst concealed).length = concealment.disclosures.length ∧
      ∀ place ∈ concealed, place.stands (.object claims) := by
  have issued := issued_of_concealClaims ideal reads ran
  obtain ⟨marks, region, shown, payload, veiled, marked, lengths, stands⟩ :=
    veiled_of_concealClaims ideal reads ran named
  have veiled_whole := veiled
  cases veiled with | object each laid => ?_
  next own shown_part inner =>
  have payload_held := issued.reads.held
  rw [payload] at payload_held
  have no_algorithm : SortedMap.lookup "_sd_alg" shown = none :=
    laid.absent "_sd_alg" (by decide) fun member inside same =>
      laid.names member inside (by rw [same]; decide)
  have kept := @without_place _ laid.sorted _ (.string "sha-256") no_algorithm
  have shown_held := held_without "_sd_alg" payload_held
  rw [kept] at shown_held
  cases reads.held with | object sorted claims_each => ?_
  obtain ⟨unfolding, made⟩ := of_presented ideal (fun encoded inside =>
    issued.each encoded (part inside)) once
  obtain ⟨known, unused, unseen⟩ := of_eq_ok made
  have withheld := @withheld_withheldPlaces _ _ _ presented marked
  have decoys_closed : ∀ digest, Decoy provider digest → unfolding.byDigest.get? digest = none :=
    fun digest decoy => decoy_opens_nothing ideal issued known part decoy
  have algorithm : SortedMap.lookup "_sd_alg" concealment.payload = some (.string "sha-256") := by
    rw [payload, SortedMap.lookup_place _ _ _ _ laid.sorted, if_pos rfl]
  have hashed : hashNamed serde (some (.string "sha-256")) = .ok .sha256 := rfl
  refine ⟨marks, region, shown, unfolding, ?_, veiled_whole, marked, lengths, stands⟩
  refine { known, unused, held := shown_held, starts := fun fuel => ?_, lands := fun fuel => ?_ }
  · rw [unfoldClaims, algorithm, hashed, settled_ok, pure_bind, made, settled_ok, pure_bind, payload,
      kept]
  · refine (unfoldObject_lands ideal known laid decoys_closed withheld sorted
      (fun member among => unveils ideal known (each member among)
        (serde.held_of_steady (claims_each member among))
        decoys_closed (withheld.under member.1) fuel) rfl (by rw [unseen]; simp)).mono
        (fun _ _ => trivial) fun revealed entries => ?_
    rw [entries, withhold]

/-- Whatever part of the disclosures is accepted gives the claims without those
whose disclosure was withheld. -/
theorem unfoldClaims_reveals (ideal : Ideal provider) {claims : List (String × Json)}
    (reads : serde.Reads 125 (.object claims)) {concealed : List Concealed} {decoys : Nat}
    {concealment : Concealment}
    (ran : concealClaims serde provider claims concealed decoys = .ok concealment)
    (named : ∀ place ∈ concealed, place.Named) {presented : List String}
    (once : presented.Nodup) (part : presented ⊆ concealment.disclosures) {fuel : Nat}
    {revealed : SortedMap String Json}
    (accepted : unfoldClaims serde provider fuel concealment.payload presented = pure revealed) :
    Json.object revealed.entries =
      withhold (withheldPlaces concealed concealment.disclosures presented) (.object claims) := by
  obtain ⟨-, -, shown, unfolding, unfolds, -⟩ :=
    unfolds_of_concealClaims ideal reads ran named once part
  rw [unfolds.starts] at accepted
  obtain ⟨⟨unfolded, after⟩, landed, ended⟩ := bind_eq_pure.mp accepted
  dsimp only at ended
  split at ended
  · cases ended
  cases ended
  rcases unfolds.lands fuel with out | ⟨result, last, ran, holds, -⟩
  · rw [landed] at out
    cases out
  · rw [landed] at ran
    obtain ⟨same, -⟩ := Prod.mk.inj (pure_inj.mp ran)
    rw [same]
    exact holds

/-- Every part of the disclosures that holds the parents of each is accepted,
and gives the claims without those whose disclosure was withheld. -/
theorem unfoldClaims_accepts (ideal : Ideal provider) {claims : List (String × Json)}
    (reads : serde.Reads 125 (.object claims)) {concealed : List Concealed} {decoys : Nat}
    {concealment : Concealment}
    (ran : concealClaims serde provider claims concealed decoys = .ok concealment)
    (named : ∀ place ∈ concealed, place.Named) {presented : List String}
    (once : presented.Nodup) (part : presented ⊆ concealment.disclosures)
    (closed : ParentClosed serde provider concealment.disclosures presented) :
    ∃ bound, ∀ fuel, bound ≤ fuel → ∃ revealed : SortedMap String Json,
      unfoldClaims serde provider fuel concealment.payload presented = pure revealed ∧
      Json.object revealed.entries =
        withhold (withheldPlaces concealed concealment.disclosures presented) (.object claims) := by
  obtain ⟨marks, region, shown, unfolding, unfolds, veiled, marked, lengths, stands⟩ :=
    unfolds_of_concealClaims ideal reads ran named once part
  have known := unfolds.known
  have shown_held := unfolds.held
  cases shown_held with | object shown_sorted shown_each => ?_
  have lands : ∀ fuel, unfoldClaims serde provider fuel concealment.payload presented = panics ∨
      ∃ revealed, unfoldClaims serde provider fuel concealment.payload presented = pure revealed := by
    intro fuel
    rw [unfolds.starts]
    rcases unfolds.lands fuel with out | ⟨revealed, after, landed, -⟩
    · exact Or.inl (by rw [out]; rfl)
    obtain ⟨⟨placed, walked⟩, -, -⟩ := unfoldObject_sound unfoldValue_further
      (unfoldValue_sound fuel) landed shown_sorted
      (fun member among => serde.held_of_steady (shown_each member among)) known.holds
    have all := all_used walked unfolds.unused (by
      intro entry among
      have opens := (SortedMap.mem_entries_iff _ _ _).mp among
      obtain ⟨read, digested⟩ := known.each _ _ opens
      have there : entry.2.encoded ∈ presented :=
        known.all.mem_iff.mp (List.mem_map.mpr ⟨entry, among, rfl⟩)
      have paired := List.map_snd_zip (by rw [lengths] :
        concealment.disclosures.length ≤ (deepestFirst concealed).length)
      have inside := part there
      rw [← paired] at inside
      obtain ⟨⟨place, text⟩, zipped, rfl⟩ := List.mem_map.mp inside
      have standing := stands place
        ((deepestFirst_perm concealed).mem_iff.mp (List.of_mem_zip zipped).1)
      have text_digest : entry.1 = digestText provider entry.2.encoded := by
        rw [digestText, digested]
      rw [text_digest]
      refine veiled.all_reached closed (fun place text found =>
        (List.of_mem_zip ((marked place text).mp found)).2)
        (fun digest inside => List.mem_append_left _ inside) ?_ ((marked _ _).mpr zipped) standing
        there
      intro encoded presents name value discloses reached digest inside
      obtain ⟨salt, opens⟩ := get?_presented known discloses presents
      have placed_here := walked.all.mem_iff.mp
        (List.mem_filter.mpr ⟨reached, by rw [opens]; rfl⟩)
      obtain ⟨one, one_placed, same⟩ := List.mem_map.mp placed_here
      have opened := walked.opened one one_placed
      rw [same, opens] at opened
      refine List.mem_append_right _ (List.mem_flatMap.mpr ⟨one, one_placed, ?_⟩)
      rw [← Option.some.inj opened]
      exact inside)
    rw [landed, pure_bind]
    dsimp only
    rw [if_neg (by simpa using all)]
    exact Or.inr ⟨revealed, rfl⟩
  obtain ⟨bound, returns, same⟩ := @unfoldClaims_ends serde provider concealment.payload presented
  refine ⟨bound, fun fuel least => ?_⟩
  rw [same fuel least]
  rcases lands bound with out | ⟨revealed, accepted⟩
  · obtain ⟨outcome, ended⟩ := returns
    rw [out] at ended
    cases ended
  · exact ⟨revealed, accepted,
      unfoldClaims_reveals ideal reads ran named once part accepted⟩

/-- Selective disclosure undoes itself: every part of the disclosures with the
parents of each is accepted, and whatever part is accepted gives the claims
without those withheld. -/
theorem concealed_round_trip (ideal : Ideal provider) {claims : List (String × Json)}
    (reads : serde.Reads 125 (.object claims)) {concealed : List Concealed} {decoys : Nat}
    {concealment : Concealment}
    (ran : concealClaims serde provider claims concealed decoys = .ok concealment)
    (named : ∀ place ∈ concealed, place.Named) {presented : List String}
    (once : presented.Nodup) (part : presented ⊆ concealment.disclosures) :
    (ParentClosed serde provider concealment.disclosures presented →
      ∃ bound, ∀ fuel, bound ≤ fuel → ∃ revealed,
        unfoldClaims serde provider fuel concealment.payload presented = pure revealed) ∧
    ∀ fuel revealed,
      unfoldClaims serde provider fuel concealment.payload presented = pure revealed →
        Json.object revealed.entries = withhold
          (withheldPlaces concealed concealment.disclosures presented) (.object claims) := by
  refine ⟨fun closed => ?_, fun _ _ => unfoldClaims_reveals ideal reads ran named once part⟩
  obtain ⟨bound, accepts⟩ := unfoldClaims_accepts ideal reads ran named once part closed
  refine ⟨bound, fun fuel least => ?_⟩
  obtain ⟨revealed, accepted, -⟩ := accepts fuel least
  exact ⟨revealed, accepted⟩

/-- An address whose city can be withheld from it, or the whole of it. -/
def addressClaims : List (String × Json) :=
  [("address", .object [("city", .string "Oslo"), ("street", .string "Torggata")]),
    ("exp", .number (.posInt 9))]

def addressPlaces : List Concealed := [.property ["address"], .property ["address", "city"]]

theorem addressClaims_reads : integers.Reads 125 (.object addressClaims) :=
  ⟨integers_steady ((Json.isHeld_iff _).mp rfl), by decide⟩

theorem addressPlaces_named : ∀ place ∈ addressPlaces, place.Named := by
  simp [addressPlaces, Concealed.Named]

theorem address_concealed : ∃ concealment,
    concealClaims integers counted addressClaims addressPlaces 1 = .ok concealment := by
  have done : (concealClaims integers counted addressClaims addressPlaces 1).toOption.isSome := by
    decide
  cases ran : concealClaims integers counted addressClaims addressPlaces 1 with
  | error refused =>
    rw [ran] at done
    cases done
  | ok concealment => exact ⟨concealment, rfl⟩

/-- The city of the address is presented with the address that it lies in. -/
theorem concealed_round_trip_address : ∃ concealment,
    concealClaims integers counted addressClaims addressPlaces 1 = .ok concealment ∧
    (∃ bound, ∀ fuel, bound ≤ fuel → ∃ revealed,
      unfoldClaims integers counted fuel concealment.payload concealment.disclosures =
        pure revealed) ∧
    ∀ fuel revealed,
      unfoldClaims integers counted fuel concealment.payload concealment.disclosures =
        pure revealed →
      Json.object revealed.entries = withhold
        (withheldPlaces addressPlaces concealment.disclosures concealment.disclosures)
        (.object addressClaims) := by
  obtain ⟨concealment, ran⟩ := address_concealed
  have issued := issued_of_concealClaims counted_ideal addressClaims_reads ran
  obtain ⟨accepted, reveals⟩ := concealed_round_trip counted_ideal addressClaims_reads ran
    addressPlaces_named issued.once (List.Subset.refl _)
  exact ⟨concealment, ran, accepted fun _ _ other inside _ _ _ _ _ => inside, reveals⟩

theorem withheldPlaces_all (concealed : List Concealed) (disclosures : List String) :
    withheldPlaces concealed disclosures disclosures = [] := by
  rw [withheldPlaces, List.filterMap_eq_nil_iff]
  intro entry inside
  rw [if_pos (List.of_mem_zip inside).2]

/-- A payload with all of its disclosures is accepted exactly where no path
ends in the name of the digests, and what is accepted are the claims. -/
theorem concealed_agrees (ideal : Ideal provider) {claims : List (String × Json)}
    (reads : serde.Reads 125 (.object claims)) {concealed : List Concealed} {decoys : Nat}
    {concealment : Concealment}
    (ran : concealClaims serde provider claims concealed decoys = .ok concealment) :
    ((∃ bound, ∀ fuel, bound ≤ fuel → ∃ revealed, unfoldClaims serde provider fuel
      concealment.payload concealment.disclosures = pure revealed) ↔
        ∀ place ∈ concealed, place.Named) ∧
    ∀ fuel revealed, unfoldClaims serde provider fuel concealment.payload
      concealment.disclosures = pure revealed → revealed.entries = claims := by
  have issued := issued_of_concealClaims ideal reads ran
  have accepted_named : ∀ fuel revealed, unfoldClaims serde provider fuel concealment.payload
      concealment.disclosures = pure revealed → ∀ place ∈ concealed, place.Named := by
    intro fuel revealed accepted place inside
    obtain ⟨hash, placed, -, came⟩ :=
      unfoldClaims_sound (serde.held_of_steady issued.reads.held) accepted
    cases place with
    | element path index => trivial
    | property path =>
      intro own_name
      obtain ⟨encoded, listed, value, discloses⟩ := issued.names path inside
      obtain ⟨one, among, same⟩ := List.mem_map.mp (came.all.mem_iff.mpr listed)
      obtain ⟨read, -⟩ := came.each one among
      obtain ⟨salt, reads⟩ := discloses.read
      rw [same, reads, own_name] at read
      refine came.named one among "_sd" ?_ (by decide)
      rw [← Except.ok.inj read]
  refine ⟨⟨fun accepts => ?_, fun named => ?_⟩, fun fuel revealed accepted => ?_⟩
  · obtain ⟨bound, accepts⟩ := accepts
    obtain ⟨revealed, accepted⟩ := accepts bound le_rfl
    exact accepted_named bound revealed accepted
  · obtain ⟨bound, accepts⟩ := unfoldClaims_accepts ideal reads ran named issued.once
      (List.Subset.refl _) fun _ _ other inside _ _ _ _ _ => inside
    refine ⟨bound, fun fuel least => ?_⟩
    obtain ⟨revealed, accepted, -⟩ := accepts fuel least
    exact ⟨revealed, accepted⟩
  · have same := unfoldClaims_reveals ideal reads ran (accepted_named fuel revealed accepted)
      issued.once (List.Subset.refl _) accepted
    rw [withheldPlaces_all, withhold_nil] at same
    exact Json.object.inj same

theorem concealed_agrees_address : ∃ concealment,
    concealClaims integers counted addressClaims addressPlaces 1 = .ok concealment ∧
    ((∃ bound, ∀ fuel, bound ≤ fuel → ∃ revealed, unfoldClaims integers counted fuel
      concealment.payload concealment.disclosures = pure revealed) ↔
        ∀ place ∈ addressPlaces, place.Named) ∧
    ∀ fuel revealed, unfoldClaims integers counted fuel concealment.payload
      concealment.disclosures = pure revealed → revealed.entries = addressClaims := by
  obtain ⟨concealment, ran⟩ := address_concealed
  exact ⟨concealment, ran, concealed_agrees counted_ideal addressClaims_reads ran⟩

/-- The top-level claim that a place is or lies in. -/
def Concealed.top : Concealed → Option String
  | .property path => path.head?
  | .element path _ => path.head?

theorem withholdItems_length_le (gone : List Concealed) (index : Nat) (items : List Json) :
    (withholdItems gone index items).length ≤ items.length := by
  induction items generalizing index with
  | nil => simp [withholdItems]
  | cons item rest ih =>
    rw [withholdItems]
    have later := ih (index + 1)
    split
    · simp only [List.length_cons]
      omega
    · simp only [List.length_cons]
      omega

theorem withholdItems_length_lt {gone : List Concealed} {index offset : Nat} {items : List Json}
    (bound : offset < items.length) (withheld : .element [] (index + offset) ∈ gone) :
    (withholdItems gone index items).length < items.length := by
  induction items generalizing index offset with
  | nil => simp at bound
  | cons item rest ih =>
    rw [withholdItems]
    have least := withholdItems_length_le gone (index + 1) rest
    cases offset with
    | zero =>
      rw [Nat.add_zero] at withheld
      rw [if_pos withheld, List.length_cons]
      omega
    | succ offset =>
      have later := ih (by simpa using bound)
        (by rwa [show index + 1 + offset = index + (offset + 1) by omega])
      split
      · rw [List.length_cons]
        omega
      · rw [List.length_cons, List.length_cons]
        omega

/-- Withholding what stands somewhere changes the value. -/
theorem withhold_ne {finite : Rat → Prop} {gone : List Concealed} {value : Json}
    (held : value.Held finite) {place : Concealed} (withheld : place ∈ gone)
    (stands : place.stands value) : withhold gone value ≠ value := by
  induction value using Json.inductionOn generalizing gone place with
  | array items =>
    obtain ⟨index, rfl, bound⟩ := Concealed.stands_array stands
    intro same
    rw [withhold] at same
    have shorter := @withholdItems_length_lt gone 0 index items bound (by rwa [Nat.zero_add])
    rw [Json.array.inj same] at shorter
    exact lt_irrefl _ shorter
  | object members ih =>
    cases held with | object sorted each => ?_
    intro same
    rw [withhold] at same
    obtain ⟨name, value, among, rfl | ⟨deeper, some_place, rfl, stands_in⟩⟩ :=
      Concealed.stands_object stands
    · have found := lookup_withholdMembers gone members name
      rw [if_pos withheld, Json.object.inj same, SortedMap.lookup_of_mem sorted among] at found
      cases found
    · have found := lookup_withholdMembers gone members name
      rw [Json.object.inj same, SortedMap.lookup_of_mem sorted among] at found
      split at found
      · cases found
      · have within : deeper ∈ gone.filterMap (Concealed.within name) := by
          refine List.mem_filterMap.mpr ⟨_, withheld, ?_⟩
          rcases deeper with (_ | ⟨first, rest⟩) | ⟨path, index⟩
          · exact absurd rfl some_place
          · simp [Concealed.under, Concealed.within]
          · simp [Concealed.under, Concealed.within]
        exact ih _ among (each _ among) within stands_in (Option.some.inj found).symm
  | _ => exact absurd stands (Concealed.not_stands (by simp) (by simp) _)

/-- No place was named in a validity claim, exactly where no part of the
disclosures changes one. -/
theorem validity_claims_stay (ideal : Ideal provider) {claims : List (String × Json)}
    (reads : serde.Reads 125 (.object claims)) {concealed : List Concealed} {decoys : Nat}
    {concealment : Concealment}
    (ran : concealClaims serde provider claims concealed decoys = .ok concealment)
    (named : ∀ place ∈ concealed, place.Named) :
    (∀ presented : List String, presented.Nodup → presented ⊆ concealment.disclosures →
      ∀ fuel revealed, unfoldClaims serde provider fuel concealment.payload presented =
        pure revealed → ∀ name ∈ VALIDITY_CLAIMS, revealed.get? name = SortedMap.lookup name claims) ↔
      ∀ place ∈ concealed, ∀ name ∈ VALIDITY_CLAIMS, place.top ≠ some name := by
  obtain ⟨marks, region, shown, payload, veiled, marked, lengths, stands⟩ :=
    veiled_of_concealClaims ideal reads ran named
  have sorted : Sorted claims := by cases reads.held with | object sorted each => exact sorted
  constructor
  · intro stay place inside name validity top
    obtain ⟨bound, accepts⟩ := unfoldClaims_accepts ideal reads ran named .nil
      (List.nil_subset _) (fun _ none_there => by cases none_there)
    obtain ⟨revealed, accepted, same⟩ := accepts bound le_rfl
    have kept := stay [] .nil (List.nil_subset _) bound revealed accepted name validity
    rw [withhold] at same
    have withheld : place ∈ withheldPlaces concealed concealment.disclosures [] := by
      have first := (deepestFirst_perm concealed).mem_iff.mpr inside
      have paired := List.map_fst_zip (by rw [lengths] :
        (deepestFirst concealed).length ≤ concealment.disclosures.length)
      rw [← paired] at first
      obtain ⟨entry, zipped, rfl⟩ := List.mem_map.mp first
      exact List.mem_filterMap.mpr ⟨entry, zipped, by simp⟩
    obtain ⟨called, value, among, place_is⟩ := Concealed.stands_object (stands place inside)
    have called_so : called = name := by
      rcases place_is with rfl | ⟨deeper, -, rfl, -⟩
      · simpa [Concealed.top] using top
      · cases deeper <;> simpa [Concealed.top, Concealed.under] using top
    subst called_so
    have found : revealed.get? called =
        SortedMap.lookup called (withholdMembers (withheldPlaces concealed concealment.disclosures [])
          claims) := by
      rw [← Json.object.inj same]
      rfl
    rw [kept, lookup_withholdMembers, SortedMap.lookup_of_mem sorted among] at found
    rcases place_is with rfl | ⟨deeper, some_place, rfl, stands_in⟩
    · rw [if_pos withheld] at found
      cases found
    · split at found
      · cases found
      · have value_held : value.Held serde.Steady := by
          cases reads.held with | object _ each => exact each _ among
        refine withhold_ne value_held ?_ stands_in (Option.some.inj found).symm
        refine List.mem_filterMap.mpr ⟨_, withheld, ?_⟩
        rcases deeper with (_ | ⟨first, rest⟩) | ⟨path, index⟩
        · exact absurd rfl some_place
        · simp [Concealed.under, Concealed.within]
        · simp [Concealed.under, Concealed.within]
  · intro plain presented once part fuel revealed accepted name validity
    have same := unfoldClaims_reveals ideal reads ran named once part accepted
    rw [withhold] at same
    have found : revealed.get? name = SortedMap.lookup name (withholdMembers
        (withheldPlaces concealed concealment.disclosures presented) claims) := by
      rw [← Json.object.inj same]
      rfl
    have places : ∀ place ∈ withheldPlaces concealed concealment.disclosures presented,
        place ∈ concealed := by
      intro place inside
      obtain ⟨entry, zipped, made⟩ := List.mem_filterMap.mp inside
      split at made
      · cases made
      · cases made
        exact (deepestFirst_perm concealed).mem_iff.mp (List.of_mem_zip zipped).1
    have none_within : (withheldPlaces concealed concealment.disclosures presented).filterMap
        (Concealed.within name) = [] := by
      rw [List.filterMap_eq_nil_iff]
      intro place inside
      have apart := plain place (places place inside) name validity
      rcases place with (_ | ⟨first, _ | ⟨second, rest⟩⟩) | ⟨_ | ⟨first, rest⟩, index⟩
      all_goals simp_all [Concealed.within, Concealed.top]
    rw [found, lookup_withholdMembers, none_within, if_neg fun inside =>
      plain _ (places _ inside) name validity rfl]
    cases SortedMap.lookup name claims with
    | none => rfl
    | some value => rw [Option.map_some, withhold_nil]

theorem validity_claims_stay_address : ∃ concealment,
    concealClaims integers counted addressClaims addressPlaces 1 = .ok concealment ∧
    ((∀ presented : List String, presented.Nodup → presented ⊆ concealment.disclosures →
      ∀ fuel revealed, unfoldClaims integers counted fuel concealment.payload presented =
        pure revealed → ∀ name ∈ VALIDITY_CLAIMS,
          revealed.get? name = SortedMap.lookup name addressClaims) ↔
      ∀ place ∈ addressPlaces, ∀ name ∈ VALIDITY_CLAIMS, place.top ≠ some name) := by
  obtain ⟨concealment, ran⟩ := address_concealed
  exact ⟨concealment, ran,
    validity_claims_stay counted_ideal addressClaims_reads ran addressPlaces_named⟩

/-- The address and the city that lies in it, both presented. -/
theorem presentation_sound_address : ∃ concealment,
    concealClaims integers counted addressClaims addressPlaces 1 = .ok concealment ∧
    (∃ bound, Returns (unfoldClaims integers counted bound concealment.payload
        concealment.disclosures) ∧
      ∀ fuel, bound ≤ fuel →
        unfoldClaims integers counted fuel concealment.payload concealment.disclosures =
          unfoldClaims integers counted bound concealment.payload concealment.disclosures) ∧
    ∀ fuel claims, unfoldClaims integers counted fuel concealment.payload
      concealment.disclosures = pure claims →
      ∃ hash placed,
        hashNamed integers (SortedMap.lookup "_sd_alg" concealment.payload) = .ok hash ∧
        Accepted integers counted hash (SortedMap.without "_sd_alg" concealment.payload)
          concealment.disclosures claims placed := by
  obtain ⟨concealment, ran⟩ := address_concealed
  have issued := issued_of_concealClaims counted_ideal addressClaims_reads ran
  exact ⟨concealment, ran, presentation_sound (integers.held_of_steady issued.reads.held) _⟩

end Saffui.SdJwt
