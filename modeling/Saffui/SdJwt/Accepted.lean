import Saffui.SdJwt.StandsFor

/-!
# What a presentation is accepted for

The disclosures of an accepted presentation are put in their places, all of
them and each once, and the claims are what the payload stands for with them.
-/

namespace Saffui.SdJwt
open Foundation Foundation.Outcome Crypto

variable {serde : SerdeJson} {provider : CryptoProvider} {hash : HashAlg}

/-- What is known of the disclosures of a presentation. -/
structure Presented (serde : SerdeJson) (provider : CryptoProvider) (hash : HashAlg)
    (byDigest : SortedMap String Disclosure) (disclosures : List String) : Prop where
  each : ∀ digest disclosure, byDigest.get? digest = some disclosure →
    Disclosure.read serde disclosure.encoded = .ok disclosure ∧
      digestOf provider hash disclosure.encoded = .ok digest
  all : (byDigest.entries.map fun entry => entry.2.encoded).Perm disclosures

theorem Presented.add {byDigest after : SortedMap String Disclosure} {disclosures : List String}
    {encoded : String} (presented : Presented serde provider hash byDigest disclosures)
    (added : addDisclosure serde provider hash byDigest encoded = .ok after) :
    Presented serde provider hash after (encoded :: disclosures) := by
  unfold addDisclosure at added
  cases read : Disclosure.read serde encoded with
  | error refused =>
    rw [read] at added
    cases added
  | ok disclosure =>
    cases digested : digestOf provider hash encoded with
    | error refused =>
      rw [read, digested] at added
      cases added
    | ok digest =>
      rw [read, digested] at added
      by_cases there : (byDigest.get? digest).isSome
      · simp [there, bind, Except.bind] at added
      · have same := Disclosure.read_encoded serde read
        have inserted : byDigest.insert digest disclosure = after := by
          simpa [there, bind, Except.bind, pure, Except.pure] using added
        subst inserted
        constructor
        · intro asked found at_asked
          rw [SortedMap.get?_insert] at at_asked
          split at at_asked
          · next here =>
            cases at_asked
            rw [here, same]
            exact ⟨read, digested⟩
          · exact presented.each asked found at_asked
        · have absent : SortedMap.lookup digest byDigest.entries = none := by
            simpa [SortedMap.get?] using there
          have placed := (@SortedMap.place_perm _ _ _ digest disclosure _ absent).map
            fun entry => entry.2.encoded
          rw [List.map_cons, same] at placed
          exact placed.trans (presented.all.cons encoded)

theorem presented_of_foldlM {byDigest after : SortedMap String Disclosure}
    {before disclosures : List String} (presented : Presented serde provider hash byDigest before)
    (folded : disclosures.foldlM (addDisclosure serde provider hash) byDigest = .ok after) :
    Presented serde provider hash after (disclosures ++ before) := by
  induction disclosures generalizing byDigest before with
  | nil =>
    cases folded
    exact presented
  | cons encoded rest ih =>
    rw [List.foldlM_cons] at folded
    cases added : addDisclosure serde provider hash byDigest encoded with
    | error refused =>
      rw [added] at folded
      cases folded
    | ok more =>
      rw [added] at folded
      have later := ih (presented.add added) folded
      exact ⟨later.each, later.all.trans List.perm_middle⟩

theorem of_eq_ok {disclosures : List String} {unfolding : Unfolding}
    (made : Unfolding.of serde provider hash disclosures = .ok unfolding) :
    Presented serde provider hash unfolding.byDigest disclosures ∧
      unfolding.used = [] ∧ unfolding.seen = [] := by
  unfold Unfolding.of at made
  cases folded : disclosures.foldlM (addDisclosure serde provider hash) .empty with
  | error refused =>
    rw [folded] at made
    cases made
  | ok byDigest =>
    rw [folded] at made
    cases made
    have none_yet : Presented serde provider hash .empty [] := ⟨by simp, .refl _⟩
    have presented := presented_of_foldlM none_yet folded
    rw [List.append_nil] at presented
    exact ⟨presented, rfl, rfl⟩

theorem Presented.holds {unfolding : Unfolding} {disclosures : List String}
    (presented : Presented serde provider hash unfolding.byDigest disclosures) :
    unfolding.Holds serde.finite := fun digest disclosure found =>
  Disclosure.read_held serde (presented.each digest disclosure found).1

/-- What an accepted presentation came from: each disclosure in its place once,
at a digest that stood before, no digest twice, and a clean payload that keeps
what stood in plain sight and is what the payload stands for. -/
structure Accepted (serde : SerdeJson) (provider : CryptoProvider) (hash : HashAlg)
    (payload : List (String × Json)) (disclosures : List String) (claims : SortedMap String Json)
    (placed : List (String × Disclosure)) : Prop where
  all : (placed.map fun one => one.2.encoded).Perm disclosures
  each : ∀ one ∈ placed, Disclosure.read serde one.2.encoded = .ok one.2 ∧
    digestOf provider hash one.2.encoded = .ok one.1
  grounded : Grounded (digestsInMembers payload) placed
  once : (digestsInMembers payload ++ within placed).Nodup
  named : ∀ one ∈ placed, ∀ name, one.2.name = some name → name ∉ RESERVED_NAMES
  clean : Clean (.object claims.entries)
  keeps : Keeps (.object payload) (.object claims.entries)
  standsFor : StandsFor (fun digest => SortedMap.lookup digest placed) (.object payload)
    (.object claims.entries)

/-- All that was known was used: what was put in its place is all of it. -/
theorem placed_perm {digests : List String} {before after : Unfolding}
    {placed : List (String × Disclosure)} (walked : Walked digests before after placed)
    (unused : before.used = []) (unseen : before.seen = [])
    (whole : after.used.length = after.byDigest.entries.length) :
    placed.Perm before.byDigest.entries := by
  have met : (digests ++ within placed).Nodup := by
    have seen := walked.met
    rw [unseen, List.append_nil] at seen
    exact seen.nodup_iff.mp (walked.nodup (by rw [unseen]; exact List.nodup_nil))
  have apart : (placed.map Prod.fst).Nodup := walked.all.nodup_iff.mp (met.filter _)
  have counted : after.used.Perm (placed.map Prod.fst) := by
    apply (List.perm_ext_iff_of_nodup (walked.once (by rw [unused]; exact List.nodup_nil)) apart).mpr
    intro digest
    simp [walked.used, unused]
  have inside : placed ⊆ before.byDigest.entries := fun one among =>
    (SortedMap.mem_entries_iff _ _ _).mpr (walked.opened one among)
  have lengths : before.byDigest.entries.length ≤ placed.length := by
    rw [← walked.known, ← whole, counted.length_eq, List.length_map]
  exact (List.subperm_of_subset (List.Nodup.of_map _ apart) inside).perm_of_length_le lengths

/-- What `unfoldClaims` accepts. -/
theorem unfoldClaims_sound {fuel : Nat} {payload : List (String × Json)}
    {claims : SortedMap String Json} {disclosures : List String}
    (held : (Json.object payload).Held serde.finite)
    (accepted : unfoldClaims serde provider fuel payload disclosures = pure claims) :
    ∃ hash placed, hashNamed serde (SortedMap.lookup "_sd_alg" payload) = .ok hash ∧
      Accepted serde provider hash (SortedMap.without "_sd_alg" payload) disclosures claims
        placed := by
  obtain ⟨hash, hashed, accepted⟩ := bind_eq_pure.mp accepted
  obtain ⟨unfolding, made, accepted⟩ := bind_eq_pure.mp accepted
  obtain ⟨⟨unfolded, after⟩, ran, accepted⟩ := bind_eq_pure.mp accepted
  obtain ⟨presented, unused, unseen⟩ := of_eq_ok (settled_eq_pure.mp made)
  dsimp only at accepted
  split at accepted
  · cases accepted
  next whole =>
  cases accepted
  cases held with | object sorted each => ?_
  have sorted := SortedMap.without_sorted "_sd_alg" sorted
  have each : ∀ member ∈ SortedMap.without "_sd_alg" payload, member.2.Held serde.finite :=
    fun member inside => each member (List.mem_filter.mp inside).1
  obtain ⟨⟨placed, walked⟩, clean, keeps⟩ :=
    unfoldObject_sound unfoldValue_further (unfoldValue_sound fuel) ran sorted each presented.holds
  have all := placed_perm walked unused unseen (by simpa using whole)
  have in_place := SortedMap.lookup_of_perm all
  have in_place_held : ∀ digest disclosure, SortedMap.lookup digest placed = some disclosure →
      disclosure.value.Held serde.finite := fun digest disclosure found =>
    presented.holds digest disclosure ((in_place digest).symm.trans found)
  refine ⟨hash, placed, settled_eq_pure.mp hashed, ?_⟩
  exact
    { all := (all.map _).trans presented.all
      each := fun one inside => presented.each _ _ (walked.opened one inside)
      grounded := walked.grounded
      once := by
        have seen := walked.met
        rw [unseen, List.append_nil] at seen
        exact seen.nodup_iff.mp (walked.nodup (by rw [unseen]; exact List.nodup_nil))
      named := walked.named
      clean, keeps
      standsFor := unfoldObject_standsFor unfoldValue_further (unfoldValue_standsFor in_place_held fuel)
        in_place_held ran sorted each (funext fun digest => (in_place digest).symm) }

section
variable {unfold more : Json → Unfolding → Outcome Refused (Json × Unfolding)}
  (ends : ∀ value unfolding, EndsAs (unfold value unfolding) (more value unfolding))
include ends

theorem unfoldMembers_endsAs (members : List (String × Json)) (unfolded : SortedMap String Json)
    (digests : Option Json) (unfolding : Unfolding) :
    EndsAs (unfoldMembers unfold members unfolded digests unfolding)
      (unfoldMembers more members unfolded digests unfolding) := by
  induction members generalizing unfolded digests unfolding with
  | nil => exact .refl _
  | cons member rest ih =>
    obtain ⟨name, value⟩ := member
    rw [unfoldMembers, unfoldMembers]
    split
    · exact ih _ _ _
    split
    · exact .refl _
    split
    · exact .refl _
    exact (ends value unfolding).bind fun _ => ih _ _ _

theorem unfoldDigests_endsAs (digests : List Json) (unfolded : SortedMap String Json)
    (unfolding : Unfolding) :
    EndsAs (unfoldDigests unfold digests unfolded unfolding)
      (unfoldDigests more digests unfolded unfolding) := by
  induction digests generalizing unfolded unfolding with
  | nil => exact .refl _
  | cons digest rest ih =>
    cases digest with
    | string digest =>
      refine EndsAs.bind (.refl _) fun found => ?_
      obtain ⟨found, after⟩ := found
      cases found with
      | none => exact ih _ _
      | some disclosure =>
        refine EndsAs.bind ?_ fun _ => ih _ _
        unfold placeProperty
        split
        · exact .refl _
        split
        · exact .refl _
        split
        · exact .refl _
        exact (ends _ _).bind fun _ => .refl _
    | _ => exact .refl _

theorem unfoldObject_endsAs (members : List (String × Json)) (unfolding : Unfolding) :
    EndsAs (unfoldObject unfold members unfolding) (unfoldObject more members unfolding) := by
  refine (unfoldMembers_endsAs ends members _ _ _).bind fun found => ?_
  obtain ⟨⟨unfolded, digests⟩, after⟩ := found
  dsimp only
  split
  · exact .refl _
  · exact unfoldDigests_endsAs ends _ _ _
  · exact .refl _

theorem unfoldArray_endsAs (items : List Json) (unfolding : Unfolding) :
    EndsAs (unfoldArray unfold items unfolding) (unfoldArray more items unfolding) := by
  induction items generalizing unfolding with
  | nil => exact .refl _
  | cons item rest ih =>
    refine EndsAs.bind (.refl _) fun found => ?_
    cases found with
    | none => exact (ends _ _).bind fun _ => (ih _).bind fun _ => .refl _
    | some digest =>
      refine EndsAs.bind (.refl _) fun found => ?_
      obtain ⟨found, after⟩ := found
      cases found with
      | none => exact ih _
      | some disclosure =>
        dsimp only
        split
        · exact .refl _
        exact (ends _ _).bind fun _ => (ih _).bind fun _ => .refl _

end

theorem unfoldValue_endsAs (fuel : Nat) (value : Json) (unfolding : Unfolding) :
    EndsAs (unfoldValue fuel value unfolding) (unfoldValue (fuel + 1) value unfolding) := by
  induction fuel generalizing value unfolding with
  | zero => exact Or.inl rfl
  | succ fuel ih =>
    cases value with
    | object members => exact (unfoldObject_endsAs ih members unfolding).bind fun _ => .refl _
    | array items => exact (unfoldArray_endsAs ih items unfolding).bind fun _ => .refl _
    | _ => exact .refl _

theorem unfoldClaims_endsAs (fuel : Nat) (payload : List (String × Json))
    (disclosures : List String) :
    EndsAs (unfoldClaims serde provider fuel payload disclosures)
      (unfoldClaims serde provider (fuel + 1) payload disclosures) := by
  refine EndsAs.bind (.refl _) fun hash => EndsAs.bind (.refl _) fun unfolding => ?_
  exact (unfoldObject_endsAs (unfoldValue_endsAs fuel) _ _).bind fun _ => .refl _

/-- There is fuel enough for every payload and all disclosures, and with more
of it nothing changes. -/
theorem unfoldClaims_ends (payload : List (String × Json)) (disclosures : List String) :
    ∃ bound, Returns (unfoldClaims serde provider bound payload disclosures) ∧
      ∀ fuel, bound ≤ fuel → unfoldClaims serde provider fuel payload disclosures =
        unfoldClaims serde provider bound payload disclosures := by
  have enough : ∃ bound, Returns (unfoldClaims serde provider bound payload disclosures) := by
    cases hashed : hashNamed serde (SortedMap.lookup "_sd_alg" payload) with
    | error refused => exact ⟨0, .error refused, by rw [unfoldClaims, hashed]; rfl⟩
    | ok hash =>
      cases made : Unfolding.of serde provider hash disclosures with
      | error refused =>
        refine ⟨0, .error refused, ?_⟩
        rw [unfoldClaims, hashed, settled_ok, pure_bind, made]
        rfl
      | ok unfolding =>
        refine ⟨sizeOf (Json.object (SortedMap.without "_sd_alg" payload)) +
          pending unfolding, ?_⟩
        rw [unfoldClaims, hashed, settled_ok, pure_bind, made, settled_ok, pure_bind]
        refine returns_bind (unfoldObject_returns unfoldValue_further unfoldValue_returns ?_ ?_) ?_
        · intro member inside
          have within := List.sizeOf_lt_of_mem inside
          have pair : sizeOf member = 1 + sizeOf member.1 + sizeOf member.2 := by
            cases member
            rfl
          rw [Json.object.sizeOf_spec]
          omega
        · omega
        · intro ended _
          obtain ⟨claims, after⟩ := ended
          dsimp only
          split
          · exact returns_settled _
          · exact returns_pure _
  obtain ⟨bound, returns⟩ := enough
  refine ⟨bound, returns, fun fuel least => ?_⟩
  induction fuel, least using Nat.le_induction with
  | base => rfl
  | succ fuel _ ih =>
    rw [← ih]
    exact ((unfoldClaims_endsAs fuel payload disclosures).eq (ih ▸ returns)).symm

/-- Unfolding ends whatever is presented, and what it accepts is sound. -/
theorem presentation_sound {payload : List (String × Json)}
    (held : (Json.object payload).Held serde.finite) (disclosures : List String) :
    (∃ bound, Returns (unfoldClaims serde provider bound payload disclosures) ∧
      ∀ fuel, bound ≤ fuel → unfoldClaims serde provider fuel payload disclosures =
        unfoldClaims serde provider bound payload disclosures) ∧
    ∀ fuel claims, unfoldClaims serde provider fuel payload disclosures = pure claims →
      ∃ hash placed, hashNamed serde (SortedMap.lookup "_sd_alg" payload) = .ok hash ∧
        Accepted serde provider hash (SortedMap.without "_sd_alg" payload) disclosures claims
          placed :=
  ⟨unfoldClaims_ends payload disclosures, fun _ _ accepted => unfoldClaims_sound held accepted⟩

end Saffui.SdJwt
