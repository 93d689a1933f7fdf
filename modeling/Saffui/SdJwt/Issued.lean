import Saffui.SdJwt.ConcealSound

/-!
# Claims concealed, one after the other

`conceal_claims` of `crypto/src/sd_jwt/conceal.rs` as a run: what holds of the
payload, of the disclosures and of the places they stand for after every step,
and of the payload that is sealed in the end.
-/

namespace Saffui.SdJwt
open Foundation Foundation.Outcome Crypto

variable {serde : SerdeJson} {provider : CryptoProvider}

theorem clean_of_refuse {value : Json} (passed : refuseReservedNames value = .ok ()) :
    Clean value := by
  induction value using Json.inductionOn with
  | null => exact .null
  | bool value => exact .bool value
  | number value => exact .number value
  | string text => exact .string text
  | array items ih =>
    refine .array ?_
    rw [refuseReservedNames] at passed
    induction items with
    | nil => simp
    | cons item rest again =>
      obtain ⟨here, later⟩ := List.forall_mem_cons.mp ih
      obtain ⟨first, item_passed, then_rest⟩ := bind_eq_ok.mp passed
      exact List.forall_mem_cons.mpr ⟨here item_passed, again later then_rest⟩
  | object members ih =>
    rw [refuseReservedNames] at passed
    split at passed
    · cases passed
    next free =>
    refine .object (fun member inside reserved => ?_) ?_
    · have absent := List.find?_eq_none.mp free member.1 reserved
      have none_there : SortedMap.lookup member.1 members = none := by simpa using absent
      exact lookup_none_iff.mp none_there (List.mem_map_of_mem inside)
    · clear free
      induction members with
      | nil => simp
      | cons member rest again =>
        obtain ⟨here, later⟩ := List.forall_mem_cons.mp ih
        obtain ⟨name, value⟩ := member
        obtain ⟨first, value_passed, then_rest⟩ := bind_eq_ok.mp passed
        exact List.forall_mem_cons.mpr ⟨here value_passed, again later then_rest⟩

theorem veilItems_none (index : Nat) (items : List Json) :
    veilItems provider (fun _ => none) index items = items := by
  induction items generalizing index with
  | nil => rfl
  | cons item rest ih => rw [veilItems, ih, slot]

theorem Marks.under_none (name : String) : Marks.under (fun _ => none) name = fun _ => none := by
  funext place
  rcases place with (_ | ⟨first, rest⟩) | ⟨path, index⟩ <;> rfl

/-- Claims of which none is marked. -/
theorem veiled_clean {claims : Json} (clean : Clean claims) (held : claims.Held serde.Steady) :
    Veiled serde provider (fun _ => none) claims claims fun _ => False := by
  induction claims using Json.inductionOn with
  | null => exact .null
  | bool value => exact .bool value
  | number value => exact .number value
  | string text => exact .string text
  | array items ih =>
    cases clean with | array each => ?_
    have whole := @Veiled.array serde provider (fun _ => none) (fun _ => False) items each
      (by simp) (by simp)
    rwa [veilItems_none] at whole
  | object members ih =>
    cases clean with | object names each => ?_
    cases held with | object sorted each_held => ?_
    have value_of : ∀ member ∈ members, SortedMap.lookup member.1 members = some member.2 :=
      fun member inside => SortedMap.lookup_of_mem sorted inside
    refine @Veiled.object serde provider _ _ members members []
      (fun name => (SortedMap.lookup name members).getD .null) (fun _ _ => False) ?_ ?_
    · intro member inside
      rw [Marks.under_none, value_of member inside]
      exact ih member inside (each member inside) (each_held member inside)
    · exact
        { once := .nil
          owned := by simp
          inside := by simp
          own_apart := by simp
          apart := by simp
          sorted
          names
          plain := fun member inside _ => by rw [value_of member inside]; rfl
          hidden := by simp
          absent := fun name _ missing => lookup_none_iff.mpr fun inside => by
            obtain ⟨member, among, same⟩ := List.mem_map.mp inside
            exact missing member among same
          digests := Or.inl ⟨lookup_of_clean names (by decide), rfl⟩
          linked := by simp
          made := by simp }

/-- The disclosures made so far: each with a salt that was drawn, none twice. -/
structure Disclosed (serde : SerdeJson) (provider : CryptoProvider) (state : Concealing) :
    Prop where
  roomy : state.payload.Roomy serde.Steady 127
  each : ∀ encoded ∈ state.disclosures, ∃ name value, Discloses serde provider encoded name value
  made : ∀ encoded ∈ state.disclosures, ∃ drawn rest digest, drawn < state.drawn ∧
    Fresh serde provider drawn rest encoded digest ∧ ∀ value ∈ rest, serde.Reads 126 value
  once : state.disclosures.Nodup

theorem Disclosed.step (ideal : Ideal provider) {decoys : Nat} {place : Concealed}
    {state after : Concealing} (before : Disclosed serde provider state)
    (ran : concealOne serde provider decoys state place = .ok after) :
    Disclosed serde provider after := by
  obtain ⟨roomy, encoded, name, value, added, discloses,
    ⟨drawn, rest, digest, least, most, fresh, rest_reads⟩, -⟩ := concealOne_roomy before.roomy ran
  have new : encoded ∉ state.disclosures := by
    intro inside
    obtain ⟨earlier, more, other, below, fresh_before, more_reads⟩ := before.made encoded inside
    have same := (fresh_before.madeWith more_reads).unique ideal (fresh.madeWith rest_reads)
    omega
  refine ⟨roomy, ?_, ?_, ?_⟩
  · intro text inside
    rw [added] at inside
    rcases List.mem_append.mp inside with old | only
    · exact before.each text old
    · rw [List.mem_singleton.mp only]
      exact ⟨name, value, discloses⟩
  · intro text inside
    rw [added] at inside
    rcases List.mem_append.mp inside with old | only
    · obtain ⟨earlier, more, other, below, fresh_before⟩ := before.made text old
      exact ⟨earlier, more, other, by omega, fresh_before⟩
    · rw [List.mem_singleton.mp only]
      exact ⟨drawn, rest, digest, most, fresh, rest_reads⟩
  · rw [added]
    exact List.nodup_append.mpr ⟨before.once, List.nodup_singleton _, by
      intro one inside two only equal
      rw [equal, List.mem_singleton.mp only] at inside
      exact new inside⟩

/-- The claims under the veil after some places were concealed, each marked with
the disclosure made for it. -/
structure Underway (serde : SerdeJson) (provider : CryptoProvider) (claims : Json)
    (done : List Concealed) (state : Concealing) (marks : Marks) (region : String → Prop) :
    Prop where
  veiled : Veiled serde provider marks claims state.payload region
  old : ∀ digest, region digest → Born serde provider 0 state.drawn digest
  marked : ∀ place encoded, marks place = some encoded ↔ (place, encoded) ∈ done.zip state.disclosures
  lengths : done.length = state.disclosures.length
  stands : ∀ place ∈ done, place.stands claims

/-- A path that does not end in the name of the digests. -/
def Concealed.Named : Concealed → Prop
  | .property path => path.getLast? ≠ some "_sd"
  | .element _ _ => True

theorem foldr_under_property (parents : List String) (name : String) :
    parents.foldr Concealed.under (.property [name]) = .property (parents ++ [name]) := by
  induction parents with
  | nil => rfl
  | cons first rest ih =>
    rw [List.foldr_cons, ih]
    rfl

theorem foldr_under_element (path : List String) (index : Nat) :
    path.foldr Concealed.under (.element [] index) = .element path index := by
  induction path with
  | nil => rfl
  | cons first rest ih =>
    rw [List.foldr_cons, ih]
    rfl

theorem concealOne_veiled (ideal : Ideal provider) {decoys : Nat} {claims : Json}
    (claims_held : claims.Held serde.Steady) {place : Concealed} {state after : Concealing}
    {marks : Marks} {region : String → Prop}
    (veiled : Veiled serde provider marks claims state.payload region)
    (old : ∀ digest, region digest → Born serde provider 0 state.drawn digest)
    (roomy : state.payload.Roomy serde.Steady 127) (named : place.Named)
    (deepest : ∀ path text, marks (.property path) = some text → place.depth ≤ path.length)
    (ran : concealOne serde provider decoys state place = .ok after) :
    ∃ encoded, after.disclosures = state.disclosures ++ [encoded] ∧ marks place = none ∧
      place.stands claims ∧ Veiled serde provider (marks.mark place encoded) claims after.payload
        (fun digest => region digest ∨ Born serde provider state.drawn after.drawn digest) := by
  cases place with
  | property path =>
    obtain ⟨parents, name, parent, value, sealed, drawn, encoded, digest, shown, rfl, -, found, there,
      value_sealed, fresh, added, rfl⟩ := concealProperty_eq_ok ran
    have other : name ≠ "_sd" := by
      intro same
      exact named (by rw [same]; simp)
    have onward := sealDigests_le value_sealed
    obtain ⟨veiled_after, unmarked, stands⟩ := veiled.at_path ideal claims_held found
      (by simp : Concealed.property [name] ≠ .property []) (by omega : state.drawn ≤ drawn + 1) old
      (Or.inl (by simp)) fun veiled held_here old_here => by
        obtain ⟨step, unmarked, there_so⟩ := veiled.conceal_property ideal held_here there other
          old_here value_sealed fresh (sealed_property_reads roomy found there value_sealed) added
        exact ⟨step, unmarked, by simp, there_so⟩
    rw [foldr_under_property] at veiled_after unmarked stands
    exact ⟨encoded, rfl, unmarked, stands, veiled_after⟩
  | element path index =>
    obtain ⟨elements, item, sealed, drawn, encoded, digest, found, there, plain, value_sealed,
      fresh, rfl⟩ := concealElement_eq_ok ran
    have onward := sealDigests_le value_sealed
    obtain ⟨veiled_after, unmarked, stands⟩ := veiled.at_path ideal claims_held found
      (by simp : Concealed.element [] index ≠ .property []) (by omega : state.drawn ≤ drawn + 1) old
      (Or.inr deepest) fun veiled _ old_here => by
        obtain ⟨step, unmarked, items, rfl, bound⟩ :=
          veiled.conceal_element ideal there plain old_here value_sealed fresh
            (sealed_element_reads roomy found there plain value_sealed)
        exact ⟨step, unmarked, items, rfl, bound⟩
    rw [foldr_under_element] at veiled_after unmarked stands
    exact ⟨encoded, rfl, unmarked, stands, veiled_after⟩

theorem Underway.step (ideal : Ideal provider) {decoys : Nat} {claims : Json}
    (claims_held : claims.Held serde.Steady) {done : List Concealed} {place : Concealed}
    {state after : Concealing} {marks : Marks} {region : String → Prop}
    (before : Underway serde provider claims done state marks region)
    (roomy : state.payload.Roomy serde.Steady 127) (named : place.Named)
    (deepest : ∀ other ∈ done, place.depth ≤ other.depth) (onward : state.drawn ≤ after.drawn)
    (ran : concealOne serde provider decoys state place = .ok after) :
    ∃ marks region, Underway serde provider claims (done ++ [place]) after marks region := by
  obtain ⟨encoded, added, unmarked, stands, veiled⟩ := concealOne_veiled ideal claims_held
    before.veiled before.old roomy named (fun path text marked =>
      deepest _ (List.of_mem_zip ((before.marked _ _).mp marked)).1) ran
  refine ⟨_, _, veiled, ?_, ?_, ?_, ?_⟩
  · intro digest inside
    rcases inside with earlier | new
    · exact (before.old digest earlier).mono le_rfl onward
    · exact new.mono (by omega) le_rfl
  · intro other text
    rw [added, List.zip_append before.lengths, List.mem_append, ← before.marked]
    simp only [List.zip_cons_cons, List.zip_nil_right, List.mem_singleton, Prod.mk.injEq]
    by_cases same : other = place
    · subst same
      simp [Marks.mark, unmarked, eq_comm]
    · simp [Marks.mark, same]
  · rw [added]
    simp [before.lengths]
  · intro other inside
    rcases List.mem_append.mp inside with earlier | only
    · exact before.stands other earlier
    · rw [List.mem_singleton.mp only]
      exact stands

theorem concealOne_drawn {decoys : Nat} {place : Concealed} {state after : Concealing}
    (roomy : state.payload.Roomy serde.Steady 127)
    (ran : concealOne serde provider decoys state place = .ok after) : state.drawn ≤ after.drawn := by
  obtain ⟨-, -, -, -, -, -, ⟨drawn, -, -, least, most, -⟩, -⟩ := concealOne_roomy roomy ran
  omega

/-- What a run of steps leaves of the disclosures. -/
theorem foldlM_disclosed (ideal : Ideal provider) {decoys : Nat} {list : List Concealed}
    {state after : Concealing} (before : Disclosed serde provider state)
    (ran : list.foldlM (concealOne serde provider decoys) state = .ok after) :
    Disclosed serde provider after ∧ state.disclosures ⊆ after.disclosures ∧
      ∀ path, .property path ∈ list → ∃ encoded ∈ after.disclosures, ∃ value,
        Discloses serde provider encoded path.getLast? value := by
  induction list generalizing state with
  | nil =>
    cases ran
    exact ⟨before, List.Subset.refl _, by simp⟩
  | cons place rest ih =>
    rw [List.foldlM_cons] at ran
    obtain ⟨middle, first, ran⟩ := bind_eq_ok.mp ran
    obtain ⟨ends, kept, named⟩ := ih (before.step ideal first) ran
    obtain ⟨-, encoded, name, value, added, discloses, -, called⟩ := concealOne_roomy before.roomy first
    rw [added] at kept
    refine ⟨ends, List.Subset.trans (List.subset_append_left _ _) kept, fun path inside => ?_⟩
    rcases List.mem_cons.mp inside with same | later
    · refine ⟨encoded, kept (List.mem_append_right _ (List.mem_singleton_self _)), value, ?_⟩
      rw [called path same.symm]
      exact discloses
    · exact named path later

/-- What a run of steps, the deepest first, leaves under the veil. -/
theorem foldlM_underway (ideal : Ideal provider) {decoys : Nat} {claims : Json}
    (claims_held : claims.Held serde.Steady) {done list : List Concealed}
    {state after : Concealing} {marks : Marks} {region : String → Prop}
    (before : Underway serde provider claims done state marks region)
    (disclosed : Disclosed serde provider state) (named : ∀ place ∈ list, place.Named)
    (order : list.Pairwise fun left right => right.depth ≤ left.depth)
    (deepest : ∀ other ∈ done, ∀ place ∈ list, place.depth ≤ other.depth)
    (ran : list.foldlM (concealOne serde provider decoys) state = .ok after) :
    ∃ marks region, Underway serde provider claims (done ++ list) after marks region := by
  induction list generalizing done state marks region with
  | nil =>
    cases ran
    rw [List.append_nil]
    exact ⟨marks, region, before⟩
  | cons place rest ih =>
    rw [List.foldlM_cons] at ran
    obtain ⟨middle, first, ran⟩ := bind_eq_ok.mp ran
    obtain ⟨named_here, named_later⟩ := List.forall_mem_cons.mp named
    obtain ⟨above, later⟩ := List.pairwise_cons.mp order
    obtain ⟨marks, region, next⟩ := before.step ideal claims_held disclosed.roomy named_here
      (fun other inside => deepest other inside place List.mem_cons_self)
      (concealOne_drawn disclosed.roomy first) first
    have deepest_later : ∀ other ∈ done ++ [place], ∀ further ∈ rest,
        further.depth ≤ other.depth := by
      intro other inside further among
      rcases List.mem_append.mp inside with earlier | only
      · exact deepest other earlier further (List.mem_cons_of_mem _ among)
      · rw [List.mem_singleton.mp only]
        exact above further among
    have ended := ih next (disclosed.step ideal first) named_later later deepest_later ran
    rwa [List.append_assoc] at ended

theorem deepestFirst_perm (concealed : List Concealed) : (deepestFirst concealed).Perm concealed :=
  List.perm_insertionSort _ _

theorem deepestFirst_order (concealed : List Concealed) :
    (deepestFirst concealed).Pairwise fun left right => right.depth ≤ left.depth := by
  have total : Std.Total fun left right : Concealed => right.depth ≤ left.depth :=
    ⟨fun one other => Nat.le_total other.depth one.depth⟩
  have trans : IsTrans Concealed fun left right => right.depth ≤ left.depth :=
    ⟨fun _ _ _ first second => second.trans first⟩
  exact List.pairwise_insertionSort _ concealed

/-- The steps of concealing: the claims hold no name of the bookkeeping, the
places are concealed the deepest first, and the payload is sealed at last. -/
theorem concealClaims_eq_ok {claims : List (String × Json)} {concealed : List Concealed}
    {decoys : Nat} {concealment : Concealment}
    (ran : concealClaims serde provider claims concealed decoys = .ok concealment) :
    Clean (.object claims) ∧ ∃ state shown drawn,
      (deepestFirst concealed).foldlM (concealOne serde provider decoys) ⟨.object claims, [], 0⟩ =
        .ok state ∧
      sealDigests provider decoys state.payload state.drawn = .ok (.object shown, drawn) ∧
      concealment = ⟨SortedMap.place "_sd_alg" (.string "sha-256") shown, state.disclosures⟩ := by
  obtain ⟨passed, refused, ran⟩ := bind_eq_ok.mp ran
  obtain ⟨state, folded, ran⟩ := bind_eq_ok.mp ran
  obtain ⟨⟨payload, drawn⟩, sealed, ran⟩ := bind_eq_ok.mp ran
  dsimp only at ran
  split at ran
  · cases ran
    exact ⟨clean_of_refuse refused, state, _, drawn, folded, sealed, rfl⟩
  · cases ran

/-- What is known of an issued payload and its disclosures, whatever places
were named. -/
structure Issued (serde : SerdeJson) (provider : CryptoProvider) (concealed : List Concealed)
    (concealment : Concealment) : Prop where
  reads : serde.Reads 127 (.object concealment.payload)
  each : ∀ encoded ∈ concealment.disclosures, ∃ name value,
    Discloses serde provider encoded name value
  made : ∀ encoded ∈ concealment.disclosures, ∃ drawn rest digest,
    Fresh serde provider drawn rest encoded digest
  once : concealment.disclosures.Nodup
  names : ∀ path, .property path ∈ concealed → ∃ encoded ∈ concealment.disclosures, ∃ value,
    Discloses serde provider encoded path.getLast? value

theorem issued_of_concealClaims (ideal : Ideal provider) {claims : List (String × Json)}
    (reads : serde.Reads 125 (.object claims)) {concealed : List Concealed} {decoys : Nat}
    {concealment : Concealment}
    (ran : concealClaims serde provider claims concealed decoys = .ok concealment) :
    Issued serde provider concealed concealment := by
  obtain ⟨clean, state, shown, drawn, folded, sealed, rfl⟩ := concealClaims_eq_ok ran
  have start : Disclosed serde provider ⟨.object claims, [], 0⟩ :=
    ⟨.of_held reads.held reads.shallow, by simp, by simp, .nil⟩
  obtain ⟨disclosed, -, names⟩ := foldlM_disclosed ideal start folded
  exact
    { reads := SerdeJson.reads_of_roomy
        ((sealDigests_roomy disclosed.roomy sealed).place (.string _))
      each := disclosed.each
      made := fun encoded inside => by
        obtain ⟨drawn, rest, digest, -, fresh, -⟩ := disclosed.made encoded inside
        exact ⟨drawn, rest, digest, fresh⟩
      once := disclosed.once
      names := fun path inside => names path ((deepestFirst_perm concealed).mem_iff.mpr inside) }

/-- The claims under the veil of what the issuer signs. -/
theorem veiled_of_concealClaims (ideal : Ideal provider) {claims : List (String × Json)}
    (reads : serde.Reads 125 (.object claims)) {concealed : List Concealed} {decoys : Nat}
    {concealment : Concealment}
    (ran : concealClaims serde provider claims concealed decoys = .ok concealment)
    (named : ∀ place ∈ concealed, place.Named) :
    ∃ marks region shown,
      concealment.payload = SortedMap.place "_sd_alg" (.string "sha-256") shown ∧
      Veiled serde provider marks (.object claims) (.object shown) region ∧
      (∀ place encoded, marks place = some encoded ↔
        (place, encoded) ∈ (deepestFirst concealed).zip concealment.disclosures) ∧
      (deepestFirst concealed).length = concealment.disclosures.length ∧
      ∀ place ∈ concealed, place.stands (.object claims) := by
  obtain ⟨clean, state, shown, drawn, folded, sealed, rfl⟩ := concealClaims_eq_ok ran
  have start : Underway serde provider (.object claims) [] ⟨.object claims, [], 0⟩
      (fun _ => none) fun _ => False :=
    ⟨veiled_clean clean reads.held, by simp, by simp, rfl, by simp⟩
  obtain ⟨marks, region, ended⟩ := foldlM_underway ideal reads.held start
    ⟨.of_held reads.held reads.shallow, by simp, by simp, .nil⟩
    (fun place inside => named place ((deepestFirst_perm concealed).mem_iff.mp inside))
    (deepestFirst_order concealed) (by simp) folded
  exact ⟨marks, _, shown, rfl, ended.veiled.sealed ideal ended.old sealed, ended.marked,
    ended.lengths,
    fun place inside => ended.stands place ((deepestFirst_perm concealed).mem_iff.mpr inside)⟩

end Saffui.SdJwt
