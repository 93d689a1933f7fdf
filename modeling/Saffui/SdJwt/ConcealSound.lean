import Saffui.SdJwt.Nesting

/-!
# What concealing makes

Every claim concealed is a place marked under the veil. A step replaces what
stands at one place by a digest of its disclosure, made with a salt that was
not drawn before; the deepest places go first, so that none leads into digests
written before it.
-/

namespace Saffui.SdJwt
open Foundation Foundation.Outcome Crypto

variable {serde : SerdeJson} {provider : CryptoProvider}

/-- A disclosure made with one salt, and its digest. -/
structure Fresh (serde : SerdeJson) (provider : CryptoProvider) (drawn : Nat)
    (rest : List Json) (encoded digest : String) : Prop where
  made : ∃ bytes, provider.fill drawn = .ok bytes ∧
    encoded = disclosureText serde (Base64.encode bytes.val) rest
  digested : digestOf provider .sha256 encoded = .ok digest

theorem Fresh.text {drawn : Nat} {rest : List Json} {encoded digest : String}
    (fresh : Fresh serde provider drawn rest encoded digest) :
    digestText provider encoded = digest := by
  rw [digestText, fresh.digested]

theorem Fresh.madeWith {drawn : Nat} {rest : List Json} {encoded digest : String}
    (fresh : Fresh serde provider drawn rest encoded digest)
    (reads : ∀ value ∈ rest, serde.Reads 126 value) : MadeWith serde provider drawn encoded := by
  obtain ⟨bytes, filled, rfl⟩ := fresh.made
  exact ⟨bytes, filled, Or.inr ⟨rest, rfl, reads⟩⟩

theorem Fresh.born {drawn : Nat} {rest : List Json} {encoded digest : String}
    (fresh : Fresh serde provider drawn rest encoded digest)
    (reads : ∀ value ∈ rest, serde.Reads 126 value) :
    Born serde provider drawn (drawn + 1) digest :=
  ⟨drawn, encoded, le_rfl, by omega, fresh.madeWith reads, fresh.digested⟩

theorem Fresh.parsed {drawn : Nat} {rest : List Json} {encoded digest : String}
    (fresh : Fresh serde provider drawn rest encoded digest)
    (reads : ∀ value ∈ rest, serde.Reads 126 value) :
    ∃ salt, (Base64.decode encoded).bind serde.fromSlice = some (.array (.string salt :: rest)) := by
  obtain ⟨bytes, -, rfl⟩ := fresh.made
  refine ⟨Base64.encode bytes.val, ?_⟩
  rw [disclosureText, Base64.decode_encode, Option.bind_some]
  have whole : serde.Reads 127 (.array (.string (Base64.encode bytes.val) :: rest)) :=
    .array (List.forall_mem_cons.mpr ⟨.string _, reads⟩)
  exact whole.back

theorem Fresh.property {drawn : Nat} {name encoded digest : String} {value : Json}
    (fresh : Fresh serde provider drawn [.string name, value] encoded digest)
    (reads : serde.Reads 126 value) : Discloses serde provider encoded (some name) value := by
  obtain ⟨salt, parsed⟩ := fresh.parsed (by simpa using ⟨.string name, reads⟩)
  refine ⟨⟨salt, ?_⟩, by rw [fresh.text, fresh.digested]⟩
  rw [Disclosure.read, parsed]

theorem Fresh.element {drawn : Nat} {encoded digest : String} {value : Json}
    (fresh : Fresh serde provider drawn [value] encoded digest)
    (reads : serde.Reads 126 value) : Discloses serde provider encoded none value := by
  obtain ⟨salt, parsed⟩ := fresh.parsed (by simpa using reads)
  refine ⟨⟨salt, ?_⟩, by rw [fresh.text, fresh.digested]⟩
  simp [Disclosure.read, parsed]

/-- A claim concealed: what stood at its place, sealed, and what stands there now. -/
theorem concealProperty_eq_ok {decoys : Nat} {path : List String} {state after : Concealing}
    (ran : concealProperty serde provider decoys path state = .ok after) :
    ∃ parents name parent value sealed drawn encoded digest shown, path = parents ++ [name] ∧
      ¬(parents = [] ∧ name ∈ VALIDITY_CLAIMS) ∧
      valueAt parents state.payload = some (.object parent) ∧
      SortedMap.lookup name parent = some value ∧
      sealDigests provider decoys value state.drawn = .ok (sealed, drawn) ∧
      Fresh serde provider drawn [.string name, sealed] encoded digest ∧
      addDigest name digest parent = .ok shown ∧
      after = ⟨putAt parents (.object shown) state.payload, state.disclosures ++ [encoded],
        drawn + 1⟩ := by
  unfold concealProperty at ran
  split at ran
  · cases ran
  next name last =>
  dsimp only at ran
  split at ran
  · cases ran
  next allowed =>
  split at ran
  · next parent found =>
    split at ran
    · cases ran
    next value there =>
    obtain ⟨⟨sealed, drawn⟩, value_sealed, ran⟩ := bind_eq_ok.mp ran
    obtain ⟨⟨text, later⟩, salted, ran⟩ := bind_eq_ok.mp ran
    obtain ⟨⟨encoded, digest⟩, disclosed, ran⟩ := bind_eq_ok.mp ran
    obtain ⟨shown, added, ended⟩ := bind_eq_ok.mp ran
    cases ended
    obtain ⟨rfl, bytes, filled, rfl⟩ := salt_eq_ok salted
    obtain ⟨rfl, digested⟩ := disclose_eq_ok disclosed
    exact ⟨path.dropLast, name, parent, value, sealed, drawn, _, digest, shown,
      (List.dropLast_append_getLast? name last).symm, allowed, found, there, value_sealed,
      ⟨⟨bytes, filled, rfl⟩, digested⟩, added, rfl⟩
  · cases ran

theorem concealElement_eq_ok {decoys index : Nat} {path : List String} {state after : Concealing}
    (ran : concealElement serde provider decoys path index state = .ok after) :
    ∃ elements item sealed drawn encoded digest,
      valueAt path state.payload = some (.array elements) ∧ elements[index]? = some item ∧
      isCarrier item = false ∧
      sealDigests provider decoys item state.drawn = .ok (sealed, drawn) ∧
      Fresh serde provider drawn [sealed] encoded digest ∧
      after = ⟨putAt path (.array (elements.set index (.object [("...", .string digest)])))
        state.payload, state.disclosures ++ [encoded], drawn + 1⟩ := by
  unfold concealElement at ran
  split at ran
  · next elements found =>
    split at ran
    · cases ran
    next item there =>
    split at ran
    · cases ran
    next plain =>
    obtain ⟨⟨sealed, drawn⟩, value_sealed, ran⟩ := bind_eq_ok.mp ran
    obtain ⟨⟨text, later⟩, salted, ran⟩ := bind_eq_ok.mp ran
    obtain ⟨⟨encoded, digest⟩, disclosed, ended⟩ := bind_eq_ok.mp ran
    cases ended
    obtain ⟨rfl, bytes, filled, rfl⟩ := salt_eq_ok salted
    obtain ⟨rfl, digested⟩ := disclose_eq_ok disclosed
    exact ⟨elements, item, sealed, drawn, _, digest, found, there, by simpa using plain,
      value_sealed, ⟨⟨bytes, filled, rfl⟩, digested⟩, rfl⟩
  · cases ran

/-- The digests of an object are an array, or there are none. -/
theorem addDigest_eq_ok {name digest : String} {parent shown : List (String × Json)}
    (added : addDigest name digest parent = .ok shown) :
    ∃ digests, (SortedMap.lookup "_sd" (SortedMap.without name parent)).getD (.array []) =
        .array digests ∧
      shown = SortedMap.place "_sd" (.array (digests ++ [.string digest]))
        (SortedMap.without name parent) := by
  unfold addDigest at added
  dsimp only at added
  split at added
  · next digests found =>
    cases added
    exact ⟨digests, found, rfl⟩
  · cases added

theorem addDigest_roomy {finite : Rat → Prop} {levels : Nat} {name digest : String}
    {parent shown : List (String × Json)} (roomy : (Json.object parent).Roomy finite levels)
    (added : addDigest name digest parent = .ok shown) :
    (Json.object shown).Roomy finite levels := by
  obtain ⟨digests, old, rfl⟩ := addDigest_eq_ok added
  have less := roomy.without name
  cases less with | object sorted each => ?_
  refine Json.Roomy.place (.object sorted each) (.array fun item inside apart => ?_)
  rcases List.mem_append.mp inside with before | new
  · cases own : SortedMap.lookup "_sd" (SortedMap.without name parent) with
    | none =>
      rw [own] at old
      cases old
      cases before
    | some value =>
      rw [own] at old
      have array := each _ (SortedMap.mem_of_lookup own)
      cases old
      cases array with | array each_old => exact each_old item before apart
  · rw [List.mem_singleton.mp new]
    exact .string digest

/-- The property that a step seals reads back from its disclosure. -/
theorem sealed_property_reads {decoys drawn after : Nat} {path : List String} {name : String}
    {parent : List (String × Json)} {payload value sealed : Json}
    (roomy : payload.Roomy serde.Steady 127) (found : valueAt path payload = some (.object parent))
    (there : SortedMap.lookup name parent = some value)
    (ran : sealDigests provider decoys value drawn = .ok (sealed, after)) :
    serde.Reads 126 sealed := by
  obtain ⟨left, within, parent_roomy, -⟩ := roomy_at_path roomy found
  cases parent_roomy with | object sorted each => ?_
  have sealed_roomy := sealDigests_roomy (each _ (SortedMap.mem_of_lookup there)) ran
  exact ⟨sealed_roomy.held, sealed_roomy.depth_le.trans (by omega)⟩

/-- So does the element. -/
theorem sealed_element_reads {decoys drawn after index : Nat} {path : List String}
    {elements : List Json} {payload item sealed : Json} (roomy : payload.Roomy serde.Steady 127)
    (found : valueAt path payload = some (.array elements)) (there : elements[index]? = some item)
    (plain : isCarrier item = false)
    (ran : sealDigests provider decoys item drawn = .ok (sealed, after)) :
    serde.Reads 126 sealed := by
  obtain ⟨left, within, elements_roomy, -⟩ := roomy_at_path roomy found
  cases elements_roomy with | array each => ?_
  have apart : ∀ digest, item ≠ .object [("...", .string digest)] := by
    rintro digest rfl
    simp [isCarrier, SortedMap.lookup] at plain
  have sealed_roomy := sealDigests_roomy (each item (List.mem_of_getElem? there) apart) ran
  exact ⟨sealed_roomy.held, sealed_roomy.depth_le.trans (by omega)⟩

/-- What a claim concealed leaves is as roomy as it was, and its disclosure reads. -/
theorem concealOne_roomy {decoys : Nat} {place : Concealed} {state after : Concealing}
    (roomy : state.payload.Roomy serde.Steady 127)
    (ran : concealOne serde provider decoys state place = .ok after) :
    after.payload.Roomy serde.Steady 127 ∧ ∃ encoded name value,
      after.disclosures = state.disclosures ++ [encoded] ∧
      Discloses serde provider encoded name value ∧
      (∃ drawn rest digest, state.drawn ≤ drawn ∧ drawn < after.drawn ∧
        Fresh serde provider drawn rest encoded digest ∧ ∀ value ∈ rest, serde.Reads 126 value) ∧
      ∀ path, place = .property path → path.getLast? = name := by
  cases place with
  | property path =>
    obtain ⟨parents, name, parent, value, sealed, drawn, encoded, digest, shown, rfl, -, found, there,
      value_sealed, fresh, added, rfl⟩ := concealProperty_eq_ok ran
    have sealed_reads := sealed_property_reads roomy found there value_sealed
    obtain ⟨left, -, parent_roomy, replaced⟩ := roomy_at_path roomy found
    refine ⟨replaced _ (addDigest_roomy parent_roomy added), encoded, some name, sealed, rfl,
      fresh.property sealed_reads,
      ⟨drawn, _, digest, sealDigests_le value_sealed, Nat.lt_succ_self drawn, fresh,
        by simpa using ⟨.string name, sealed_reads⟩⟩, ?_⟩
    intro path same
    cases same
    simp
  | element path index =>
    obtain ⟨elements, item, sealed, drawn, encoded, digest, found, there, plain, value_sealed, fresh,
      rfl⟩ := concealElement_eq_ok ran
    have sealed_reads := sealed_element_reads roomy found there plain value_sealed
    obtain ⟨left, -, elements_roomy, replaced⟩ := roomy_at_path roomy found
    cases elements_roomy with | array each => ?_
    refine ⟨replaced _ (.array fun one inside apart => ?_), encoded, none, sealed, rfl,
      fresh.element sealed_reads, ⟨drawn, _, digest, sealDigests_le value_sealed,
        Nat.lt_succ_self drawn, fresh, by simpa using sealed_reads⟩, by simp⟩
    rcases List.mem_or_eq_of_mem_set inside with old | rfl
    · exact each one old apart
    · exact absurd rfl (apart digest)

variable {marks : Marks} {region : String → Prop}

/-- A member in plain sight replaced by what a step within it made. -/
theorem Veiled.replace (ideal : Ideal provider) {more : Marks}
    {members shown : List (String × Json)} {own : List String} {part : String → Json}
    {inner : String → String → Prop}
    (each : ∀ member ∈ members, Veiled serde provider (marks.under member.1) member.2
      (part member.1) (inner member.1))
    (laid : Laid serde provider marks members shown own part inner region)
    (ordered : Sorted members) {first : String} {value changed : Json}
    (among : (first, value) ∈ members) (plain : marks (.property [first]) = none)
    {drawn after : Nat} (onward : drawn ≤ after)
    (old : ∀ digest, region digest → Born serde provider 0 drawn digest)
    (new : Veiled serde provider (more.under first) value changed
      fun digest => inner first digest ∨ Born serde provider drawn after digest)
    (others : ∀ name, name ≠ first → more.under name = marks.under name)
    (level : ∀ name, more (.property [name]) = marks (.property [name])) :
    Veiled serde provider more (.object members) (.object (SortedMap.place first changed shown))
      fun digest => region digest ∨ Born serde provider drawn after digest := by
  have own_name : first ≠ "_sd" := fun equal =>
    laid.names _ among (by simp [equal, RESERVED_NAMES])
  have found : ∀ name, SortedMap.lookup name (SortedMap.place first changed shown) =
      if name = first then some changed else SortedMap.lookup name shown := fun name =>
    SortedMap.lookup_place _ _ _ _ laid.sorted
  have same_member : ∀ member ∈ members, member.1 = first → member.2 = value := by
    intro member inside equal
    have here := SortedMap.lookup_of_mem ordered inside
    rw [equal, SortedMap.lookup_of_mem ordered among] at here
    exact (Option.some.inj here).symm
  refine @Veiled.object serde provider more _ members _ own
    (fun name => if name = first then changed else part name)
    (fun name digest => inner name digest ∨
      Born serde provider drawn (if name = first then after else drawn) digest) ?_ ?_
  · intro member inside
    by_cases equal : member.1 = first
    · simp only [equal, if_true]
      rw [same_member member inside equal]
      exact new
    · simp only [if_neg equal]
      rw [others member.1 equal]
      exact (each member inside).mono fun _ => Or.inl
  · have regions := Apart.extend ideal laid.toApart drawn after after (fun _ => drawn)
      (fun name => if name = first then after else drawn) old laid.once (fun _ => Or.inl)
      (fun member _ => ⟨le_rfl, by split <;> omega⟩) ⟨onward, le_rfl⟩ (by
        intro one _ two _ different
        by_cases equal : one.1 = first
        · right
          simp only [if_neg (show ¬two.1 = first from fun same => different (equal.trans same.symm)),
            le_rfl]
        · left
          simp only [if_neg equal, le_rfl])
    exact
      { regions with
        sorted := SortedMap.place_sorted _ _ _ laid.sorted
        names := laid.names
        plain := by
          intro member inside unmarked
          rw [level] at unmarked
          rw [found]
          by_cases equal : member.1 = first
          · simp only [if_pos equal]
          · simp only [if_neg equal]
            exact laid.plain member inside unmarked
        hidden := by
          intro member inside encoded marked
          rw [level] at marked
          have apart : member.1 ≠ first := by
            intro equal
            rw [equal, plain] at marked
            cases marked
          rw [found]
          simp only [if_neg apart]
          exact laid.hidden member inside encoded marked
        absent := by
          intro name other missing
          rw [found, if_neg (fun equal : name = first => missing _ among equal.symm)]
          exact laid.absent name other missing
        digests := by
          rw [found, if_neg (Ne.symm own_name)]
          simpa only [level] using laid.digests
        linked := fun member inside encoded marked =>
          laid.linked member inside encoded (by rw [← level]; exact marked)
        made := by
          intro digest inside
          simpa only [level] using laid.made digest inside }

/-- A property concealed in the object it is in. -/
theorem Veiled.conceal_property (ideal : Ideal provider) {claims : Json}
    {shown after_shown : List (String × Json)}
    (veiled : Veiled serde provider marks claims (.object shown) region)
    (held : claims.Held serde.Steady) {name : String} {value sealed : Json}
    (found : SortedMap.lookup name shown = some value) (other : name ≠ "_sd")
    {decoys drawn middle : Nat} {encoded digest : String}
    (old : ∀ digest, region digest → Born serde provider 0 drawn digest)
    (value_sealed : sealDigests provider decoys value drawn = .ok (sealed, middle))
    (fresh : Fresh serde provider middle [.string name, sealed] encoded digest)
    (sealed_reads : serde.Reads 126 sealed) (added : addDigest name digest shown = .ok after_shown) :
    Veiled serde provider (marks.mark (.property [name]) encoded) claims (.object after_shown)
        (fun digest => region digest ∨ Born serde provider drawn (middle + 1) digest) ∧
      marks (.property [name]) = none ∧ (valueAt [name] claims).isSome := by
  cases veiled with | object each laid => ?_
  next members own part inner =>
  cases held with | object ordered held_each => ?_
  obtain ⟨⟨called, claim⟩, among, rfl, plain, rfl⟩ := laid.of_shown other found
  simp only at found other plain value_sealed fresh added ⊢
  have onward := sealDigests_le value_sealed
  have born := fresh.born (by simpa using ⟨.string called, sealed_reads⟩)
  refine ⟨?_, plain, by simp [valueAt, SortedMap.lookup_of_mem ordered among]⟩
  obtain ⟨digests, before, rfl⟩ := addDigest_eq_ok added
  rw [SortedMap.lookup_without, if_neg (Ne.symm other)] at before
  have own_before : digests = own.map .string := by
    rcases laid.digests with ⟨absent, rfl⟩ | ⟨there, -⟩
    · rw [absent] at before
      exact (Json.array.inj before).symm
    · rw [there] at before
      exact (Json.array.inj before).symm
  subst own_before
  have lookups : ∀ asked, SortedMap.lookup asked (SortedMap.place "_sd"
      (.array (own.map .string ++ [.string digest])) (SortedMap.without called shown)) =
      if asked = "_sd" then some (.array (own.map .string ++ [.string digest]))
      else if asked = called then none else SortedMap.lookup asked shown := by
    intro asked
    rw [SortedMap.lookup_place _ _ _ _ (SortedMap.without_sorted _ laid.sorted),
      SortedMap.lookup_without]
  have not_sd : ∀ member ∈ members, member.1 ≠ "_sd" := fun member inside equal =>
    laid.names member inside (by rw [equal]; decide)
  have marks_other : ∀ asked, asked ≠ called →
      marks.mark (.property [called]) encoded (.property [asked]) = marks (.property [asked]) := by
    intro asked apart
    simp [Marks.mark, apart]
  have marks_here : marks.mark (.property [called]) encoded (.property [called]) = some encoded := by
    simp [Marks.mark]
  have new_digest : digest ∉ own := fun inside =>
    (old digest (laid.owned digest inside)).apart ideal onward born
  have regions := Apart.extend ideal laid.toApart drawn middle (middle + 1) (fun _ => drawn)
    (fun asked => if asked = called then middle else drawn) old
    (List.nodup_append.mpr ⟨laid.once, List.nodup_singleton _, by
      intro one inside two only equal
      rw [equal, List.mem_singleton.mp only] at inside
      exact new_digest inside⟩)
    (by
      intro one inside
      rcases List.mem_append.mp inside with before | new
      · exact Or.inl before
      · rw [List.mem_singleton.mp new]
        exact Or.inr born)
    (fun member _ => ⟨le_rfl, by split <;> omega⟩) ⟨onward, by omega⟩ (by
      intro one _ two _ different
      by_cases equal : one.1 = called
      · right
        simp only [if_neg (show ¬two.1 = called from fun same => different (equal.trans same.symm)),
          le_rfl]
      · left
        simp only [if_neg equal, le_rfl])
  refine @Veiled.object serde provider _ _ members _ (own ++ [digest])
    (fun asked => if asked = called then sealed else part asked)
    (fun asked one => inner asked one ∨
      Born serde provider drawn (if asked = called then middle else drawn) one) ?_ ?_
  · intro member inside
    rw [Marks.under_mark_here]
    by_cases equal : member.1 = called
    · simp only [equal, if_true]
      rw [← equal] at value_sealed ⊢
      exact (each member inside).sealed ideal (fun digest within =>
        old digest (laid.inside member inside digest within)) value_sealed
    · simp only [if_neg equal]
      exact (each member inside).mono fun _ => Or.inl
  · exact
      { regions with
        sorted := SortedMap.place_sorted _ _ _ (SortedMap.without_sorted _ laid.sorted)
        names := laid.names
        plain := by
          intro member inside unmarked
          by_cases equal : member.1 = called
          · rw [equal, marks_here] at unmarked
            cases unmarked
          · rw [marks_other _ equal] at unmarked
            simp only [lookups, if_neg (not_sd member inside), if_neg equal]
            exact laid.plain member inside unmarked
        hidden := by
          intro member inside text marked
          by_cases equal : member.1 = called
          · rw [equal, marks_here] at marked
            cases marked
            simp only [lookups, equal, if_true]
            exact ⟨if_neg other, fresh.property sealed_reads⟩
          · rw [marks_other _ equal] at marked
            simp only [lookups, if_neg (not_sd member inside), if_neg equal]
            exact laid.hidden member inside text marked
        absent := by
          intro asked not_own missing
          rw [lookups, if_neg not_own, if_neg fun equal => missing _ among equal.symm]
          exact laid.absent asked not_own missing
        digests := by
          right
          rw [lookups, if_pos rfl, List.map_append]
          exact ⟨rfl, _, among, by rw [marks_here]; rfl⟩
        linked := by
          intro member inside text marked
          by_cases equal : member.1 = called
          · rw [equal, marks_here] at marked
            cases marked
            rw [fresh.text]
            exact List.mem_append_right _ (List.mem_singleton_self _)
          · rw [marks_other _ equal] at marked
            exact List.mem_append_left _ (laid.linked member inside text marked)
        made := by
          intro one inside
          rcases List.mem_append.mp inside with before | new
          · rcases laid.made one before with decoy | ⟨member, within, text, marked, same⟩
            · exact Or.inl decoy
            · refine Or.inr ⟨member, within, text, ?_, same⟩
              rw [marks_other]
              · exact marked
              · intro equal
                rw [equal, plain] at marked
                cases marked
          · rw [List.mem_singleton.mp new]
            exact Or.inr ⟨_, among, encoded, marks_here, fresh.text.symm⟩ }

theorem getElem?_veilItems (marks : Marks) (index at_index : Nat) (items : List Json) :
    (veilItems provider marks index items)[at_index]? =
      items[at_index]?.map (slot provider marks (index + at_index)) := by
  induction items generalizing index at_index with
  | nil => rfl
  | cons item rest ih =>
    cases at_index with
    | zero => rfl
    | succ at_index =>
      rw [veilItems, List.getElem?_cons_succ, List.getElem?_cons_succ, ih]
      congr 2
      omega

/-- An element concealed in the array it is in. -/
theorem Veiled.conceal_element (ideal : Ideal provider) {claims : Json} {elements : List Json}
    (veiled : Veiled serde provider marks claims (.array elements) region)
    {index : Nat} {item sealed : Json}
    (found : elements[index]? = some item) (plain : isCarrier item = false)
    {decoys drawn middle : Nat} {encoded digest : String}
    (old : ∀ digest, region digest → Born serde provider 0 drawn digest)
    (value_sealed : sealDigests provider decoys item drawn = .ok (sealed, middle))
    (fresh : Fresh serde provider middle [sealed] encoded digest)
    (sealed_reads : serde.Reads 126 sealed) :
    Veiled serde provider (marks.mark (.element [] index) encoded) claims
        (.array (elements.set index (.object [("...", .string digest)])))
        (fun digest => region digest ∨ Born serde provider drawn (middle + 1) digest) ∧
      marks (.element [] index) = none ∧
      ∃ items, claims = .array items ∧ index < items.length := by
  cases veiled with | array clean hidden apart => ?_
  next items =>
  rw [getElem?_veilItems, Nat.zero_add] at found
  obtain ⟨claim, there, same⟩ := Option.map_eq_some_iff.mp found
  have bound := (List.getElem?_eq_some_iff.mp there).1
  have unmarked : marks (.element [] index) = none := by
    cases marked : marks (.element [] index) with
    | none => rfl
    | some text =>
      rw [slot, marked] at same
      rw [← same] at plain
      simp [isCarrier, SortedMap.lookup] at plain
  rw [slot, unmarked] at same
  simp only at same
  subst same
  have claim_clean := clean _ (List.mem_of_getElem? there)
  rw [sealDigests_clean claim_clean] at value_sealed
  cases value_sealed
  have born := fresh.born (by simpa using sealed_reads)
  refine ⟨?_, unmarked, items, rfl, bound⟩
  have marks_here : marks.mark (.element [] index) encoded (.element [] index) = some encoded := by
    simp [Marks.mark]
  have marks_other : ∀ other, other ≠ index →
      marks.mark (.element [] index) encoded (.element [] other) = marks (.element [] other) := by
    intro other different
    simp [Marks.mark, different]
  have shown : (veilItems provider marks 0 items).set index (.object [("...", .string digest)]) =
      veilItems provider (marks.mark (.element [] index) encoded) 0 items := by
    apply List.ext_getElem?
    intro other
    rw [List.getElem?_set, getElem?_veilItems, getElem?_veilItems, Nat.zero_add]
    by_cases same : index = other
    · subst same
      have length : index < (veilItems provider marks 0 items).length := by
        have there_too := @getElem?_veilItems provider marks 0 index items
        rw [there, Option.map_some] at there_too
        exact (List.getElem?_eq_some_iff.mp there_too).1
      rw [if_pos rfl, if_pos length, there, Option.map_some, slot, marks_here]
      simp only [fresh.text]
    · rw [if_neg same]
      congr 1
      funext one
      rw [slot, slot, marks_other other (Ne.symm same)]
  rw [shown]
  refine .array clean ?_ ?_
  · intro other one text at_other marked
    by_cases same : other = index
    · subst same
      rw [marks_here] at marked
      cases marked
      rw [there] at at_other
      cases at_other
      exact ⟨fresh.element sealed_reads, Or.inr (by rw [fresh.text]; exact born)⟩
    · rw [marks_other other same] at marked
      obtain ⟨discloses, inside⟩ := hidden other one text at_other marked
      exact ⟨discloses, Or.inl inside⟩
  · have only_here : ∀ other text, other < items.length → other ≠ index →
        marks (.element [] other) = some text → digestText provider text ≠ digest := by
      intro other text below different marked equal
      obtain ⟨-, inside⟩ := hidden other items[other] text (List.getElem?_eq_getElem below) marked
      rw [equal] at inside
      exact (old digest inside).apart ideal le_rfl born
    intro one two text more below least marked marked_more equal
    by_cases first : one = index
    · subst first
      rw [marks_here] at marked
      cases marked
      by_cases second : two = one
      · exact second.symm
      · rw [marks_other two second] at marked_more
        rw [fresh.text] at equal
        exact absurd equal.symm (only_here two more least second marked_more)
    · rw [marks_other one first] at marked
      by_cases second : two = index
      · subst second
        rw [marks_here] at marked_more
        cases marked_more
        rw [fresh.text] at equal
        exact absurd equal (only_here one text below first marked)
      · rw [marks_other two second] at marked_more
        exact apart one two text more below least marked marked_more equal

/-- Where claims hold something at a place. -/
def Concealed.stands (claims : Json) : Concealed → Prop
  | .property path => path ≠ [] ∧ (valueAt path claims).isSome
  | .element path index => ∃ items, valueAt path claims = some (.array items) ∧ index < items.length

theorem Concealed.stands_under {members : List (String × Json)} {name : String} {value : Json}
    (found : SortedMap.lookup name members = some value) {place : Concealed}
    (stands : place.stands value) : (place.under name).stands (.object members) := by
  cases place with
  | property path =>
    obtain ⟨-, there⟩ := stands
    exact ⟨by simp, by simpa [valueAt, found] using there⟩
  | element path index =>
    obtain ⟨items, there, bound⟩ := stands
    exact ⟨items, by simpa [valueAt, found] using there, bound⟩

/-- What a step does in the value at the end of a path, it does in the whole. -/
theorem Veiled.at_path (ideal : Ideal provider) {path : List String} {claims shown : Json}
    (veiled : Veiled serde provider marks claims shown region) (held : claims.Held serde.Steady)
    {target changed : Json} (found : valueAt path shown = some target) {place : Concealed}
    (some_place : place ≠ .property []) {encoded : String} {drawn after : Nat}
    (onward : drawn ≤ after)
    (old : ∀ digest, region digest → Born serde provider 0 drawn digest)
    (deep : (∀ items, target ≠ .array items) ∨ ∀ other text, marks (.property other) = some text →
      path.length + 1 ≤ other.length)
    (step : ∀ {marks : Marks} {claims : Json} {region : String → Prop},
      Veiled serde provider marks claims target region → claims.Held serde.Steady →
      (∀ digest, region digest → Born serde provider 0 drawn digest) →
      Veiled serde provider (marks.mark place encoded) claims changed
          (fun digest => region digest ∨ Born serde provider drawn after digest) ∧
        marks place = none ∧ place.stands claims) :
    Veiled serde provider (marks.mark (path.foldr Concealed.under place) encoded) claims
        (putAt path changed shown)
        (fun digest => region digest ∨ Born serde provider drawn after digest) ∧
      marks (path.foldr Concealed.under place) = none ∧
      (path.foldr Concealed.under place).stands claims := by
  induction path generalizing marks region claims shown with
  | nil =>
    cases found
    exact step veiled held old
  | cons first rest ih =>
    cases veiled with
    | object each laid =>
      next members shown own part inner =>
      cases held with | object ordered held_each => ?_
      obtain ⟨value, at_first, found⟩ := Option.bind_eq_some_iff.mp found
      have folded : rest.foldr Concealed.under place ≠ .property [] := by
        cases rest with
        | nil => exact some_place
        | cons next rest =>
          rw [List.foldr_cons]
          cases rest.foldr Concealed.under place <;> simp [Concealed.under]
      have other : first ≠ "_sd" := by
        intro own_name
        rw [own_name] at at_first
        rcases laid.digests with ⟨absent, -⟩ | ⟨there, member, among, marked⟩
        · rw [absent] at at_first
          cases at_first
        · rw [there] at at_first
          cases at_first
          cases rest with
          | cons next rest => cases found
          | nil =>
            cases found
            rcases deep with never | least
            · exact never _ rfl
            · obtain ⟨text, marked⟩ := Option.isSome_iff_exists.mp marked
              have length := least _ text marked
              simp at length
      obtain ⟨⟨called, claim⟩, among, rfl, plain, rfl⟩ := laid.of_shown other at_first
      simp only at at_first other plain found ⊢
      have deeper : (∀ items, target ≠ .array items) ∨ ∀ other text,
          marks.under called (.property other) = some text → rest.length + 1 ≤ other.length := by
        refine deep.imp id fun least other text marked => ?_
        cases other with
        | nil => cases marked
        | cons next more =>
          have length := least (called :: next :: more) text marked
          simpa using length
      obtain ⟨veiled_in, unmarked, stands⟩ := ih (each _ among) (held_each _ among) found
        (fun digest inside => old digest (laid.inside _ among digest inside)) deeper
      rw [List.foldr_cons, ← Marks.under_apply marks called folded, putAt, at_first]
      refine ⟨?_, unmarked,
        Concealed.stands_under (SortedMap.lookup_of_mem ordered among) stands⟩
      refine Veiled.replace ideal each laid ordered among plain onward old ?_ ?_ ?_
      · rw [Marks.under_mark _ _ _ folded]
        exact veiled_in
      · exact fun name different => Marks.under_mark_other marks _ different
      · exact fun name => Marks.mark_under_property marks _ _ _ folded
    | _ => cases found

end Saffui.SdJwt
