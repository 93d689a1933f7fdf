import Saffui.SdJwt.UnfoldingSound

/-!
# What a value stands for

The claims that a payload stands for, given what each digest opens: an object
holds what stands in it in plain sight and what its own digests open, an array
its plain elements and what the digests of its carriers open, in their order,
and each of them stands for its own in turn. What unfolding accepts is that and
no more.
-/

namespace Saffui.SdJwt
open Foundation Foundation.Outcome

section
variable (opened : String → Option Disclosure)

/-- The property that a digest of an object opens. -/
def propertyOf (digest : Json) : Option (String × Json) := do
  let disclosure ← digest.asStr.bind opened
  let name ← disclosure.name
  return (name, disclosure.value)

/-- The properties of an object: those in plain sight, and those its digests open. -/
def propertiesOf (members : List (String × Json)) : List (String × Json) :=
  SortedMap.without "_sd" members ++
    match SortedMap.lookup "_sd" members with
    | some (.array digests) => digests.filterMap (propertyOf opened)
    | _ => []

/-- The element that stands at a place of an array, where it is not withheld. -/
def elementOf (item : Json) : Option Json :=
  match carrierOf item with
  | some digest => (opened digest).map Disclosure.value
  | none => some item

mutual

/-- What a value stands for. -/
inductive StandsFor : Json → Json → Prop
  | null : StandsFor .null .null
  | bool (value : Bool) : StandsFor (.bool value) (.bool value)
  | number (value : Number) : StandsFor (.number value) (.number value)
  | string (text : String) : StandsFor (.string text) (.string text)
  | array {items values : List Json}
      (each : StandForItems (items.filterMap (elementOf opened)) values) :
      StandsFor (.array items) (.array values)
  | object {members values : List (String × Json)} {unfolded : SortedMap String Json}
      (each : StandForMembers (propertiesOf opened members) values)
      (whole : unfolded.entries.Perm values) : StandsFor (.object members) (.object unfolded.entries)

/-- Each element stands for the one at its place. -/
inductive StandForItems : List Json → List Json → Prop
  | nil : StandForItems [] []
  | cons {item value : Json} {items values : List Json} (here : StandsFor item value)
      (rest : StandForItems items values) : StandForItems (item :: items) (value :: values)

/-- Each property stands for the one of its name. -/
inductive StandForMembers : List (String × Json) → List (String × Json) → Prop
  | nil : StandForMembers [] []
  | cons {name : String} {source value : Json} {members values : List (String × Json)}
      (here : StandsFor source value) (rest : StandForMembers members values) :
      StandForMembers ((name, source) :: members) ((name, value) :: values)

end

end

variable {opened : String → Option Disclosure} {finite : Rat → Prop}

theorem StandForMembers.append {members more values others : List (String × Json)}
    (first : StandForMembers opened members values) (second : StandForMembers opened more others) :
    StandForMembers opened (members ++ more) (values ++ others) := by
  induction members generalizing values with
  | nil =>
    cases first
    exact second
  | cons member rest ih =>
    cases first with
    | cons here later => exact .cons here (ih later)

/-- A new property stands beside those placed after it. -/
theorem entries_insert_perm {unfolded : SortedMap String Json} {name : String} {value : Json}
    (free : unfolded.get? name = none) {entries values : List (String × Json)}
    (whole : entries.Perm ((unfolded.insert name value).entries ++ values)) :
    entries.Perm (unfolded.entries ++ (name, value) :: values) :=
  whole.trans (((SortedMap.place_perm free).append_right values).trans List.perm_middle.symm)

/-- What unfolding one value gives is what it stands for. -/
def Faithful (opened : String → Option Disclosure) (finite : Rat → Prop)
    (unfold : Json → Unfolding → Outcome Refused (Json × Unfolding)) : Prop :=
  ∀ {value before result after}, unfold value before = pure (result, after) →
    value.Held finite → before.byDigest.get? = opened → StandsFor opened value result

section
variable {unfold : Json → Unfolding → Outcome Refused (Json × Unfolding)}
  (onward : ∀ {value before result after}, unfold value before = pure (result, after) →
    Further before after)
  (faithful : Faithful opened finite unfold)
include onward faithful

theorem unfoldMembers_standsFor {members : List (String × Json)} {unfolded : SortedMap String Json}
    {digests : Option Json} {before after : Unfolding} {result : SortedMap String Json × Option Json}
    (ran : unfoldMembers unfold members unfolded digests before = pure (result, after))
    (sorted : Sorted members) (each : ∀ member ∈ members, member.2.Held finite)
    (known : before.byDigest.get? = opened)
    (free : ∀ member ∈ members, unfolded.get? member.1 = none) :
    ∃ values, StandForMembers opened (SortedMap.without "_sd" members) values ∧
      result.1.entries.Perm (unfolded.entries ++ values) := by
  induction members generalizing unfolded digests before with
  | nil =>
    cases ran
    exact ⟨[], .nil, by rw [List.append_nil]⟩
  | cons member rest ih =>
    obtain ⟨above, later⟩ := List.pairwise_cons.mp sorted
    obtain ⟨here, others⟩ := List.forall_mem_cons.mp each
    obtain ⟨free_here, free_later⟩ := List.forall_mem_cons.mp free
    obtain ⟨name, value⟩ := member
    rw [unfoldMembers] at ran
    split at ran
    · next own =>
      have skipped : SortedMap.without "_sd" ((name, value) :: rest) =
          SortedMap.without "_sd" rest := by simp [SortedMap.without, own]
      rw [skipped]
      exact ih ran later others known free_later
    next other =>
    split at ran
    · cases ran
    split at ran
    · cases ran
    obtain ⟨⟨shown, middle⟩, first, then_rest⟩ := bind_eq_pure.mp ran
    have kept : SortedMap.without "_sd" ((name, value) :: rest) =
        (name, value) :: SortedMap.without "_sd" rest := by simp [SortedMap.without, other]
    have still : middle.byDigest.get? = opened := by rw [(onward first).known, known]
    have free_after : ∀ member ∈ rest, (unfolded.insert name shown).get? member.1 = none := by
      intro member inside
      have apart : member.1 ≠ name := (ne_of_lt (above member inside)).symm
      rw [SortedMap.get?_insert, if_neg apart]
      exact free_later member inside
    obtain ⟨values, stands, whole⟩ := ih then_rest later others still free_after
    rw [kept]
    exact ⟨(name, shown) :: values, .cons (faithful first here known) stands,
      entries_insert_perm free_here whole⟩

omit onward in
/-- A property is put back under its name, opened, where none stood. -/
theorem placeProperty_standsFor {disclosure : Disclosure} {unfolded result : SortedMap String Json}
    {before after : Unfolding}
    (ran : placeProperty unfold disclosure unfolded before = pure (result, after))
    (held : disclosure.value.Held finite) (known : before.byDigest.get? = opened) :
    ∃ name value, disclosure.name = some name ∧ unfolded.get? name = none ∧
      result = unfolded.insert name value ∧ StandsFor opened disclosure.value value := by
  unfold placeProperty at ran
  split at ran
  · cases ran
  next name named =>
  split at ran
  · cases ran
  split at ran
  · cases ran
  next free =>
  obtain ⟨⟨value, later⟩, placed, ended⟩ := bind_eq_pure.mp ran
  cases ended
  exact ⟨name, value, named, by simpa using free, rfl, faithful placed held known⟩

variable (held : ∀ digest disclosure, opened digest = some disclosure → disclosure.value.Held finite)
include held

theorem unfoldDigests_standsFor {digests : List Json} {unfolded result : SortedMap String Json}
    {before after : Unfolding}
    (ran : unfoldDigests unfold digests unfolded before = pure (result, after))
    (known : before.byDigest.get? = opened) :
    ∃ values, StandForMembers opened (digests.filterMap (propertyOf opened)) values ∧
      result.entries.Perm (unfolded.entries ++ values) := by
  induction digests generalizing unfolded before with
  | nil =>
    cases ran
    exact ⟨[], .nil, by rw [List.append_nil]⟩
  | cons digest rest ih =>
    cases digest with
    | string digest =>
      obtain ⟨⟨found, middle⟩, noted, ran⟩ := bind_eq_pure.mp ran
      have noted := settled_eq_pure.mp noted
      have still : middle.byDigest.get? = opened := by rw [(Further.of_note noted).known, known]
      obtain ⟨-, read, -⟩ := note_eq_ok noted
      rw [known] at read
      cases found with
      | none =>
        have none_here : propertyOf opened (.string digest) = none := by
          simp [propertyOf, Json.asStr, ← read]
        rw [List.filterMap_cons_none none_here]
        exact ih ran still
      | some disclosure =>
        obtain ⟨⟨more, later⟩, placing, ran⟩ := bind_eq_pure.mp ran
        obtain ⟨name, value, named, free, rfl, stands⟩ :=
          placeProperty_standsFor faithful placing (held digest disclosure read.symm) still
        have here : propertyOf opened (.string digest) = some (name, disclosure.value) := by
          simp [propertyOf, Json.asStr, ← read, named]
        have known_on : later.byDigest.get? = opened := by
          rw [(placeProperty_further onward placing).known, still]
        obtain ⟨values, stands_rest, whole⟩ := ih ran known_on
        rw [List.filterMap_cons_some here]
        exact ⟨(name, value) :: values, .cons stands stands_rest, entries_insert_perm free whole⟩
    | _ => cases ran

theorem unfoldObject_standsFor {members : List (String × Json)} {result : SortedMap String Json}
    {before after : Unfolding} (ran : unfoldObject unfold members before = pure (result, after))
    (sorted : Sorted members) (each : ∀ member ∈ members, member.2.Held finite)
    (known : before.byDigest.get? = opened) :
    StandsFor opened (.object members) (.object result.entries) := by
  obtain ⟨⟨⟨unfolded, digests⟩, middle⟩, first, ran⟩ := bind_eq_pure.mp ran
  obtain ⟨values, stands, whole⟩ :=
    unfoldMembers_standsFor onward faithful first sorted each known fun _ _ => rfl
  have own : digests = SortedMap.lookup "_sd" members :=
    (unfoldMembers_digests first).trans (lastDigests_sorted sorted)
  have still : middle.byDigest.get? = opened := by
    rw [(unfoldMembers_further onward first).known, known]
  dsimp only at ran
  split at ran
  · cases ran
    refine .object ?_ whole
    rw [propertiesOf, ← own, List.append_nil]
    exact stands
  · next texts =>
    obtain ⟨more, stands_more, whole_on⟩ := unfoldDigests_standsFor onward faithful held ran still
    refine @StandsFor.object _ _ (values ++ more) _ ?_ ?_
    · rw [propertiesOf, ← own]
      exact stands.append stands_more
    · exact whole_on.trans (whole.append_right more)
  · cases ran

theorem unfoldArray_standsFor {items result : List Json} {before after : Unfolding}
    (ran : unfoldArray unfold items before = pure (result, after))
    (each : ∀ item ∈ items, item.Held finite) (known : before.byDigest.get? = opened) :
    StandForItems opened (items.filterMap (elementOf opened)) result := by
  induction items generalizing before result with
  | nil =>
    cases ran
    exact .nil
  | cons item rest ih =>
    obtain ⟨here, later⟩ := List.forall_mem_cons.mp each
    obtain ⟨found, carrier, ran⟩ := bind_eq_pure.mp ran
    have carrier := carrierOf_of_carried (settled_eq_pure.mp carrier)
    cases found with
    | none =>
      obtain ⟨⟨value, middle⟩, first, ran⟩ := bind_eq_pure.mp ran
      obtain ⟨⟨values, final⟩, then_rest, ended⟩ := bind_eq_pure.mp ran
      cases ended
      have plain : elementOf opened item = some item := by rw [elementOf, carrier]
      have still : middle.byDigest.get? = opened := by rw [(onward first).known, known]
      rw [List.filterMap_cons_some plain]
      exact .cons (faithful first here known) (ih then_rest later still)
    | some digest =>
      obtain ⟨⟨found, middle⟩, noted, ran⟩ := bind_eq_pure.mp ran
      have noted := settled_eq_pure.mp noted
      have still : middle.byDigest.get? = opened := by rw [(Further.of_note noted).known, known]
      obtain ⟨-, read, -⟩ := note_eq_ok noted
      rw [known] at read
      cases found with
      | none =>
        have withheld : elementOf opened item = none := by simp [elementOf, carrier, ← read]
        rw [List.filterMap_cons_none withheld]
        exact ih ran later still
      | some disclosure =>
        dsimp only at ran
        split at ran
        · cases ran
        obtain ⟨⟨value, placed⟩, first, ran⟩ := bind_eq_pure.mp ran
        obtain ⟨⟨values, final⟩, then_rest, ended⟩ := bind_eq_pure.mp ran
        cases ended
        have put : elementOf opened item = some disclosure.value := by
          simp [elementOf, carrier, ← read]
        have known_on : placed.byDigest.get? = opened := by rw [(onward first).known, still]
        rw [List.filterMap_cons_some put]
        exact .cons (faithful first (held digest disclosure read.symm) still)
          (ih then_rest later known_on)

end

theorem unfoldValue_standsFor
    (held : ∀ digest disclosure, opened digest = some disclosure → disclosure.value.Held finite)
    (fuel : Nat) : Faithful opened finite (unfoldValue fuel) := by
  induction fuel with
  | zero =>
    intro value before result after ran
    cases ran
  | succ fuel ih =>
    intro value before result after ran value_held known
    cases value with
    | object members =>
      obtain ⟨⟨unfolded, later⟩, first, ended⟩ := bind_eq_pure.mp ran
      cases ended
      cases value_held with
      | object sorted each =>
        exact unfoldObject_standsFor unfoldValue_further ih held first sorted each known
    | array items =>
      obtain ⟨⟨unfolded, later⟩, first, ended⟩ := bind_eq_pure.mp ran
      cases ended
      cases value_held with
      | array each => exact .array (unfoldArray_standsFor unfoldValue_further ih held first each known)
    | null =>
      cases ran
      exact .null
    | bool value =>
      cases ran
      exact .bool value
    | number value =>
      cases ran
      exact .number value
    | string text =>
      cases ran
      exact .string text

end Saffui.SdJwt
