import Saffui.SdJwt.Sealing

/-!
# Room for digests

Concealing nests deeper what it leaves: an object gets the array of its
digests, an element gives way to a carrier. A value is roomy within a number of
levels where these fit in wherever they may come, which concealing keeps; what
is roomy nests no deeper than that, so that its text is read.
-/

namespace Saffui
open Foundation

/-- A value of the library that leaves room for an array of digests in each
object and for a carrier in the place of each element. -/
inductive Json.Roomy (finite : Rat → Prop) : Nat → Json → Prop
  | null {levels : Nat} : Roomy finite levels .null
  | bool {levels : Nat} (value : Bool) : Roomy finite levels (.bool value)
  | number {levels : Nat} {value : Number} (held : (Json.number value).Held finite) :
      Roomy finite levels (.number value)
  | string {levels : Nat} (text : String) : Roomy finite levels (.string text)
  | array {levels : Nat} {items : List Json}
      (each : ∀ item ∈ items, (∀ digest, item ≠ .object [("...", .string digest)]) →
        Roomy finite (levels + 1) item) : Roomy finite (levels + 2) (.array items)
  | object {levels : Nat} {members : List (String × Json)}
      (sorted : members.Pairwise fun left right => left.1 < right.1)
      (each : ∀ member ∈ members, Roomy finite (levels + 2) member.2) :
      Roomy finite (levels + 3) (.object members)

namespace Json.Roomy

variable {finite : Rat → Prop} {levels : Nat} {value : Json}

theorem held (roomy : value.Roomy finite levels) : value.Held finite := by
  induction roomy with
  | null => exact .null
  | bool value => exact .bool value
  | number held => exact held
  | string text => exact .string text
  | array _ ih =>
    refine .array fun item inside => ?_
    by_cases carrier : ∃ digest, item = .object [("...", .string digest)]
    · obtain ⟨digest, rfl⟩ := carrier
      exact .object (List.pairwise_singleton _ _) (by simpa using Held.string digest)
    · exact ih item inside fun digest same => carrier ⟨digest, same⟩
  | object sorted _ ih => exact .object sorted ih

theorem depth_le (roomy : value.Roomy finite levels) : value.depth ≤ levels := by
  induction roomy with
  | null | bool | number | string => exact Nat.zero_le _
  | array _ ih =>
    refine depth_array_le.mpr fun item inside => ?_
    by_cases carrier : ∃ digest, item = .object [("...", .string digest)]
    · obtain ⟨digest, rfl⟩ := carrier
      exact depth_object_le.mpr (by simp [depth])
    · exact ih item inside fun digest same => carrier ⟨digest, same⟩
  | object _ _ ih => exact depth_object_le.mpr ih

theorem of_held (held : value.Held finite) (shallow : value.depth ≤ levels) :
    value.Roomy finite (levels + 2) := by
  induction value using Json.inductionOn generalizing levels with
  | null => exact .null
  | bool value => exact .bool value
  | number value => exact .number held
  | string text => exact .string text
  | array items ih =>
    cases held with | array each => ?_
    obtain ⟨below, rfl⟩ : ∃ below, levels = below + 1 :=
      Nat.exists_eq_succ_of_ne_zero (by rw [depth] at shallow; omega)
    exact .array fun item inside _ =>
      ih item inside (each item inside) (depth_array_le.mp shallow item inside)
  | object members ih =>
    cases held with | object sorted each => ?_
    obtain ⟨below, rfl⟩ : ∃ below, levels = below + 1 :=
      Nat.exists_eq_succ_of_ne_zero (by rw [depth] at shallow; omega)
    exact .object sorted fun member inside =>
      ih member inside (each member inside) (depth_object_le.mp shallow member inside)

theorem place {members : List (String × Json)} {name : String}
    (roomy : (Json.object members).Roomy finite (levels + 3)) (new : value.Roomy finite (levels + 2)) :
    (Json.object (SortedMap.place name value members)).Roomy finite (levels + 3) := by
  cases roomy with | object sorted each => ?_
  have ordered := SortedMap.place_sorted name value members sorted
  refine .object ordered fun entry inside => ?_
  have found := SortedMap.lookup_of_mem ordered inside
  rw [SortedMap.lookup_place _ _ _ _ sorted] at found
  split at found
  · cases found
    exact new
  · exact each _ (SortedMap.mem_of_lookup found)

theorem without {members : List (String × Json)} (name : String)
    (roomy : (Json.object members).Roomy finite levels) :
    (Json.object (SortedMap.without name members)).Roomy finite levels := by
  cases roomy with | object sorted each => ?_
  exact .object (SortedMap.without_sorted name sorted) fun entry inside =>
    each entry (List.mem_filter.mp inside).1

end Json.Roomy

namespace SdJwt

variable {serde : SerdeJson} {provider : CryptoProvider} {finite : Rat → Prop} {levels : Nat}

theorem SerdeJson.reads_of_roomy {value : Json} (roomy : value.Roomy serde.Steady levels) :
    serde.Reads levels value := ⟨roomy.held, roomy.depth_le⟩

theorem drawDecoys_roomy {decoys drawn after : Nat} {more : List Json}
    (ran : drawDecoys provider decoys drawn = .ok (more, after)) :
    ∀ item ∈ more, item.Roomy finite levels := by
  induction decoys generalizing drawn more with
  | zero =>
    cases ran
    simp
  | succ decoys ih =>
    obtain ⟨salted, -, ran⟩ := bind_eq_ok.mp ran
    obtain ⟨digest, -, ran⟩ := bind_eq_ok.mp ran
    obtain ⟨others, then_more, ended⟩ := bind_eq_ok.mp ran
    cases ended
    exact List.forall_mem_cons.mpr ⟨.string digest, ih then_more⟩

/-- A carrier is sealed as it is. -/
theorem sealDigests_carrier {decoys drawn after : Nat} {digest : String} {sealed : Json}
    (ran : sealDigests provider decoys (.object [("...", .string digest)]) drawn =
      .ok (sealed, after)) : sealed = .object [("...", .string digest)] := by
  cases ran
  rfl

theorem sealDigests_roomy {decoys drawn after : Nat} {value sealed : Json}
    (roomy : value.Roomy finite levels)
    (ran : sealDigests provider decoys value drawn = .ok (sealed, after)) :
    sealed.Roomy finite levels := by
  induction value using Json.inductionOn generalizing levels drawn after sealed with
  | array items ih =>
    cases roomy with | array each => ?_
    obtain ⟨⟨shown, last⟩, items_sealed, ended⟩ := bind_eq_ok.mp ran
    cases ended
    refine .array ?_
    clear ran
    induction items generalizing drawn shown with
    | nil =>
      cases items_sealed
      simp
    | cons item rest again =>
      obtain ⟨here, later⟩ := List.forall_mem_cons.mp ih
      obtain ⟨roomy_here, roomies⟩ := List.forall_mem_cons.mp each
      obtain ⟨⟨first, next⟩, item_sealed, ran⟩ := bind_eq_ok.mp items_sealed
      obtain ⟨⟨others, last⟩, rest_sealed, ended⟩ := bind_eq_ok.mp ran
      cases ended
      refine List.forall_mem_cons.mpr ⟨fun plain => ?_, again later roomies others rest_sealed⟩
      refine here (roomy_here fun digest same => ?_) item_sealed
      rw [same] at item_sealed
      exact plain digest (sealDigests_carrier item_sealed)
  | object members ih =>
    cases roomy with | @object below _ sorted each => ?_
    obtain ⟨shown, middle, members_sealed, ends⟩ := sealDigests_object ran
    have whole : shown.map Prod.fst = members.map Prod.fst ∧
        ∀ entry ∈ shown, entry.2.Roomy finite (below + 2) := by
      clear ran ends sorted
      induction members generalizing drawn shown with
      | nil =>
        cases members_sealed
        simp
      | cons member rest again =>
        obtain ⟨here, later⟩ := List.forall_mem_cons.mp ih
        obtain ⟨roomy_here, roomies⟩ := List.forall_mem_cons.mp each
        obtain ⟨name, value⟩ := member
        obtain ⟨⟨first, next⟩, value_sealed, ran⟩ := bind_eq_ok.mp members_sealed
        obtain ⟨⟨others, last⟩, rest_sealed, ended⟩ := bind_eq_ok.mp ran
        cases ended
        obtain ⟨names, entries⟩ := again later roomies others rest_sealed
        exact ⟨by simp [names], List.forall_mem_cons.mpr ⟨here roomy_here value_sealed, entries⟩⟩
    obtain ⟨names, entries⟩ := whole
    have ordered : Sorted shown := by
      have keys := List.pairwise_map.mpr sorted
      rw [← names] at keys
      exact List.pairwise_map.mp keys
    rcases ends with ⟨digests, more, found, drew, rfl⟩ | ⟨-, -, rfl⟩
    · refine Json.Roomy.place (.object ordered entries) (.array fun item inside plain => ?_)
      rcases List.mem_append.mp ((List.perm_insertionSort _ _).mem_iff.mp inside) with old | new
      · have array := entries _ (SortedMap.mem_of_lookup found)
        cases array with | array each_old => exact each_old item old plain
      · exact drawDecoys_roomy drew item new
    · exact .object ordered entries
  | _ =>
    cases ran
    exact roomy

/-- What stands at the end of a path is roomy within the levels left there, and
gives way to what is. -/
theorem roomy_at_path {path : List String} {value found : Json} (roomy : value.Roomy finite levels)
    (there : valueAt path value = some found) :
    ∃ left ≤ levels, found.Roomy finite left ∧
      ∀ changed : Json, changed.Roomy finite left → (putAt path changed value).Roomy finite levels := by
  induction path generalizing value levels with
  | nil =>
    cases there
    exact ⟨levels, le_rfl, roomy, fun _ new => new⟩
  | cons name path ih =>
    cases value with
    | object members =>
      obtain ⟨inner, at_name, there⟩ := Option.bind_eq_some_iff.mp there
      cases roomy with | object sorted each => ?_
      obtain ⟨left, within, roomy_found, replaced⟩ :=
        ih (each _ (SortedMap.mem_of_lookup at_name)) there
      refine ⟨left, by omega, roomy_found, fun changed new => ?_⟩
      rw [putAt, at_name]
      exact Json.Roomy.place (.object sorted each) (replaced changed new)
    | _ => cases there

end SdJwt

end Saffui
