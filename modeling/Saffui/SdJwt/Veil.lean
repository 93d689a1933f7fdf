import Saffui.SdJwt.Conceal
import Saffui.SdJwt.Accepted

/-!
# Claims under a veil

What a payload and its disclosures are to the claims they were made from. A
claim at a place is in plain sight, or marked with the disclosure that holds
it; `Veiled` says this of every value within the claims, with the digests that
may stand in what was made of it. Under whatever part of the disclosures is
presented, what is veiled unfolds to the claims without those withheld.
-/

namespace Saffui.SdJwt
open Foundation Foundation.Outcome Crypto

/-- A place as it is named from within a member of the object it is in. -/
def Concealed.within (name : String) : Concealed → Option Concealed
  | .property (first :: second :: rest) =>
    if first = name then some (.property (second :: rest)) else none
  | .element (first :: rest) index => if first = name then some (.element rest index) else none
  | _ => none

/-- The elements of an array that are not withheld, the first of them at `index`. -/
def withholdItems (gone : List Concealed) : Nat → List Json → List Json
  | _, [] => []
  | index, item :: rest =>
    if .element [] index ∈ gone then withholdItems gone (index + 1) rest
    else item :: withholdItems gone (index + 1) rest

mutual

/-- A value without the properties and the elements at the places given. -/
def withhold (gone : List Concealed) : Json → Json
  | .object members => .object (withholdMembers gone members)
  | .array items => .array (withholdItems gone 0 items)
  | plain => plain

def withholdMembers (gone : List Concealed) : List (String × Json) → List (String × Json)
  | [] => []
  | (name, value) :: rest =>
    if .property [name] ∈ gone then withholdMembers gone rest
    else (name, withhold (gone.filterMap (Concealed.within name)) value) ::
      withholdMembers gone rest

end

theorem withholdItems_nil (index : Nat) (items : List Json) :
    withholdItems [] index items = items := by
  induction items generalizing index with
  | nil => rfl
  | cons item rest ih => rw [withholdItems, if_neg (by simp), ih]

theorem withhold_nil (value : Json) : withhold [] value = value := by
  induction value using Json.inductionOn with
  | array items => rw [withhold, withholdItems_nil]
  | object members each =>
    rw [withhold]
    congr 1
    induction members with
    | nil => rfl
    | cons member rest ih =>
      obtain ⟨here, later⟩ := List.forall_mem_cons.mp each
      obtain ⟨name, value⟩ := member
      rw [withholdMembers, if_neg (by simp), List.filterMap_nil, here, ih later]
  | _ => rfl

theorem lookup_withholdMembers (gone : List Concealed) (members : List (String × Json))
    (name : String) : SortedMap.lookup name (withholdMembers gone members) =
      if .property [name] ∈ gone then none
      else (SortedMap.lookup name members).map
        (withhold (gone.filterMap (Concealed.within name))) := by
  induction members with
  | nil => simp [withholdMembers, SortedMap.lookup]
  | cons member rest ih =>
    obtain ⟨found, value⟩ := member
    rw [withholdMembers]
    by_cases same : found = name
    · subst same
      by_cases withheld : .property [found] ∈ gone
      · rw [if_pos withheld, ih, if_pos withheld, if_pos withheld]
      · rw [if_neg withheld, if_neg withheld, SortedMap.lookup, if_pos rfl, SortedMap.lookup,
          if_pos rfl]
        rfl
    · by_cases withheld : .property [found] ∈ gone
      · rw [if_pos withheld, ih, SortedMap.lookup, if_neg same]
      · rw [if_neg withheld, SortedMap.lookup, if_neg same, ih, SortedMap.lookup, if_neg same]

theorem mem_withholdMembers {gone : List Concealed} {members : List (String × Json)}
    {member : String × Json} (inside : member ∈ withholdMembers gone members) :
    ∃ value, (member.1, value) ∈ members := by
  induction members with
  | nil => cases inside
  | cons found rest ih =>
    obtain ⟨name, value⟩ := found
    rw [withholdMembers] at inside
    split at inside
    · obtain ⟨value, there⟩ := ih inside
      exact ⟨value, List.mem_cons_of_mem _ there⟩
    · rcases List.mem_cons.mp inside with rfl | later
      · exact ⟨value, List.mem_cons_self⟩
      · obtain ⟨value, there⟩ := ih later
        exact ⟨value, List.mem_cons_of_mem _ there⟩

theorem withholdMembers_sorted (gone : List Concealed) {members : List (String × Json)}
    (sorted : Sorted members) : Sorted (withholdMembers gone members) := by
  induction members with
  | nil => exact .nil
  | cons member rest ih =>
    obtain ⟨above, later⟩ := List.pairwise_cons.mp sorted
    obtain ⟨name, value⟩ := member
    rw [withholdMembers]
    split
    · exact ih later
    · refine List.pairwise_cons.mpr ⟨fun member inside => ?_, ih later⟩
      obtain ⟨value, there⟩ := mem_withholdMembers inside
      exact above (member.1, value) there

/-- The disclosures of the claims at some places. -/
abbrev Marks := Concealed → Option String

/-- The marks as they stand within a member. -/
def Marks.under (marks : Marks) (name : String) : Marks
  | .property [] => none
  | .property path => marks (.property (name :: path))
  | .element path index => marks (.element (name :: path) index)

/-- One more claim marked. -/
def Marks.mark (marks : Marks) (place : Concealed) (encoded : String) : Marks :=
  fun other => if other = place then some encoded else marks other

/-- A place in a member, as it is named from the object the member is in. -/
def Concealed.under (name : String) : Concealed → Concealed
  | .property path => .property (name :: path)
  | .element path index => .element (name :: path) index

theorem Marks.under_apply (marks : Marks) (name : String) {place : Concealed}
    (some_place : place ≠ .property []) : marks.under name place = marks (place.under name) := by
  rcases place with (_ | ⟨first, rest⟩) | ⟨path, index⟩
  · exact absurd rfl some_place
  · rfl
  · rfl

theorem Marks.under_mark (marks : Marks) (name encoded : String) {place : Concealed}
    (some_place : place ≠ .property []) :
    (marks.mark (place.under name) encoded).under name = (marks.under name).mark place encoded := by
  funext other
  rcases place with (_ | ⟨first, rest⟩) | ⟨path, index⟩
  · exact absurd rfl some_place
  all_goals
    rcases other with (_ | ⟨next, more⟩) | ⟨further, at_index⟩ <;>
      simp [Marks.under, Marks.mark, Concealed.under]

/-- A mark in another member changes nothing within this one. -/
theorem Marks.under_mark_other (marks : Marks) {name other encoded : String} (place : Concealed)
    (apart : other ≠ name) : (marks.mark (place.under name) encoded).under other = marks.under other := by
  funext asked
  rcases asked with (_ | ⟨first, rest⟩) | ⟨path, index⟩
  · rfl
  all_goals
    cases place <;> simp [Marks.under, Marks.mark, Concealed.under, apart]

/-- A mark within a member is not on the member. -/
theorem Marks.mark_under_property (marks : Marks) (name asked encoded : String) {place : Concealed}
    (some_place : place ≠ .property []) :
    marks.mark (place.under name) encoded (.property [asked]) = marks (.property [asked]) := by
  rcases place with (_ | ⟨first, rest⟩) | ⟨path, index⟩
  · exact absurd rfl some_place
  all_goals simp [Marks.mark, Concealed.under]

/-- The place of a member is no mark within any. -/
theorem Marks.under_mark_here (marks : Marks) (name other encoded : String) :
    (marks.mark (.property [name]) encoded).under other = marks.under other := by
  funext asked
  rcases asked with (_ | ⟨first, rest⟩) | ⟨path, index⟩
  · rfl
  all_goals simp [Marks.under, Marks.mark]

variable (serde : SerdeJson) (provider : CryptoProvider)

/-- The digest of a disclosure, where the provider gives one. -/
def digestText (encoded : String) : String :=
  match digestOf provider .sha256 encoded with
  | .ok digest => digest
  | .error _ => ""

/-- A disclosure of a value, of a property where it is named. -/
structure Discloses (encoded : String) (name : Option String) (value : Json) : Prop where
  read : ∃ salt, Disclosure.read serde encoded = .ok ⟨encoded, salt, name, value⟩
  digested : digestOf provider .sha256 encoded = .ok (digestText provider encoded)

/-- A digest of a salt alone. -/
def Decoy (digest : String) : Prop :=
  ∃ drawn bytes, provider.fill drawn = .ok bytes ∧
    digestOf provider .sha256 (Base64.encode bytes.val) = .ok digest

/-- What stands at the place of an element. -/
def slot (marks : Marks) (index : Nat) (item : Json) : Json :=
  match marks (.element [] index) with
  | none => item
  | some encoded => .object [("...", .string (digestText provider encoded))]

def veilItems (marks : Marks) : Nat → List Json → List Json
  | _, [] => []
  | index, item :: rest => slot provider marks index item :: veilItems marks (index + 1) rest

/-- `region` holds the digests that may stand in an object, its own and those
in the parts of it that are made of its members, and none of them twice. -/
structure Apart (members : List (String × Json)) (own : List String)
    (inner : String → String → Prop) (region : String → Prop) : Prop where
  once : own.Nodup
  owned : ∀ digest ∈ own, region digest
  inside : ∀ member ∈ members, ∀ digest, inner member.1 digest → region digest
  own_apart : ∀ digest ∈ own, ∀ member ∈ members, ¬inner member.1 digest
  apart : ∀ member ∈ members, ∀ other ∈ members, member.1 ≠ other.1 →
    ∀ digest, inner member.1 digest → ¬inner other.1 digest

/-- What was made of the members of an object: the plain ones under their names,
the digests of the marked ones among its own. -/
structure Laid (marks : Marks) (members shown : List (String × Json))
    (own : List String) (part : String → Json) (inner : String → String → Prop)
    (region : String → Prop) : Prop extends Apart members own inner region where
  sorted : Sorted shown
  names : ∀ member ∈ members, member.1 ∉ RESERVED_NAMES
  plain : ∀ member ∈ members, marks (.property [member.1]) = none →
    SortedMap.lookup member.1 shown = some (part member.1)
  hidden : ∀ member ∈ members, ∀ encoded, marks (.property [member.1]) = some encoded →
    SortedMap.lookup member.1 shown = none ∧
      Discloses serde provider encoded (some member.1) (part member.1)
  absent : ∀ name, name ≠ "_sd" → (∀ member ∈ members, member.1 ≠ name) →
    SortedMap.lookup name shown = none
  digests : SortedMap.lookup "_sd" shown = none ∧ own = [] ∨
    SortedMap.lookup "_sd" shown = some (.array (own.map .string)) ∧
      ∃ member ∈ members, (marks (.property [member.1])).isSome
  linked : ∀ member ∈ members, ∀ encoded, marks (.property [member.1]) = some encoded →
    digestText provider encoded ∈ own
  made : ∀ digest ∈ own, Decoy provider digest ∨ ∃ member ∈ members, ∃ encoded,
    marks (.property [member.1]) = some encoded ∧ digest = digestText provider encoded

/-- A value whose claims stand in plain sight or are marked, and what was made
of it; `region` holds the digests that may stand there, within disclosures too. -/
inductive Veiled : Marks → Json → Json → (String → Prop) → Prop
  | null {marks : Marks} {region : String → Prop} : Veiled marks .null .null region
  | bool {marks : Marks} {region : String → Prop} (value : Bool) :
      Veiled marks (.bool value) (.bool value) region
  | number {marks : Marks} {region : String → Prop} (value : Number) :
      Veiled marks (.number value) (.number value) region
  | string {marks : Marks} {region : String → Prop} (text : String) :
      Veiled marks (.string text) (.string text) region
  | array {marks : Marks} {region : String → Prop} {items : List Json}
      (clean : ∀ item ∈ items, Clean item)
      (hidden : ∀ (index : Nat) (item : Json) (encoded : String), items[index]? = some item →
        marks (.element [] index) = some encoded →
          Discloses serde provider encoded none item ∧ region (digestText provider encoded))
      (apart : ∀ (index other : Nat) (encoded more : String), index < items.length →
        other < items.length → marks (.element [] index) = some encoded →
        marks (.element [] other) = some more →
          digestText provider encoded = digestText provider more → index = other) :
      Veiled marks (.array items) (.array (veilItems provider marks 0 items)) region
  | object {marks : Marks} {region : String → Prop} {members shown : List (String × Json)}
      {own : List String} {part : String → Json} {inner : String → String → Prop}
      (each : ∀ member ∈ members,
        Veiled (marks.under member.1) member.2 (part member.1) (inner member.1))
      (laid : Laid serde provider marks members shown own part inner region) :
      Veiled marks (.object members) (.object shown) region

variable {serde provider}
variable {marks : Marks} {members shown : List (String × Json)} {own : List String}
  {part : String → Json} {inner : String → String → Prop} {region : String → Prop}

namespace Laid

/-- What stands under a name that is not of the bookkeeping is a plain member. -/
theorem of_shown (laid : Laid serde provider marks members shown own part inner region)
    {name : String} {value : Json} (other : name ≠ "_sd")
    (found : SortedMap.lookup name shown = some value) :
    ∃ member ∈ members, member.1 = name ∧ marks (.property [member.1]) = none ∧
      value = part member.1 := by
  by_cases there : ∃ member ∈ members, member.1 = name
  · obtain ⟨member, among, rfl⟩ := there
    refine ⟨member, among, rfl, ?_⟩
    cases marked : marks (.property [member.1]) with
    | none =>
      rw [laid.plain member among marked] at found
      exact ⟨rfl, (Option.some.inj found).symm⟩
    | some encoded =>
      rw [(laid.hidden member among encoded marked).1] at found
      cases found
  · rw [laid.absent name other fun member among same => there ⟨member, among, same⟩] at found
    cases found

end Laid

end Saffui.SdJwt
