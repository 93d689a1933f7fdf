import Mathlib.Algebra.Order.Ring.Nat
import Mathlib.Data.List.Nodup
import Mathlib.Data.List.Perm.Basic
import Saffui.SdJwt.Disclosure

/-!
# Unfolding

`Unfolding` of `crypto/src/sd_jwt/verify.rs`: the disclosures of a presentation
put back where their digests stand.

The recursion follows digests into values the presenter supplies, so it is
given fuel; `panics` is what it ends with where that runs out, as a recursion
without an end overflows the stack. `unfoldValue_returns` bounds what it takes:
the size of what is unfolded, and of the disclosures whose digest was not met.
-/

namespace Saffui.SdJwt
open Foundation Foundation.Outcome Crypto

/-- The disclosures of one presentation, by their digests, with the digests
that were met and those of them that opened one. -/
structure Unfolding where
  byDigest : SortedMap String Disclosure
  used : List String
  seen : List String

/-- One more disclosure, which may be presented once. -/
def addDisclosure (serde : SerdeJson) (provider : CryptoProvider) (hash : HashAlg)
    (byDigest : SortedMap String Disclosure) (encoded : String) :
    Except Refused (SortedMap String Disclosure) := do
  let disclosure ← Disclosure.read serde encoded
  let digest ← digestOf provider hash encoded
  if (byDigest.get? digest).isSome then throw .repeatedDisclosure
  return byDigest.insert digest disclosure

def Unfolding.of (serde : SerdeJson) (provider : CryptoProvider) (hash : HashAlg)
    (disclosures : List String) : Except Refused Unfolding := do
  let byDigest ← disclosures.foldlM (addDisclosure serde provider hash) .empty
  return ⟨byDigest, [], []⟩

/-- A digest may stand once in the whole payload, disclosures included. -/
def note (unfolding : Unfolding) (digest : String) :
    Except Refused (Option Disclosure × Unfolding) :=
  if digest ∈ unfolding.seen then .error .repeatedDigest
  else
    match unfolding.byDigest.get? digest with
    | none => .ok (none, { unfolding with seen := digest :: unfolding.seen })
    | some disclosure => .ok (some disclosure, { unfolding with
        used := unfolding.used.insert digest, seen := digest :: unfolding.seen })

/-- The digest an array element carries, where it is a carrier of one. -/
def carried : Json → Except Refused (Option String)
  | .object members =>
    if (Json.field members "...").isSome then
      match members with
      | [(_, .string digest)] => .ok (some digest)
      | _ => .error .malformedDigestCarrier
    else .ok none
  | _ => .ok none

section
variable (unfoldValue : Json → Unfolding → Outcome Refused (Json × Unfolding))

/-- The members of an object that stand in plain sight, and its digests. -/
def unfoldMembers : List (String × Json) → SortedMap String Json → Option Json → Unfolding →
    Outcome Refused ((SortedMap String Json × Option Json) × Unfolding)
  | [], unfolded, digests, unfolding => pure ((unfolded, digests), unfolding)
  | (name, value) :: rest, unfolded, digests, unfolding =>
    if name = "_sd" then unfoldMembers rest unfolded (some value) unfolding
    else if name = "..." then settled (.error .malformedDigestCarrier)
    else if name = "_sd_alg" then settled (.error .misplacedHashAlgorithm)
    else do
      let (value, unfolding) ← unfoldValue value unfolding
      unfoldMembers rest (unfolded.insert name value) digests unfolding

/-- A property put back into the object its digest stands in. -/
def placeProperty (disclosure : Disclosure) (unfolded : SortedMap String Json)
    (unfolding : Unfolding) : Outcome Refused (SortedMap String Json × Unfolding) :=
  match disclosure.name with
  | none => settled (.error .malformedDisclosure)
  | some name =>
    if name ∈ RESERVED_NAMES then settled (.error (.forbiddenClaimName name))
    else if (unfolded.get? name).isSome then settled (.error (.claimCollision name))
    else do
      let (value, unfolding) ← unfoldValue disclosure.value unfolding
      return (unfolded.insert name value, unfolding)

def unfoldDigests : List Json → SortedMap String Json → Unfolding →
    Outcome Refused (SortedMap String Json × Unfolding)
  | [], unfolded, unfolding => pure (unfolded, unfolding)
  | .string digest :: rest, unfolded, unfolding => do
    let (found, unfolding) ← settled (note unfolding digest)
    match found with
    | none => unfoldDigests rest unfolded unfolding
    | some disclosure =>
      let (unfolded, unfolding) ← placeProperty unfoldValue disclosure unfolded unfolding
      unfoldDigests rest unfolded unfolding
  | _ :: _, _, _ => settled (.error .malformedDigestCarrier)

def unfoldObject (members : List (String × Json)) (unfolding : Unfolding) :
    Outcome Refused (SortedMap String Json × Unfolding) := do
  let ((unfolded, digests), unfolding) ← unfoldMembers unfoldValue members .empty none unfolding
  match digests with
  | none => return (unfolded, unfolding)
  | some (.array digests) => unfoldDigests unfoldValue digests unfolded unfolding
  | some _ => settled (.error .malformedDigestCarrier)

/-- The elements of an array. One whose disclosure was withheld leaves it. -/
def unfoldArray : List Json → Unfolding → Outcome Refused (List Json × Unfolding)
  | [], unfolding => pure ([], unfolding)
  | element :: rest, unfolding => do
    match ← settled (carried element) with
    | none =>
      let (value, unfolding) ← unfoldValue element unfolding
      let (values, unfolding) ← unfoldArray rest unfolding
      return (value :: values, unfolding)
    | some digest =>
      let (found, unfolding) ← settled (note unfolding digest)
      match found with
      | none => unfoldArray rest unfolding
      | some disclosure =>
        if disclosure.name.isSome then settled (.error .malformedDisclosure)
        else
          let (value, unfolding) ← unfoldValue disclosure.value unfolding
          let (values, unfolding) ← unfoldArray rest unfolding
          return (value :: values, unfolding)

end

def unfoldValue : Nat → Json → Unfolding → Outcome Refused (Json × Unfolding)
  | 0, _, _ => panics
  | fuel + 1, .object members, unfolding => do
    let (unfolded, unfolding) ← unfoldObject (unfoldValue fuel) members unfolding
    return (.object unfolded.entries, unfolding)
  | fuel + 1, .array items, unfolding => do
    let (unfolded, unfolding) ← unfoldArray (unfoldValue fuel) items unfolding
    return (.array unfolded, unfolding)
  | _ + 1, plain, unfolding => pure (plain, unfolding)

/-- The steps of `verify_presentation` between the payload that was read and
the claims: the hash it names, the disclosures, and what they unfold to. -/
def unfoldClaims (serde : SerdeJson) (provider : CryptoProvider) (fuel : Nat)
    (payload : List (String × Json)) (disclosures : List String) :
    Outcome Refused (SortedMap String Json) := do
  let hash ← settled (hashNamed serde (SortedMap.lookup "_sd_alg" payload))
  let unfolding ← settled (Unfolding.of serde provider hash disclosures)
  let (claims, unfolding) ← unfoldObject (unfoldValue fuel)
    (SortedMap.without "_sd_alg" payload) unfolding
  if unfolding.used.length ≠ unfolding.byDigest.entries.length then
    settled (.error .unreferencedDisclosure)
  else return claims

theorem note_eq_ok {unfolding after : Unfolding} {digest : String} {found : Option Disclosure}
    (noted : note unfolding digest = .ok (found, after)) :
    digest ∉ unfolding.seen ∧ found = unfolding.byDigest.get? digest ∧
      after = { unfolding with
        seen := digest :: unfolding.seen
        used := if found.isSome then unfolding.used.insert digest else unfolding.used } := by
  unfold note at noted
  split at noted
  · cases noted
  · next fresh =>
    refine ⟨fresh, ?_⟩
    split at noted
    · next absent =>
      cases noted
      exact ⟨absent.symm, rfl⟩
    · next there =>
      cases noted
      exact ⟨there.symm, rfl⟩

/-- What the disclosures weigh whose digests were not met. -/
noncomputable def pending (unfolding : Unfolding) : Nat :=
  ((unfolding.byDigest.entries.filter fun entry => entry.1 ∉ unfolding.seen).map
    fun entry => sizeOf entry.2.value + 1).sum

theorem sum_filter_le {entries : List (String × Disclosure)} {seen more : List String}
    (wider : seen ⊆ more) :
    ((entries.filter fun entry => entry.1 ∉ more).map fun entry => sizeOf entry.2.value + 1).sum ≤
      ((entries.filter fun entry => entry.1 ∉ seen).map
        fun entry => sizeOf entry.2.value + 1).sum := by
  induction entries with
  | nil => simp
  | cons entry rest ih =>
    by_cases met : entry.1 ∈ seen
    · simpa [met, wider met] using ih
    · by_cases met_later : entry.1 ∈ more
      · simp only [List.filter_cons, met, met_later, not_true, not_false_eq_true, decide_true,
          decide_false, if_true, Bool.false_eq_true, if_false, List.map_cons, List.sum_cons]
        omega
      · simp only [List.filter_cons, met, met_later, not_false_eq_true, decide_true, if_true,
          List.map_cons, List.sum_cons]
        omega

/-- A digest met that opens a disclosure takes its weight from what is left. -/
theorem sum_filter_lt {entries : List (String × Disclosure)} {seen : List String}
    {digest : String} {disclosure : Disclosure} (inside : (digest, disclosure) ∈ entries)
    (fresh : digest ∉ seen) :
    ((entries.filter fun entry => entry.1 ∉ digest :: seen).map
        fun entry => sizeOf entry.2.value + 1).sum + sizeOf disclosure.value + 1 ≤
      ((entries.filter fun entry => entry.1 ∉ seen).map
        fun entry => sizeOf entry.2.value + 1).sum := by
  induction entries with
  | nil => cases inside
  | cons entry rest ih =>
    have later := @sum_filter_le rest seen (digest :: seen) (List.subset_cons_self digest seen)
    rcases List.mem_cons.mp inside with same | further
    · subst same
      simp only [List.filter_cons, List.mem_cons_self, fresh, not_true, not_false_eq_true,
        decide_true, decide_false, if_true, Bool.false_eq_true, if_false, List.map_cons,
        List.sum_cons] at later ⊢
      omega
    · have rest_lt := ih further
      by_cases met : entry.1 ∈ seen
      · simpa [met] using rest_lt
      · by_cases same : entry.1 = digest
        · simp only [List.filter_cons, same, List.mem_cons_self, fresh, not_true,
            not_false_eq_true, decide_true, decide_false, if_true, Bool.false_eq_true, if_false,
            List.map_cons, List.sum_cons] at rest_lt ⊢
          omega
        · have other : entry.1 ∉ digest :: seen := by simp [same, met]
          simp only [List.filter_cons, met, other, not_false_eq_true, decide_true, if_true,
            List.map_cons, List.sum_cons] at rest_lt ⊢
          omega

/-- A state reached from another: its disclosures, and no digest forgotten. -/
structure Further (before after : Unfolding) : Prop where
  known : after.byDigest = before.byDigest
  seen : before.seen ⊆ after.seen

namespace Further

theorem refl (unfolding : Unfolding) : Further unfolding unfolding :=
  ⟨rfl, List.Subset.refl _⟩

theorem trans {one two three : Unfolding} (first : Further one two) (second : Further two three) :
    Further one three :=
  ⟨second.known.trans first.known, List.Subset.trans first.seen second.seen⟩

theorem pending_le {before after : Unfolding} (further : Further before after) :
    pending after ≤ pending before := by
  unfold pending
  rw [further.known]
  exact sum_filter_le further.seen

theorem of_note {unfolding after : Unfolding} {digest : String} {found : Option Disclosure}
    (noted : note unfolding digest = .ok (found, after)) : Further unfolding after := by
  obtain ⟨-, -, rfl⟩ := note_eq_ok noted
  exact ⟨rfl, List.subset_cons_self _ _⟩

end Further

theorem pending_note {unfolding after : Unfolding} {digest : String} {disclosure : Disclosure}
    (noted : note unfolding digest = .ok (some disclosure, after)) :
    pending after + sizeOf disclosure.value + 1 ≤ pending unfolding := by
  obtain ⟨fresh, found, rfl⟩ := note_eq_ok noted
  exact sum_filter_lt ((SortedMap.mem_entries_iff _ _ _).mpr found.symm) fresh

section
variable {unfold : Json → Unfolding → Outcome Refused (Json × Unfolding)}
  (onward : ∀ {value before result after}, unfold value before = pure (result, after) →
    Further before after)
include onward

theorem unfoldMembers_further {members : List (String × Json)} {unfolded : SortedMap String Json}
    {digests : Option Json} {before after : Unfolding} {result : SortedMap String Json × Option Json}
    (ran : unfoldMembers unfold members unfolded digests before = pure (result, after)) :
    Further before after := by
  induction members generalizing unfolded digests before with
  | nil =>
    cases ran
    exact .refl _
  | cons member rest ih =>
    obtain ⟨name, value⟩ := member
    rw [unfoldMembers] at ran
    split at ran
    · exact ih ran
    split at ran
    · cases ran
    split at ran
    · cases ran
    obtain ⟨⟨result, middle⟩, first, then_rest⟩ := bind_eq_pure.mp ran
    exact (onward first).trans (ih then_rest)

theorem placeProperty_further {disclosure : Disclosure} {unfolded result : SortedMap String Json}
    {before after : Unfolding}
    (ran : placeProperty unfold disclosure unfolded before = pure (result, after)) :
    Further before after := by
  unfold placeProperty at ran
  split at ran
  · cases ran
  split at ran
  · cases ran
  split at ran
  · cases ran
  obtain ⟨⟨value, middle⟩, placed, ended⟩ := bind_eq_pure.mp ran
  cases ended
  exact onward placed

theorem unfoldDigests_further {digests : List Json} {unfolded result : SortedMap String Json}
    {before after : Unfolding}
    (ran : unfoldDigests unfold digests unfolded before = pure (result, after)) :
    Further before after := by
  induction digests generalizing unfolded before with
  | nil =>
    cases ran
    exact .refl _
  | cons digest rest ih =>
    cases digest with
    | string digest =>
      obtain ⟨⟨found, middle⟩, noted, ran⟩ := bind_eq_pure.mp ran
      have met := Further.of_note (settled_eq_pure.mp noted)
      cases found with
      | none => exact met.trans (ih ran)
      | some disclosure =>
        obtain ⟨⟨more, later⟩, placed, ran⟩ := bind_eq_pure.mp ran
        exact met.trans ((placeProperty_further onward placed).trans (ih ran))
    | _ => cases ran

theorem unfoldObject_further {members : List (String × Json)} {result : SortedMap String Json}
    {before after : Unfolding} (ran : unfoldObject unfold members before = pure (result, after)) :
    Further before after := by
  obtain ⟨⟨⟨unfolded, digests⟩, middle⟩, first, ran⟩ := bind_eq_pure.mp ran
  have further := unfoldMembers_further onward first
  dsimp only at ran
  split at ran
  · cases ran
    exact further
  · exact further.trans (unfoldDigests_further onward ran)
  · cases ran

theorem unfoldArray_further {items result : List Json} {before after : Unfolding}
    (ran : unfoldArray unfold items before = pure (result, after)) : Further before after := by
  induction items generalizing before result with
  | nil =>
    cases ran
    exact .refl _
  | cons item rest ih =>
    obtain ⟨found, -, ran⟩ := bind_eq_pure.mp ran
    cases found with
    | none =>
      obtain ⟨⟨value, middle⟩, first, ran⟩ := bind_eq_pure.mp ran
      obtain ⟨⟨values, later⟩, then_rest, ended⟩ := bind_eq_pure.mp ran
      cases ended
      exact (onward first).trans (ih then_rest)
    | some digest =>
      obtain ⟨⟨found, middle⟩, noted, ran⟩ := bind_eq_pure.mp ran
      have met := Further.of_note (settled_eq_pure.mp noted)
      cases found with
      | none => exact met.trans (ih ran)
      | some disclosure =>
        dsimp only at ran
        split at ran
        · cases ran
        obtain ⟨⟨value, placed⟩, first, ran⟩ := bind_eq_pure.mp ran
        obtain ⟨⟨values, later⟩, then_rest, ended⟩ := bind_eq_pure.mp ran
        cases ended
        exact met.trans ((onward first).trans (ih then_rest))

end

theorem unfoldValue_further {fuel : Nat} {value result : Json} {before after : Unfolding}
    (ran : unfoldValue fuel value before = pure (result, after)) : Further before after := by
  induction fuel generalizing value before result after with
  | zero => cases ran
  | succ fuel ih =>
    cases value with
    | object members =>
      obtain ⟨⟨unfolded, later⟩, first, ended⟩ := bind_eq_pure.mp ran
      cases ended
      exact unfoldObject_further ih first
    | array items =>
      obtain ⟨⟨unfolded, later⟩, first, ended⟩ := bind_eq_pure.mp ran
      cases ended
      exact unfoldArray_further ih first
    | _ =>
      cases ran
      exact .refl _

section
variable {unfold : Json → Unfolding → Outcome Refused (Json × Unfolding)} {bound : Nat}
  (onward : ∀ {value before result after}, unfold value before = pure (result, after) →
    Further before after)
  (ends : ∀ {value unfolding}, sizeOf value + pending unfolding < bound →
    Returns (unfold value unfolding))
include onward ends

theorem unfoldMembers_returns {members : List (String × Json)} {unfolded : SortedMap String Json}
    {digests : Option Json} {unfolding : Unfolding}
    (small : ∀ member ∈ members, sizeOf member.2 + pending unfolding < bound) :
    Returns (unfoldMembers unfold members unfolded digests unfolding) := by
  induction members generalizing unfolded digests unfolding with
  | nil => exact returns_pure _
  | cons member rest ih =>
    obtain ⟨here, later⟩ := List.forall_mem_cons.mp small
    obtain ⟨name, value⟩ := member
    rw [unfoldMembers]
    split
    · exact ih later
    split
    · exact returns_settled _
    split
    · exact returns_settled _
    refine returns_bind (ends here) fun step ran => ?_
    obtain ⟨result, after⟩ := step
    refine ih fun member inside => ?_
    have fewer := (onward ran).pending_le
    have fits := later member inside
    omega

theorem unfoldDigests_returns {digests : List Json} {unfolded : SortedMap String Json}
    {unfolding : Unfolding} (small : pending unfolding ≤ bound) :
    Returns (unfoldDigests unfold digests unfolded unfolding) := by
  induction digests generalizing unfolded unfolding with
  | nil => exact returns_pure _
  | cons digest rest ih =>
    cases digest with
    | string digest =>
      refine returns_bind (returns_settled _) fun step noted => ?_
      obtain ⟨found, after⟩ := step
      have met := settled_eq_pure.mp noted
      have fewer := (Further.of_note met).pending_le
      cases found with
      | none => exact ih (by omega)
      | some disclosure =>
        have weight := pending_note met
        have placing : Returns (placeProperty unfold disclosure unfolded after) := by
          unfold placeProperty
          split
          · exact returns_settled _
          split
          · exact returns_settled _
          split
          · exact returns_settled _
          exact returns_bind (ends (by omega)) fun _ _ => returns_pure _
        refine returns_bind placing fun step placed => ?_
        obtain ⟨more, later⟩ := step
        refine ih ?_
        have left := (placeProperty_further onward placed).pending_le
        omega
    | _ => exact returns_settled _

theorem unfoldObject_returns {members : List (String × Json)} {unfolding : Unfolding}
    (small : ∀ member ∈ members, sizeOf member.2 + pending unfolding < bound)
    (fits : pending unfolding ≤ bound) : Returns (unfoldObject unfold members unfolding) := by
  refine returns_bind (unfoldMembers_returns onward ends small) fun step ran => ?_
  obtain ⟨⟨unfolded, digests⟩, after⟩ := step
  have fewer := (unfoldMembers_further onward ran).pending_le
  dsimp only
  split
  · exact returns_pure _
  · exact unfoldDigests_returns onward ends (by omega)
  · exact returns_settled _

theorem unfoldArray_returns {items : List Json} {unfolding : Unfolding}
    (small : ∀ item ∈ items, sizeOf item + pending unfolding < bound)
    (fits : pending unfolding ≤ bound) : Returns (unfoldArray unfold items unfolding) := by
  induction items generalizing unfolding with
  | nil => exact returns_pure _
  | cons item rest ih =>
    obtain ⟨here, later⟩ := List.forall_mem_cons.mp small
    have again : ∀ after, pending after ≤ pending unfolding →
        Returns (unfoldArray unfold rest after) := fun after fewer =>
      ih (fun item inside => by have := later item inside; omega) (by omega)
    refine returns_bind (returns_settled _) fun found _ => ?_
    cases found with
    | none =>
      refine returns_bind (ends here) fun step ran => ?_
      obtain ⟨value, after⟩ := step
      exact returns_bind (again after (onward ran).pending_le) fun _ _ => returns_pure _
    | some digest =>
      refine returns_bind (returns_settled _) fun step noted => ?_
      obtain ⟨found, after⟩ := step
      have met := settled_eq_pure.mp noted
      have fewer := (Further.of_note met).pending_le
      cases found with
      | none => exact again after fewer
      | some disclosure =>
        have weight := pending_note met
        dsimp only
        split
        · exact returns_settled _
        refine returns_bind (ends (by omega)) fun step ran => ?_
        obtain ⟨value, placed⟩ := step
        have left := (onward ran).pending_le
        exact returns_bind (again placed (by omega)) fun _ _ => returns_pure _

end

/-- The recursion ends within the size of what is unfolded and the weight of
the disclosures not met yet, whatever they hold and refer to. -/
theorem unfoldValue_returns {fuel : Nat} {value : Json} {unfolding : Unfolding}
    (enough : sizeOf value + pending unfolding < fuel) :
    Returns (unfoldValue fuel value unfolding) := by
  induction fuel generalizing value unfolding with
  | zero => omega
  | succ fuel ih =>
    cases value with
    | object members =>
      have small : ∀ member ∈ members, sizeOf member.2 + pending unfolding < fuel := by
        intro member inside
        have within := List.sizeOf_lt_of_mem inside
        have pair : sizeOf member = 1 + sizeOf member.1 + sizeOf member.2 := by
          cases member
          rfl
        rw [Json.object.sizeOf_spec] at enough
        omega
      refine returns_bind ?_ fun _ _ => returns_pure _
      exact unfoldObject_returns unfoldValue_further ih small (by omega)
    | array items =>
      have small : ∀ item ∈ items, sizeOf item + pending unfolding < fuel := by
        intro item inside
        have within := List.sizeOf_lt_of_mem inside
        rw [Json.array.sizeOf_spec] at enough
        omega
      refine returns_bind ?_ fun _ _ => returns_pure _
      exact unfoldArray_returns unfoldValue_further ih small (by omega)
    | _ => exact returns_pure _

end Saffui.SdJwt
