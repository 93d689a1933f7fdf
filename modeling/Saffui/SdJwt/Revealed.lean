import Saffui.SdJwt.Veil

/-!
# What a presentation reveals

Whatever is veiled unfolds, under any part of its disclosures, to the claims
without those withheld: a property whose disclosure is presented comes back
under its name, an element where it stood, and what hides neither is met and
opens nothing.
-/

namespace Saffui.SdJwt
open Foundation Foundation.Outcome Crypto

/-- A run out of fuel, or one that ends with a value, its disclosures as they
were, and no digest met outside a region. -/
def Lands {α : Type} (run : Outcome Refused (α × Unfolding)) (before : Unfolding)
    (region : String → Prop) (holds : α → Prop) : Prop :=
  run = panics ∨ ∃ result after, run = pure (result, after) ∧ holds result ∧
    after.byDigest = before.byDigest ∧ ∀ digest ∈ after.seen, digest ∈ before.seen ∨ region digest

namespace Lands

variable {α β : Type} {before middle : Unfolding} {region more : String → Prop}
  {holds others : α → Prop} {ends : β → Prop}

theorem stays {value : α} (here : holds value) : Lands (pure (value, before)) before region holds :=
  Or.inr ⟨value, before, rfl, here, rfl, fun _ => Or.inl⟩

theorem mono {run : Outcome Refused (α × Unfolding)} (lands : Lands run before region holds)
    (wider : ∀ digest, region digest → more digest) (weaker : ∀ value, holds value → others value) :
    Lands run before more others := by
  rcases lands with out | ⟨result, after, ran, here, known, seen⟩
  · exact Or.inl out
  · exact Or.inr ⟨result, after, ran, weaker _ here, known, fun digest met =>
      (seen digest met).imp_right (wider digest)⟩

/-- One run after another, within one region. -/
theorem bind {run : Outcome Refused (α × Unfolding)}
    {next : α × Unfolding → Outcome Refused (β × Unfolding)}
    (first : Lands run before region holds)
    (second : ∀ result after, holds result → after.byDigest = before.byDigest →
      (∀ digest ∈ after.seen, digest ∈ before.seen ∨ region digest) →
        Lands (next (result, after)) after more ends)
    (inside : ∀ digest, region digest → more digest) :
    Lands (run >>= next) before more ends := by
  rcases first with out | ⟨result, after, ran, here, known, seen⟩
  · exact Or.inl (by rw [out]; rfl)
  · rw [ran, pure_bind]
    rcases second result after here known seen with out | ⟨final, last, ran, there, still, met⟩
    · exact Or.inl out
    · refine Or.inr ⟨final, last, ran, there, still.trans known, fun digest found => ?_⟩
      rcases met digest found with earlier | later
      · exact (seen digest earlier).imp_right (inside digest)
      · exact Or.inr later

end Lands

theorem carried_clean {value : Json} (clean : Clean value) : carried value = .ok none := by
  cases clean with
  | object names each =>
    next members =>
    have absent : Json.field members "..." = none := by
      rw [Json.field_entries]
      by_contra there
      obtain ⟨value, found⟩ := Option.ne_none_iff_exists'.mp there
      exact names _ (SortedMap.mem_of_lookup found) (by simp [RESERVED_NAMES])
    simp [carried, absent]
  | _ => rfl

theorem unfoldMembers_clean {unfold : Json → Unfolding → Outcome Refused (Json × Unfolding)}
    {members : List (String × Json)}
    (same : ∀ member ∈ members, ∀ unfolding,
      unfold member.2 unfolding = panics ∨ unfold member.2 unfolding = pure (member.2, unfolding))
    (names : ∀ member ∈ members, member.1 ∉ RESERVED_NAMES) (unfolded : SortedMap String Json)
    (unfolding : Unfolding) :
    unfoldMembers unfold members unfolded none unfolding = panics ∨
      unfoldMembers unfold members unfolded none unfolding =
        pure ((members.foldl (fun map entry => map.insert entry.1 entry.2) unfolded, none),
          unfolding) := by
  induction members generalizing unfolded with
  | nil => exact Or.inr rfl
  | cons member rest ih =>
    obtain ⟨here, later⟩ := List.forall_mem_cons.mp same
    obtain ⟨allowed, others⟩ := List.forall_mem_cons.mp names
    obtain ⟨name, value⟩ := member
    simp only [RESERVED_NAMES, List.mem_cons, List.not_mem_nil, or_false, not_or] at allowed
    rw [unfoldMembers, if_neg allowed.1, if_neg allowed.2.1, if_neg allowed.2.2]
    rcases here unfolding with out | ran
    · exact Or.inl (by rw [out]; rfl)
    · rw [ran, pure_bind]
      exact ih later others (unfolded.insert name value)

theorem unfoldArray_clean {unfold : Json → Unfolding → Outcome Refused (Json × Unfolding)}
    {items : List Json}
    (same : ∀ item ∈ items, ∀ unfolding,
      unfold item unfolding = panics ∨ unfold item unfolding = pure (item, unfolding))
    (clean : ∀ item ∈ items, Clean item) (unfolding : Unfolding) :
    unfoldArray unfold items unfolding = panics ∨
      unfoldArray unfold items unfolding = pure (items, unfolding) := by
  induction items with
  | nil => exact Or.inr rfl
  | cons item rest ih =>
    obtain ⟨here, later⟩ := List.forall_mem_cons.mp same
    obtain ⟨clean_here, cleans⟩ := List.forall_mem_cons.mp clean
    rw [unfoldArray, carried_clean clean_here, settled_ok, pure_bind]
    rcases here unfolding with out | ran
    · exact Or.inl (by rw [out]; rfl)
    · rw [ran, pure_bind]
      dsimp only
      rcases ih later cleans with out | ran_on
      · exact Or.inl (by rw [out]; rfl)
      · exact Or.inr (by rw [ran_on]; rfl)

/-- A value without the names of the bookkeeping unfolds to itself. -/
theorem unfoldValue_clean {finite : Rat → Prop} {value : Json} (clean : Clean value)
    (held : value.Held finite) (fuel : Nat) (unfolding : Unfolding) :
    unfoldValue fuel value unfolding = panics ∨
      unfoldValue fuel value unfolding = pure (value, unfolding) := by
  induction value using Json.inductionOn generalizing fuel unfolding with
  | array items ih =>
    cases fuel with
    | zero => exact Or.inl rfl
    | succ fuel =>
      cases clean with | array cleans => ?_
      cases held with | array each => ?_
      rcases unfoldArray_clean (fun item inside => ih item inside (cleans item inside)
        (each item inside) fuel) cleans unfolding with out | ran
      · exact Or.inl (by rw [unfoldValue, out]; rfl)
      · exact Or.inr (by rw [unfoldValue, ran]; rfl)
  | object members ih =>
    cases fuel with
    | zero => exact Or.inl rfl
    | succ fuel =>
      cases clean with | object names cleans => ?_
      cases held with | object sorted each => ?_
      rcases unfoldMembers_clean (fun member inside => ih member inside (cleans member inside)
        (each member inside) fuel) names .empty unfolding with out | ran
      · exact Or.inl (by rw [unfoldValue, unfoldObject, out]; rfl)
      · right
        rw [unfoldValue, unfoldObject, ran]
        have whole := SortedMap.foldl_insert_entries ⟨members, sorted⟩
        simp only at whole
        rw [whole]
        rfl
  | _ =>
    cases fuel with
    | zero => exact Or.inl rfl
    | succ fuel => exact Or.inr rfl

section
variable {unfold : Json → Unfolding → Outcome Refused (Json × Unfolding)}
  {table : SortedMap String Disclosure} (expected : String → Json)
  (inner : String → String → Prop)

/-- A value that unfolds as expected wherever none of its digests was met. -/
def Unveils (unfold : Json → Unfolding → Outcome Refused (Json × Unfolding))
    (table : SortedMap String Disclosure) (value expected : Json) (region : String → Prop) : Prop :=
  ∀ unfolding : Unfolding, unfolding.byDigest = table →
    (∀ digest ∈ unfolding.seen, ¬region digest) →
      Lands (unfold value unfolding) unfolding region (· = expected)

theorem unfoldMembers_lands {shown : List (String × Json)} {unfolded : SortedMap String Json}
    {digests : Option Json} {unfolding : Unfolding} (sorted : Sorted shown)
    (each : ∀ member ∈ shown, member.1 ≠ "_sd" → member.1 ∉ RESERVED_NAMES ∧
      Unveils unfold table member.2 (expected member.1) (inner member.1))
    (apart : ∀ member ∈ shown, member.1 ≠ "_sd" → ∀ other ∈ shown, other.1 ≠ "_sd" →
      member.1 ≠ other.1 → ∀ digest, inner member.1 digest → ¬inner other.1 digest)
    (known : unfolding.byDigest = table)
    (fresh : ∀ member ∈ shown, member.1 ≠ "_sd" → ∀ digest ∈ unfolding.seen,
      ¬inner member.1 digest) :
    Lands (unfoldMembers unfold shown unfolded digests unfolding) unfolding
      (fun digest => ∃ member ∈ shown, member.1 ≠ "_sd" ∧ inner member.1 digest)
      fun result => result.2 = lastDigests shown digests ∧ ∀ name, result.1.get? name =
        if name ≠ "_sd" ∧ (SortedMap.lookup name shown).isSome then some (expected name)
        else unfolded.get? name := by
  induction shown generalizing unfolded digests unfolding with
  | nil => exact .stays ⟨rfl, fun name => by simp [SortedMap.lookup]⟩
  | cons member rest ih =>
    obtain ⟨above, ordered⟩ := List.pairwise_cons.mp sorted
    obtain ⟨name, value⟩ := member
    have later : ∀ member ∈ rest, member ∈ (name, value) :: rest := fun member inside =>
      List.mem_cons_of_mem _ inside
    have widen : ∀ digest, (∃ member ∈ rest, member.1 ≠ "_sd" ∧ inner member.1 digest) →
        ∃ member ∈ (name, value) :: rest, member.1 ≠ "_sd" ∧ inner member.1 digest := by
      intro digest found
      obtain ⟨member, inside, there⟩ := found
      exact ⟨member, later member inside, there⟩
    by_cases own : name = "_sd"
    · rw [unfoldMembers, if_pos own, lastDigests, if_pos own]
      refine (ih ordered (fun member inside => each member (later member inside))
        (fun member inside plain other among => apart member (later member inside) plain other
          (later other among)) known
        fun member inside => fresh member (later member inside)).mono widen fun result there => ?_
      refine ⟨there.1, fun asked => ?_⟩
      rw [there.2 asked, SortedMap.lookup]
      by_cases same : asked = "_sd"
      · rw [if_neg (by simp [same]), if_neg (by simp [same])]
      · have different : ¬name = asked := fun equal => same (equal.symm.trans own)
        rw [if_neg different]
    · obtain ⟨allowed, unveils⟩ := each (name, value) List.mem_cons_self own
      have refused := allowed
      simp only [RESERVED_NAMES, List.mem_cons, List.not_mem_nil, or_false, not_or] at refused
      rw [unfoldMembers, if_neg refused.1, if_neg refused.2.1, if_neg refused.2.2, lastDigests,
        if_neg own]
      refine (unveils unfolding known (fresh (name, value) List.mem_cons_self own)).bind ?_ ?_
      · intro result after same still seen
        subst same
        have apart_here : ∀ member ∈ rest, name ≠ member.1 := fun member inside =>
          ne_of_lt (above member inside)
        refine (ih ordered (fun member inside => each member (later member inside))
          (fun member inside plain other among => apart member (later member inside) plain other
            (later other among)) (still.trans known) ?_).mono widen ?_
        · intro member inside plain digest met there
          rcases seen digest met with earlier | here
          · exact fresh member (later member inside) plain digest earlier there
          · exact apart (name, value) List.mem_cons_self own member (later member inside) plain
              (apart_here member inside) digest here there
        · intro result there
          refine ⟨there.1, fun asked => ?_⟩
          rw [there.2 asked, SortedMap.lookup]
          by_cases same : name = asked
          · subst same
            rw [if_pos rfl, SortedMap.get?_insert, if_pos rfl]
            simp [own]
          · rw [if_neg same, SortedMap.get?_insert, if_neg (Ne.symm same)]
      · intro digest there
        exact ⟨(name, value), List.mem_cons_self, own, there⟩

/-- A digest that opens a property. -/
def Opens (table : SortedMap String Disclosure) (digest name : String) : Prop :=
  ∃ disclosure, table.get? digest = some disclosure ∧ disclosure.name = some name

/-- Digests of one object, each of which opens nothing or a property that is
not there yet, and that unfolds as expected. -/
structure Standing (unfold : Json → Unfolding → Outcome Refused (Json × Unfolding))
    (table : SortedMap String Disclosure) (expected : String → Json)
    (inner : String → String → Prop) (own : List String) (unfolded : SortedMap String Json)
    (unfolding : Unfolding) : Prop where
  known : unfolding.byDigest = table
  each : ∀ digest ∈ own, ∀ disclosure, table.get? digest = some disclosure →
    ∃ name, disclosure.name = some name ∧ name ∉ RESERVED_NAMES ∧ unfolded.get? name = none ∧
      Unveils unfold table disclosure.value (expected name) (inner name)
  once : own.Nodup
  distinct : ∀ digest ∈ own, ∀ other ∈ own, ∀ name, Opens table digest name →
    Opens table other name → digest = other
  apart : ∀ digest ∈ own, ∀ other ∈ own, ∀ name more, Opens table digest name →
    Opens table other more → name ≠ more → ∀ met, inner name met → ¬inner more met
  outside : ∀ digest ∈ own, ∀ other ∈ own, ∀ name, Opens table other name → ¬inner name digest
  fresh : ∀ digest ∈ own, digest ∉ unfolding.seen
  unmet : ∀ digest ∈ own, ∀ name, Opens table digest name → ∀ met ∈ unfolding.seen,
    ¬inner name met

namespace Standing

variable {expected inner} {digest : String} {rest : List String}
  {unfolded : SortedMap String Json} {unfolding after : Unfolding}

/-- The digests left, after one was met and whatever it opened unfolded. -/
theorem tail (standing : Standing unfold table expected inner (digest :: rest) unfolded unfolding)
    {further : SortedMap String Json} (known : after.byDigest = table)
    (free : ∀ other ∈ rest, ∀ name, Opens table other name → further.get? name = none)
    (seen : ∀ met ∈ after.seen, met = digest ∨ met ∈ unfolding.seen ∨
      ∃ name, Opens table digest name ∧ inner name met) :
    Standing unfold table expected inner rest further after := by
  obtain ⟨new, once⟩ := List.nodup_cons.mp standing.once
  have later : ∀ other ∈ rest, other ∈ digest :: rest := fun _ => List.mem_cons_of_mem _
  have here := @List.mem_cons_self _ digest rest
  refine
    { known, once
      each := ?_
      distinct := fun one inside other among =>
        standing.distinct one (later one inside) other (later other among)
      apart := fun one inside other among =>
        standing.apart one (later one inside) other (later other among)
      outside := fun one inside other among =>
        standing.outside one (later one inside) other (later other among)
      fresh := ?_
      unmet := ?_ }
  · intro other inside disclosure found
    obtain ⟨name, named, allowed, -, unveils⟩ :=
      standing.each other (later other inside) disclosure found
    exact ⟨name, named, allowed, free other inside name ⟨disclosure, found, named⟩, unveils⟩
  · intro other inside met
    rcases seen other met with same | earlier | ⟨name, opens, within⟩
    · exact new (same ▸ inside)
    · exact standing.fresh other (later other inside) earlier
    · exact standing.outside other (later other inside) digest here name opens within
  · intro other inside name opens met among there
    rcases seen met among with same | earlier | ⟨more, opened, within⟩
    · rw [same] at there
      exact standing.outside digest here other (later other inside) name opens there
    · exact standing.unmet other (later other inside) name opens met earlier there
    · refine standing.apart digest here other (later other inside) more name opened opens ?_ met
        within there
      intro same
      subst same
      rw [← standing.distinct digest here other (later other inside) more opened opens] at inside
      exact new inside

end Standing

theorem unfoldDigests_lands {own : List String} {unfolded : SortedMap String Json}
    {unfolding : Unfolding}
    (standing : Standing unfold table expected inner own unfolded unfolding) :
    Lands (unfoldDigests unfold (own.map .string) unfolded unfolding) unfolding
      (fun met => met ∈ own ∨ ∃ digest ∈ own, ∃ name, Opens table digest name ∧ inner name met)
      fun result => ∀ name,
        ((∃ digest ∈ own, Opens table digest name) → result.get? name = some (expected name)) ∧
        ((∀ digest ∈ own, ¬Opens table digest name) → result.get? name = unfolded.get? name) := by
  induction own generalizing unfolded unfolding with
  | nil => exact .stays fun name => ⟨by simp, fun _ => rfl⟩
  | cons digest rest ih =>
    have later : ∀ other ∈ rest, other ∈ digest :: rest := fun _ => List.mem_cons_of_mem _
    have here := @List.mem_cons_self _ digest rest
    have absent := standing.fresh digest here
    rw [List.map_cons, unfoldDigests]
    cases found : table.get? digest with
    | none =>
      have noted : note unfolding digest =
          .ok (none, { unfolding with seen := digest :: unfolding.seen }) := by
        rw [note, if_neg absent, standing.known, found]
      have closed : ∀ name, ¬Opens table digest name := by
        intro name opens
        obtain ⟨disclosure, there, -⟩ := opens
        rw [found] at there
        cases there
      rw [noted, settled_ok, pure_bind]
      have left : Standing unfold table expected inner rest unfolded
          { unfolding with seen := digest :: unfolding.seen } := by
        refine standing.tail standing.known ?_ ?_
        · intro other inside name opens
          obtain ⟨disclosure, there, named⟩ := opens
          obtain ⟨again, called, -, free, -⟩ :=
            standing.each other (later other inside) disclosure there
          rw [named] at called
          rw [Option.some.inj called]
          exact free
        · intro met among
          rcases List.mem_cons.mp among with same | earlier
          · exact Or.inl same
          · exact Or.inr (Or.inl earlier)
      rcases ih left with out | ⟨result, after, ran, holds, still, seen⟩
      · exact Or.inl out
      refine Or.inr ⟨result, after, ran, fun name => ⟨?_, ?_⟩, still, fun met inside => ?_⟩
      · intro opened
        obtain ⟨other, inside, opens⟩ := opened
        rcases List.mem_cons.mp inside with same | inside
        · exact absurd (same ▸ opens) (closed name)
        · exact (holds name).1 ⟨other, inside, opens⟩
      · intro none_opens
        exact (holds name).2 fun other inside => none_opens other (later other inside)
      · rcases seen met inside with earlier | among | ⟨other, inside, there⟩
        · rcases List.mem_cons.mp earlier with same | earlier
          · exact Or.inr (Or.inl (by rw [same]; exact here))
          · exact Or.inl earlier
        · exact Or.inr (Or.inl (later met among))
        · exact Or.inr (Or.inr ⟨other, later other inside, there⟩)
    | some disclosure =>
      obtain ⟨name, named, allowed, free, unveils⟩ := standing.each digest here disclosure found
      have opens : Opens table digest name := ⟨disclosure, found, named⟩
      have noted : note unfolding digest = .ok (some disclosure, { unfolding with
          used := unfolding.used.insert digest, seen := digest :: unfolding.seen }) := by
        rw [note, if_neg absent, standing.known, found]
      have unmet : ∀ met ∈ digest :: unfolding.seen, ¬inner name met := by
        intro met among
        rcases List.mem_cons.mp among with same | earlier
        · rw [same]
          exact standing.outside digest here digest here name opens
        · exact standing.unmet digest here name opens met earlier
      rw [noted, settled_ok, pure_bind]
      dsimp only
      rw [placeProperty, named]
      dsimp only
      rw [if_neg allowed, if_neg (by simp [free]), bind_assoc]
      rcases unveils { unfolding with
          used := unfolding.used.insert digest, seen := digest :: unfolding.seen }
          standing.known unmet with out | ⟨value, middle, ran, same, still, seen⟩
      · exact Or.inl (by rw [out]; rfl)
      subst same
      rw [ran, pure_bind, pure_bind]
      have others : ∀ other ∈ rest, ∀ more, Opens table other more → more ≠ name := by
        intro other inside more there same
        subst same
        apply (List.nodup_cons.mp standing.once).1
        rw [standing.distinct digest here other (later other inside) more opens there]
        exact inside
      have left : Standing unfold table expected inner rest (unfolded.insert name (expected name))
          middle := by
        refine standing.tail (still.trans standing.known) ?_ ?_
        · intro other inside more there
          rw [SortedMap.get?_insert, if_neg (others other inside more there)]
          obtain ⟨opened, at_other, called⟩ := there
          obtain ⟨again, called_so, -, free, -⟩ :=
            standing.each other (later other inside) opened at_other
          rw [called] at called_so
          rw [Option.some.inj called_so]
          exact free
        · intro met among
          rcases seen met among with earlier | within
          · exact (List.mem_cons.mp earlier).imp_right Or.inl
          · exact Or.inr (Or.inr ⟨name, opens, within⟩)
      rcases ih left with out | ⟨result, after, ran_on, holds, still_on, seen_on⟩
      · exact Or.inl out
      refine Or.inr ⟨result, after, ran_on, fun asked => ⟨?_, ?_⟩, still_on.trans still,
        fun met inside => ?_⟩
      · intro opened
        obtain ⟨other, inside, there⟩ := opened
        rcases List.mem_cons.mp inside with same | inside
        · subst same
          have equal : asked = name := by
            obtain ⟨again, at_digest, called⟩ := there
            rw [found] at at_digest
            cases at_digest
            rw [named] at called
            exact (Option.some.inj called).symm
          subst equal
          rw [(holds asked).2 fun other inside there => others other inside asked there rfl,
            SortedMap.get?_insert, if_pos rfl]
        · exact (holds asked).1 ⟨other, inside, there⟩
      · intro none_opens
        have different : asked ≠ name := fun same => none_opens digest here (same ▸ opens)
        rw [(holds asked).2 fun other inside => none_opens other (later other inside),
          SortedMap.get?_insert, if_neg different]
      · rcases seen_on met inside with earlier | among | ⟨other, inside, there⟩
        · rcases seen met earlier with before | within
          · rcases List.mem_cons.mp before with same | before
            · exact Or.inr (Or.inl (by rw [same]; exact here))
            · exact Or.inl before
          · exact Or.inr (Or.inr ⟨digest, here, name, opens, within⟩)
        · exact Or.inr (Or.inl (later met among))
        · exact Or.inr (Or.inr ⟨other, later other inside, there⟩)

end

variable {serde : SerdeJson} {provider : CryptoProvider}

/-- A hash without collisions, and salts all different. -/
structure Ideal (provider : CryptoProvider) : Prop where
  injective : ∀ {one other : Bytes} {digest : Bytes}, provider.hash .sha256 one = .ok digest →
    provider.hash .sha256 other = .ok digest → one = other
  distinct : ∀ {one other : Nat} {bytes}, provider.fill one = .ok bytes →
    provider.fill other = .ok bytes → one = other

theorem Ideal.same_text (ideal : Ideal provider) {one other digest : String}
    (first : digestOf provider .sha256 one = .ok digest)
    (second : digestOf provider .sha256 other = .ok digest) : one = other :=
  digestOf_injective provider ideal.injective first second

/-- The claims that stay withheld where some disclosures are presented. -/
def Withheld (presented : List String) (marks : Marks) (gone : List Concealed) : Prop :=
  ∀ place, place ∈ gone ↔ ∃ encoded, marks place = some encoded ∧ encoded ∉ presented

theorem Withheld.under {presented : List String} {marks : Marks} {gone : List Concealed}
    (withheld : Withheld presented marks gone) (name : String) :
    Withheld presented (marks.under name) (gone.filterMap (Concealed.within name)) := by
  intro place
  have asked : place ∈ gone.filterMap (Concealed.within name) ↔
      ∃ outer ∈ gone, outer.within name = some place := by simp
  rw [asked]
  constructor
  · intro found
    obtain ⟨outer, inside, same⟩ := found
    obtain ⟨encoded, marked, kept⟩ := (withheld outer).mp inside
    refine ⟨encoded, ?_, kept⟩
    rcases outer with (_ | ⟨first, _ | ⟨second, rest⟩⟩) | ⟨_ | ⟨first, rest⟩, index⟩
    all_goals simp only [Concealed.within, reduceCtorEq, Option.ite_none_right_eq_some,
      Option.some.injEq] at same
    all_goals
      obtain ⟨rfl, rfl⟩ := same
      exact marked
  · intro found
    obtain ⟨encoded, marked, kept⟩ := found
    rcases place with (_ | ⟨first, rest⟩) | ⟨path, index⟩
    · cases marked
    · exact ⟨.property (name :: first :: rest), (withheld _).mpr ⟨encoded, marked, kept⟩,
        by simp [Concealed.within]⟩
    · exact ⟨.element (name :: path) index, (withheld _).mpr ⟨encoded, marked, kept⟩,
        by simp [Concealed.within]⟩

section
variable {table : SortedMap String Disclosure} {presented : List String}
  (ideal : Ideal provider) (known : Presented serde provider .sha256 table presented)
include ideal known

omit ideal in
/-- A digest opens the disclosure it was made of, where that is presented. -/
theorem get?_presented {encoded : String} {name : Option String} {value : Json}
    (discloses : Discloses serde provider encoded name value) (there : encoded ∈ presented) :
    ∃ salt, table.get? (digestText provider encoded) = some ⟨encoded, salt, name, value⟩ := by
  obtain ⟨entry, inside, same⟩ := List.mem_map.mp (known.all.mem_iff.mpr there)
  have found := (SortedMap.mem_entries_iff table entry.1 entry.2).mp inside
  obtain ⟨read, digested⟩ := known.each _ _ found
  obtain ⟨salt, reads⟩ := discloses.read
  rw [same, reads] at read
  rw [same, discloses.digested] at digested
  refine ⟨salt, ?_⟩
  rw [Except.ok.inj digested, found, ← Except.ok.inj read]

theorem get?_other {encoded digest : String} (digested : digestOf provider .sha256 encoded = .ok digest)
    (absent : encoded ∉ presented) : table.get? digest = none := by
  by_contra there
  obtain ⟨disclosure, found⟩ := Option.ne_none_iff_exists'.mp there
  obtain ⟨-, again⟩ := known.each _ _ found
  apply absent
  rw [ideal.same_text digested again]
  exact known.all.mem_iff.mp
    (List.mem_map.mpr ⟨_, (SortedMap.mem_entries_iff _ _ _).mpr found, rfl⟩)

/-- An array of values in plain sight, some of them marked. -/
theorem unfoldArray_lands {marks : Marks} {gone : List Concealed} {region : String → Prop}
    (withheld : Withheld presented marks gone) {fuel index : Nat} {items : List Json}
    {unfolding : Unfolding} (clean : ∀ item ∈ items, Clean item)
    (held : ∀ item ∈ items, item.Held serde.finite)
    (hidden : ∀ (offset : Nat) (item : Json) (encoded : String), items[offset]? = some item →
      marks (.element [] (index + offset)) = some encoded →
        Discloses serde provider encoded none item ∧ region (digestText provider encoded) ∧
          digestText provider encoded ∉ unfolding.seen)
    (apart : ∀ (offset other : Nat) (encoded more : String), offset < items.length →
      other < items.length → marks (.element [] (index + offset)) = some encoded →
      marks (.element [] (index + other)) = some more →
        digestText provider encoded = digestText provider more → offset = other)
    (same : unfolding.byDigest = table) :
    Lands (unfoldArray (unfoldValue fuel) (veilItems provider marks index items) unfolding)
      unfolding region (· = withholdItems gone index items) := by
  induction items generalizing index unfolding with
  | nil => exact .stays rfl
  | cons item rest ih =>
    obtain ⟨clean_here, cleans⟩ := List.forall_mem_cons.mp clean
    obtain ⟨held_here, helds⟩ := List.forall_mem_cons.mp held
    have left : ∀ after : Unfolding, after.byDigest = table →
        (∀ digest ∈ after.seen, digest ∈ unfolding.seen ∨
          ∃ encoded, marks (.element [] index) = some encoded ∧
            digest = digestText provider encoded) →
        Lands (unfoldArray (unfoldValue fuel) (veilItems provider marks (index + 1) rest) after)
          after region (· = withholdItems gone (index + 1) rest) := by
      intro after still seen
      refine ih cleans helds ?_ ?_ still
      · intro offset other encoded found marked
        have shifted : index + 1 + offset = index + (offset + 1) := by omega
        rw [shifted] at marked
        obtain ⟨discloses, inside, fresh⟩ := hidden (offset + 1) other encoded found marked
        refine ⟨discloses, inside, fun met => ?_⟩
        rcases seen _ met with earlier | ⟨first, marked_here, equal⟩
        · exact fresh earlier
        · have bound : offset < rest.length := (List.getElem?_eq_some_iff.mp found).1
          have zero := apart (offset + 1) 0 encoded first (by simpa using bound) (by simp) marked
            marked_here equal
          omega
      · intro offset other encoded more below least marked marked_more equal
        have shifted : ∀ offset, index + 1 + offset = index + (offset + 1) := by omega
        rw [shifted] at marked marked_more
        have next := apart (offset + 1) (other + 1) encoded more (by simpa using below)
          (by simpa using least) marked marked_more equal
        omega
    rw [veilItems, unfoldArray, slot]
    cases marked : marks (.element [] index) with
    | none =>
      have stays : .element [] index ∉ gone := by
        rw [withheld]
        simp [marked]
      dsimp only
      rw [carried_clean clean_here, settled_ok, pure_bind, withholdItems, if_neg stays]
      dsimp only
      rcases unfoldValue_clean clean_here held_here fuel unfolding with out | ran
      · exact Or.inl (by rw [out]; rfl)
      · rw [ran, pure_bind]
        refine (left unfolding same fun _ => Or.inl).bind ?_ fun _ => id
        intro result after equal still seen
        rw [equal]
        exact .stays rfl
    | some encoded =>
      obtain ⟨discloses, inside, fresh⟩ := hidden 0 item encoded rfl marked
      have carrier : carried (.object [("...", .string (digestText provider encoded))]) =
          .ok (some (digestText provider encoded)) := rfl
      dsimp only
      rw [carrier, settled_ok, pure_bind]
      dsimp only
      by_cases there : encoded ∈ presented
      · have stays : .element [] index ∉ gone := by
          rw [withheld, marked]
          intro found
          obtain ⟨again, equal, absent⟩ := found
          cases equal
          exact absent there
        obtain ⟨salt, found⟩ := get?_presented known discloses there
        rw [note, if_neg fresh, same, found, settled_ok, pure_bind, withholdItems, if_neg stays]
        dsimp only
        rw [Option.isSome_none, if_neg (by simp)]
        rcases unfoldValue_clean clean_here held_here fuel { unfolding with
            byDigest := table, used := unfolding.used.insert (digestText provider encoded)
            seen := digestText provider encoded :: unfolding.seen } with out | ran
        · exact Or.inl (by rw [out]; rfl)
        rw [ran, pure_bind]
        rcases left { unfolding with
            byDigest := table, used := unfolding.used.insert (digestText provider encoded)
            seen := digestText provider encoded :: unfolding.seen } rfl (by
            intro digest met
            rcases List.mem_cons.mp met with new | earlier
            · exact Or.inr ⟨encoded, marked, new⟩
            · exact Or.inl earlier) with out | ⟨result, after, ran_on, equal, still, seen⟩
        · exact Or.inl (by rw [out]; rfl)
        · rw [ran_on, pure_bind, equal]
          refine Or.inr ⟨_, after, rfl, rfl, still.trans same.symm, fun digest met => ?_⟩
          rcases seen digest met with earlier | later
          · rcases List.mem_cons.mp earlier with new | earlier
            · exact Or.inr (new ▸ inside)
            · exact Or.inl earlier
          · exact Or.inr later
      · have leaves : .element [] index ∈ gone := (withheld _).mpr ⟨encoded, marked, there⟩
        have found := get?_other ideal known discloses.digested there
        rw [note, if_neg fresh, same, found, settled_ok, pure_bind, withholdItems, if_pos leaves]
        dsimp only
        rcases left { unfolding with
            byDigest := table, seen := digestText provider encoded :: unfolding.seen } rfl (by
            intro digest met
            rcases List.mem_cons.mp met with new | earlier
            · exact Or.inr ⟨encoded, marked, new⟩
            · exact Or.inl earlier) with out | ⟨result, after, ran_on, equal, still, seen⟩
        · exact Or.inl out
        · refine Or.inr ⟨result, after, ran_on, equal, still.trans same.symm, fun digest met => ?_⟩
          rcases seen digest met with earlier | later
          · rcases List.mem_cons.mp earlier with new | earlier
            · exact Or.inr (new ▸ inside)
            · exact Or.inl earlier
          · exact Or.inr later

/-- What a digest of an object opens is one of its marked properties. -/
theorem Laid.opened {marks : Marks} {members shown : List (String × Json)} {own : List String}
    {part : String → Json} {inner : String → String → Prop}
    {region : String → Prop}
    (laid : Laid serde provider marks members shown own part inner region)
    (decoys : ∀ digest, Decoy provider digest → table.get? digest = none) {digest : String}
    (among : digest ∈ own) {disclosure : Disclosure} (found : table.get? digest = some disclosure) :
    ∃ member ∈ members, ∃ encoded, marks (.property [member.1]) = some encoded ∧
      digest = digestText provider encoded ∧ encoded ∈ presented ∧
      disclosure.name = some member.1 ∧ disclosure.value = part member.1 := by
  rcases laid.made digest among with decoy | ⟨member, inside, encoded, marked, rfl⟩
  · rw [decoys digest decoy] at found
    cases found
  · obtain ⟨-, discloses⟩ := laid.hidden member inside encoded marked
    by_cases there : encoded ∈ presented
    · obtain ⟨salt, opens⟩ := get?_presented known discloses there
      rw [found] at opens
      cases opens
      exact ⟨member, inside, encoded, marked, rfl, there, rfl, rfl⟩
    · rw [get?_other ideal known discloses.digested there] at found
      cases found

theorem Laid.standing {marks : Marks} {members shown : List (String × Json)} {own : List String}
    {part : String → Json} {inner : String → String → Prop}
    {region : String → Prop}
    (laid : Laid serde provider marks members shown own part inner region)
    (decoys : ∀ digest, Decoy provider digest → table.get? digest = none)
    {unfold : Json → Unfolding → Outcome Refused (Json × Unfolding)} {expected : String → Json}
    (unveil : ∀ member ∈ members,
      Unveils unfold table (part member.1) (expected member.1) (inner member.1))
    {unfolded : SortedMap String Json} {unfolding : Unfolding} (same : unfolding.byDigest = table)
    (shows : ∀ name, name ≠ "_sd" → SortedMap.lookup name shown = none → unfolded.get? name = none)
    (fresh : ∀ digest ∈ own, digest ∉ unfolding.seen)
    (unmet : ∀ member ∈ members, (marks (.property [member.1])).isSome → ∀ met ∈ unfolding.seen,
      ¬inner member.1 met) :
    Standing unfold table expected inner own unfolded unfolding := by
  have named : ∀ digest ∈ own, ∀ name, Opens table digest name → ∃ member ∈ members,
      member.1 = name ∧ ∃ encoded, marks (.property [name]) = some encoded ∧
        digest = digestText provider encoded := by
    intro digest among name opens
    obtain ⟨disclosure, found, called⟩ := opens
    obtain ⟨member, inside, encoded, marked, made, -, again, -⟩ :=
      laid.opened ideal known decoys among found
    rw [called] at again
    obtain rfl := Option.some.inj again
    exact ⟨member, inside, rfl, encoded, marked, made⟩
  refine
    { known := same
      each := ?_
      once := laid.once
      distinct := ?_
      apart := ?_
      outside := ?_
      fresh
      unmet := ?_ }
  · intro digest among disclosure found
    obtain ⟨member, inside, encoded, marked, -, -, called, value⟩ :=
      laid.opened ideal known decoys among found
    have allowed := laid.names member inside
    refine ⟨member.1, called, allowed, ?_, ?_⟩
    · refine shows member.1 ?_ (laid.hidden member inside encoded marked).1
      intro own_name
      exact allowed (by rw [own_name]; decide)
    · rw [value]
      exact unveil member inside
  · intro digest among other inside name opens opened
    obtain ⟨-, -, -, encoded, marked, made⟩ := named digest among name opens
    obtain ⟨-, -, -, again, marked_again, made_again⟩ := named other inside name opened
    rw [marked] at marked_again
    rw [made, made_again, Option.some.inj marked_again]
  · intro digest among other inside name more opens opened different
    obtain ⟨one, one_inside, rfl, -⟩ := named digest among name opens
    obtain ⟨two, two_inside, rfl, -⟩ := named other inside more opened
    exact laid.apart one one_inside two two_inside different
  · intro digest among other inside name opens
    obtain ⟨member, there, rfl, -⟩ := named other inside name opens
    exact laid.own_apart digest among member there
  · intro digest among name opens
    obtain ⟨member, there, rfl, encoded, marked, -⟩ := named digest among name opens
    exact unmet member there (by rw [marked]; rfl)

/-- An object whose members unfold to what is left of them. -/
theorem unfoldObject_lands {marks : Marks} {members shown : List (String × Json)} {own : List String}
    {part : String → Json} {inner : String → String → Prop}
    {region : String → Prop}
    (laid : Laid serde provider marks members shown own part inner region)
    (decoys : ∀ digest, Decoy provider digest → table.get? digest = none) {gone : List Concealed}
    (withheld : Withheld presented marks gone) (ordered : Sorted members)
    {unfold : Json → Unfolding → Outcome Refused (Json × Unfolding)}
    (unveil : ∀ member ∈ members, Unveils unfold table (part member.1)
      (withhold (gone.filterMap (Concealed.within member.1)) member.2) (inner member.1))
    {unfolding : Unfolding} (same : unfolding.byDigest = table)
    (fresh : ∀ digest ∈ unfolding.seen, ¬region digest) :
    Lands (unfoldObject unfold shown unfolding) unfolding region
      fun result => result.entries = withholdMembers gone members := by
  let expected : String → Json := fun name =>
    withhold (gone.filterMap (Concealed.within name)) ((SortedMap.lookup name members).getD .null)
  have value_of : ∀ member ∈ members, SortedMap.lookup member.1 members = some member.2 :=
    fun member among => SortedMap.lookup_of_mem ordered among
  have unveil_expected : ∀ member ∈ members,
      Unveils unfold table (part member.1) (expected member.1) (inner member.1) := by
    intro member among
    have here := unveil member among
    simpa [expected, value_of member among] using here
  have member_of : ∀ entry ∈ shown, entry.1 ≠ "_sd" → ∃ member ∈ members, member.1 = entry.1 ∧
      marks (.property [member.1]) = none ∧ entry.2 = part member.1 := fun entry among other =>
    laid.of_shown other (SortedMap.lookup_of_mem laid.sorted among)
  have members_land := @unfoldMembers_lands unfold table expected inner shown .empty none unfolding
    laid.sorted (by
      intro entry among other
      obtain ⟨member, inside, called, -, value⟩ := member_of entry among other
      rw [← called, value]
      exact ⟨laid.names member inside, unveil_expected member inside⟩)
    (by
      intro entry among other more inside plain different
      obtain ⟨one, one_inside, called, -⟩ := member_of entry among other
      obtain ⟨two, two_inside, called_so, -⟩ := member_of more inside plain
      rw [← called, ← called_so] at different ⊢
      exact laid.apart one one_inside two two_inside different)
    same (by
      intro entry among other digest met there
      obtain ⟨member, inside, called, -⟩ := member_of entry among other
      rw [← called] at there
      exact fresh digest met (laid.inside member inside digest there))
  rw [unfoldObject]
  refine members_land.bind ?_ ?_
  · intro result after shows still seen
    obtain ⟨unfolded, digests⟩ := result
    obtain ⟨last, shows⟩ := shows
    simp only at last shows
    have opened_marked : ∀ name, (∃ digest ∈ own, Opens table digest name) →
        ∃ member ∈ members, member.1 = name ∧ ∃ encoded,
          marks (.property [name]) = some encoded ∧ encoded ∈ presented := by
      intro name opened
      obtain ⟨digest, among, disclosure, found, called⟩ := opened
      obtain ⟨member, inside, encoded, marked, -, there, again, -⟩ :=
        laid.opened ideal known decoys among found
      rw [called] at again
      obtain rfl := Option.some.inj again
      exact ⟨member, inside, rfl, encoded, marked, there⟩
    have restored : ∀ final : SortedMap String Json,
        (∀ name, (∃ digest ∈ own, Opens table digest name) →
          final.get? name = some (expected name)) →
        (∀ name, (∀ digest ∈ own, ¬Opens table digest name) →
          final.get? name = unfolded.get? name) →
        final.entries = withholdMembers gone members := by
      intro final opens rest
      refine SortedMap.eq_of_lookup final.sorted (withholdMembers_sorted gone ordered) fun name => ?_
      rw [lookup_withholdMembers]
      change final.get? name = _
      by_cases there : ∃ member ∈ members, member.1 = name
      · obtain ⟨member, among, rfl⟩ := there
        have other : member.1 ≠ "_sd" := fun equal =>
          laid.names member among (by rw [equal]; decide)
        cases marked : marks (.property [member.1]) with
        | none =>
          have stays : .property [member.1] ∉ gone := by
            rw [withheld]
            simp [marked]
          rw [if_neg stays, rest member.1, shows,
            if_pos ⟨other, by rw [laid.plain member among marked]; rfl⟩, value_of member among]
          · simp [expected, value_of member among]
          · intro digest inside opens
            obtain ⟨-, -, -, encoded, again, -⟩ := opened_marked member.1 ⟨digest, inside, opens⟩
            rw [marked] at again
            cases again
        | some encoded =>
          obtain ⟨gone_from, discloses⟩ := laid.hidden member among encoded marked
          by_cases there : encoded ∈ presented
          · have stays : .property [member.1] ∉ gone := by
              rw [withheld, marked]
              intro found
              obtain ⟨again, equal, absent⟩ := found
              cases equal
              exact absent there
            obtain ⟨salt, found⟩ := get?_presented known discloses there
            rw [if_neg stays, value_of member among,
              opens member.1 ⟨_, laid.linked member among encoded marked, _, found, rfl⟩]
            simp [expected, value_of member among]
          · have leaves : .property [member.1] ∈ gone :=
              (withheld _).mpr ⟨encoded, marked, there⟩
            rw [if_pos leaves, rest member.1, shows, if_neg (by simp [gone_from])]
            · rfl
            · intro digest inside opens
              obtain ⟨-, -, -, again, marked_again, presents⟩ :=
                opened_marked member.1 ⟨digest, inside, opens⟩
              rw [marked] at marked_again
              rw [← Option.some.inj marked_again] at presents
              exact there presents
      · have missing : SortedMap.lookup name members = none := by
          by_contra present
          obtain ⟨value, found⟩ := Option.ne_none_iff_exists'.mp present
          exact there ⟨(name, value), SortedMap.mem_of_lookup found, rfl⟩
        rw [missing, rest name, shows]
        · have nothing : ¬(name ≠ "_sd" ∧ (SortedMap.lookup name shown).isSome) := by
            intro both
            rw [laid.absent name both.1 fun member among same => there ⟨member, among, same⟩]
              at both
            simp at both
          rw [if_neg nothing]
          split
          · rfl
          · rfl
        · intro digest inside opens
          obtain ⟨member, among, called, -⟩ := opened_marked name ⟨digest, inside, opens⟩
          exact there ⟨member, among, called⟩
    rw [lastDigests_sorted laid.sorted] at last
    dsimp only
    rcases laid.digests with ⟨none_there, nothing⟩ | ⟨there, -⟩
    · rw [last, none_there]
      refine .stays (restored unfolded ?_ fun _ _ => rfl)
      rw [nothing]
      simp
    · rw [last, there]
      have standing : Standing unfold table expected inner own unfolded after := by
        refine laid.standing ideal known decoys unveil_expected (still.trans same) ?_ ?_ ?_
        · intro name other absent
          rw [shows, if_neg (by simp [absent])]
          rfl
        · intro digest among met
          rcases seen digest met with earlier | ⟨entry, inside, other, within⟩
          · exact fresh digest earlier (laid.owned digest among)
          · obtain ⟨member, member_inside, called, -⟩ := member_of entry inside other
            rw [← called] at within
            exact laid.own_apart digest among member member_inside within
        · intro member inside marked met among
          rcases seen met among with earlier | ⟨entry, entry_inside, other, within⟩
          · exact fun there => fresh met earlier (laid.inside member inside met there)
          · obtain ⟨plain, plain_inside, called, unmarked, -⟩ := member_of entry entry_inside other
            rw [← called] at within
            refine laid.apart plain plain_inside member inside ?_ met within
            intro equal
            rw [equal] at unmarked
            rw [unmarked] at marked
            cases marked
      refine (unfoldDigests_lands expected inner standing).mono ?_ ?_
      · intro met found
        rcases found with among | ⟨digest, among, name, opens, within⟩
        · exact laid.owned met among
        · obtain ⟨member, inside, called, -⟩ := opened_marked name ⟨digest, among, opens⟩
          rw [← called] at within
          exact laid.inside member inside met within
      · intro final ends
        exact restored final (fun name => (ends name).1) fun name => (ends name).2
  · intro digest there
    obtain ⟨entry, among, other, there⟩ := there
    obtain ⟨member, inside, called, -⟩ := member_of entry among other
    rw [← called] at there
    exact laid.inside member inside digest there

/-- Whatever is veiled unfolds to the claims without those withheld. -/
theorem unveils {marks : Marks} {value shown : Json} {region : String → Prop}
    (veiled : Veiled serde provider marks value shown region)
    (held : value.Held serde.finite)
    (decoys : ∀ digest, Decoy provider digest → table.get? digest = none) {gone : List Concealed}
    (withheld : Withheld presented marks gone) (fuel : Nat) :
    Unveils (unfoldValue fuel) table shown (withhold gone value) region := by
  induction veiled generalizing gone fuel with
  | null | bool | number | string =>
    intro unfolding same fresh
    cases fuel with
    | zero => exact Or.inl rfl
    | succ fuel => exact .stays rfl
  | array clean hidden apart =>
    next marks region items =>
    intro unfolding same fresh
    cases fuel with
    | zero => exact Or.inl rfl
    | succ fuel =>
      cases held with | array each => ?_
      have items_land := @unfoldArray_lands _ _ _ _ ideal known marks gone region withheld fuel 0
        items unfolding clean each (fun offset item encoded found marked => by
          rw [Nat.zero_add] at marked
          obtain ⟨discloses, inside⟩ := hidden offset item encoded found marked
          exact ⟨discloses, inside, fun met => fresh _ met inside⟩)
        (fun offset other encoded more below least marked marked_more equal => by
          rw [Nat.zero_add] at marked marked_more
          exact apart offset other encoded more below least marked marked_more equal) same
      rw [unfoldValue, withhold]
      refine items_land.bind ?_ fun _ => id
      intro result after equal still seen
      rw [equal]
      exact .stays rfl
  | object each laid ih =>
    next marks region members shown own part inner =>
    intro unfolding same fresh
    cases fuel with
    | zero => exact Or.inl rfl
    | succ fuel =>
      cases held with | object ordered held_each => ?_
      have unveil := fun member among =>
        ih member among (held_each member among) (withheld.under member.1) fuel
      rw [unfoldValue, withhold]
      refine (unfoldObject_lands ideal known laid decoys withheld ordered unveil same
        fresh).bind ?_ fun _ => id
      intro result after equal still seen
      rw [← equal]
      exact .stays rfl

end

end Saffui.SdJwt
