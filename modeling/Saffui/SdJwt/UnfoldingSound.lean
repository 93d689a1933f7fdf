import Saffui.SdJwt.Unfolding

/-!
# What unfolding accepts

Every disclosure that was presented is put in its place once, at a digest that
stands in the payload or in what was put in place before it; no digest stands
twice; what comes out holds none of the names of the bookkeeping, and keeps
what stood in plain sight.
-/

namespace Saffui.SdJwt
open Foundation Foundation.Outcome Crypto

/-- The texts of an array of digests. -/
def digestTexts : Json → List String
  | .array digests => digests.filterMap Json.asStr
  | _ => []

/-- The digest of a carrier: an object that holds it as `...`, and nothing else. -/
def carrierOf : Json → Option String
  | .object [(name, .string digest)] => if name = "..." then some digest else none
  | _ => none

theorem carrierOf_of_carried {item : Json} {found : Option String}
    (carrier : carried item = .ok found) : carrierOf item = found := by
  cases item with
  | object members =>
    unfold carried at carrier
    dsimp only at carrier
    by_cases there : (Json.field members "...").isSome
    · rw [if_pos there] at carrier
      split at carrier
      · next name digest =>
        have own : "..." = name := by simpa [Json.field] using there
        rw [carrierOf, if_pos own.symm]
        exact Except.ok.inj carrier
      · cases carrier
    · rw [if_neg there] at carrier
      obtain rfl := Except.ok.inj carrier
      unfold carrierOf
      split
      · next name digest same =>
        obtain rfl := Json.object.inj same
        refine if_neg fun own => there ?_
        simp [Json.field, own]
      · rfl
  | _ => exact Except.ok.inj carrier

mutual

/-- The digests that stand in a value, at any depth. -/
def digestsIn : Json → List String
  | .object members => digestsInMembers members
  | .array items => digestsInItems items
  | _ => []

def digestsInMembers : List (String × Json) → List String
  | [] => []
  | (name, value) :: rest =>
    (if name = "_sd" then digestTexts value else digestsIn value) ++ digestsInMembers rest

def digestsInItems : List Json → List String
  | [] => []
  | item :: rest =>
    (match carrierOf item with
    | some digest => [digest]
    | none => digestsIn item) ++ digestsInItems rest

end

/-- The digests in the members of an object that stand in plain sight. -/
def plainDigests : List (String × Json) → List String
  | [] => []
  | (name, value) :: rest => (if name = "_sd" then [] else digestsIn value) ++ plainDigests rest

/-- The last member of the name of the digests. -/
def lastDigests : List (String × Json) → Option Json → Option Json
  | [], found => found
  | (name, value) :: rest, found => lastDigests rest (if name = "_sd" then some value else found)

abbrev Sorted (members : List (String × Json)) : Prop :=
  members.Pairwise fun left right => left.1 < right.1

theorem lastDigests_of_absent {members : List (String × Json)}
    (absent : ∀ member ∈ members, member.1 ≠ "_sd") (found : Option Json) :
    lastDigests members found = found ∧ digestsInMembers members = plainDigests members := by
  induction members generalizing found with
  | nil => exact ⟨rfl, rfl⟩
  | cons member rest ih =>
    obtain ⟨here, later⟩ := List.forall_mem_cons.mp absent
    obtain ⟨name, value⟩ := member
    obtain ⟨last, same⟩ := ih later found
    constructor
    · rw [lastDigests, if_neg here, last]
    · rw [digestsInMembers, plainDigests, if_neg here, if_neg here, same]

theorem lastDigests_sorted {members : List (String × Json)} (sorted : Sorted members) :
    lastDigests members none = SortedMap.lookup "_sd" members := by
  induction members with
  | nil => rfl
  | cons member rest ih =>
    obtain ⟨above, later⟩ := List.pairwise_cons.mp sorted
    obtain ⟨name, value⟩ := member
    rw [lastDigests, SortedMap.lookup]
    by_cases own : name = "_sd"
    · have absent : ∀ member ∈ rest, member.1 ≠ "_sd" := fun member inside same =>
        absurd (above member inside) (by rw [own, same]; exact lt_irrefl _)
      rw [if_pos own, if_pos own, (lastDigests_of_absent absent _).1]
    · rw [if_neg own, if_neg own, ih later]

/-- The digests of an object: those in plain sight, and its own. -/
theorem digestsInMembers_perm {members : List (String × Json)} (sorted : Sorted members) :
    (digestsInMembers members).Perm
      (plainDigests members ++ (lastDigests members none).elim [] digestTexts) := by
  induction members with
  | nil => exact .refl _
  | cons member rest ih =>
    obtain ⟨above, later⟩ := List.pairwise_cons.mp sorted
    obtain ⟨name, value⟩ := member
    rw [digestsInMembers, plainDigests, lastDigests]
    by_cases own : name = "_sd"
    · have absent : ∀ member ∈ rest, member.1 ≠ "_sd" := fun member inside same =>
        absurd (above member inside) (by rw [own, same]; exact lt_irrefl _)
      obtain ⟨last, plain⟩ := lastDigests_of_absent absent (some value)
      rw [if_pos own, if_pos own, if_pos own, last, plain, List.nil_append]
      exact List.perm_append_comm
    · rw [if_neg own, if_neg own, if_neg own, List.append_assoc]
      exact (ih later).append_left _

/-- No object at any depth holds a name of the bookkeeping. -/
inductive Clean : Json → Prop
  | null : Clean .null
  | bool (value : Bool) : Clean (.bool value)
  | number (value : Number) : Clean (.number value)
  | string (text : String) : Clean (.string text)
  | array {items : List Json} (each : ∀ item ∈ items, Clean item) : Clean (.array items)
  | object {members : List (String × Json)}
      (names : ∀ member ∈ members, member.1 ∉ RESERVED_NAMES)
      (each : ∀ member ∈ members, Clean member.2) : Clean (.object members)

mutual

/-- Every plain member of every object is kept, unfolded, under its name in the
object it stood in, and every plain element of every array in its order. -/
inductive Keeps : Json → Json → Prop
  | null : Keeps .null .null
  | bool (value : Bool) : Keeps (.bool value) (.bool value)
  | number (value : Number) : Keeps (.number value) (.number value)
  | string (text : String) : Keeps (.string text) (.string text)
  | array {items unfolded : List Json} (kept : KeepsItems items unfolded) :
      Keeps (.array items) (.array unfolded)
  | object {members : List (String × Json)} {unfolded : SortedMap String Json}
      (part : String → Json)
      (each : ∀ member ∈ members, member.1 ∉ RESERVED_NAMES → Keeps member.2 (part member.1))
      (kept : ∀ member ∈ members, member.1 ∉ RESERVED_NAMES →
        unfolded.get? member.1 = some (part member.1)) :
      Keeps (.object members) (.object unfolded.entries)

inductive KeepsItems : List Json → List Json → Prop
  | nil : KeepsItems [] []
  | plain {item value : Json} {items values : List Json} (here : Keeps item value)
      (rest : KeepsItems items values) : KeepsItems (item :: items) (value :: values)
  | withheld {item : Json} {digest : String} {items values : List Json}
      (carrier : carrierOf item = some digest) (rest : KeepsItems items values) :
      KeepsItems (item :: items) values
  | placed {item value : Json} {digest : String} {items values : List Json}
      (carrier : carrierOf item = some digest) (rest : KeepsItems items values) :
      KeepsItems (item :: items) (value :: values)

end

/-- Each disclosure stands for a digest of those given, or of a value put in
its place before. -/
inductive Grounded : List String → List (String × Disclosure) → Prop
  | nil {available : List String} : Grounded available []
  | cons {available : List String} {digest : String} {disclosure : Disclosure}
      {rest : List (String × Disclosure)} (stands : digest ∈ available)
      (later : Grounded (available ++ digestsIn disclosure.value) rest) :
      Grounded available ((digest, disclosure) :: rest)

theorem Grounded.mono {available more : List String} {placed : List (String × Disclosure)}
    (grounded : Grounded available placed) (wider : available ⊆ more) : Grounded more placed := by
  induction grounded generalizing more with
  | nil => exact .nil
  | cons stands _ ih =>
    refine .cons (wider stands) (ih ?_)
    exact List.append_subset.mpr ⟨List.subset_append_of_subset_left _ wider,
      List.subset_append_right _ _⟩

theorem Grounded.append {available : List String} {placed more : List (String × Disclosure)}
    (first : Grounded available placed) (second : Grounded available more) :
    Grounded available (placed ++ more) := by
  induction first with
  | nil => exact second
  | cons stands _ ih => exact .cons stands (ih (second.mono (List.subset_append_left _ _)))

/-- The digests within disclosures. -/
def within (placed : List (String × Disclosure)) : List String :=
  placed.flatMap fun one => digestsIn one.2.value

theorem within_append (placed more : List (String × Disclosure)) :
    within (placed ++ more) = within placed ++ within more := List.flatMap_append

/-- What unfolding a value does to the state, the digests that stand in the
value being given, and the disclosures put in their places. -/
structure Walked (digests : List String) (before after : Unfolding)
    (placed : List (String × Disclosure)) : Prop where
  known : after.byDigest = before.byDigest
  opened : ∀ one ∈ placed, before.byDigest.get? one.1 = some one.2
  named : ∀ one ∈ placed, ∀ name, one.2.name = some name → name ∉ RESERVED_NAMES
  met : after.seen.Perm (digests ++ within placed ++ before.seen)
  all : ((digests ++ within placed).filter fun digest => (before.byDigest.get? digest).isSome).Perm
    (placed.map Prod.fst)
  used : ∀ digest, digest ∈ after.used ↔ digest ∈ placed.map Prod.fst ∨ digest ∈ before.used
  grounded : Grounded digests placed
  nodup : before.seen.Nodup → after.seen.Nodup
  once : before.used.Nodup → after.used.Nodup

namespace Walked

variable {digests more : List String} {before middle after : Unfolding}
  {placed others : List (String × Disclosure)}

theorem refl (unfolding : Unfolding) : Walked [] unfolding unfolding [] where
  known := rfl
  opened := by simp
  named := by simp
  met := by simp [within]
  all := by simp [within]
  used := by simp
  grounded := .nil
  nodup := id
  once := id

theorem perm (walked : Walked digests before after placed) (same : digests.Perm more) :
    Walked more before after placed :=
  { walked with
    met := walked.met.trans ((same.append_right _).append_right _)
    all := ((same.symm.append_right _).filter _).trans walked.all
    grounded := walked.grounded.mono same.subset }

theorem append (first : Walked digests before middle placed)
    (second : Walked more middle after others) :
    Walked (digests ++ more) before after (placed ++ others) := by
  have mixed : (digests ++ more ++ within (placed ++ others)).Perm
      (digests ++ within placed ++ (more ++ within others)) := by
    rw [within_append, List.append_assoc, List.append_assoc]
    refine List.Perm.append_left digests ?_
    rw [← List.append_assoc, ← List.append_assoc]
    exact List.perm_append_comm.append_right _
  refine
    { known := second.known.trans first.known
      opened := ?_
      named := ?_
      met := ?_
      all := ?_
      used := ?_
      grounded := ?_
      nodup := fun fresh => second.nodup (first.nodup fresh)
      once := fun fresh => second.once (first.once fresh) }
  · intro one inside
    rcases List.mem_append.mp inside with earlier | later
    · exact first.opened one earlier
    · rw [← first.known]
      exact second.opened one later
  · intro one inside
    rcases List.mem_append.mp inside with earlier | later
    · exact first.named one earlier
    · exact second.named one later
  · have seen := second.met.trans (first.met.append_left (more ++ within others))
    rw [← List.append_assoc] at seen
    exact seen.trans ((List.perm_append_comm.trans mixed.symm).append_right _)
  · rw [List.map_append]
    refine (mixed.filter _).trans ?_
    rw [List.filter_append]
    have later := second.all
    rw [first.known] at later
    exact first.all.append later
  · intro digest
    rw [second.used, first.used, List.map_append, List.mem_append]
    constructor
    · rintro (later | earlier | kept)
      · exact Or.inl (Or.inr later)
      · exact Or.inl (Or.inl earlier)
      · exact Or.inr kept
    · rintro ((earlier | later) | kept)
      · exact Or.inr (Or.inl earlier)
      · exact Or.inl later
      · exact Or.inr (Or.inr kept)
  · exact (first.grounded.mono (List.subset_append_left _ _)).append
      (second.grounded.mono (List.subset_append_right _ _))

/-- A digest that opens nothing. -/
theorem withheld {digest : String} (noted : note before digest = .ok (none, after)) :
    Walked [digest] before after [] := by
  obtain ⟨fresh, absent, rfl⟩ := note_eq_ok noted
  exact
    { known := rfl
      opened := by simp
      named := by simp
      met := .refl _
      all := by simp [within, ← absent]
      used := by simp
      grounded := .nil
      nodup := fun once => List.nodup_cons.mpr ⟨fresh, once⟩
      once := id }

/-- A digest that opens a disclosure, which is unfolded in its place. -/
theorem placing {digest : String} {disclosure : Disclosure}
    (noted : note before digest = .ok (some disclosure, middle))
    (name : ∀ name, disclosure.name = some name → name ∉ RESERVED_NAMES)
    (walked : Walked (digestsIn disclosure.value) middle after placed) :
    Walked [digest] before after ((digest, disclosure) :: placed) := by
  obtain ⟨fresh, found, rfl⟩ := note_eq_ok noted
  have shape : within ((digest, disclosure) :: placed) =
      digestsIn disclosure.value ++ within placed := rfl
  refine
    { known := walked.known
      opened := List.forall_mem_cons.mpr ⟨found.symm, walked.opened⟩
      named := List.forall_mem_cons.mpr ⟨name, walked.named⟩
      met := ?_
      all := ?_
      used := ?_
      grounded := .cons (List.mem_singleton_self _) (walked.grounded.mono (List.subset_append_right _ _))
      nodup := fun once => walked.nodup (List.nodup_cons.mpr ⟨fresh, once⟩)
      once := fun once => walked.once (List.Nodup.insert once) }
  · rw [shape]
    exact walked.met.trans List.perm_middle
  · have opens : (before.byDigest.get? digest).isSome := by simp [← found]
    rw [shape, List.singleton_append, List.filter_cons, if_pos opens, List.map_cons]
    exact walked.all.cons digest
  · intro asked
    rw [walked.used]
    simp only [Option.isSome_some, if_true, List.mem_insert_iff, List.map_cons, List.mem_cons]
    constructor
    · rintro (later | same | kept)
      · exact Or.inl (Or.inr later)
      · exact Or.inl (Or.inl same)
      · exact Or.inr kept
    · rintro ((same | later) | kept)
      · exact Or.inr (Or.inl same)
      · exact Or.inl later
      · exact Or.inr (Or.inr kept)

end Walked

variable {finite : Rat → Prop}

/-- A state whose disclosures hold values of the library. -/
def Unfolding.Holds (finite : Rat → Prop) (unfolding : Unfolding) : Prop :=
  ∀ digest disclosure, unfolding.byDigest.get? digest = some disclosure →
    disclosure.value.Held finite

theorem Unfolding.Holds.further {before after : Unfolding} (holds : before.Holds finite)
    (further : Further before after) : after.Holds finite := by
  intro digest disclosure found
  rw [further.known] at found
  exact holds digest disclosure found

/-- What unfolding one value guarantees of the state and of what comes out. -/
def Sound (finite : Rat → Prop)
    (unfold : Json → Unfolding → Outcome Refused (Json × Unfolding)) : Prop :=
  ∀ {value before result after}, unfold value before = pure (result, after) →
    value.Held finite → before.Holds finite →
      (∃ placed, Walked (digestsIn value) before after placed) ∧ Clean result ∧ Keeps value result

/-- Of the members of the name of the digests the last is what is left. -/
theorem unfoldMembers_digests {unfold : Json → Unfolding → Outcome Refused (Json × Unfolding)}
    {members : List (String × Json)} {unfolded : SortedMap String Json} {digests : Option Json}
    {before after : Unfolding} {result : SortedMap String Json × Option Json}
    (ran : unfoldMembers unfold members unfolded digests before = pure (result, after)) :
    result.2 = lastDigests members digests := by
  induction members generalizing unfolded digests before with
  | nil =>
    cases ran
    rfl
  | cons member rest ih =>
    obtain ⟨name, value⟩ := member
    rw [unfoldMembers] at ran
    rw [lastDigests]
    split at ran
    · next own =>
      rw [if_pos own]
      exact ih ran
    next other =>
    rw [if_neg other]
    split at ran
    · cases ran
    split at ran
    · cases ran
    obtain ⟨⟨shown, middle⟩, -, then_rest⟩ := bind_eq_pure.mp ran
    exact ih then_rest

section
variable {unfold : Json → Unfolding → Outcome Refused (Json × Unfolding)}
  (onward : ∀ {value before result after}, unfold value before = pure (result, after) →
    Further before after)
  (sound : Sound finite unfold)
include onward sound

theorem unfoldMembers_sound {members : List (String × Json)} {unfolded : SortedMap String Json}
    {digests : Option Json} {before after : Unfolding} {result : SortedMap String Json × Option Json}
    (ran : unfoldMembers unfold members unfolded digests before = pure (result, after))
    (sorted : Sorted members) (each : ∀ member ∈ members, member.2.Held finite)
    (holds : before.Holds finite) :
    (∃ placed, Walked (plainDigests members) before after placed) ∧
      (∀ name, (∀ member ∈ members, member.1 ≠ name) → result.1.get? name = unfolded.get? name) ∧
      (∀ member ∈ members, member.1 = "_sd" ∨ member.1 ∉ RESERVED_NAMES ∧
        ∃ value, result.1.get? member.1 = some value ∧ Clean value ∧ Keeps member.2 value) ∧
      result.1.get? "_sd" = unfolded.get? "_sd" := by
  induction members generalizing unfolded digests before with
  | nil =>
    cases ran
    exact ⟨⟨[], .refl _⟩, fun _ _ => rfl, by simp, rfl⟩
  | cons member rest ih =>
    obtain ⟨above, later⟩ := List.pairwise_cons.mp sorted
    obtain ⟨here, others⟩ := List.forall_mem_cons.mp each
    obtain ⟨name, value⟩ := member
    have apart : ∀ member ∈ rest, member.1 ≠ name := fun member inside same =>
      absurd (above member inside) (by rw [same]; exact lt_irrefl _)
    rw [unfoldMembers] at ran
    split at ran
    · next own =>
      obtain ⟨⟨placed, walked⟩, kept, members, own_kept⟩ := ih ran later others holds
      rw [plainDigests, if_pos own, List.nil_append]
      exact ⟨⟨placed, walked⟩, fun asked absent => kept asked (List.forall_mem_cons.mp absent).2,
        List.forall_mem_cons.mpr ⟨Or.inl own, members⟩, own_kept⟩
    next other =>
    split at ran
    · cases ran
    next carrier =>
    split at ran
    · cases ran
    next algorithm =>
    obtain ⟨⟨shown, middle⟩, first, then_rest⟩ := bind_eq_pure.mp ran
    obtain ⟨⟨placed, walked⟩, clean, keeps⟩ := sound first here holds
    obtain ⟨⟨more, walked_on⟩, kept, members, own_kept⟩ :=
      ih then_rest later others (holds.further (onward first))
    rw [plainDigests, if_neg other]
    refine ⟨⟨placed ++ more, walked.append walked_on⟩, ?_, ?_, ?_⟩
    · intro asked absent
      obtain ⟨different, absent⟩ := List.forall_mem_cons.mp absent
      rw [kept asked absent, SortedMap.get?_insert, if_neg (Ne.symm different)]
    · refine List.forall_mem_cons.mpr ⟨Or.inr ⟨?_, shown, ?_, clean, keeps⟩, members⟩
      · simp [RESERVED_NAMES, other, carrier, algorithm]
      · rw [kept name apart, SortedMap.get?_insert, if_pos rfl]
    · rw [own_kept, SortedMap.get?_insert, if_neg (Ne.symm other)]

omit onward in
theorem placeProperty_sound {disclosure : Disclosure} {unfolded result : SortedMap String Json}
    {before middle after : Unfolding} {digest : String}
    (noted : note before digest = .ok (some disclosure, middle))
    (ran : placeProperty unfold disclosure unfolded middle = pure (result, after))
    (holds : before.Holds finite) :
    (∃ placed, Walked [digest] before after placed) ∧
      ∃ name value, result = unfolded.insert name value ∧ unfolded.get? name = none ∧
        name ∉ RESERVED_NAMES ∧ Clean value := by
  have held : disclosure.value.Held finite := by
    obtain ⟨-, found, -⟩ := note_eq_ok noted
    exact holds digest disclosure found.symm
  unfold placeProperty at ran
  split at ran
  · cases ran
  next name named =>
  split at ran
  · cases ran
  next allowed =>
  split at ran
  · cases ran
  next free =>
  obtain ⟨⟨value, later⟩, placed, ended⟩ := bind_eq_pure.mp ran
  cases ended
  obtain ⟨⟨more, walked⟩, clean, -⟩ := sound placed held (holds.further (Further.of_note noted))
  have names : ∀ other, disclosure.name = some other → other ∉ RESERVED_NAMES := by
    intro other same
    rw [named] at same
    rw [← Option.some.inj same]
    exact allowed
  refine ⟨⟨_, Walked.placing noted names walked⟩, name, value, rfl, ?_, allowed, clean⟩
  simpa using free

/-- The digests of an object: what stood in it stays, and what is put in it is
clean, under a name that is allowed. -/
theorem unfoldDigests_sound {digests : List Json} {unfolded result : SortedMap String Json}
    {before after : Unfolding}
    (ran : unfoldDigests unfold digests unfolded before = pure (result, after))
    (holds : before.Holds finite) :
    (∃ placed, Walked (digests.filterMap Json.asStr) before after placed) ∧
      (∀ name value, unfolded.get? name = some value → result.get? name = some value) ∧
      ∀ name value, result.get? name = some value →
        unfolded.get? name = some value ∨ name ∉ RESERVED_NAMES ∧ Clean value := by
  induction digests generalizing unfolded before with
  | nil =>
    cases ran
    exact ⟨⟨[], .refl _⟩, fun _ _ found => found, fun _ _ found => Or.inl found⟩
  | cons digest rest ih =>
    cases digest with
    | string digest =>
      obtain ⟨⟨found, middle⟩, noted, ran⟩ := bind_eq_pure.mp ran
      have noted := settled_eq_pure.mp noted
      have still := holds.further (Further.of_note noted)
      cases found with
      | none =>
        obtain ⟨⟨placed, walked⟩, kept, clean⟩ := ih ran still
        exact ⟨⟨_, (Walked.withheld noted).append walked⟩, kept, clean⟩
      | some disclosure =>
        obtain ⟨⟨more, later⟩, placing, ran⟩ := bind_eq_pure.mp ran
        obtain ⟨⟨here, walked⟩, name, value, rfl, free, allowed, clean_here⟩ :=
          placeProperty_sound sound noted placing holds
        obtain ⟨⟨placed, walked_on⟩, kept, clean⟩ :=
          ih ran (still.further (placeProperty_further onward placing))
        refine ⟨⟨_, walked.append walked_on⟩, ?_, ?_⟩
        · intro asked found there
          apply kept
          rw [SortedMap.get?_insert, if_neg, there]
          intro same
          rw [same, free] at there
          cases there
        · intro asked found there
          rcases clean asked found there with earlier | new
          · rw [SortedMap.get?_insert] at earlier
            split at earlier
            · next same =>
              cases earlier
              rw [same]
              exact Or.inr ⟨allowed, clean_here⟩
            · exact Or.inl earlier
          · exact Or.inr new
    | _ => cases ran

theorem unfoldObject_sound {members : List (String × Json)} {result : SortedMap String Json}
    {before after : Unfolding} (ran : unfoldObject unfold members before = pure (result, after))
    (sorted : Sorted members) (each : ∀ member ∈ members, member.2.Held finite)
    (holds : before.Holds finite) :
    (∃ placed, Walked (digestsInMembers members) before after placed) ∧
      Clean (.object result.entries) ∧ Keeps (.object members) (.object result.entries) := by
  obtain ⟨⟨⟨unfolded, digests⟩, middle⟩, first, ran⟩ := bind_eq_pure.mp ran
  obtain ⟨⟨placed, walked⟩, absent, plain, own⟩ :=
    unfoldMembers_sound onward sound first sorted each holds
  have last := unfoldMembers_digests first
  have still := holds.further (unfoldMembers_further onward first)
  simp only at last absent plain own ran
  have assembled : ∀ final : SortedMap String Json,
      (∀ name value, unfolded.get? name = some value → final.get? name = some value) →
      (∀ name value, final.get? name = some value →
        unfolded.get? name = some value ∨ name ∉ RESERVED_NAMES ∧ Clean value) →
      Clean (.object final.entries) ∧ Keeps (.object members) (.object final.entries) := by
    intro final kept clean
    have from_plain : ∀ name value, unfolded.get? name = some value →
        name ∉ RESERVED_NAMES ∧ Clean value := by
      intro name value found
      by_cases there : ∃ member ∈ members, member.1 = name
      · obtain ⟨member, inside, rfl⟩ := there
        rcases plain member inside with same | ⟨allowed, other, same, clean, -⟩
        · rw [same, own] at found
          cases found
        · rw [same] at found
          rw [← Option.some.inj found]
          exact ⟨allowed, clean⟩
      · rw [absent name fun member inside same => there ⟨member, inside, same⟩] at found
        cases found
    have every : ∀ name value, final.get? name = some value →
        name ∉ RESERVED_NAMES ∧ Clean value := by
      intro name value found
      rcases clean name value found with earlier | new
      · exact from_plain name value earlier
      · exact new
    constructor
    · refine .object (fun member inside => ?_) fun member inside => ?_
      · exact (every _ _ ((SortedMap.mem_entries_iff final _ _).mp inside)).1
      · exact (every _ _ ((SortedMap.mem_entries_iff final _ _).mp inside)).2
    · have shown : ∀ member ∈ members, member.1 ∉ RESERVED_NAMES →
          ∃ value, unfolded.get? member.1 = some value ∧ Keeps member.2 value := by
        intro member inside allowed
        rcases plain member inside with same | ⟨-, value, found, -, keeps⟩
        · exact absurd (by rw [same]; decide) allowed
        · exact ⟨value, found, keeps⟩
      refine .object (fun name => (unfolded.get? name).getD .null) ?_ ?_
      · intro member inside allowed
        obtain ⟨value, found, keeps⟩ := shown member inside allowed
        rw [found]
        exact keeps
      · intro member inside allowed
        obtain ⟨value, found, -⟩ := shown member inside allowed
        rw [kept _ _ found, found]
        rfl
  have order := digestsInMembers_perm sorted
  rw [← last] at order
  split at ran
  · cases ran
    refine ⟨⟨placed, walked.perm ?_⟩, assembled _ (fun _ _ found => found) fun _ _ found => Or.inl found⟩
    simpa using order.symm
  · next texts =>
    obtain ⟨⟨more, walked_on⟩, kept, clean⟩ := unfoldDigests_sound onward sound ran still
    exact ⟨⟨_, (walked.append walked_on).perm order.symm⟩, assembled _ kept clean⟩
  · cases ran

theorem unfoldArray_sound {items result : List Json} {before after : Unfolding}
    (ran : unfoldArray unfold items before = pure (result, after))
    (each : ∀ item ∈ items, item.Held finite) (holds : before.Holds finite) :
    (∃ placed, Walked (digestsInItems items) before after placed) ∧
      (∀ value ∈ result, Clean value) ∧ KeepsItems items result := by
  induction items generalizing before result with
  | nil =>
    cases ran
    exact ⟨⟨[], .refl _⟩, by simp, .nil⟩
  | cons item rest ih =>
    obtain ⟨here, later⟩ := List.forall_mem_cons.mp each
    obtain ⟨found, carrier, ran⟩ := bind_eq_pure.mp ran
    have carrier := carrierOf_of_carried (settled_eq_pure.mp carrier)
    cases found with
    | none =>
      obtain ⟨⟨value, middle⟩, first, ran⟩ := bind_eq_pure.mp ran
      obtain ⟨⟨values, final⟩, then_rest, ended⟩ := bind_eq_pure.mp ran
      cases ended
      obtain ⟨⟨placed, walked⟩, clean, keeps⟩ := sound first here holds
      obtain ⟨⟨more, walked_on⟩, cleans, kept⟩ := ih then_rest later (holds.further (onward first))
      rw [digestsInItems, carrier]
      exact ⟨⟨_, walked.append walked_on⟩, List.forall_mem_cons.mpr ⟨clean, cleans⟩,
        .plain keeps kept⟩
    | some digest =>
      obtain ⟨⟨found, middle⟩, noted, ran⟩ := bind_eq_pure.mp ran
      have noted := settled_eq_pure.mp noted
      have still := holds.further (Further.of_note noted)
      rw [digestsInItems, carrier]
      cases found with
      | none =>
        obtain ⟨⟨more, walked_on⟩, cleans, kept⟩ := ih ran later still
        exact ⟨⟨_, (Walked.withheld noted).append walked_on⟩, cleans, .withheld carrier kept⟩
      | some disclosure =>
        dsimp only at ran
        split at ran
        · cases ran
        next unnamed =>
        obtain ⟨⟨value, placed⟩, first, ran⟩ := bind_eq_pure.mp ran
        obtain ⟨⟨values, final⟩, then_rest, ended⟩ := bind_eq_pure.mp ran
        cases ended
        have held : disclosure.value.Held finite := by
          obtain ⟨-, found, -⟩ := note_eq_ok noted
          exact holds digest disclosure found.symm
        obtain ⟨⟨inner, walked⟩, clean, -⟩ := sound first held still
        obtain ⟨⟨more, walked_on⟩, cleans, kept⟩ :=
          ih then_rest later (still.further (onward first))
        have names : ∀ name, disclosure.name = some name → name ∉ RESERVED_NAMES := by
          intro name same
          rw [same] at unnamed
          exact absurd rfl unnamed
        exact ⟨⟨_, (Walked.placing noted names walked).append walked_on⟩,
          List.forall_mem_cons.mpr ⟨clean, cleans⟩, .placed carrier kept⟩

end

theorem unfoldValue_sound (fuel : Nat) : Sound finite (unfoldValue fuel) := by
  induction fuel with
  | zero =>
    intro value before result after ran
    cases ran
  | succ fuel ih =>
    intro value before result after ran held holds
    cases value with
    | object members =>
      obtain ⟨⟨unfolded, later⟩, first, ended⟩ := bind_eq_pure.mp ran
      cases ended
      cases held with
      | object sorted each =>
        exact unfoldObject_sound unfoldValue_further ih first sorted each holds
    | array items =>
      obtain ⟨⟨unfolded, later⟩, first, ended⟩ := bind_eq_pure.mp ran
      cases ended
      cases held with
      | array each =>
        obtain ⟨walked, clean, keeps⟩ := unfoldArray_sound unfoldValue_further ih first each holds
        exact ⟨walked, .array clean, .array keeps⟩
    | null =>
      cases ran
      exact ⟨⟨[], .refl _⟩, .null, .null⟩
    | bool value =>
      cases ran
      exact ⟨⟨[], .refl _⟩, .bool value, .bool value⟩
    | number value =>
      cases ran
      exact ⟨⟨[], .refl _⟩, .number value, .number value⟩
    | string text =>
      cases ran
      exact ⟨⟨[], .refl _⟩, .string text, .string text⟩

end Saffui.SdJwt
