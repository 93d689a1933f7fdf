import Mathlib
import Saffui.Authz.DecideSound
import Saffui.Tokens.Mint

/-!
# What a token tells of the roles of a person

Source: `saffui-core/src/authz/grants.rs` (`RoleClaims::gather`), read from
`list_held_roles` and said by `mint_access_token`. A role held two ways lasts
as long as the longer of them, and the claims as long as the first of their
roles to end. An end that is absent comes after every instant.
-/

namespace Saffui.Tokens.RoleClaims

open Foundation Authz

/-- The later of two ends: without one, a way never ends. -/
def latest : Option Instant → Option Instant → Option Instant
  | some one, some other => some (max one other)
  | _, _ => none

/-- One turn of the first loop of `gather`: the entry of the role of the way. -/
def addWay (lasting : SortedMap Uuid (HeldRole × Option Instant)) (way : HeldRole) :
    SortedMap Uuid (HeldRole × Option Instant) :=
  match lasting.get? way.role with
  | some (first, ends) => lasting.insert way.role (first, latest ends way.ends)
  | none => lasting.insert way.role (way, way.ends)

/-- One turn of the second loop: a role and when it ends. -/
def addRole (claims : RoleClaims) (lasting : HeldRole × Option Instant) : RoleClaims :=
  let (role, ends) := lasting
  let claims := if role.clientId.isSome then { claims with client := claims.client ++ [role.name] }
    else { claims with realm := claims.realm ++ [role.name] }
  match ends with
  | none => claims
  | some ends => { claims with ends := some (claims.ends.elim ends fun first => min first ends) }

/-- The way is to a role of the realm or of the client. -/
def isSaid (clientId : String) (way : HeldRole) : Bool :=
  way.clientId.all fun owner => owner = clientId

/-- Gathers what a token for a client tells of the roles held. -/
def gather (held : List HeldRole) (clientId : String) : RoleClaims :=
  let lasting := (held.filter (isSaid clientId)).foldl addWay SortedMap.empty
  let claims := (lasting.entries.map Prod.snd).foldl addRole ⟨[], [], none⟩
  { claims with
    realm := claims.realm.insertionSort (· ≤ ·)
    client := claims.client.insertionSort (· ≤ ·) }

/-- Reads what a token for a client tells of the roles a person holds. -/
def readRoleClaims (around : Around) (state : RealmState) (person : Uuid) (clientId : String)
    (now : Instant) : AskM RoleClaims := do
  let held ← readHeldRoles around state person now
  return gather held clientId

/-- The ways to a role. -/
def waysTo (role : Uuid) (ways : List HeldRole) : List HeldRole :=
  ways.filter fun way => way.role = role

/-- The end of ways held beside each other. -/
def lastEnd (ends : Option Instant) (ways : List HeldRole) : Option Instant :=
  ways.foldl (fun ends way => latest ends way.ends) ends

theorem get?_addWay (lasting : SortedMap Uuid (HeldRole × Option Instant)) (way : HeldRole)
    (role : Uuid) :
    (addWay lasting way).get? role
      = if role = way.role then some (match lasting.get? role with
          | some (first, ends) => (first, latest ends way.ends)
          | none => (way, way.ends))
        else lasting.get? role := by
  unfold addWay
  by_cases same : role = way.role
  · subst same
    cases lasting.get? way.role <;> simp
  · cases lasting.get? way.role <;> simp [same]

/-- The first loop keeps the first way to each role, and the end of all of
them. -/
theorem get?_lasting (ways : List HeldRole) (role : Uuid) :
    (ways.foldl addWay SortedMap.empty).get? role
      = match waysTo role ways with
        | [] => none
        | first :: others => some (first, lastEnd first.ends others) := by
  induction ways using List.reverseRecOn with
  | nil => rfl
  | append_singleton ways way ih =>
    rw [List.foldl_append, List.foldl_cons, List.foldl_nil, get?_addWay, ih]
    by_cases same : role = way.role
    · subst same
      rw [if_pos rfl]
      have more : waysTo way.role (ways ++ [way]) = waysTo way.role ways ++ [way] := by
        simp [waysTo]
      rw [more]
      cases waysTo way.role ways with
      | nil => rfl
      | cons first others => simp [lastEnd]
    · have fewer : waysTo role (ways ++ [way]) = waysTo role ways := by
        simp [waysTo, Ne.symm same]
      rw [if_neg same, fewer]

/-- When something ends, where an absent end is never. -/
def whenEnds : Option Instant → WithTop Instant
  | none => ⊤
  | some instant => instant

theorem whenEnds_latest (one other : Option Instant) :
    whenEnds (latest one other) = max (whenEnds one) (whenEnds other) := by
  cases one with
  | none => simp [latest, whenEnds]
  | some one =>
    cases other with
    | none => simp [latest, whenEnds]
    | some other => exact WithTop.coe_max one other

/-- The ends of ways. -/
def endsOf (ways : List HeldRole) : Set (WithTop Instant) :=
  { ends | ∃ way ∈ ways, whenEnds way.ends = ends }

theorem lastEnd_greatest (ways others : List HeldRole) (ends : Option Instant)
    (greatest : IsGreatest (endsOf ways) (whenEnds ends)) :
    IsGreatest (endsOf (ways ++ others)) (whenEnds (lastEnd ends others)) := by
  induction others generalizing ways ends with
  | nil => simpa [lastEnd] using greatest
  | cons way others ih =>
    have step : IsGreatest (endsOf (ways ++ [way])) (whenEnds (latest ends way.ends)) := by
      rw [whenEnds_latest]
      have union : endsOf (ways ++ [way]) = endsOf ways ∪ {whenEnds way.ends} := by
        ext found
        simp only [endsOf, List.mem_append, List.mem_singleton, or_and_right, exists_or,
          exists_eq_left, Set.mem_ofPred_eq, Set.mem_union, Set.mem_singleton_iff,
          eq_comm (a := found)]
      rw [union]
      exact greatest.union isGreatest_singleton
    have later := ih (ways ++ [way]) (latest ends way.ends) step
    rwa [List.append_assoc] at later

/-- The last of the ends of the ways to a role that is held. -/
theorem lastEnd_of_ways {first : HeldRole} {others : List HeldRole} :
    IsGreatest (endsOf (first :: others)) (whenEnds (lastEnd first.ends others)) := by
  apply lastEnd_greatest [first] others first.ends
  have single : endsOf [first] = {whenEnds first.ends} := by
    ext found
    simp [endsOf, eq_comm]
  rw [single]
  exact isGreatest_singleton

/-- The ways to one role are to one role: they agree on its client and its
name. -/
def OneRole (ways : List HeldRole) : Prop :=
  ∀ way ∈ ways, ∀ other ∈ ways, way.role = other.role →
    way.clientId = other.clientId ∧ way.name = other.name

/-- The roles of the first loop, each with its first way. -/
def lastingOf (held : List HeldRole) (clientId : String) : List (HeldRole × Option Instant) :=
  ((held.filter (isSaid clientId)).foldl addWay SortedMap.empty).entries.map Prod.snd

theorem mem_lastingOf {held : List HeldRole} {clientId : String} {first : HeldRole}
    {ends : Option Instant} :
    (first, ends) ∈ lastingOf held clientId ↔ ∃ others,
      waysTo first.role (held.filter (isSaid clientId)) = first :: others
        ∧ ends = lastEnd first.ends others := by
  rw [lastingOf, List.mem_map]
  constructor
  · rintro ⟨⟨role, lasting⟩, inside, rfl⟩
    rw [SortedMap.mem_entries_iff, get?_lasting] at inside
    cases ways : waysTo role (held.filter (isSaid clientId)) with
    | nil => simp [ways] at inside
    | cons found others =>
      simp only [ways, Option.some.injEq, Prod.mk.injEq] at inside
      obtain ⟨rfl, rfl⟩ := inside
      have same : found.role = role := by
        have member : found ∈ waysTo role (held.filter (isSaid clientId)) := by simp [ways]
        simpa using (List.mem_filter.mp member).2
      exact ⟨others, by rw [same, ways], rfl⟩
  · rintro ⟨others, ways, rfl⟩
    refine ⟨(first.role, first, lastEnd first.ends others), ?_, rfl⟩
    rw [SortedMap.mem_entries_iff, get?_lasting, ways]

/-- What the second loop reads of a role: its client, its name and its end. -/
def seen (role : HeldRole × Option Instant) : Option String × String × Option Instant :=
  (role.1.clientId, role.1.name, role.2)

def addSeen (claims : RoleClaims) (role : Option String × String × Option Instant) : RoleClaims :=
  addRole claims (⟨0, role.1, role.2.1, none, none⟩, role.2.2)

theorem foldl_seen (roles : List (HeldRole × Option Instant)) (claims : RoleClaims) :
    roles.foldl addRole claims = (roles.map seen).foldl addSeen claims := by
  rw [List.foldl_map]
  rfl

/-- The first of the ends that are read. -/
def firstEnd (ends : Option Instant) (roles : List (HeldRole × Option Instant)) : Option Instant :=
  (roles.filterMap Prod.snd).foldl
    (fun first ends => some (first.elim ends fun first => min first ends)) ends

/-- The second loop: the names in the order of the roles, and the first end. -/
theorem foldl_addRole (roles : List (HeldRole × Option Instant)) (claims : RoleClaims) :
    roles.foldl addRole claims
      = { realm := claims.realm ++ (roles.filter fun role => role.1.clientId.isNone).map (·.1.name)
          client := claims.client
            ++ (roles.filter fun role => role.1.clientId.isSome).map (·.1.name)
          ends := firstEnd claims.ends roles } := by
  induction roles generalizing claims with
  | nil => simp [firstEnd]
  | cons role roles ih =>
    obtain ⟨way, ends⟩ := role
    rw [List.foldl_cons, ih]
    cases owner : way.clientId <;> cases ends <;> simp [addRole, owner, firstEnd]

theorem firstEnd_least (roles : List (HeldRole × Option Instant)) (ends : Option Instant) :
    IsLeast (insert (whenEnds ends) { found | ∃ role ∈ roles, whenEnds role.2 = found })
      (whenEnds (firstEnd ends roles)) := by
  induction roles generalizing ends with
  | nil => simp [firstEnd]
  | cons role roles ih =>
    obtain ⟨way, own⟩ := role
    have next : firstEnd ends ((way, own) :: roles)
        = firstEnd (own.elim ends fun own => some (ends.elim own fun first => min first own))
          roles := by
      cases own <;> rfl
    have lower : whenEnds (own.elim ends fun own => some (ends.elim own fun first => min first own))
        = min (whenEnds ends) (whenEnds own) := by
      cases own with
      | none => simp [whenEnds]
      | some own =>
        cases ends with
        | none => simp [whenEnds]
        | some ends => exact WithTop.coe_min ends own
    have later := ih (own.elim ends fun own => some (ends.elim own fun first => min first own))
    rw [lower] at later
    rw [next]
    constructor
    · rcases later.1 with least | ⟨role, inside, equal⟩
      · rcases min_choice (whenEnds ends) (whenEnds own) with first | second
        · exact Or.inl (least.trans first)
        · exact Or.inr ⟨(way, own), List.mem_cons_self, second.symm.trans least.symm⟩
      · exact Or.inr ⟨role, List.mem_cons_of_mem _ inside, equal⟩
    · intro found member
      rcases member with start | ⟨role, inside, equal⟩
      · exact (later.2 (Or.inl rfl)).trans (start ▸ min_le_left _ _)
      · rcases List.mem_cons.mp inside with same | there
        · subst same
          exact (later.2 (Or.inl rfl)).trans (equal ▸ min_le_right _ _)
        · exact later.2 (Or.inr ⟨role, there, equal⟩)

theorem gather_eq (held : List HeldRole) (clientId : String) :
    gather held clientId
      = { realm := (((lastingOf held clientId).filter fun role =>
            role.1.clientId.isNone).map (·.1.name)).insertionSort (· ≤ ·)
          client := (((lastingOf held clientId).filter fun role =>
            role.1.clientId.isSome).map (·.1.name)).insertionSort (· ≤ ·)
          ends := firstEnd none (lastingOf held clientId) } := by
  have claims := foldl_addRole (lastingOf held clientId) ⟨[], [], none⟩
  rw [List.nil_append, List.nil_append] at claims
  rw [lastingOf] at claims
  rw [gather, claims]
  rfl

section Said

variable {held : List HeldRole} {clientId : String}

/-- The ways to a role that is said are all said. -/
theorem waysTo_said (one : OneRole held) {way : HeldRole} (inside : way ∈ held)
    (said : isSaid clientId way) :
    waysTo way.role (held.filter (isSaid clientId)) = waysTo way.role held := by
  rw [waysTo, waysTo, List.filter_filter]
  apply List.filter_congr
  intro other there
  by_cases same : other.role = way.role
  · have owner := (one other there way inside same).1
    simp only [isSaid, owner] at said ⊢
    simp [same, said]
  · simp [same]

/-- A way that is said is to a role the second loop reads. -/
theorem said_lasting (one : OneRole held) {way : HeldRole} (inside : way ∈ held)
    (said : isSaid clientId way) :
    ∃ first ends, (first, ends) ∈ lastingOf held clientId ∧ first ∈ held ∧ first.role = way.role
      ∧ first.clientId = way.clientId ∧ first.name = way.name := by
  have member : way ∈ waysTo way.role (held.filter (isSaid clientId)) := by
    simp [waysTo, inside, said]
  cases ways : waysTo way.role (held.filter (isSaid clientId)) with
  | nil => simp [ways] at member
  | cons first others =>
    have there : first ∈ waysTo way.role (held.filter (isSaid clientId)) := by simp [ways]
    simp only [waysTo, List.mem_filter, decide_eq_true_eq] at there
    have alike := one first there.1.1 way inside there.2
    exact ⟨first, lastEnd first.ends others,
      mem_lastingOf.mpr ⟨others, by rw [there.2, ways], rfl⟩, there.1.1, there.2, alike⟩

theorem lasting_said {first : HeldRole} {ends : Option Instant}
    (inside : (first, ends) ∈ lastingOf held clientId) : first ∈ held ∧ isSaid clientId first := by
  obtain ⟨others, ways, -⟩ := mem_lastingOf.mp inside
  have there : first ∈ waysTo first.role (held.filter (isSaid clientId)) := by simp [ways]
  simp only [waysTo, List.mem_filter] at there
  exact there.1

theorem mem_realm (one : OneRole held) (name : String) :
    name ∈ (gather held clientId).realm ↔ ∃ way ∈ held, way.clientId = none ∧ way.name = name := by
  rw [gather_eq, List.mem_insertionSort, List.mem_map]
  constructor
  · rintro ⟨⟨first, ends⟩, inside, rfl⟩
    obtain ⟨lasting, owner⟩ := List.mem_filter.mp inside
    exact ⟨first, (lasting_said lasting).1, by simpa using owner, rfl⟩
  · rintro ⟨way, inside, owner, rfl⟩
    obtain ⟨first, ends, lasting, -, -, client, named⟩ :=
      said_lasting one inside (by simp [isSaid, owner] : isSaid clientId way)
    exact ⟨(first, ends), List.mem_filter.mpr ⟨lasting, by simp [client, owner]⟩, named⟩

theorem mem_client (one : OneRole held) (name : String) :
    name ∈ (gather held clientId).client
      ↔ ∃ way ∈ held, way.clientId = some clientId ∧ way.name = name := by
  rw [gather_eq, List.mem_insertionSort, List.mem_map]
  constructor
  · rintro ⟨⟨first, ends⟩, inside, rfl⟩
    obtain ⟨lasting, owner⟩ := List.mem_filter.mp inside
    obtain ⟨owned, there⟩ := lasting_said lasting
    obtain ⟨owner, known⟩ := Option.isSome_iff_exists.mp owner
    have known : first.clientId = some owner := known
    simp only [isSaid, known, Option.all_some, decide_eq_true_eq] at there
    exact ⟨first, owned, by rw [known, there], rfl⟩
  · rintro ⟨way, inside, owner, rfl⟩
    obtain ⟨first, ends, lasting, -, -, client, named⟩ :=
      said_lasting one inside (by simp [isSaid, owner] : isSaid clientId way)
    exact ⟨(first, ends), List.mem_filter.mpr ⟨lasting, by simp [client, owner]⟩, named⟩

/-- When a role ends: the last of the ends of the ways to it. -/
def Lasts (held : List HeldRole) (role : Uuid) (ends : WithTop Instant) : Prop :=
  IsGreatest (endsOf (waysTo role held)) ends

/-- The ends of the roles that are said. -/
def saidEnds (held : List HeldRole) (clientId : String) : Set (WithTop Instant) :=
  { ends | ∃ way ∈ held, isSaid clientId way ∧ Lasts held way.role ends }

theorem saidEnds_eq (one : OneRole held) :
    saidEnds held clientId
      = { found | ∃ role ∈ lastingOf held clientId, whenEnds role.2 = found } := by
  ext ends
  constructor
  · rintro ⟨way, inside, said, lasts⟩
    obtain ⟨first, found, lasting, -, same, -⟩ := said_lasting one inside said
    obtain ⟨others, ways, rfl⟩ := mem_lastingOf.mp lasting
    refine ⟨_, lasting, ?_⟩
    rw [same, waysTo_said one inside said] at ways
    rw [Lasts, ways] at lasts
    exact lastEnd_of_ways.unique lasts
  · rintro ⟨⟨first, found⟩, lasting, rfl⟩
    obtain ⟨there, said⟩ := lasting_said lasting
    obtain ⟨others, ways, rfl⟩ := mem_lastingOf.mp lasting
    refine ⟨first, there, said, ?_⟩
    rw [waysTo_said one there said] at ways
    rw [Lasts, ways]
    exact lastEnd_of_ways

theorem gather_ends_least (one : OneRole held) (some_said : ∃ way ∈ held, isSaid clientId way) :
    IsLeast (saidEnds held clientId) (whenEnds (gather held clientId).ends) := by
  have least := firstEnd_least (lastingOf held clientId) none
  rw [← saidEnds_eq one] at least
  rw [gather_eq]
  refine ⟨?_, fun found member => least.2 (Or.inr member)⟩
  rcases least.1 with never | member
  · obtain ⟨way, inside, said⟩ := some_said
    obtain ⟨first, ends, lasting, -⟩ := said_lasting one inside said
    have member : whenEnds ends ∈ saidEnds held clientId := by
      rw [saidEnds_eq one]
      exact ⟨(first, ends), lasting, rfl⟩
    have above := least.2 (Or.inr member)
    rw [never] at above
    have top : whenEnds ends = ⊤ := top_le_iff.mp above
    have equal : whenEnds (firstEnd none (lastingOf held clientId)) = whenEnds ends := by
      rw [never, top]
      rfl
    exact equal ▸ member
  · exact member

/-- A role that is said is held some way that lasts as long as the claims. -/
theorem said_lasts (one : OneRole held) {way : HeldRole} (inside : way ∈ held)
    (said : isSaid clientId way) :
    ∃ longest ∈ held, longest.clientId = way.clientId ∧ longest.name = way.name
      ∧ whenEnds (gather held clientId).ends ≤ whenEnds longest.ends := by
  have least := gather_ends_least one ⟨way, inside, said⟩
  cases ways : waysTo way.role held with
  | nil =>
    have member : way ∈ waysTo way.role held := by simp [waysTo, inside]
    simp [ways] at member
  | cons first others =>
    have lasts : Lasts held way.role (whenEnds (lastEnd first.ends others)) := by
      rw [Lasts, ways]
      exact lastEnd_of_ways
    obtain ⟨longest, there, ends⟩ := lasts.1
    simp only [waysTo, List.mem_filter, decide_eq_true_eq] at there
    have alike := one longest there.1 way inside there.2
    refine ⟨longest, there.1, alike.1, alike.2, ?_⟩
    rw [ends]
    exact least.2 ⟨way, inside, said, lasts⟩

theorem gather_ends_none (nothing : ∀ way ∈ held, ¬ isSaid clientId way) :
    (gather held clientId).ends = none := by
  have empty : held.filter (isSaid clientId) = [] := List.filter_eq_nil_iff.mpr nothing
  rw [gather_eq, lastingOf, empty]
  rfl

theorem whenEnds_injective : whenEnds.Injective := by
  intro one other same
  cases one <;> cases other <;> simp_all [whenEnds]

theorem lastEnd_perm {first second : HeldRole} {rest tail : List HeldRole}
    (perm : (first :: rest).Perm (second :: tail)) :
    lastEnd first.ends rest = lastEnd second.ends tail := by
  have same : endsOf (first :: rest) = endsOf (second :: tail) := by
    ext found
    simp only [endsOf, Set.mem_ofPred_eq, perm.mem_iff]
  apply whenEnds_injective
  have greatest : IsGreatest (endsOf (first :: rest)) (whenEnds (lastEnd first.ends rest)) :=
    lastEnd_of_ways
  rw [same] at greatest
  exact greatest.unique lastEnd_of_ways

/-- The order in which the ways are read does not matter. -/
theorem gather_perm (one : OneRole held) {others : List HeldRole} (perm : others.Perm held) :
    gather others clientId = gather held clientId := by
  have same : (lastingOf others clientId).map seen = (lastingOf held clientId).map seen := by
    have lookups : ∀ role,
        (((others.filter (isSaid clientId)).foldl addWay SortedMap.empty).get? role).map seen
          = (((held.filter (isSaid clientId)).foldl addWay SortedMap.empty).get? role).map seen := by
      intro role
      have ways : (waysTo role (others.filter (isSaid clientId))).Perm
          (waysTo role (held.filter (isSaid clientId))) := (perm.filter _).filter _
      rw [get?_lasting, get?_lasting]
      cases left : waysTo role (others.filter (isSaid clientId)) with
      | nil =>
        rw [left] at ways
        rw [ways.symm.eq_nil]
      | cons first rest =>
        cases right : waysTo role (held.filter (isSaid clientId)) with
        | nil =>
          rw [left, right] at ways
          exact absurd ways.eq_nil (List.cons_ne_nil _ _)
        | cons second tail =>
          have one_of : ∀ list : List HeldRole, ∀ way ∈ waysTo role (list.filter (isSaid clientId)),
              way ∈ list ∧ way.role = role := by
            intro list way inside
            simp only [waysTo, List.mem_filter, decide_eq_true_eq] at inside
            exact ⟨inside.1.1, inside.2⟩
          have here := one_of others first (by simp [left])
          have there := one_of held second (by simp [right])
          have alike := one first (perm.mem_iff.mp here.1) second there.1
            (here.2.trans there.2.symm)
          rw [left, right] at ways
          simp only [Option.map_some, seen, alike, lastEnd_perm ways]
    have seconds := congrArg (List.map Prod.snd) (SortedMap.map_entries_eq seen lookups)
    simpa [lastingOf, Function.comp_def] using seconds
  simp only [gather, foldl_seen, ← lastingOf.eq_1, same]

end Said

section Held

variable {state later : RealmState} {person : Uuid} {now instant : Instant} {way : HeldRole}

/-- A way that stands at an instant: a grant to the person, or a membership of
theirs together with a grant to the group, each of them valid then. -/
def StandsAt (state : RealmState) (person : Uuid) (now : Instant) (way : HeldRole) : Prop :=
  (∃ grant ∈ state.personRoles, grant.holder = person ∧ grant.validity.covers now
      ∧ state.holdRole grant none grant.validity.validUntil = some way)
    ∨ ∃ membership ∈ state.groupMembers, ∃ grant ∈ state.groupRoles,
      membership.holder = person ∧ membership.validity.covers now
        ∧ grant.holder = membership.given ∧ grant.validity.covers now
        ∧ state.holdRole grant (some membership.given)
            (RealmState.least membership.validity.validUntil grant.validity.validUntil) = some way

theorem mem_heldRoles : way ∈ state.heldRoles person now ↔ StandsAt state person now way := by
  simp only [RealmState.heldRoles, List.mem_append, List.mem_filterMap, List.mem_flatMap,
    Option.ite_none_right_eq_some, StandsAt, and_assoc]
  apply or_congr_right
  constructor
  · rintro ⟨membership, inside, through⟩
    split at through
    · next member =>
      obtain ⟨grant, there, holds⟩ := List.mem_filterMap.mp through
      rw [Option.ite_none_right_eq_some] at holds
      exact ⟨membership, inside, grant, there, member.1, member.2, holds.1.1, holds.1.2, holds.2⟩
    · cases through
  · rintro ⟨membership, inside, grant, there, holder, member, group, covered, role⟩
    refine ⟨membership, inside, ?_⟩
    rw [if_pos ⟨holder, member⟩]
    exact List.mem_filterMap.mpr ⟨grant, there, by rw [if_pos ⟨group, covered⟩, role]⟩

/-- The rows of a realm stand in a later one: none was deleted or given other
terms. -/
structure Stands (state later : RealmState) : Prop where
  roles : ∀ id role, (state.roles.find? fun role => role.id = id) = some role →
    (later.roles.find? fun role => role.id = id) = some role
  personRoles : state.personRoles ⊆ later.personRoles
  groupMembers : state.groupMembers ⊆ later.groupMembers
  groupRoles : state.groupRoles ⊆ later.groupRoles

theorem holdRole_stands (stands : Stands state later) {grant : Grant} {through : Option Uuid}
    {ends : Option Instant} (held : state.holdRole grant through ends = some way) :
    later.holdRole grant through ends = some way ∧ way.ends = ends := by
  obtain ⟨role, found, rfl⟩ := Option.map_eq_some_iff.mp held
  rw [RealmState.holdRole, stands.roles _ _ found]
  exact ⟨rfl, rfl⟩

theorem covers_later {validity : Validity} (covered : validity.covers now) (passed : now ≤ instant)
    (before : (instant : WithTop Instant) < whenEnds validity.validUntil) :
    validity.covers instant := by
  simp only [Validity.covers, Bool.and_eq_true, decide_eq_true_eq] at covered ⊢
  refine ⟨covered.1.trans passed, ?_⟩
  cases ends : validity.validUntil with
  | none => rfl
  | some limit =>
    rw [ends] at before
    simpa using WithTop.coe_lt_coe.mp before

theorem whenEnds_least (one other : Option Instant) :
    whenEnds (RealmState.least one other) = min (whenEnds one) (whenEnds other) := by
  cases one with
  | none => simp [RealmState.least, whenEnds]
  | some one =>
    cases other with
    | none => simp [RealmState.least, whenEnds]
    | some other => exact WithTop.coe_min one other

/-- A way stands until it ends, while its rows do. -/
theorem standsAt_later (stands : Stands state later) (held : StandsAt state person now way)
    (passed : now ≤ instant) (before : (instant : WithTop Instant) < whenEnds way.ends) :
    StandsAt later person instant way := by
  rcases held with ⟨grant, inside, holder, covered, role⟩
    | ⟨membership, inside, grant, there, holder, member, group, covered, role⟩
  · obtain ⟨again, ends⟩ := holdRole_stands stands role
    rw [ends] at before
    exact Or.inl ⟨grant, stands.personRoles inside, holder, covers_later covered passed before,
      again⟩
  · obtain ⟨again, ends⟩ := holdRole_stands stands role
    rw [ends, whenEnds_least, lt_min_iff] at before
    exact Or.inr ⟨membership, stands.groupMembers inside, grant, stands.groupRoles there, holder,
      covers_later member passed before.1, group, covers_later covered passed before.2, again⟩

/-- The ways a realm reads to one role are to one role. -/
theorem oneRole_heldRoles : OneRole (state.heldRoles person now) := by
  have found : ∀ way ∈ state.heldRoles person now, ∃ role,
      (state.roles.find? fun role => role.id = way.role) = some role
        ∧ way.clientId = role.clientId ∧ way.name = role.name := by
    intro way inside
    have read : ∃ grant through ends, state.holdRole grant through ends = some way := by
      rcases mem_heldRoles.mp inside with ⟨grant, -, -, -, role⟩
        | ⟨membership, -, grant, -, -, -, -, -, role⟩
      · exact ⟨grant, _, _, role⟩
      · exact ⟨grant, _, _, role⟩
    obtain ⟨grant, through, ends, held⟩ := read
    obtain ⟨role, known, rfl⟩ := Option.map_eq_some_iff.mp held
    have same : role.id = grant.given := by simpa using List.find?_some known
    exact ⟨role, by simpa only [same] using known, rfl, rfl⟩
  intro way inside other there same
  obtain ⟨role, known, client, name⟩ := found way inside
  obtain ⟨again, knownAgain, clientAgain, nameAgain⟩ := found other there
  rw [same, knownAgain] at known
  cases known
  exact ⟨client.trans clientAgain.symm, name.trans nameAgain.symm⟩

end Held

/-- The names of roles a value of a token holds. -/
def namesIn (access : Json) : List Json :=
  match access.index "roles" with
  | .array names => names
  | _ => []

theorem namesIn_writeNames (names : List String) :
    namesIn (writeNames names) = names.map Json.string := by
  simp [namesIn, writeNames, Json.index_ofMap, Json.gather]

theorem index_access {subject : AccessTokenSubject} {claims : RoleClaims}
    (roles : subject.roles = some claims) (issuedAt : Int) (tokenId : Uuid) :
    namesIn ((Json.ofMap (subject.claims issuedAt tokenId) id).index "realm_access")
        = claims.realm.map Json.string
      ∧ namesIn (((Json.ofMap (subject.claims issuedAt tokenId) id).index "resource_access").index
          subject.clientId) = claims.client.map Json.string := by
  have realm : (subject.claims issuedAt tokenId).get? "realm_access"
      = some claims.writeRealmAccess := by
    simp [AccessTokenSubject.claims, roles]
  have client : (subject.claims issuedAt tokenId).get? "resource_access"
      = some (claims.writeResourceAccess subject.clientId) := by
    simp [AccessTokenSubject.claims, roles]
  rw [Json.index_ofMap, Json.index_ofMap, realm, client]
  constructor
  · exact namesIn_writeNames claims.realm
  · have own : (claims.writeResourceAccess subject.clientId).index subject.clientId
        = writeNames claims.client := by
      simp [writeResourceAccess, Json.index_ofMap, Json.gather]
    rw [Option.getD_some, own, namesIn_writeNames]

/-- A token that says roles expires no later than the first of them ends. -/
theorem expiresAt_le {subject : AccessTokenSubject} {claims : RoleClaims}
    (roles : subject.roles = some claims) (issuedAt : Int) :
    ((subject.expiresAt issuedAt * 1000000 : Int) : WithTop Instant) ≤ whenEnds claims.ends := by
  cases ends : claims.ends with
  | none => exact le_top
  | some limit =>
    apply WithTop.coe_le_coe.mpr
    have bound : subject.roles.bind RoleClaims.ends = some limit := by simp [roles, ends]
    rw [AccessTokenSubject.expiresAt, bound]
    have earlier := min_le_left (unixTimestamp limit)
      (saturatingAdd issuedAt ACCESS_TOKEN_LIFETIME_SECONDS)
    have floor : unixTimestamp limit * 1000000 ≤ limit := Int.ediv_mul_le _ (by decide)
    calc min (unixTimestamp limit) (saturatingAdd issuedAt ACCESS_TOKEN_LIFETIME_SECONDS) * 1000000
        ≤ unixTimestamp limit * 1000000 := by omega
      _ ≤ limit := floor

/-- The roles a token says are held at an instant: those of the realm, and
those of its client. -/
def HeldAt (state : RealmState) (person : Uuid) (instant : Instant) (clientId : String)
    (claims : Json) : Prop :=
  (∀ name, Json.string name ∈ namesIn (claims.index "realm_access") →
      ∃ way ∈ state.heldRoles person instant, way.clientId = none ∧ way.name = name)
    ∧ ∀ name, Json.string name ∈ namesIn ((claims.index "resource_access").index clientId) →
      ∃ way ∈ state.heldRoles person instant, way.clientId = some clientId ∧ way.name = name

theorem said_heldAt {state later : RealmState} {person : Uuid} {now instant : Instant}
    {held : List HeldRole} {subject : AccessTokenSubject}
    (read : held.Perm (state.heldRoles person now)) (stands : Stands state later)
    (roles : subject.roles = some (gather held subject.clientId)) (issuedAt : Int) (tokenId : Uuid)
    (passed : now ≤ instant) (before : instant < subject.expiresAt issuedAt * 1000000) :
    HeldAt later person instant subject.clientId
      (Json.ofMap (subject.claims issuedAt tokenId) id) := by
  have one : OneRole held := fun way inside other there =>
    oneRole_heldRoles way (read.mem_iff.mp inside) other (read.mem_iff.mp there)
  have still : ∀ way ∈ held, isSaid subject.clientId way →
      ∃ again ∈ later.heldRoles person instant,
        again.clientId = way.clientId ∧ again.name = way.name := by
    intro way inside said
    obtain ⟨longest, there, client, name, lasts⟩ := said_lasts one inside said
    have reach : (instant : WithTop Instant) < whenEnds longest.ends :=
      calc (instant : WithTop Instant)
          < ((subject.expiresAt issuedAt * 1000000 : Int) : WithTop Instant) :=
            WithTop.coe_lt_coe.mpr before
        _ ≤ whenEnds (gather held subject.clientId).ends := expiresAt_le roles issuedAt
        _ ≤ whenEnds longest.ends := lasts
    have stood := mem_heldRoles.mp (read.mem_iff.mp there)
    exact ⟨longest, mem_heldRoles.mpr (standsAt_later stands stood passed reach), client, name⟩
  obtain ⟨realm, client⟩ := index_access roles issuedAt tokenId
  constructor
  · intro name inside
    rw [realm, List.mem_map_of_injective (fun _ _ => Json.string.inj)] at inside
    obtain ⟨way, there, owner, rfl⟩ := (mem_realm one name).mp inside
    obtain ⟨again, held, same, named⟩ := still way there (by simp [isSaid, owner])
    exact ⟨again, held, same.trans owner, named⟩
  · intro name inside
    rw [client, List.mem_map_of_injective (fun _ _ => Json.string.inj)] at inside
    obtain ⟨way, there, owner, rfl⟩ := (mem_client one name).mp inside
    obtain ⟨again, held, same, named⟩ := still way there (by simp [isSaid, owner])
    exact ⟨again, held, same.trans owner, named⟩

/-- The claims say the roles of the realm and of the client that are held, in
whichever order the ways are read, and end with the first of these roles to
end. A token minted with them says, until it expires, what is held. -/
theorem gather_says_what_is_held (held : List HeldRole) (clientId : String) (one : OneRole held) :
    (∀ name, name ∈ (gather held clientId).realm
        ↔ ∃ way ∈ held, way.clientId = none ∧ way.name = name)
      ∧ (∀ name, name ∈ (gather held clientId).client
        ↔ ∃ way ∈ held, way.clientId = some clientId ∧ way.name = name)
      ∧ (∀ others, others.Perm held → gather others clientId = gather held clientId)
      ∧ ((∃ way ∈ held, isSaid clientId way) →
        IsLeast (saidEnds held clientId) (whenEnds (gather held clientId).ends))
      ∧ ((∀ way ∈ held, ¬ isSaid clientId way) → (gather held clientId).ends = none)
      ∧ (∀ around state person now before claims after,
        readRoleClaims around state person clientId now before = .ok (claims, after) →
          claims = gather (state.heldRoles person now) clientId)
      ∧ ∀ (state later : RealmState) person now, held.Perm (state.heldRoles person now) →
        Stands state later →
        (∀ way, way ∈ held ↔ StandsAt state person now way)
          ∧ ∀ float sign minted drawn key subject issued,
            subject.roles = some (gather held clientId) → subject.clientId = clientId →
            mintAccessToken float sign minted drawn key subject = .ok issued →
            ∃ tokenId, signClaims float sign key ACCESS_TOKEN_TYPE
                (subject.claims (unixTimestamp minted) tokenId) = .ok issued.token
              ∧ (Json.ofMap (subject.claims (unixTimestamp minted) tokenId) id).index "exp"
                = Json.ofI64 (subject.expiresAt (unixTimestamp minted))
              ∧ ∀ instant, now ≤ instant →
                instant < subject.expiresAt (unixTimestamp minted) * 1000000 →
                HeldAt later person instant clientId
                  (Json.ofMap (subject.claims (unixTimestamp minted) tokenId) id) := by
  refine ⟨mem_realm one, mem_client one, fun others perm => gather_perm one perm,
    gather_ends_least one, gather_ends_none, ?_, ?_⟩
  · intro around state person now before claims after ran
    obtain ⟨ways, between, read, ran⟩ := AskM.bind_eq_ok ran
    rw [AskM.pure_eq_ok ran, readHeldRoles_ok read]
  intro state later person now read stands
  refine ⟨fun way => read.mem_iff.trans mem_heldRoles, ?_⟩
  intro float sign minted drawn key subject issued roles client token
  subst client
  cases drawn with
  | none => cases token
  | some tokenId =>
    refine ⟨tokenId, mintAccessToken_token float sign token, ?_, ?_⟩
    · exact (AccessTokenSubject.index_claims subject _ tokenId _ rfl).2.2.2.2
    · intro instant passed before
      exact said_heldAt read stands roles (unixTimestamp minted) tokenId passed before

/-- A realm where a person is an admin for a minute, and for three through a
group, and edits an application for two. -/
def staffRealm : RealmState where
  enabled := true
  clients := []
  keys := []
  sessions := []
  confirmedAuthenticators := []
  securityKeys := []
  persons := []
  schema := none
  guards := []
  tuples := []
  policies := []
  roles := [⟨1, none, "admin", none, 0⟩, ⟨3, some "webapp", "editor", none, 0⟩,
    ⟨4, some "billing", "auditor", none, 0⟩]
  personRoles := [⟨7, 1, ⟨0, some 60000000⟩⟩, ⟨7, 3, ⟨0, some 120000000⟩⟩,
    ⟨7, 4, ⟨0, some 1000000⟩⟩]
  groupMembers := [⟨7, 9, ⟨0, none⟩⟩]
  groupRoles := [⟨9, 1, ⟨0, some 180000000⟩⟩]

def staffSubject : AccessTokenSubject where
  issuer := "https://id"
  subject := "ada"
  clientId := "webapp"
  scopes := ["roles"]
  session := none
  roles := some (gather (staffRealm.heldRoles 7 0) "webapp")

/-- The token of the editor lives two minutes, and says until then what is
held. -/
theorem staffToken_held :
    gather (staffRealm.heldRoles 7 0) "webapp" = ⟨["admin"], ["editor"], some 120000000⟩
      ∧ ∃ tokenId, ∀ instant, 0 ≤ instant → instant < 120000000 →
        HeldAt staffRealm 7 instant "webapp"
          (Json.ofMap (staffSubject.claims (unixTimestamp 0) tokenId) id) := by
  have claims := gather_says_what_is_held (staffRealm.heldRoles 7 0) "webapp" oneRole_heldRoles
  have stands : Stands staffRealm staffRealm :=
    ⟨fun _ _ found => found, fun _ inside => inside, fun _ inside => inside, fun _ inside => inside⟩
  have minted : ∃ issued, mintAccessToken (fun _ => "") (fun _ _ _ => some []) 0 (some 5)
      ⟨⟨"key", .es256, .null⟩, []⟩ staffSubject = .ok issued := ⟨_, rfl⟩
  obtain ⟨issued, minted⟩ := minted
  obtain ⟨tokenId, -, -, held⟩ := (claims.2.2.2.2.2.2 staffRealm staffRealm 7 0 (List.Perm.refl _)
    stands).2 _ _ _ _ _ staffSubject issued rfl rfl minted
  have expires : staffSubject.expiresAt (unixTimestamp 0) * 1000000 = 120000000 := by decide
  rw [expires] at held
  exact ⟨by decide, tokenId, held⟩

end Saffui.Tokens.RoleClaims
