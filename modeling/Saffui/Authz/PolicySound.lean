import Saffui.Authz.ManageSound

/-!
# Policies, and the roles and groups they name

`deleteRole`, `deleteGroup` and `createPolicy` each check, under the row of
the definitions, what their write could break of the policies kept.
-/

namespace Saffui.Authz
open Saffui.Foundation Saffui.Foundation.Language Saffui.Authz.Relations

variable {work : language.Work} {db : Db}

/-- The names of policies, roles and groups. -/
def isName : Key → Bool
  | .policyName _ _ | .roleName _ _ | .groupName _ => true
  | _ => false

theorem mem_roleKeys {id : Uuid} {key : Key} (inside : key ∈ roleKeys id db) :
    key = .role id ∨ isName key := by
  unfold roleKeys at inside
  split at inside
  · rcases List.mem_cons.mp inside with row | name
    · exact Or.inl row
    · rw [List.mem_singleton.mp name]
      exact Or.inr rfl
  · cases inside

theorem mem_groupKeys {id : Uuid} {key : Key} (inside : key ∈ groupKeys id db) :
    key = .group id ∨ isName key := by
  unfold groupKeys at inside
  split at inside
  · rcases List.mem_cons.mp inside with row | name
    · exact Or.inl row
    · rw [List.mem_singleton.mp name]
      exact Or.inr rfl
  · cases inside

/-- A role or a group no policy names may go. -/
theorem commits_of_forget {call : Call} {now : Db} {gone : Key} (holding : Holding work)
    (inv : Consistent now)
    (apart : (∃ role, gone = .role role) ∨ ∃ group, gone = .group group)
    (writes : ∀ write ∈ work.writes, write.2 = none ∧ (write.1 = gone ∨ isName write.1))
    (unnamed : ∀ id policy, Db.policy now id = some policy → ∀ conditions,
      policy.conditions = writeConditions conditions →
      (∀ role, .role role ∈ conditions → Key.role role ≠ gone) ∧
        ∀ group, .group group ∈ conditions → Key.group group ≠ gone) :
    discipline.Commits (guarantee call) work now := by
  have same : ∀ key, key ≠ gone → isName key = false →
      (overlay work.writes now).lookup key = now.lookup key := by
    intro key other named
    refine lookup_overlay_of_not_mem (fun write inside equal => ?_) now
    rcases (writes write inside).2 with here | name
    · exact other (equal ▸ here)
    · rw [equal, named] at name
      cases name
  have kept : ∀ key, key ≠ gone → isName key = false →
      Db.holds (overlay work.writes now) key = Db.holds now key :=
    fun key other named => congrArg Option.isSome (same key other named)
  have policies : ∀ id, Db.policy (overlay work.writes now) id = Db.policy now id :=
    fun id => same (.policy id) (by rintro rfl; simp at apart) rfl
  have tuples : ∀ columns,
      Db.holds (overlay work.writes now) (.tuple columns) = Db.holds now (.tuple columns) :=
    fun columns => kept (.tuple columns) (by rintro rfl; simp at apart) rfl
  have schema : Db.schema (overlay work.writes now) = Db.schema now :=
    same .schema (by rintro rfl; simp at apart) rfl
  apply commits_of_holding holding
  · refine inv.moved schema ?_ ?_ ?_ ?_
    · exact fun columns => kept (.kind columns) (by rintro rfl; simp at apart) rfl
    · exact fun columns there => inv.tuples columns (tuples columns ▸ there)
    · exact fun id policy found => policies id ▸ found
    · intro id policy found
      rw [policies id] at found
      obtain ⟨undefined, conditions, written, roles, groups⟩ := inv.policies id policy found
      obtain ⟨noRole, noGroup⟩ := unnamed id policy found conditions written
      refine ⟨by rw [schema]; exact undefined, conditions, written, ?_, ?_⟩
      · exact fun role named => (kept (.role role) (noRole role named) rfl).trans (roles role named)
      · exact fun group named =>
          (kept (.group group) (noGroup group named) rfl).trans (groups group named)
  · refine fun _ => NamesMinted.absent fun write inside id named => ?_
    rw [names_of_deleted (writes write inside).1] at named
    cases named
  · exact fun columns there => Or.inl (tuples columns ▸ there)

theorem holdsCondition_of_mem {condition : Condition} {name : String} {id : Uuid}
    (written : condition.toJson = .object [(name, .string id.text)]) {conditions : List Condition}
    (inside : condition ∈ conditions) : holdsCondition name id (writeConditions conditions) := by
  refine List.any_eq_true.mpr ⟨condition.toJson, List.mem_map.mpr ⟨condition, inside, rfl⟩, ?_⟩
  simp [written, Json.field]

/-- What the storage finds named by no policy, no policy kept then names. -/
theorem not_holdsCondition {name : String} {id : Uuid} {seen now : Db}
    (unnamed : ¬(run (.isNamedByPolicy name id) seen now).2 = true) {kept : Uuid} {policy : Policy}
    (found : Db.policy seen kept = some policy) :
    ¬holdsCondition name id policy.conditions = true := by
  intro holds
  apply unnamed
  have picked : policy ∈ scan seen (pickPolicy fun policy =>
      holdsCondition name id policy.conditions) :=
    mem_scan_iff.mpr ⟨.policy kept, policy, found, by simp [pickPolicy, holds]⟩
  simp only [run, Bool.not_eq_true', List.isEmpty_eq_false_iff]
  exact List.ne_nil_of_mem picked

theorem deleteRole_sound (role : Uuid) :
    Sound (.deleteRole role) (deleteRole role) (fun _ _ _ => True) work db := by
  refine sound_begin fun base _ => sound_lockDefinitions fun locked held locking holding _ =>
    sound_look holding (fun _ _ => rfl) fun seen found looked _ rely _ looking still => ?_
  rw [locking.writes]
  change Sound _ (if (run (.isNamedByPolicy "role" role) seen found).2 = true then _ else _) _ _ _
  split
  · exact sound_fail
  next unnamed =>
  refine sound_statement fun snapshot now span first second => ?_
  have empty : looked.writes = [] := (locking.trans looking).writes
  have writes := Work.ran_writes empty (.deleteRole role) span snapshot now
  rw [empty]
  change Sound _ (if (run (.deleteRole role) snapshot now).2 = true then commitUnit else _) _ _ _
  split
  · refine fun later last => ⟨commits_of_forget still.ran last.inv (Or.inl ⟨role, rfl⟩) ?_ ?_,
      fun _ _ => trivial⟩
    · intro write inside
      rw [writes] at inside
      obtain ⟨among, deleted⟩ := mem_writeEach_iff.mp inside
      have keys := (List.mem_filter.mp among).1
      exact ⟨deleted, mem_roleKeys keys⟩
    · intro id policy kept conditions written
      have before := ((rely.trans (still.protects first)).trans (still.protects second)).trans
        (still.ran.protects last)
      have absent := not_holdsCondition unnamed (before.policies id policy kept)
      refine ⟨fun one named same => ?_, fun _ _ => nofun⟩
      rw [written, ← Key.role.inj same] at absent
      exact absent (holdsCondition_of_mem rfl named)
  · exact sound_fail

theorem deleteGroup_sound (group : Uuid) :
    Sound (.deleteGroup group) (deleteGroup group) (fun _ _ _ => True) work db := by
  refine sound_begin fun base _ => sound_lockDefinitions fun locked held locking holding _ =>
    sound_look holding (fun _ _ => rfl) fun seen found looked _ rely _ looking still => ?_
  rw [locking.writes]
  change Sound _ (if (run (.isNamedByPolicy "group" group) seen found).2 = true then _ else _) _ _ _
  split
  · exact sound_fail
  next unnamed =>
  refine sound_statement fun snapshot now span first second => ?_
  have empty : looked.writes = [] := (locking.trans looking).writes
  have writes := Work.ran_writes empty (.deleteGroup group) span snapshot now
  rw [empty]
  change Sound _ (if (run (.deleteGroup group) snapshot now).2 = true then commitUnit else _) _ _ _
  split
  · refine fun later last => ⟨commits_of_forget still.ran last.inv (Or.inr ⟨group, rfl⟩) ?_ ?_,
      fun _ _ => trivial⟩
    · intro write inside
      rw [writes] at inside
      obtain ⟨among, deleted⟩ := mem_writeEach_iff.mp inside
      have keys := (List.mem_filter.mp among).1
      exact ⟨deleted, mem_groupKeys keys⟩
    · intro id policy kept conditions written
      have before := ((rely.trans (still.protects first)).trans (still.protects second)).trans
        (still.ran.protects last)
      have absent := not_holdsCondition unnamed (before.policies id policy kept)
      refine ⟨fun _ _ => nofun, fun one named same => ?_⟩
      rw [written, ← Key.group.inj same] at absent
      exact absent (holdsCondition_of_mem rfl named)
  · exact sound_fail

/-- A unit that holds the definitions, after it only read. -/
structure Looked (work : language.Work) (db : Db) (after : language.Work) (now : Db) : Prop where
  reads : work.Reading after
  holding : Holding after
  moved : Protected db now

theorem Looked.trans {first second third : language.Work} {one two three : Db}
    (before : Looked first one second two) (after : Looked second two third three) :
    Looked first one third three :=
  ⟨before.reads.trans after.reads, after.holding, before.moved.trans after.moved⟩

theorem checkRoles_sound (clientId : String) (roles : List Uuid) {call : Call}
    (holding : Holding work) (empty : work.writes = []) :
    Sound call (checkRoles clientId roles) (fun _ after now => Looked work db after now ∧
      ∀ role ∈ roles, Db.holds now (.role role)) work db := by
  unfold checkRoles
  split
  · next none =>
    refine Prog.wp_pure fun now rely => ⟨⟨.refl work, holding, holding.protects rely⟩, ?_⟩
    rw [List.isEmpty_iff.mp none]
    exact fun _ => nofun
  refine sound_look holding (fun _ _ => rfl) fun seen now after before moved _ reads still => ?_
  rw [empty]
  dsimp only
  split
  · next enough =>
    refine Prog.wp_pure fun later rely => ⟨⟨reads, still, ?_⟩, fun role named => ?_⟩
    · exact (before.trans moved).trans (still.protects rely)
    · refine (moved.trans (still.protects rely)).roles role ?_
      have counted : (roles.map Key.role).length ≤ (scan seen (pickRole roles)).length := by
        rw [List.length_map, ← enough]
        exact List.length_filter_le _ _
      refine isSome_lookup_of_length_le_scan ?_ counted _ (List.mem_map_of_mem named)
      intro key row picked
      cases key with
      | role id =>
        simp only [pickRole, Option.isSome_ite] at picked
        exact List.mem_map_of_mem picked
      | _ => cases picked
  · exact sound_fail

theorem checkGroups_sound (groups : List Uuid) {call : Call}
    (holding : Holding work) (empty : work.writes = []) :
    Sound call (checkGroups groups) (fun _ after now => Looked work db after now ∧
      ∀ group ∈ groups, Db.holds now (.group group)) work db := by
  unfold checkGroups
  split
  · next none =>
    refine Prog.wp_pure fun now rely => ⟨⟨.refl work, holding, holding.protects rely⟩, ?_⟩
    rw [List.isEmpty_iff.mp none]
    exact fun _ => nofun
  refine sound_look holding (fun _ _ => rfl) fun seen now after before moved _ reads still => ?_
  rw [empty]
  split
  · next enough =>
    refine Prog.wp_pure fun later rely => ⟨⟨reads, still, ?_⟩, fun group named => ?_⟩
    · exact (before.trans moved).trans (still.protects rely)
    · refine (moved.trans (still.protects rely)).groups group ?_
      have counted : (groups.map Key.group).length ≤ (scan seen (pickGroup groups)).length := by
        rw [List.length_map]
        exact enough.ge
      refine isSome_lookup_of_length_le_scan ?_ counted _ (List.mem_map_of_mem named)
      intro key row picked
      cases key with
      | group id =>
        simp only [pickGroup, Option.isSome_ite] at picked
        exact List.mem_map_of_mem picked
      | _ => cases picked
  · exact sound_fail

theorem checkConditions_sound (formats : Formats) (clientId : String) (conditions : List Condition)
    {call : Call} (holding : Holding work) (empty : work.writes = []) :
    Sound call (checkConditions formats clientId conditions) (fun _ after now =>
      Looked work db after now ∧ (∀ role, .role role ∈ conditions → Db.holds now (.role role)) ∧
        ∀ group, .group group ∈ conditions → Db.holds now (.group group)) work db := by
  unfold checkConditions
  split
  · exact sound_fail
  refine Prog.wp_bind (Prog.wp_mono ?_ (checkRoles_sound clientId _ holding empty))
  rintro ⟨⟩ after now - ⟨looked, roles⟩
  have still : after.writes = [] := looked.reads.writes.trans empty
  refine Prog.wp_mono ?_ (checkGroups_sound _ looked.holding still)
  rintro ⟨⟩ last later - ⟨again, groups⟩
  refine ⟨looked.trans again, fun role named => ?_, fun group named => ?_⟩
  · exact again.moved.roles role (roles role (mem_namedRoles.mpr named))
  · exact groups group (mem_namedGroups.mpr named)

/-- A policy that fits, and is not one too many, may be kept. -/
theorem Consistent.insertPolicy {policy : Policy} (inv : Consistent db)
    (absent : Db.policy db policy.id = none) (fits : PolicyFits db policy)
    (kept : (scan db (pickPolicy (ofClient policy.clientId))).length < MAX_POLICIES_PER_CLIENT)
    (applicable : (scan db (pickPolicy
      (appliesTo policy.clientId policy.resourceType policy.action))).length <
        MAX_APPLICABLE_POLICIES) :
    Consistent (db.insert (Key.policy policy.id) policy) := by
  have others : ∀ key, key ≠ Key.policy policy.id →
      (db.insert (Key.policy policy.id) policy).lookup key = db.lookup key :=
    fun key other => AList.lookup_insert_ne other
  have same : ∀ key, key ≠ Key.policy policy.id →
      Db.holds (db.insert (Key.policy policy.id) policy) key = Db.holds db key :=
    fun key other => congrArg Option.isSome (others key other)
  have schema : Db.schema (db.insert (Key.policy policy.id) policy) = Db.schema db :=
    others .schema nofun
  have widened : ∀ one, PolicyFits db one →
      PolicyFits (db.insert (Key.policy policy.id) policy) one :=
    fun one fit => fit.mono schema (fun id => (same (.role id) nofun).trans)
      fun id => (same (.group id) nofun).trans
  constructor
  · exact fun stored found => inv.schema stored (schema ▸ found)
  · intro columns
    rw [same (.kind columns) nofun, admitted_of_schema schema]
    exact inv.kinds columns
  · intro columns there
    rw [same (.tuple columns) nofun] at there
    rw [same (.kind columns.kind) nofun]
    exact inv.tuples columns there
  · intro id one found
    by_cases here : id = policy.id
    · subst here
      rw [Db.policy, AList.lookup_insert] at found
      exact widened one (Option.some.inj found ▸ fits)
    · rw [Db.policy, others _ fun equal => here (Key.policy.inj equal)] at found
      exact widened one (inv.policies id one found)
  · intro clientId
    rw [scan_insert absent]
    by_cases mine : policy.clientId = clientId
    · subst mine
      have picked : (pickPolicy (ofClient policy.clientId) (.policy policy.id) policy).toList.length =
          1 := by simp [pickPolicy, ofClient]
      omega
    · simpa [pickPolicy, ofClient, mine] using inv.kept clientId
  · intro clientId resourceType action
    rw [scan_insert absent]
    by_cases mine : appliesTo clientId resourceType action policy
    · have named := mine
      simp only [appliesTo, Bool.and_eq_true, decide_eq_true_eq] at named
      obtain ⟨⟨rfl, rfl⟩, rfl⟩ := named
      have picked : (pickPolicy (appliesTo policy.clientId policy.resourceType policy.action)
          (.policy policy.id) policy).toList.length = 1 := by simp [pickPolicy, mine]
      omega
    · simpa [pickPolicy, mine] using inv.applicable clientId resourceType action

theorem run_insertPolicy {policy : Policy} {seen now : Db}
    (kept : (run (.insertPolicy policy) seen now).2 = true) :
    (run (.insertPolicy policy) seen now).1 =
      [⟨.policy policy.id, some policy⟩, ⟨.policyName policy.clientId policy.name, some ()⟩] := by
  simp only [run, insertNamed] at kept ⊢
  split at kept
  · cases kept
  · next new => rw [if_neg new]

theorem createPolicy_sound (formats : Formats) (wanted : NewPolicy) :
    Sound (.createPolicy wanted) (createPolicy formats wanted) (fun _ _ _ => True) work db := by
  unfold createPolicy
  cases readNewPolicy formats wanted with
  | error code => exact trivial
  | ok conditions =>
    refine sound_begin fun base _ => sound_lockDefinitions fun locked held locking holding _ =>
      Prog.wp_bind (Prog.wp_mono ?_ (readNamedClient_sound _))
    rintro client named now - ⟨naming, rely⟩
    have holding : Holding named := naming.locks holding
    have empty : named.writes = [] := (locking.trans naming).writes
    split
    · exact sound_fail
    refine Prog.wp_bind (Prog.wp_mono ?_ (checkConditions_sound formats _ conditions holding empty))
    rintro ⟨⟩ checked db₁ - ⟨looked, roles, groups⟩
    have empty : checked.writes = [] := looked.reads.writes.trans empty
    refine sound_look looked.holding (fun _ _ => rfl)
      fun seen db₂ reading toSeen fromSeen _ reads holding => ?_
    rw [empty]
    change Sound _ (if definesType (Db.schema seen) wanted.resourceType then _ else _) _ _ _
    split
    · exact sound_fail
    next undefined =>
    have empty : reading.writes = [] := reads.writes.trans empty
    refine sound_look holding (fun _ _ => rfl)
      fun counted db₃ counting toCounted fromCounted _ reads holding => ?_
    rw [empty]
    change Sound _ (if min MAX_POLICIES_PER_CLIENT
      (scan counted (pickPolicy (ofClient wanted.clientId))).length ≥ _ then _ else _) _ _ _
    split
    · exact sound_fail
    next fewer =>
    have empty : counting.writes = [] := reads.writes.trans empty
    refine sound_look holding (fun _ _ => rfl)
      fun listed db₄ listing toListed fromListed _ reads holding => ?_
    rw [empty]
    change Sound _ (if ((scan listed (pickPolicy (appliesTo wanted.clientId wanted.resourceType
      wanted.action))).insertionSort _).length ≥ _ then _ else _) _ _ _
    rw [List.length_insertionSort]
    split
    · exact sound_fail
    next applicable =>
    have empty : listing.writes = [] := reads.writes.trans empty
    refine sound_newId fun minted id minting _ absent => sound_clock fun clocked createdAt clocking =>
      sound_statement fun snapshot now span first second => ?_
    let policy : Policy :=
      { id, clientId := wanted.clientId, name := wanted.name, resourceType := wanted.resourceType
        action := wanted.action, effect := wanted.effect, combine := wanted.combine
        conditions := writeConditions conditions, createdAt }
    have unwritten : (listing.mint id).writes = [] := empty
    have writes := Work.ran_writes unwritten (.insertPolicy policy) span snapshot now
    rw [unwritten]
    change Sound _ (if (run (.insertPolicy policy) snapshot now).2 = true then
      (do commitUnit; return policy) else _) _ _ _
    split
    · next kept =>
      rw [run_insertPolicy kept] at writes
      refine sound_commit (fun later last => ?_) fun _ => Prog.wp_pure fun _ _ => trivial
      have mine : Holding (listing.mint id) := holding
      have toLater : Protected db₄ later :=
        ((((holding.protects minting).trans (mine.protects clocking)).trans
          (mine.protects first)).trans (mine.protects second)).trans (mine.ran.protects last)
      have fromList := fromListed.trans toLater
      have fromCount := fromCounted.trans (toListed.trans fromList)
      have fromRead := fromSeen.trans (toCounted.trans fromCount)
      have fromCheck := toSeen.trans fromRead
      have absent : AbsentId id later := (((clocking.trans first).trans second).trans
        (last.of_more (List.subset_append_left _ _) (List.Subset.refl _))).absent id
          List.mem_cons_self absent
      have fits : PolicyFits later policy := by
        refine ⟨?_, conditions, rfl, fun role named => fromCheck.roles role (roles role named),
          fun group named => fromCheck.groups group (groups group named)⟩
        rw [fromRead.schema]
        exact Bool.eq_false_iff.mpr undefined
      have inserted : Consistent (later.insert (Key.policy id) policy) := by
        refine last.inv.insertPolicy absent.policy fits ?_ ?_
        · have bound := fromCount.scan_le (ofClient wanted.clientId)
          change (scan later (pickPolicy (ofClient wanted.clientId))).length < _
          omega
        · have bound := fromList.scan_le
            (appliesTo wanted.clientId wanted.resourceType wanted.action)
          change (scan later (pickPolicy (appliesTo wanted.clientId wanted.resourceType
            wanted.action))).length < _
          omega
      apply commits_of_holding mine.ran
      · rw [writes]
        have named : IsFree ⟨.policyName policy.clientId policy.name, some ()⟩ := trivial
        exact (Protected.apply named _).consistent inserted
      · refine fun _ => NamesMinted.absent fun write inside other same => ?_
        rw [writes] at inside
        rcases List.mem_cons.mp inside with rfl | name
        · exact Option.some.inj same ▸ List.mem_cons_self
        · rw [List.mem_singleton.mp name] at same
          cases same
      · intro columns there
        rw [writes] at there
        refine Or.inl ?_
        change ((overlay _ later).lookup (Key.tuple columns)).isSome = true at there
        rwa [lookup_overlay_of_not_mem (by simp)] at there
    · exact sound_fail

end Saffui.Authz
