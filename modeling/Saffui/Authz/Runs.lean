import Saffui.Authz.PolicySound
import Saffui.Authz.SchemaSound

/-!
# What every run of an administration leaves of a realm

From a realm that keeps no schema, no relation and no policy, whatever its
clients, roles and groups, through any calls in any order and at once: what
each unit of work leaves committed.
-/

namespace Saffui.Authz
open Saffui.Foundation Saffui.Foundation.Language Saffui.Authz.Relations

/-- Every call of a realm keeps its definitions together. -/
def proof (formats : Formats) : Proof (calls formats) where
  toDiscipline := discipline
  guar := guarantee
  post _ _ _ _ := True
  calls call db _ := by
    have answered : ∀ {α : Type} {prog : Program α} (answer : α → Answer),
        Sound call prog (fun _ _ _ => True) .fresh db →
        Sound call (prog >>= fun result => pure (answer result)) (fun _ _ _ => True) .fresh db :=
      fun answer sound => Prog.wp_bind (Prog.wp_mono
        (fun _ _ _ _ _ => Prog.wp_pure fun _ _ => trivial) sound)
    cases call with
    | writeRelationSchema source =>
      exact answered (fun result => .written result.1 result.2) (writeRelationSchema_sound source)
    | writeRelation tuple => exact answered (fun _ => .done) (writeRelation_sound tuple)
    | deleteRelation tuple => exact answered (fun _ => .done) (deleteRelation_sound tuple)
    | createPolicy wanted => exact answered .policy (createPolicy_sound formats wanted)
    | deletePolicy clientId id => exact answered (fun _ => .done) (deletePolicy_sound clientId id)
    | createRole wanted => exact answered .role (createRole_sound wanted)
    | deleteRole role => exact answered (fun _ => .done) (deleteRole_sound role)
    | createGroup wanted => exact answered .group (createGroup_sound wanted)
    | deleteGroup group => exact answered (fun _ => .done) (deleteGroup_sound group)

/-- A realm as it is created: no schema, no relation and no policy yet. -/
structure NewRealm (db : Db) : Prop where
  schema : Db.schema db = none
  kinds : ∀ columns, Db.holds db (.kind columns) = false
  tuples : ∀ columns, Db.holds db (.tuple columns) = false
  policies : ∀ id, Db.policy db id = none

theorem NewRealm.scan {db : Db} (new : NewRealm db) (test : Policy → Bool) :
    (Foundation.scan db (pickPolicy test)).length = 0 := by
  rw [List.length_eq_zero_iff, List.eq_nil_iff_forall_not_mem]
  intro policy inside
  obtain ⟨key, row, found, picked⟩ := mem_scan_iff.mp inside
  cases key with
  | policy id => cases (new.policies id).symm.trans found
  | _ => cases picked

theorem NewRealm.consistent {db : Db} (new : NewRealm db) : Consistent db where
  schema stored found := by
    rw [new.schema] at found
    cases found
  kinds columns := by simp [new.kinds, Db.admitted, Db.compiled, new.schema]
  tuples columns there := by
    rw [new.tuples] at there
    cases there
  policies id policy found := by
    rw [new.policies] at found
    cases found
  kept clientId := by
    rw [new.scan]
    exact Nat.zero_le _
  applicable clientId resourceType action := by
    rw [new.scan]
    exact Nat.zero_le _

section Runs

variable {formats : Formats} {mode : Mode} {start : Db} {ids : List Uuid}
  {world : World (calls formats)}

/-- What every unit that committed left is consistent, and the storage is. -/
theorem consistent_of_reachable (new : NewRealm start)
    (known : ∀ id, id ∉ ids → AbsentId id start)
    (reached : Reachable (calls formats) mode start ids world) :
    Consistent world.db ∧ ∀ commit ∈ world.past, Consistent commit.after := by
  have sound := Reachable.sound (P := proof formats) new.consistent known reached
  exact ⟨sound.inv, fun commit inside => (sound.past commit inside).inv_after⟩

end Runs

/-- Texts that hold no instant and no fraction. -/
def plainFormats : Formats where
  readInstant _ := none
  writeFloat _ := ""

/-- Some statements of one call, each finished before the next starts. -/
def statements (pid count : Nat) : List (Label (calls plainFormats)) :=
  (List.replicate count [Label.start pid, .finish pid]).flatten

def tell (pid : Nat) : Label (calls plainFormats) := .ask pid fun _ => (0 : Int)

/-- The schema kept is one that compiles, in the form it compiles to. -/
def SchemaCompiles (db : Db) : Prop :=
  ∀ stored, Db.schema db = some stored → ∃ compiled,
    compileSchema stored.source = .ok compiled ∧ Db.compiled db = some compiled

/-- Every relation kept is of a kind the schema kept admits, and the kinds
kept are those. -/
structure KeepsAdmitted (db : Db) : Prop where
  compiles : SchemaCompiles db
  tuples : ∀ columns, Db.holds db (.tuple columns) → columns.tuple.kind ∈ Db.admitted db
  kinds : ∀ columns, Db.holds db (.kind columns) ↔
    columns ∈ (Db.admitted db).map AdmittedRelation.columns

theorem Consistent.schemaCompiles {db : Db} (inv : Consistent db) : SchemaCompiles db := by
  intro stored found
  obtain ⟨compiled, compiles, form⟩ := inv.schema stored found
  refine ⟨compiled, compiles, ?_⟩
  rw [Db.compiled, found, Option.bind_some, open_of_compileSchema compiles form]

theorem Consistent.keepsAdmitted {db : Db} (inv : Consistent db) : KeepsAdmitted db where
  compiles := inv.schemaCompiles
  kinds := inv.kinds
  tuples columns there := by
    obtain ⟨one, admitted, same⟩ :=
      List.mem_map.mp ((inv.kinds columns.kind).mp (inv.tuples columns there))
    cases found : Db.schema db with
    | none =>
      rw [Db.admitted, Db.compiled, found] at admitted
      cases admitted
    | some stored =>
      obtain ⟨compiled, compiles, opened⟩ := inv.schemaCompiles stored found
      rw [Db.admitted, opened, Option.elim_some] at admitted ⊢
      rwa [columns_injective compiles admitted same]

section Relations

variable {formats : Formats} {mode : Mode} {start : Db} {ids : List Uuid}
  {world : World (calls formats)}

/-- In every state committed the relations kept are admitted by the schema
kept, and the kinds kept are those it admits. A relation there was asked for
by a call since which it was there, and admitted, without a break: none kept
under an older schema is there again because a later one admits its kind. -/
theorem kept_relations_are_admitted (new : NewRealm start)
    (known : ∀ id, id ∉ ids → AbsentId id start)
    (reached : Reachable (calls formats) mode start ids world) :
    KeepsAdmitted world.db ∧ (∀ commit ∈ world.past, KeepsAdmitted commit.after) ∧
      ∀ columns, Db.holds world.db (.tuple columns) → ∃ newer commit older tuple,
        world.past = newer ++ commit :: older ∧ commit.call = .writeRelation tuple ∧
        tuple.columns = columns ∧ ∀ later ∈ newer ++ [commit],
          Db.holds later.after (.tuple columns) ∧ columns.tuple.kind ∈ Db.admitted later.after := by
  obtain ⟨here, ever⟩ := consistent_of_reachable new known reached
  refine ⟨here.keepsAdmitted, fun commit inside => (ever commit inside).keepsAdmitted, ?_⟩
  intro columns there
  have sound := Reachable.sound (P := proof formats) new.consistent known reached
  have history := reached.history
  obtain ⟨newer, commit, older, split, came, stayed⟩ :=
    history.chained.since (fun db => Db.holds db (.tuple columns) = true)
      (by simp [new.tuples]) (history.db ▸ there)
  have among : ∀ later ∈ newer ++ [commit], later ∈ world.past := by
    intro later inside
    rw [split, List.append_cons]
    exact List.mem_append_left _ inside
  have last : commit ∈ newer ++ [commit] := List.mem_append_right _ (List.mem_singleton_self _)
  rcases (sound.past commit (among commit last)).guar columns (stayed commit last) with before | asked
  · exact absurd before came
  · obtain ⟨tuple, call, same⟩ := asked
    refine ⟨newer, commit, older, tuple, split, call, same, fun later inside => ?_⟩
    exact ⟨stayed later inside,
      (ever later (among later inside)).keepsAdmitted.tuples columns (stayed later inside)⟩

end Relations

/-- A realm without clients, as it is created. -/
def bareRealm : Db := (∅ : Db).insert .definitions ()

theorem bareRealm_new : NewRealm bareRealm where
  schema := rfl
  kinds _ := rfl
  tuples _ := rfl
  policies _ := rfl

def folderSchema : String :=
  "definition person \x7b\x7d definition folder \x7b relation owner: person \x7d"

def ownedPlans : RelationTuple := ⟨⟨"folder", "plans"⟩, "owner", ⟨⟨"person", "ada"⟩, none⟩⟩

/-- A schema is written, then a relation it admits. -/
def writeThenRelate : List (Label (calls plainFormats)) :=
  [.call (.writeRelationSchema folderSchema), tell 0, .turn 0] ++ statements 0 7 ++
    [.turn 0, .turn 0, .call (.writeRelation ownedPlans), .turn 1] ++ statements 1 3 ++ [tell 1] ++
    statements 1 1 ++ [.turn 1, .turn 1]

theorem ownedPlans_admitted : ∃ world, Reachable (calls plainFormats) .atomic bareRealm [] world ∧
    Db.holds world.db (.tuple ownedPlans.columns) ∧ KeepsAdmitted world.db := by
  have ran : ((World.initial bareRealm []).run .atomic writeThenRelate).map
      (fun world => Db.holds world.db (.tuple ownedPlans.columns)) = some true := by
    decide +kernel
  obtain ⟨world, ran, held⟩ := Option.map_eq_some_iff.mp ran
  have reached := Reachable.initial.of_run ran
  exact ⟨world, reached, held,
    (kept_relations_are_admitted bareRealm_new (fun _ _ => ⟨rfl, rfl, rfl⟩) reached).1⟩

/-- What the policies kept hold together. -/
structure KeepsPolicies (db : Db) : Prop where
  compiles : SchemaCompiles db
  /-- No policy is of a type the schema kept defines. -/
  undefined : ∀ id policy compiled, Db.policy db id = some policy → Db.compiled db = some compiled →
    compiled.types.get? policy.resourceType = none
  /-- What its conditions name is there. -/
  named : ∀ id policy, Db.policy db id = some policy → ∃ conditions,
    readConditions policy.conditions = .ok conditions ∧
      (∀ role ∈ namedRoles conditions, Db.holds db (.role role)) ∧
      ∀ group ∈ namedGroups conditions, Db.holds db (.group group)
  kept : ∀ clientId, (scan db (pickPolicy (ofClient clientId))).length ≤ 200
  applicable : ∀ clientId resourceType action,
    (scan db (pickPolicy (appliesTo clientId resourceType action))).length ≤ 16

theorem Consistent.keepsPolicies {db : Db} (inv : Consistent db) : KeepsPolicies db where
  compiles := inv.schemaCompiles
  undefined id policy compiled found opened := by
    have fits := (inv.policies id policy found).1
    rw [Db.compiled] at opened
    rw [definesType, opened] at fits
    exact Option.not_isSome_iff_eq_none.mp (by simpa using fits)
  named id policy found := by
    obtain ⟨-, conditions, written, roles, groups⟩ := inv.policies id policy found
    refine ⟨conditions, written ▸ readConditions_writeConditions conditions, ?_, ?_⟩
    · exact fun role named => roles role (mem_namedRoles.mp named)
    · exact fun group named => groups group (mem_namedGroups.mp named)
  kept := inv.kept
  applicable := inv.applicable

section Policies

variable {formats : Formats} {mode : Mode} {start : Db} {ids : List Uuid}
  {world : World (calls formats)}

/-- In every state committed no policy is of a type the schema defines, what
the conditions of policies name is there, and no client keeps more policies
than it may, nor more that apply at once. -/
theorem kept_policies_hold (new : NewRealm start) (known : ∀ id, id ∉ ids → AbsentId id start)
    (reached : Reachable (calls formats) mode start ids world) :
    KeepsPolicies world.db ∧ ∀ commit ∈ world.past, KeepsPolicies commit.after := by
  obtain ⟨here, ever⟩ := consistent_of_reachable new known reached
  exact ⟨here.keepsPolicies, fun commit inside => (ever commit inside).keepsPolicies⟩

end Policies

def mailClient : Client where
  clientId := "mail"
  secretDigest := none
  allowsClientCredentials := false
  allowsAuthorizationCode := true
  redirectUris := []
  requiresConsent := false
  scopes := []
  enabled := true

def mailRealm : Db := bareRealm.insert (.client "mail") mailClient

theorem mailRealm_new : NewRealm mailRealm where
  schema := rfl
  kinds _ := rfl
  tuples _ := rfl
  policies _ := rfl

def readersPolicy : NewPolicy where
  clientId := "mail"
  name := "readers"
  resourceType := "folder"
  action := "read"
  effect := .permit
  combine := .all
  conditions := writeConditions [.role 1]

/-- A role is created, then a policy that names it. -/
def createThenName : List (Label (calls plainFormats)) :=
  [.call (.createRole ⟨"reader", none, none⟩), .turn 0, .mint 0 (1 : Uuid), tell 0] ++
    statements 0 1 ++ [.turn 0, .turn 0, .call (.createPolicy readersPolicy), .turn 1] ++
    statements 1 6 ++ [.mint 1 (2 : Uuid), tell 1] ++ statements 1 1 ++ [.turn 1, .turn 1]

theorem readersPolicy_holds : ∃ world, Reachable (calls plainFormats) .atomic mailRealm [] world ∧
    (Db.policy world.db 2).isSome ∧ KeepsPolicies world.db := by
  have ran : ((World.initial mailRealm []).run .atomic createThenName).map
      (fun world => (Db.policy world.db 2).isSome) = some true := by
    decide +kernel
  obtain ⟨world, ran, kept⟩ := Option.map_eq_some_iff.mp ran
  have reached := Reachable.initial.of_run ran
  exact ⟨world, reached, kept,
    (kept_policies_hold mailRealm_new (fun _ _ => ⟨rfl, rfl, rfl⟩) reached).1⟩

end Saffui.Authz
