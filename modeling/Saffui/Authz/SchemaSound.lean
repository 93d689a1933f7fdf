import Saffui.Authz.ManageSound

/-!
# A schema put in place of another

What `writeRelationSchema` writes is followed as a whole: the schema and its
kinds replace those there (`Replaces`), then the relations that do not
outlive them go (`Settles`).
-/

namespace Saffui.Authz
open Saffui.Foundation Saffui.Foundation.Language Saffui.Authz.Relations

variable {work : language.Work} {db : Db}

/-- What a unit wrote puts a schema and its kinds in place of those there, and
nothing else. -/
structure Replaces (stored : StoredSchema) (allowed : List KindColumns) (writes : List (Write Row))
    (now : Db) : Prop where
  schema : ∀ db, Db.schema (overlay writes db) = some stored
  kinds : ∀ db, Protected now db → ∀ columns,
    Db.holds (overlay writes db) (.kind columns) ↔ columns ∈ allowed
  others : ∀ db key, (∀ columns, key ≠ .kind columns) → key ≠ .schema →
    (overlay writes db).lookup key = db.lookup key

theorem Replaces.stable {stored : StoredSchema} {kinds : List KindColumns}
    {writes : List (Write Row)} {now later : Db} (replaces : Replaces stored kinds writes now)
    (moved : Protected now later) : Replaces stored kinds writes later :=
  { replaces with kinds := fun db after => replaces.kinds db (moved.trans after) }

theorem run_insertRelationKinds {kinds : List AdmittedRelation} {seen now : Db}
    (kept : (run (.insertRelationKinds kinds) seen now).2 = true) :
    (run (.insertRelationKinds kinds) seen now).1 =
      kinds.map fun one => ⟨.kind one.columns, some ()⟩ := by
  simp only [run] at kept ⊢
  split at kept
  · next new => rw [if_pos new]
  · cases kept

/-- The schema written, the kinds there deleted, and its own written. -/
theorem Replaces.of_put (stored : StoredSchema) (admitted : List AdmittedRelation) {seen now : Db}
    (moved : Protected seen now) :
    Replaces stored (admitted.map AdmittedRelation.columns)
      ([⟨.schema, some stored⟩] ++ deleteEach
        (keysWhere (overlay [⟨.schema, some stored⟩] seen) isKind) (overlay [⟨.schema, some stored⟩] now) ++
        admitted.map fun one => ⟨.kind one.columns, some ()⟩) now := by
  let put : List (Write Row) := [⟨.schema, some stored⟩]
  let gone := keysWhere (overlay put seen) isKind
  let kinds : List (Write Row) := admitted.map fun one => ⟨.kind one.columns, some ()⟩
  have others : ∀ db key, key ≠ .schema → (overlay put db).lookup key = db.lookup key :=
    fun db key other => AList.lookup_insert_ne other
  have onlyKinds : ∀ key ∈ gone, ∃ columns, key = .kind columns := by
    intro key inside
    obtain ⟨row, -, passed⟩ := mem_keysWhere_iff.mp inside
    cases key with
    | kind columns => exact ⟨columns, rfl⟩
    | _ => cases passed
  have kindsOnly : ∀ db key, (∀ columns, key ≠ .kind columns) →
      (overlay kinds (overlay (deleteEach gone (overlay put now)) (overlay put db))).lookup key =
        (overlay put db).lookup key := by
    intro db key other
    rw [lookup_overlay_of_not_mem, lookup_overlay_deleteEach, if_neg]
    · rintro ⟨inside, -⟩
      obtain ⟨columns, rfl⟩ := onlyKinds key inside
      exact other columns rfl
    · intro write inside equal
      obtain ⟨one, -, rfl⟩ := List.mem_map.mp inside
      exact other one.columns equal.symm
  constructor
  · intro db
    rw [overlay_append, overlay_append, Db.schema, kindsOnly db .schema (by simp)]
    exact AList.lookup_insert db
  · intro db after columns
    have kept : ∀ write ∈ kinds, write.2.isSome := by
      intro write inside
      obtain ⟨one, -, rfl⟩ := List.mem_map.mp inside
      rfl
    rw [overlay_append, overlay_append, Db.holds, isSome_lookup_overlay kept, lookup_overlay_deleteEach]
    have cleared : (if Key.kind columns ∈ gone ∧ ((overlay put now).lookup (.kind columns)).isSome then
        none else (overlay put db).lookup (.kind columns)) = none := by
      split
      · rfl
      · next still =>
        rw [others db (.kind columns) (by simp)]
        by_contra there
        have held : Db.holds db (.kind columns) = true := Option.isSome_iff_ne_none.mpr there
        have before : Db.holds now (.kind columns) = true := after.kinds columns ▸ held
        have atStart : Db.holds seen (.kind columns) = true := moved.kinds columns ▸ before
        obtain ⟨row, found⟩ := Option.isSome_iff_exists.mp atStart
        apply still
        rw [others now (.kind columns) (by simp)]
        exact ⟨mem_keysWhere_iff.mpr
          ⟨row, (others seen (.kind columns) (by simp)).trans found, rfl⟩, before⟩
    rw [cleared]
    simp [kinds]
  · intro db key noKind noSchema
    rw [overlay_append, overlay_append, kindsOnly db key noKind, others db key noSchema]

theorem putSchema_sound (stored : StoredSchema) (admitted : List AdmittedRelation) {call : Call}
    (holding : Holding work) (empty : work.writes = []) :
    Sound call (putSchema stored admitted) (fun _ after now => Holding after ∧
      after.minted = work.minted ∧ Protected db now ∧
      Replaces stored (admitted.map AdmittedRelation.columns) after.writes now) work db := by
  refine sound_statement fun seen₁ now₁ span₁ first₁ second₁ => ?_
  let put := work.ran (.putRelationSchema stored) span₁ seen₁ now₁
  have putWrites : put.writes = [⟨.schema, some stored⟩] :=
    Work.ran_writes empty (.putRelationSchema stored) span₁ seen₁ now₁
  have putHolding : Holding put := holding.ran
  refine sound_statement fun seen₂ now₂ span₂ first₂ second₂ => ?_
  let cleared := put.ran .deleteRelationKinds span₂ seen₂ now₂
  have clearedHolding : Holding cleared := putHolding.ran
  refine sound_statement fun seen₃ now₃ span₃ first₃ second₃ => ?_
  change Sound call (if (run (.insertRelationKinds admitted) (overlay cleared.writes seen₃)
    (overlay cleared.writes now₃)).2 = true then pure () else fail .conflict) _ _ _
  split
  · next kept =>
    have writes : (cleared.ran (.insertRelationKinds admitted) span₃ seen₃ now₃).writes =
        [⟨.schema, some stored⟩] ++ deleteEach
          (keysWhere (overlay [⟨.schema, some stored⟩] seen₂) isKind)
          (overlay [⟨.schema, some stored⟩] now₂) ++
          admitted.map fun one => ⟨.kind one.columns, some ()⟩ := by
      change put.writes ++ (run .deleteRelationKinds (overlay put.writes seen₂)
        (overlay put.writes now₂)).1 ++ (run (.insertRelationKinds admitted)
          (overlay cleared.writes seen₃) (overlay cleared.writes now₃)).1 = _
      rw [run_insertRelationKinds kept, putWrites]
      rfl
    have replaces := Replaces.of_put stored admitted (putHolding.protects second₂)
    refine Prog.wp_pure fun later last => ⟨clearedHolding.ran, rfl, ?_, ?_⟩
    · exact (holding.protects first₁).trans <| (holding.protects second₁).trans <|
        (putHolding.protects first₂).trans <| (putHolding.protects second₂).trans <|
        (clearedHolding.protects first₃).trans <| (clearedHolding.protects second₃).trans
          (clearedHolding.ran.protects last)
    · rw [writes]
      exact replaces.stable <| (clearedHolding.protects first₃).trans <|
        (clearedHolding.protects second₃).trans (clearedHolding.ran.protects last)
  · exact sound_fail

/-- What a unit wrote puts a schema in place, and leaves no relation it does
not admit. -/
structure Settles (stored : StoredSchema) (allowed : List KindColumns) (writes : List (Write Row))
    (now : Db) : Prop where
  schema : ∀ db, Db.schema (overlay writes db) = some stored
  kinds : ∀ db, Protected now db → ∀ columns,
    Db.holds (overlay writes db) (.kind columns) ↔ columns ∈ allowed
  kept : ∀ db columns, Db.holds (overlay writes db) (.tuple columns) → Db.holds db (.tuple columns)
  admitted : ∀ db, Protected now db → Consistent db → ∀ columns,
    Db.holds (overlay writes db) (.tuple columns) → columns.kind ∈ allowed
  others : ∀ db key, (∀ columns, key ≠ .kind columns) → (∀ columns, key ≠ .tuple columns) →
    key ≠ .schema → (overlay writes db).lookup key = db.lookup key

/-- The relations that pass a test deleted, those that do not being admitted. -/
theorem Replaces.settles {stored : StoredSchema} {kinds : List KindColumns}
    {writes : List (Write Row)} {seen now : Db} (replaces : Replaces stored kinds writes now)
    (test : KindColumns → Bool) (moved : Protected seen now)
    (enough : ∀ db, Protected now db → Consistent db → ∀ columns, Db.holds db (.tuple columns) →
      test columns.kind = false → columns.kind ∈ kinds) :
    Settles stored kinds (writes ++ deleteEach (keysWhere (overlay writes seen) (isTupleOf test))
      (overlay writes now)) now := by
  have tuples : ∀ db columns,
      (overlay writes db).lookup (.tuple columns) = db.lookup (.tuple columns) :=
    fun db columns => replaces.others db (.tuple columns) (by simp) (by simp)
  have same : ∀ db key, (∀ columns, key ≠ .tuple columns) →
      (overlay (deleteEach (keysWhere (overlay writes seen) (isTupleOf test)) (overlay writes now))
        db).lookup key = db.lookup key := by
    intro db key other
    rw [lookup_overlay_deleteEach, if_neg]
    rintro ⟨inside, -⟩
    obtain ⟨row, -, passed⟩ := mem_keysWhere_iff.mp inside
    cases key with
    | tuple columns => exact other columns rfl
    | _ => cases passed
  have left : ∀ db columns, Db.holds (overlay (writes ++ deleteEach
      (keysWhere (overlay writes seen) (isTupleOf test)) (overlay writes now)) db) (.tuple columns) →
      Db.holds db (.tuple columns) ∧
        ¬(Key.tuple columns ∈ keysWhere (overlay writes seen) (isTupleOf test) ∧
          Db.holds now (.tuple columns)) := by
    intro db columns there
    rw [overlay_append, Db.holds, lookup_overlay_deleteEach, tuples db, tuples now] at there
    split at there
    · cases there
    · next kept => exact ⟨there, kept⟩
  constructor
  · intro db
    rw [overlay_append, Db.schema, same _ .schema (by simp)]
    exact replaces.schema db
  · intro db after columns
    rw [overlay_append, Db.holds, same _ (.kind columns) (by simp)]
    exact replaces.kinds db after columns
  · exact fun db columns there => (left db columns there).1
  · intro db after inv columns there
    obtain ⟨held, kept⟩ := left db columns there
    refine enough db after inv columns held (Bool.eq_false_iff.mpr fun passed => kept ?_)
    have atNow := after.tuples columns held
    obtain ⟨row, found⟩ := Option.isSome_iff_exists.mp (moved.tuples columns atNow)
    exact ⟨mem_keysWhere_iff.mpr ⟨row, (tuples seen columns).trans found, passed⟩, atNow⟩
  · intro db key noKind noTuple noSchema
    rw [overlay_append, same _ key noTuple, replaces.others db key noKind noSchema]

/-- What the schema before admitted and this one does not change, it admits. -/
theorem admitted_of_not_changed {before compiled : CompiledSchema} (inv : Consistent db)
    (schema : (Db.schema db).map StoredSchema.open = some (some before)) {columns : TupleColumns}
    (held : Db.holds db (.tuple columns))
    (unchanged : columns.kind ∉
      (listChangedRelations before compiled).map AdmittedRelation.columns) :
    columns.kind ∈ (listAdmittedRelations compiled).map AdmittedRelation.columns := by
  obtain ⟨stored, found, opened⟩ := Option.map_eq_some_iff.mp schema
  have kind := (inv.kinds columns.kind).mp (inv.tuples columns held)
  rw [Db.admitted, Db.compiled, found, Option.bind_some, opened, Option.elim_some] at kind
  obtain ⟨one, admitted, same⟩ := List.mem_map.mp kind
  refine List.mem_map.mpr ⟨one, ?_, same⟩
  by_contra gone
  refine unchanged (List.mem_map.mpr ⟨one, ?_, same⟩)
  exact (mem_listChangedRelations_iff _ _ _).mpr fun both => gone (both.mp admitted)

theorem Settles.stable {stored : StoredSchema} {kinds : List KindColumns}
    {writes : List (Write Row)} {now later : Db} (settles : Settles stored kinds writes now)
    (moved : Protected now later) : Settles stored kinds writes later :=
  { settles with
    kinds := fun db after => settles.kinds db (moved.trans after)
    admitted := fun db after => settles.admitted db (moved.trans after) }

theorem removeRelations_sound {before : Option StoredSchema} {compiled : CompiledSchema}
    {stored : StoredSchema} {call : Call} (holding : Holding work) (schema : Db.schema db = before)
    (replaces : Replaces stored ((listAdmittedRelations compiled).map AdmittedRelation.columns)
      work.writes db) :
    Sound call (removeRelations before compiled) (fun _ after now => Holding after ∧
      after.minted = work.minted ∧ Protected db now ∧
      Settles stored ((listAdmittedRelations compiled).map AdmittedRelation.columns) after.writes
        now) work db := by
  unfold removeRelations
  split
  · next before opened =>
    have unchanged : ∀ later, Protected db later → Consistent later → ∀ columns,
        Db.holds later (.tuple columns) → columns.kind ∉
          (listChangedRelations before compiled).map AdmittedRelation.columns →
        columns.kind ∈ (listAdmittedRelations compiled).map AdmittedRelation.columns := by
      intro later after inv columns held
      refine admitted_of_not_changed inv ?_ held
      rw [after.schema, schema, opened]
    dsimp only
    split
    · next none =>
      have nothing : keysWhere (overlay work.writes db) (isTupleOf fun _ => false) = [] := by
        refine List.eq_nil_iff_forall_not_mem.mpr fun key inside => ?_
        obtain ⟨row, -, passed⟩ := mem_keysWhere_iff.mp inside
        cases key <;> cases passed
      have settles := replaces.settles (fun _ => false) (.refl db)
        fun later after inv columns held _ => unchanged later after inv columns held
          (by simp [List.isEmpty_iff.mp none])
      rw [nothing, deleteEach, List.filter_nil, writeEach, List.map_nil, List.append_nil] at settles
      exact Prog.wp_pure fun later rely => ⟨holding, rfl, holding.protects rely,
        settles.stable (holding.protects rely)⟩
    · refine Prog.wp_exec fun snapshot now span seen rely later after => ?_
      have toNow := (holding.protects seen).trans (holding.protects rely)
      refine ⟨holding.ran, rfl, toNow.trans (holding.ran.protects after), ?_⟩
      have settles := (replaces.stable toNow).settles
        (fun kind => kind ∈ (listChangedRelations before compiled).map AdmittedRelation.columns)
        (holding.protects rely) fun later after inv columns held passed =>
          unchanged later (toNow.trans after) inv columns held (by simpa using passed)
      exact settles.stable (holding.ran.protects after)
  · refine Prog.wp_exec fun snapshot now span seen rely later after => ?_
    have toNow := (holding.protects seen).trans (holding.protects rely)
    refine ⟨holding.ran, rfl, toNow.trans (holding.ran.protects after), ?_⟩
    have settles := (replaces.stable toNow).settles
      (fun kind => kind ∉ (listAdmittedRelations compiled).map AdmittedRelation.columns)
      (holding.protects rely) fun later after inv columns held passed => by simpa using passed
    exact settles.stable (holding.ran.protects after)
  · refine Prog.wp_exec fun snapshot now span seen rely later after => ?_
    have toNow := (holding.protects seen).trans (holding.protects rely)
    refine ⟨holding.ran, rfl, toNow.trans (holding.ran.protects after), ?_⟩
    have settles := (replaces.stable toNow).settles
      (fun kind => kind ∉ ([] : List AdmittedRelation).map AdmittedRelation.columns)
      (holding.protects rely) fun later after inv columns held passed => by simp at passed
    exact settles.stable (holding.ran.protects after)

/-- Under a schema put in place, for whose types no policy is kept. -/
theorem Settles.consistent {stored : StoredSchema} {compiled : CompiledSchema}
    {writes : List (Write Row)}
    (settles : Settles stored ((listAdmittedRelations compiled).map AdmittedRelation.columns) writes
      db)
    (compiles : compileSchema stored.source = .ok compiled)
    (form : stored.compiled = compiled.toJson) (inv : Consistent db)
    (apart : ∀ id policy, Db.policy db id = some policy →
      compiled.types.get? policy.resourceType = none) :
    Consistent (overlay writes db) := by
  have opened := open_of_compileSchema compiles form
  have admitted : Db.admitted (overlay writes db) = listAdmittedRelations compiled := by
    rw [Db.admitted, Db.compiled, settles.schema, Option.bind_some, opened, Option.elim_some]
  have policies : ∀ id, Db.policy (overlay writes db) id = Db.policy db id :=
    fun id => settles.others db (.policy id) (by simp) (by simp) (by simp)
  have fewer : ∀ id policy, Db.policy (overlay writes db) id = some policy →
      Db.policy db id = some policy := fun id policy found => policies id ▸ found
  constructor
  · intro found same
    rw [settles.schema, Option.some.injEq] at same
    exact same ▸ ⟨compiled, compiles, form⟩
  · intro columns
    rw [admitted]
    exact settles.kinds db (.refl db) columns
  · intro columns there
    rw [settles.kinds db (.refl db)]
    exact settles.admitted db (.refl db) inv columns there
  · intro id policy found
    obtain ⟨-, conditions, written, roles, groups⟩ := inv.policies id policy (fewer id policy found)
    refine ⟨?_, conditions, written, fun role named => ?_, fun group named => ?_⟩
    · rw [settles.schema, definesType, Option.bind_some, opened]
      simp [apart id policy (fewer id policy found)]
    · rw [Db.holds, settles.others db (.role role) (by simp) (by simp) (by simp)]
      exact roles role named
    · rw [Db.holds, settles.others db (.group group) (by simp) (by simp) (by simp)]
      exact groups group named
  · exact fun clientId => (scan_policies_le fewer _).trans (inv.kept clientId)
  · exact fun clientId resourceType action =>
      (scan_policies_le fewer _).trans (inv.applicable clientId resourceType action)

/-- What the storage finds no policy for, no policy kept then is of. -/
theorem not_mem_types {types : List String} {seen now : Db}
    (free : ¬(run (.hasPolicyForTypes types) seen now).2 = true) {id : Uuid} {policy : Policy}
    (found : Db.policy seen id = some policy) : policy.resourceType ∉ types := by
  intro named
  apply free
  have picked : policy ∈ scan seen (pickPolicy fun policy => policy.resourceType ∈ types) :=
    mem_scan_iff.mpr ⟨.policy id, policy, found, by simp [pickPolicy, named]⟩
  simp only [run, Bool.not_eq_true', List.isEmpty_eq_false_iff]
  exact List.ne_nil_of_mem picked

theorem writeRelationSchema_sound (source : String) :
    Sound (.writeRelationSchema source) (writeRelationSchema source) (fun _ _ _ => True) work db := by
  unfold writeRelationSchema
  cases compiles : compileSchema source with
  | error faults => exact trivial
  | ok compiled =>
    refine sound_clock fun clocked writtenAt _ => sound_begin fun base _ =>
      sound_lockDefinitions fun locked held locking holding _ => ?_
    have empty : locked.writes = [] := locking.writes
    refine sound_look holding (fun _ _ => rfl)
      fun seen db₁ looked _ fromSeen _ reads holding => ?_
    rw [empty]
    change Sound _ (if (run (.hasPolicyForTypes compiled.types.keys) seen db₁).2 = true then _
      else _) _ _ _
    split
    · exact sound_fail
    next free =>
    have empty : looked.writes = [] := reads.writes.trans empty
    refine sound_look holding (fun _ _ => rfl)
      fun read db₂ reading toRead fromRead _ reads holding => ?_
    have unwritten : reading.writes = [] := reads.writes.trans empty
    rw [empty]
    change Sound _ (putSchema ⟨source, compiled.toJson, writtenAt⟩ (listAdmittedRelations compiled) >>=
      fun _ => removeRelations (Db.schema read) compiled >>= fun removed => commitUnit >>= fun _ =>
        pure (compiled, removed)) _ _ _
    refine Prog.wp_bind (Prog.wp_mono ?_ (putSchema_sound _ _ holding unwritten))
    rintro ⟨⟩ put db₃ - ⟨holding, minted, putting, replaces⟩
    have before : Db.schema db₃ = Db.schema read := (fromRead.trans putting).schema
    refine Prog.wp_bind (Prog.wp_mono ?_ (removeRelations_sound holding before replaces))
    rintro removed settled db₄ - ⟨holding, minted, removing, settles⟩
    refine sound_commit (fun later last => ?_) fun _ => Prog.wp_pure fun _ _ => trivial
    have settles := settles.stable (holding.protects last)
    have toLater := fromSeen.trans <| toRead.trans <| fromRead.trans <| putting.trans <|
      removing.trans (holding.protects last)
    apply commits_of_holding holding
    · refine settles.consistent compiles rfl last.inv fun id policy found => ?_
      have free := not_mem_types free (toLater.policies id policy found)
      rw [SortedMap.mem_keys_iff] at free
      exact Option.not_isSome_iff_eq_none.mp free
    · intro id _ absent
      exact
        { policy := (settles.others later (.policy id) nofun nofun nofun).trans absent.policy
          role := (settles.others later (.role id) nofun nofun nofun).trans absent.role
          group := (settles.others later (.group id) nofun nofun nofun).trans absent.group }
    · exact fun columns there => Or.inl (settles.kept later columns there)

end Saffui.Authz
