import Saffui.Authz.Definitions

/-!
# Every call keeps what the definitions hold together

One lemma for each program of `Saffui.Authz.Manage`: whatever units commit
between its steps, each unit it commits leaves the realm `Consistent`, moves
what others rely on only while it holds the row of the definitions, and keeps
no relation the call did not name.
-/

namespace Saffui.Authz
open Saffui.Foundation Saffui.Foundation.Language Saffui.Authz.Relations

/-- A relation kept anew is the one a call asked to keep. -/
def KeepsOnly (call : Call) (before after : Db) : Prop :=
  ∀ columns, Db.holds after (.tuple columns) → Db.holds before (.tuple columns) ∨
    ∃ tuple, call = .writeRelation tuple ∧ tuple.columns = columns

section Steps

variable {α : Type} {call : Call} {post : α → language.Work → Db → Prop} {work : language.Work}
  {db now : Db}

/-- What a call guarantees of each of its units. -/
def guarantee (call : Call) (_ : language.Work) (before after : Db) : Prop :=
  KeepsOnly call before after

/-- What is shown of the program of a call. -/
abbrev Sound (call : Call) (prog : Program α) (post : α → language.Work → Db → Prop)
    (work : language.Work) (db : Db) : Prop :=
  prog.wp discipline (guarantee call) post work db

/-- A unit holds the row of the definitions. -/
def Holding (work : language.Work) : Prop := (Key.definitions, LockMode.exclusive) ∈ work.locks

theorem Holding.ran {op : Op} {span : Span} {snapshot : Db} (holding : Holding work) :
    Holding (work.ran op span snapshot now) :=
  List.mem_append_left _ holding

theorem Holding.protects (holding : Holding work) (rely : discipline.Rely work db now) :
    Protected db now :=
  rely.guarded Key.definitions holding rfl

theorem sound_statement {op : Op} {rest : Res op → Program α}
    (holds : ∀ snapshot now span, discipline.Rely work db snapshot →
      discipline.Rely work snapshot now →
      Sound call (rest (run op (overlay work.writes snapshot) (overlay work.writes now)).2) post
        (work.ran op span snapshot now) now) :
    Sound call (statement op >>= rest) post work db :=
  fun snapshot seen now rely span => holds snapshot now span seen rely

theorem sound_clock {rest : Instant → Program α}
    (holds : ∀ now answer, discipline.Rely work db now → Sound call (rest answer) post work now) :
    Sound call (clock >>= rest) post work db :=
  fun now rely answer => holds now answer rely

theorem sound_begin {rest : Unit → Program α}
    (holds : ∀ now, Consistent now → Sound call (rest ()) post (work.finish false) now) :
    Sound call (beginUnit >>= rest) post work db :=
  fun now rely => holds now rely.inv

theorem sound_newId {rest : Uuid → Program α}
    (holds : ∀ now id, discipline.Rely work db now → id ∉ work.minted → AbsentId id now →
      Sound call (rest id) post (work.mint id) now) :
    Sound call (newId (L := language) >>= rest) post work db :=
  fun now rely id new absent => holds now id rely new absent

theorem sound_fail {code : ErrorCode} : Sound call (fail code : Program α) post work db := trivial

theorem sound_lockDefinitions {rest : Unit → Program α}
    (holds : ∀ locked now, work.Reading locked → Holding locked → Consistent now →
      Sound call (rest ()) post locked now) :
    Sound call (lockDefinitions >>= rest) post work db := by
  refine Prog.wp_bind (sound_statement fun snapshot now span _ _ => ?_)
  change Sound call (if (Db.holds (overlay work.writes snapshot) .definitions &&
    Db.holds (overlay work.writes now) .definitions : Bool) then pure () else fail .internal) _ _ _
  split
  · next taken =>
    refine Prog.wp_pure fun later after => holds _ later ?_ ?_ after.inv
    · exact ⟨List.append_nil _, rfl, List.subset_append_left _ _⟩
    · refine List.mem_append_right _ ?_
      change _ ∈ if Db.holds (overlay work.writes snapshot) .definitions then _ else _
      rw [if_pos (Bool.and_eq_true_iff.mp taken).1]
      exact List.mem_singleton_self _
  · exact sound_fail

/-- A statement that only reads, under the row of the definitions. -/
theorem sound_look {op : Op} {rest : Res op → Program α} (holding : Holding work)
    (silent : ∀ seen now, (run op seen now).1 = [])
    (holds : ∀ snapshot now after, Protected db snapshot → Protected snapshot now →
      Consistent snapshot → work.Reading after → Holding after →
      Sound call (rest (run op (overlay work.writes snapshot) (overlay work.writes now)).2) post
        after now) :
    Sound call (statement op >>= rest) post work db :=
  Prog.wp_read silent fun snapshot now after seen rely reads =>
    holds snapshot now after (holding.protects seen) (holding.protects rely) seen.inv reads
      (reads.locks holding)

theorem readNamedClient_sound (clientId : String) :
    Sound call (readNamedClient clientId)
      (fun _ after now => work.Reading after ∧ discipline.Rely work db now) work db := by
  unfold readNamedClient
  split
  · exact Prog.wp_pure fun now rely => ⟨.refl work, rely⟩
  · refine Prog.wp_exec fun snapshot now span seen rely later after => ?_
    have reads : work.Reading (work.ran (Op.readClient clientId) span snapshot now) :=
      ⟨List.append_nil _, rfl, List.subset_append_left _ _⟩
    exact ⟨reads, (seen.trans rely).trans (after.reading reads)⟩

/-- A unit names what it keeps by identifiers it minted. -/
def NamesMinted (work : language.Work) : Prop :=
  ∀ write ∈ work.writes, ∀ id, names write = some id → id ∈ work.minted

theorem NamesMinted.absent (named : NamesMinted work) {id : Uuid} (other : id ∉ work.minted)
    (absent : AbsentId id now) : AbsentId id (overlay work.writes now) :=
  absent.overlay fun write inside same => other (named write inside id same)

/-- What a unit that holds the definitions owes when it commits. -/
theorem commits_of_holding (holding : Holding work) (inv : Consistent (overlay work.writes now))
    (absent : ∀ id, id ∉ work.minted → AbsentId id now → AbsentId id (overlay work.writes now))
    (keeps : KeepsOnly call now (overlay work.writes now)) :
    discipline.Commits (guarantee call) work now where
  inv := inv
  le := trivial
  guarded _ unheld definitions := absurd (definitions ▸ holding) unheld
  absent := absent
  guar := keeps

/-- What a unit that does not hold them owes. -/
theorem commits_of_free (inv : Consistent now) (free : ∀ write ∈ work.writes, IsFree write)
    (named : NamesMinted work) : discipline.Commits (guarantee call) work now :=
  have held := Protected.overlay free now
  { inv := held.consistent inv
    le := trivial
    guarded := fun _ _ _ => held
    absent := fun _ => named.absent
    guar := fun columns there => Or.inl (held.tuples columns there) }

theorem sound_commit {rest : Unit → Program α}
    (commits : ∀ now, discipline.Rely work db now → discipline.Commits (guarantee call) work now)
    (holds : ∀ now, Sound call (rest ()) post (work.finish true) now) :
    Sound call (commitUnit >>= rest) post work db :=
  fun now rely => ⟨commits now rely, holds _⟩

end Steps

section Free

variable {work : language.Work} {db : Db}

theorem deleteRelation_sound (tuple : RelationTuple) :
    Sound (.deleteRelation tuple) (deleteRelation tuple) (fun _ _ _ => True) work db := by
  refine sound_begin fun base _ => sound_statement fun snapshot now span _ _ => ?_
  have writes : ∀ write ∈ (run (.deleteRelation tuple) snapshot now).1,
      write = ⟨.tuple tuple.columns, none⟩ := by
    intro write inside
    simp only [run] at inside
    split at inside
    · exact List.mem_singleton.mp inside
    · cases inside
  change Sound _ (if (run (.deleteRelation tuple) snapshot now).2 = true then commitUnit
    else fail .relationNotFound) _ _ _
  split
  · refine fun later rely => ⟨commits_of_free rely.inv ?_ ?_, fun _ _ => trivial⟩
    · intro write inside
      rw [writes write inside]
      rfl
    · intro write inside id named
      rw [writes write inside] at named
      cases named
  · exact sound_fail

theorem deletePolicy_sound (clientId : String) (id : Uuid) :
    Sound (.deletePolicy clientId id) (deletePolicy clientId id) (fun _ _ _ => True) work db := by
  refine sound_begin fun base _ => sound_statement fun snapshot now span _ _ => ?_
  have writes : ∀ write ∈ (run (.deletePolicy clientId id) snapshot now).1,
      IsFree write ∧ names write = none := by
    intro write inside
    obtain ⟨there, gone⟩ := mem_writeEach_iff.mp inside
    obtain ⟨key, change⟩ := write
    obtain rfl : change = none := gone
    have keys := (List.mem_filter.mp there).1
    unfold policyKeys at keys
    split at keys
    · split at keys
      · simp only [List.mem_cons, List.not_mem_nil, or_false] at keys
        rcases keys with rfl | rfl
        · exact ⟨rfl, rfl⟩
        · exact ⟨trivial, rfl⟩
      · cases keys
    · cases keys
  change Sound _ (if (run (.deletePolicy clientId id) snapshot now).2 = true then commitUnit
    else fail .policyNotFound) _ _ _
  split
  · refine fun later rely => ⟨commits_of_free rely.inv ?_ ?_, fun _ _ => trivial⟩
    · exact fun write inside => (writes write inside).1
    · intro write inside id named
      rw [(writes write inside).2] at named
      cases named
  · exact sound_fail

theorem requireClient_sound (clientId : Option String) {call : Call} :
    Sound call (requireClient clientId)
      (fun _ after now => work.Reading after ∧ Consistent now) work db := by
  cases clientId with
  | none => exact Prog.wp_pure fun now rely => ⟨.refl work, rely.inv⟩
  | some clientId =>
    refine Prog.wp_bind (Prog.wp_mono ?_ (readNamedClient_sound clientId))
    rintro client after now inv ⟨reads, -⟩
    split
    · exact sound_fail
    · exact Prog.wp_pure fun later rely => ⟨reads, rely.inv⟩

/-- A row kept under a name, by an identifier the unit minted. -/
theorem commits_of_insertNamed {call : Call} (key name : Key) (row : Row key) (taken : Row name)
    {found now : Db} {id : Uuid} (free : IsFree ⟨key, some row⟩) (loose : IsFree ⟨name, some taken⟩)
    (named : names ⟨key, some row⟩ = some id) (unnamed : names ⟨name, some taken⟩ = none)
    (writes : work.writes = (insertNamed key name row taken found).1) (mine : id ∈ work.minted)
    (inv : Consistent now) : discipline.Commits (guarantee call) work now := by
  have each : ∀ write ∈ work.writes,
      write = ⟨key, some row⟩ ∨ write = ⟨name, some taken⟩ := by
    intro write inside
    rw [writes, insertNamed] at inside
    split at inside
    · cases inside
    · rcases List.mem_cons.mp inside with first | second
      · exact Or.inl first
      · exact Or.inr (List.mem_singleton.mp second)
  apply commits_of_free inv
  · intro write inside
    rcases each write inside with rfl | rfl
    · exact free
    · exact loose
  · intro write inside other same
    rcases each write inside with rfl | rfl
    · exact Option.some.inj (named.symm.trans same) ▸ mine
    · cases unnamed.symm.trans same

theorem createRole_sound (wanted : NewRole) :
    Sound (.createRole wanted) (createRole wanted) (fun _ _ _ => True) work db := by
  unfold createRole
  split
  · exact sound_fail
  cases readRoleText wanted.description with
  | error code => exact sound_fail
  | ok description =>
    refine sound_begin fun base _ => Prog.wp_bind (Prog.wp_mono ?_ (requireClient_sound _))
    rintro ⟨⟩ after checked - ⟨reads, -⟩
    refine sound_newId fun minting id _ _ _ => sound_clock fun clocked createdAt _ =>
      sound_statement fun snapshot now span _ _ => ?_
    let role : Role :=
      { id, clientId := wanted.clientId, name := wanted.name, description, createdAt }
    change Sound _ (if (insertNamed (.role role.id) (.roleName role.clientId role.name) role ()
      (overlay after.writes now)).2 = true then (do commitUnit; return role)
      else fail .roleNameTaken) _ _ _
    split
    · refine sound_commit (fun later rely => ?_) fun _ => Prog.wp_pure fun _ _ => trivial
      have empty : (after.mint id).writes = [] := reads.writes
      have writes := Work.ran_writes empty (.insertRole role) span snapshot now
      exact commits_of_insertNamed (.role id) (.roleName wanted.clientId wanted.name) role ()
        rfl trivial rfl rfl writes List.mem_cons_self rely.inv
    · exact sound_fail

theorem createGroup_sound (wanted : NewGroup) :
    Sound (.createGroup wanted) (createGroup wanted) (fun _ _ _ => True) work db := by
  unfold createGroup
  split
  · exact sound_fail
  refine sound_newId fun minting id _ _ _ => ?_
  cases readRoleText wanted.description with
  | error code => exact sound_fail
  | ok description =>
    refine sound_clock fun clocked createdAt _ => sound_begin fun base _ =>
      sound_statement fun snapshot now span _ _ => ?_
    let group : Group := { id, name := wanted.name, description, createdAt }
    change Sound _ (if (insertNamed (.group group.id) (.groupName group.name) group () now).2 = true
      then (do commitUnit; return group) else fail .groupNameTaken) _ _ _
    split
    · refine sound_commit (fun later rely => ?_) fun _ => Prog.wp_pure fun _ _ => trivial
      exact commits_of_insertNamed (.group id) (.groupName wanted.name) group () rfl trivial rfl rfl
        rfl List.mem_cons_self rely.inv
    · exact sound_fail

end Free

section Held

variable {work : language.Work} {db : Db}

/-- A relation of a kind the schema admits may be kept. -/
theorem Consistent.insertTuple {columns : TupleColumns} {writtenAt : Instant} (inv : Consistent db)
    (kind : Db.holds db (.kind columns.kind)) :
    Consistent (db.insert (Key.tuple columns) writtenAt) := by
  have others : ∀ key, key ≠ Key.tuple columns →
      (db.insert (Key.tuple columns) writtenAt).lookup key = db.lookup key :=
    fun key other => AList.lookup_insert_ne other
  have same : ∀ key, key ≠ Key.tuple columns →
      Db.holds (db.insert (Key.tuple columns) writtenAt) key = Db.holds db key :=
    fun key other => congrArg Option.isSome (others key other)
  have policies : ∀ id, Db.policy (db.insert (Key.tuple columns) writtenAt) id = Db.policy db id :=
    fun id => others (.policy id) nofun
  refine inv.moved (others .schema nofun) (fun one => same (.kind one) nofun) ?_ ?_ ?_
  · intro one there
    by_cases here : one = columns
    · exact here ▸ kind
    · rw [same (.tuple one) fun equal => here (Key.tuple.inj equal)] at there
      exact inv.tuples one there
  · exact fun id policy found => policies id ▸ found
  · intro id policy found
    rw [policies id] at found
    refine (inv.policies id policy found).mono (others .schema nofun) ?_ ?_
    · exact fun role there => (same (.role role) nofun).trans there
    · exact fun group there => (same (.group group) nofun).trans there

/-- What is found of a relation: taken, its kind is admitted under the row of
the definitions. -/
theorem admitRelation_sound (tuple : RelationTuple) {call : Call} (empty : work.writes = []) :
    Sound call (admitRelation tuple) (fun admission after now => admission = .taken →
      work.Reading after ∧ Holding after ∧ Db.holds now (.kind tuple.columns.kind)) work db := by
  refine Prog.wp_read (fun _ _ => rfl) fun snapshot now after _ _ reads => ?_
  generalize (language.run (.peekRelation tuple) (overlay work.writes snapshot)
    (overlay work.writes now)).2 = peek
  change Sound call (if (!Peek.admitted peek) = true then _
    else if Peek.kept peek = true then _ else _) _ _ _
  split
  · exact Prog.wp_pure fun _ _ => nofun
  split
  · exact Prog.wp_pure fun _ _ => nofun
  refine sound_lockDefinitions fun locked held locking holding _ => ?_
  refine sound_look holding (fun _ _ => rfl) fun seen found looked _ rely _ looking still => ?_
  rw [(reads.trans locking).writes, empty]
  refine Prog.wp_pure fun later after taken => ?_
  change (if Db.holds seen (.kind tuple.columns.kind) = true then RelationAdmission.taken
    else .refused) = .taken at taken
  split at taken
  · next kind =>
    refine ⟨(reads.trans locking).trans looking, still, ?_⟩
    rw [((rely.trans (still.protects after)).kinds _)]
    exact kind
  · cases taken

theorem run_insertRelation {tuple : RelationTuple} {writtenAt : Instant} {seen now : Db}
    (kept : (run (.insertRelation tuple writtenAt) seen now).2 = true) :
    (run (.insertRelation tuple writtenAt) seen now).1 =
      [⟨.tuple tuple.columns, some writtenAt⟩] := by
  simp only [run] at kept ⊢
  split at kept
  · cases kept
  · next new => rw [if_neg new]

theorem writeRelation_sound (tuple : RelationTuple) :
    Sound (.writeRelation tuple) (writeRelation tuple) (fun _ _ _ => True) work db := by
  unfold writeRelation
  cases checkRelationNames tuple with
  | error refusal => exact trivial
  | ok =>
    refine sound_begin fun base _ => Prog.wp_bind (Prog.wp_mono ?_ (admitRelation_sound tuple rfl))
    intro admission after admitted inv told
    cases admission with
    | refused => exact sound_fail
    | kept => exact Prog.wp_pure fun _ _ => trivial
    | taken =>
      obtain ⟨reads, holding, kind⟩ := told rfl
      refine sound_clock fun clocked writtenAt clocking =>
        sound_statement fun snapshot now span seen rely => ?_
      have empty : after.writes = [] := reads.writes
      have writes := Work.ran_writes empty (.insertRelation tuple writtenAt) span snapshot now
      rw [empty]
      change Sound _ (if (run (.insertRelation tuple writtenAt) snapshot now).2 = true then commitUnit
        else pure ()) _ _ _
      split
      · next kept =>
        rw [run_insertRelation kept] at writes
        refine fun later last => ⟨?_, fun _ _ => trivial⟩
        have moved : Protected admitted later :=
          (((holding.protects clocking).trans (holding.protects seen)).trans
            (holding.protects rely)).trans (holding.ran.protects last)
        apply commits_of_holding holding.ran
        · rw [writes]
          exact last.inv.insertTuple ((moved.kinds _).trans kind)
        · refine fun _ => NamesMinted.absent fun write inside id named => ?_
          rw [writes] at inside
          rw [List.mem_singleton.mp inside] at named
          cases named
        · intro columns there
          rw [writes] at there
          by_cases here : columns = tuple.columns
          · exact Or.inr ⟨tuple, rfl, here.symm⟩
          · refine Or.inl ?_
            change ((later.insert (Key.tuple tuple.columns) writtenAt).lookup _).isSome at there
            rwa [AList.lookup_insert_ne fun equal => here (Key.tuple.inj equal)] at there
      · exact Prog.wp_pure fun _ _ => trivial

end Held

end Saffui.Authz
