import Mathlib.Algebra.BigOperators.Intervals
import Saffui.Oidc.Codes

/-!
# The security keys of a person

How many keys a person holds is counted when an enrollment begins. The key is
written when it finishes, by a unit that counts nothing: what other enrollments
wrote since is not told.

Source: `saffui-core/src/login/enroll.rs`, `store/src/stores/security_keys.rs`.
-/

namespace Saffui.Oidc
open Saffui.Foundation Saffui.Foundation.Language Saffui.Login

/-- A key a person holds. -/
def HeldBy (person : Uuid) (row : Option SecurityKey) : Prop := ∃ key, row = some key ∧ key.person = person

def insertsKeyOf (person : Uuid) : Told → Bool
  | ⟨.insertSecurityKey key, inserted⟩ => inserted && key.person = person
  | _ => false

/-- A unit that wrote a key of a person. -/
def writesKeyOf {app : App} (person : Uuid) (commit : Commit (calls app)) : Bool :=
  commit.work.log.script.any (insertsKeyOf person)

/-- How many units of a run wrote a key of a person, from a place on and before
another. -/
def keysWritten {app : App} (past : List (Commit (calls app))) (person : Uuid) (first last : Nat) : Nat :=
  ∑ place ∈ Finset.Ico first last, if (past.reverse[place]?).any (writesKeyOf person) then 1 else 0

/-- An enrollment of a key that finished: where it was counted, taken and
written. -/
structure Enrollment {app : App} (past : List (Commit (calls app))) (person : Uuid) where
  begun : Nat
  taken : Nat
  written : Nat
  begins : Commit (calls app)
  takes : Commit (calls app)
  writes : Commit (calls app)
  /-- The statement that counted the keys the person held. -/
  counting : language.Event
  held : List SecurityKey
  beginsAt : CommittedAt past begun begins
  takesAt : CommittedAt past taken takes
  writesAt : CommittedAt past written writes
  counts : counting ∈ begins.work.events ∧ counting.told = told (.listSecurityKeys person) held
  starts : ∃ state expiresAt,
    told (.writeKeyEnrollment person state expiresAt) () ∈ begins.work.log.script
  /-- It is the last one begun before it was taken. -/
  latest : ∀ place unit, begun < place → place < taken → CommittedAt past place unit →
    ∀ state expiresAt, told (.writeKeyEnrollment person state expiresAt) () ∉ unit.work.log.script
  finishes : begun < taken ∧ taken < written ∧ takes.pid = writes.pid
  serves : ∃ instant state,
    told (.takeKeyEnrollment person instant) (some state) ∈ takes.work.log.script
  inserts : writesKeyOf person writes = true

/-- An enrollment that no other overlaps: none wrote its key after this one's
begin counted the keys, and before this one wrote its own. -/
def Enrollment.Alone {app : App} {past : List (Commit (calls app))} {person : Uuid}
    (enrollment : Enrollment past person) : Prop :=
  ∀ place unit, enrollment.counting.started ≤ place → place < enrollment.written →
    CommittedAt past place unit → writesKeyOf person unit = false

theorem Enrollment.Alone.keysWritten {app : App} {past : List (Commit (calls app))} {person : Uuid}
    {enrollment : Enrollment past person} (alone : enrollment.Alone) :
    keysWritten past person enrollment.counting.started enrollment.written = 0 := by
  refine Finset.sum_eq_zero fun place inside => if_neg ?_
  obtain ⟨after, before⟩ := Finset.mem_Ico.mp inside
  cases there : past.reverse[place]? with
  | none => simp
  | some unit =>
    have plain := alone place unit after before (CommittedAt.iff_getElem?.mpr there)
    simp [plain]

theorem length_listKeys (db : Db) (person : Uuid) :
    (listKeys db person).length =
      (keysWhere db fun key row => (pickSecurityKey person key row).isSome).length := by
  rw [listKeys, List.length_insertionSort, length_scan]

theorem mem_keysOf {db : Db} {person : Uuid} {key : Key}
    (inside : key ∈ keysWhere db fun key row => (pickSecurityKey person key row).isSome) :
    ∃ credentialId, key = .securityKey credentialId ∧ HeldBy person (Db.securityKey db credentialId) := by
  obtain ⟨row, found, picked⟩ := mem_keysWhere_iff.mp inside
  cases key with
  | securityKey credentialId =>
    refine ⟨credentialId, rfl, row, found, ?_⟩
    by_contra other
    simp [pickSecurityKey, other] at picked
  | _ => cases picked

theorem keysOf_of_held {db : Db} {person : Uuid} {credentialId : Bytes}
    (held : HeldBy person (Db.securityKey db credentialId)) :
    Key.securityKey credentialId ∈ keysWhere db fun key row => (pickSecurityKey person key row).isSome := by
  obtain ⟨key, found, rfl⟩ := held
  exact mem_keysWhere_iff.mpr ⟨key, found, by simp [pickSecurityKey]⟩

theorem takeKeyEnrollment_answer {seen now : Db} {person : Uuid} {instant : Instant} {state : Bytes}
    (answered : answer (.takeKeyEnrollment person instant) seen now = some state) :
    Key.keyEnrollment person ∈ hits (.takeKeyEnrollment person instant) seen now := by
  simp only [answer] at answered
  split at answered
  · next changed =>
    refine hit_of_changed ?_ changed
    intro other row picked
    cases other <;> simp_all [picks, ofKeyEnrollment]
  · cases answered

/-- What a statement may do to a key. -/
theorem securityKey_written {op : Op} {seen now : Db} {credentialId : Bytes} {row : Option SecurityKey}
    (written : (⟨.securityKey credentialId, row⟩ : Write Row) ∈ writes op seen now) :
    (∃ key, op = .insertSecurityKey key ∧ key.credentialId = credentialId ∧ row = some key ∧
      Db.securityKey now credentialId = none ∧ answer (.insertSecurityKey key) seen now = true) ∨
    (∃ judged record instant kept, op = .recordKeyUse judged record instant ∧
      judged.credentialId = credentialId ∧ Db.securityKey now credentialId = some kept ∧
      kept.person = judged.person ∧ kept.record = judged.record ∧ kept.lastUsedAt = judged.lastUsedAt ∧
      answer (.recordKeyUse judged record instant) seen now = true ∧
      row = some { kept with record := record.getD judged.record, lastUsedAt := some instant }) ∨
    ∃ kept, op = .deleteSecurityKeys kept.person ∧ Db.securityKey now credentialId = some kept ∧
      row = none := by
  rcases mem_writes written with ⟨hit, set⟩ | inserted
  · obtain ⟨-, kept, found, picked⟩ := mem_hits.mp hit
    change row = (now.lookup (.securityKey credentialId)).bind (sets op (.securityKey credentialId)) at set
    rw [found, Option.bind_some] at set
    cases op with
    | recordKeyUse judged record instant =>
      simp only [picks, ofSecurityKey, Bool.and_eq_true, decide_eq_true_eq] at picked
      obtain ⟨⟨⟨rfl, person⟩, same⟩, used⟩ := picked
      have answered : answer (.recordKeyUse judged record instant) seen now = true := by
        change (!(hits _ seen now).isEmpty) = true
        rw [Bool.not_eq_true', List.isEmpty_eq_false_iff_exists_mem]
        exact ⟨_, hit⟩
      exact Or.inr (Or.inl ⟨judged, record, instant, kept, rfl, rfl, found, person, same, used, answered,
        set⟩)
    | deleteSecurityKeys person =>
      simp only [picks, ofSecurityKey, decide_eq_true_eq] at picked
      exact Or.inr (Or.inr ⟨kept, by rw [picked], found, set⟩)
    | _ => cases picked
  · cases op with
    | insertSecurityKey key =>
      obtain rfl : key.credentialId = credentialId :=
        Key.securityKey.inj (Option.some.inj (insertedKey_of_inserts inserted))
      have answered : answer (.insertSecurityKey key) seen now = true :=
        Option.isSome_of_eq_some inserted
      simp only [inserts, Option.ite_none_right_eq_some, Option.some.injEq, Sigma.mk.injEq,
        true_and, Option.isNone_iff_eq_none] at inserted
      exact Or.inl ⟨key, rfl, rfl, (eq_of_heq inserted.2).symm, inserted.1, answered⟩
    | _ =>
      have named := insertedKey_of_inserts inserted
      cases named

/-- A key comes to a person by an enrollment alone. -/
theorem held_written {op : Op} {seen now : Db} {person : Uuid} {credentialId : Bytes}
    {row : Option SecurityKey} (before : ¬HeldBy person (Db.securityKey now credentialId))
    (written : (⟨.securityKey credentialId, row⟩ : Write Row) ∈ writes op seen now)
    (held : HeldBy person row) :
    ∃ key, op = .insertSecurityKey key ∧ key.credentialId = credentialId ∧ key.person = person ∧
      answer (.insertSecurityKey key) seen now = true := by
  obtain ⟨held, isHeld, rfl⟩ := held
  rcases securityKey_written written with ⟨key, op, named, row, -, answered⟩ |
    ⟨judged, record, instant, kept, -, -, found, -, -, -, -, row⟩ | ⟨kept, -, -, row⟩
  · obtain rfl : key = held := Option.some.inj (row.symm.trans isHeld)
    exact ⟨key, op, named, rfl, answered⟩
  · have moved := Option.some.inj (row.symm.trans isHeld)
    refine absurd ⟨kept, found, ?_⟩ before
    rw [← moved]
  · cases row.symm.trans isHeld

section Runs

variable {app : App} {mode : Mode} {start : Db} {ids : List Drawn} {world : World (calls app)}
  {place first last : Nat} {commit : Commit (calls app)} {person : Uuid}
  (reached : Reachable (calls app) mode start ids world)

include reached

/-- A key a unit left a person, that they did not hold before, it wrote. -/
theorem inserted_of_held (here : CommittedAt world.past place commit) {credentialId : Bytes}
    (before : ¬HeldBy person (Db.securityKey commit.before credentialId))
    (after : HeldBy person (Db.securityKey commit.after credentialId)) :
    ∃ key, key.credentialId = credentialId ∧ key.person = person ∧
      told (.insertSecurityKey key) true ∈ commit.work.log.script := by
  obtain ⟨event, among, absent, row, written, held⟩ := reached.made movement here
    (.securityKey credentialId) (fun row => HeldBy person row) before after
  obtain ⟨-, -, faithful⟩ := reached.faithful here (Work.mem_told_of_mem among)
  obtain ⟨key, op, named, ofPerson, answered⟩ := held_written absent written held
  exact ⟨key, named, ofPerson, mem_script_of_op among faithful op answered⟩

/-- A unit writes one key at most. -/
theorem keys_after (here : CommittedAt world.past place commit) :
    (listKeys commit.after person).length ≤
      (listKeys commit.before person).length + if writesKeyOf person commit then 1 else 0 := by
  rw [length_listKeys, length_listKeys]
  by_cases writing : writesKeyOf person commit = true
  · obtain ⟨said, inside, inserts⟩ := List.any_eq_true.mp writing
    unfold insertsKeyOf at inserts
    split at inserts
    · next key inserted =>
      obtain ⟨isInserted, -⟩ := Bool.and_eq_true_iff.mp inserts
      obtain rfl : inserted = true := isInserted
      have only := (committed_backed reached here _ inside).2.only
      rw [if_pos writing]
      change _ ≤ (Key.securityKey key.credentialId :: keysWhere commit.before _).length
      refine (List.subperm_of_subset (nodup_keysWhere _) ?_).length_le
      intro row among
      obtain ⟨credentialId, rfl, after⟩ := mem_keysOf among
      by_cases before : HeldBy person (Db.securityKey commit.before credentialId)
      · exact List.mem_cons_of_mem _ (keysOf_of_held before)
      · obtain ⟨other, rfl, -, said⟩ := inserted_of_held reached here before after
        rw [only other said]
        exact List.mem_cons_self
    · cases inserts
  · rw [if_neg writing, Nat.add_zero]
    refine (List.subperm_of_subset (nodup_keysWhere _) ?_).length_le
    intro row among
    obtain ⟨credentialId, rfl, after⟩ := mem_keysOf among
    by_cases before : HeldBy person (Db.securityKey commit.before credentialId)
    · exact keysOf_of_held before
    · obtain ⟨key, -, ofPerson, said⟩ := inserted_of_held reached here before after
      refine absurd (List.any_eq_true.mpr ⟨_, said, ?_⟩) writing
      exact decide_eq_true ofPerson

/-- What a person holds later is what they held, and what was written since. -/
theorem keys_since (order : first ≤ last) (within : last ≤ world.past.length) :
    (listKeys (dbAt start world.past last) person).length ≤
      (listKeys (dbAt start world.past first) person).length +
        keysWritten world.past person first last := by
  induction last, order using Nat.le_induction with
  | base => exact Nat.le_add_right _ _
  | succ last order ih =>
    obtain ⟨commit, here⟩ := exists_committedAt_of_lt within
    have earlier := ih (Nat.le_of_succ_le within)
    have more : (listKeys commit.after person).length ≤ (listKeys commit.before person).length + _ :=
      keys_after reached here
    have after : commit.after = dbAt start world.past (last + 1) := Reachable.after_eq here
    rw [reached.before_eq here, after] at more
    have isCommit := CommittedAt.iff_getElem?.mp here
    rw [keysWritten, Finset.sum_Ico_succ_top order, ← keysWritten, isCommit, Option.any_some]
    omega

/-- The enrollment a call took was begun by the last unit that wrote one. -/
theorem begun_of_taken (idle : Db.keyEnrollment start person = none)
    (here : CommittedAt world.past place commit) {instant : Instant} {state : Bytes}
    (takes : Leading (told (.takeKeyEnrollment person instant) (some state)) commit.work.log.script) :
    ∃ begun < place, ∃ unit, CommittedAt world.past begun unit ∧
      (∃ state expiresAt, told (.writeKeyEnrollment person state expiresAt) () ∈ unit.work.log.script) ∧
      ∀ between one, begun < between → between < place → CommittedAt world.past between one →
        ∀ state expiresAt,
          told (.writeKeyEnrollment person state expiresAt) () ∉ one.work.log.script := by
  obtain ⟨event, among, same, finished, faithful, locked, answered, before, row, found, -⟩ :=
    before_of_leading reached here takes fun seen now => takeKeyEnrollment_answer
  have present : (dbAt start world.past place).lookup (.keyEnrollment person) ≠ none := by
    rw [← reached.before_eq here, before, found]
    simp
  have begins : ∃ begun, begun < place ∧ ∃ unit, CommittedAt world.past begun unit ∧
      ∃ state expiresAt,
        told (.writeKeyEnrollment person state expiresAt) () ∈ unit.work.log.script := by
    obtain ⟨begun, earlier, unit, there, absent, stays⟩ := reached.came
      (fun db => db.lookup (.keyEnrollment person) ≠ none) (not_not.mpr idle)
      (Nat.le_of_lt here.lt) present
    have after := stays (begun + 1) (Nat.lt_succ_self _) earlier
    rw [← Reachable.after_eq there] at after
    obtain ⟨event, among, row, inserted, -⟩ :=
      writer_of_absent reached there (not_not.mp absent) after
    obtain ⟨-, -, faithful⟩ := reached.faithful there (Work.mem_told_of_mem among)
    have named := insertedKey_of_inserts inserted
    cases op : event.op with
    | writeKeyEnrollment one state expiresAt =>
      rw [op] at named
      obtain rfl : one = person := Key.keyEnrollment.inj (Option.some.inj named)
      exact ⟨begun, earlier, unit, there, state, expiresAt, mem_script_of_op among faithful op rfl⟩
    | _ =>
      rw [op] at named
      cases named
  classical
  obtain ⟨first, isFirst⟩ := begins
  let begins : Nat → Prop := fun begun => begun < place ∧ ∃ unit,
    CommittedAt world.past begun unit ∧ ∃ state expiresAt,
      told (.writeKeyEnrollment person state expiresAt) () ∈ unit.work.log.script
  have last : begins (Nat.findGreatest begins place) :=
    Nat.findGreatest_spec (P := begins) (Nat.le_of_lt isFirst.1) isFirst
  obtain ⟨earlier, unit, there, starts⟩ := last
  refine ⟨_, earlier, unit, there, starts, ?_⟩
  intro between one after before inOne state expiresAt said
  exact Nat.findGreatest_is_greatest after (Nat.le_of_lt before)
    ⟨before, one, inOne, state, expiresAt, said⟩

/-- Every key is written by an enrollment of the run, whose begin counted
fewer keys than a person may hold. -/
theorem enrollment_of_written (idle : Db.keyEnrollment start person = none)
    (here : CommittedAt world.past place commit) (writing : writesKeyOf person commit = true) :
    ∃ enrollment : Enrollment world.past person, enrollment.written = place ∧
      enrollment.counting.started ≤ place ∧ enrollment.held.length < MAX_SECURITY_KEYS ∧
      enrollment.held = listKeys (dbAt start world.past enrollment.counting.started) person := by
  obtain ⟨said, inside, inserts⟩ := List.any_eq_true.mp writing
  unfold insertsKeyOf at inserts
  split at inserts
  · next key inserted =>
    obtain ⟨isInserted, ofPerson⟩ := Bool.and_eq_true_iff.mp inserts
    obtain rfl : inserted = true := isInserted
    obtain rfl : key.person = person := of_decide_eq_true ofPerson
    obtain ⟨script, instant, state, answer, ended, leads, -⟩ :=
      (committed_backed reached here _ inside).2.taken
    obtain ⟨unit, isUnit, same⟩ := List.mem_map.mp ended
    obtain ⟨isCommitted, isScript⟩ := Prod.mk.inj same
    obtain ⟨taken, before, takes, takesAt, pid, -, events⟩ := reached.earlier here isUnit isCommitted
    have serves : Leading (told (.takeKeyEnrollment key.person instant) (some state))
        takes.work.log.script := by
      change Leading _ (takes.work.events.map Event.told)
      rw [events, isScript]
      exact leads
    obtain ⟨begun, earlier, begins, beginsAt, starts, latest⟩ :=
      begun_of_taken reached idle takesAt serves
    obtain ⟨started, expiresAt, starting⟩ := starts
    obtain ⟨held, counted, guarded⟩ := committed_backed reached beginsAt _ starting
    obtain ⟨counting, among, isCounting, finished, faithful, seen, -⟩ :=
      event_of_leading reached beginsAt counted
    have listed : listKeys counting.seen key.person = held := answer_of_told faithful isCounting
    rw [seen, faithful.snapshot] at listed
    refine ⟨⟨begun, taken, place, begins, takes, commit, counting, held, beginsAt, takesAt, here,
      ⟨among, isCounting⟩, ⟨started, expiresAt, starting⟩, latest, ⟨earlier, before, pid⟩,
      ⟨instant, state, serves.mem⟩, writing⟩, rfl, ?_, guarded, listed.symm⟩
    have startedFirst := faithful.started
    exact Nat.le_trans startedFirst (by omega)
  · cases inserts

/-- A person who holds no more keys than they may, and has begun no
enrollment, never holds more in a run whose enrollments do not overlap. -/
theorem keys_within_bound (idle : Db.keyEnrollment start person = none)
    (held : (listKeys start person).length ≤ MAX_SECURITY_KEYS)
    (alone : ∀ enrollment : Enrollment world.past person, enrollment.Alone) {units : Nat}
    (within : units ≤ world.past.length) :
    (listKeys (dbAt start world.past units) person).length ≤ MAX_SECURITY_KEYS := by
  induction units with
  | zero => rwa [dbAt_zero]
  | succ units ih =>
    obtain ⟨commit, here⟩ := exists_committedAt_of_lt within
    have more : (listKeys commit.after person).length ≤ (listKeys commit.before person).length + _ :=
      keys_after reached here
    have after : commit.after = dbAt start world.past (units + 1) := Reachable.after_eq here
    rw [reached.before_eq here, after] at more
    by_cases writing : writesKeyOf person commit = true
    · obtain ⟨enrollment, isWritten, started, guarded, counted⟩ :=
        enrollment_of_written reached idle here writing
      have none_since := (alone enrollment).keysWritten
      rw [isWritten] at none_since
      have since : (listKeys (dbAt start world.past units) person).length ≤ _ :=
        keys_since reached started (Nat.le_of_lt here.lt)
      rw [none_since, ← counted] at since
      rw [if_pos writing] at more
      omega
    · rw [if_neg writing] at more
      have earlier := ih (Nat.le_of_succ_le within)
      omega

end Runs

/-- A library whose registrations succeed, with the state as the key. -/
def enrollingKeys : KeyLibrary :=
  { homeKeys with
    readsEnrollmentState := fun _ => true
    readsEnrollmentAnswer := fun _ => true
    finishRegistration := fun _ state => some (state, some state) }

def enrollingApp : App := { homeApp with keyLibrary := enrollingKeys }

/-- Ada holds nine keys, and signed in with one of them. -/
def nineKeys : Db :=
  [1, 2, 3, 4, 5, 6, 7, 8, 9].foldl
    (fun db id => db.insert (.securityKey [id]) ⟨[id], 1, [id], 0, none⟩)
    (openRealm.insert (.session 20)
      { id := 20, person := 1, methods := [.password, .securityKey], secretDigest := [20]
        state := .active, authenticatedAt := 0, expiresAt := 1000 })

def startsKey (state : Bytes) : (question : Ask) → Ans question
  | .startEnrollment _ _ => some ⟨.null, state⟩
  | question => homeAnswers question

def beginsKey (state : Bytes) : World.Served (calls enrollingApp) :=
  ⟨.beginKeyEnrollment (some ⟨20, [20]⟩) [1], startsKey state, []⟩

def finishesKey : World.Served (calls enrollingApp) :=
  ⟨.finishKeyEnrollment (some ⟨20, [20]⟩) .null, homeAnswers, []⟩

/-- A first enrollment is taken, and not written before a second is begun,
taken and written. -/
def adaRaces : Option (World (calls enrollingApp)) := do
  let begun ← (World.initial nineKeys []).serve .atomic 100 [beginsKey [11]]
  let called ← begun.step .atomic (.call finishesKey.call)
  let taken ← called.drive .atomic homeAnswers 10 [] begun.procs.length
  let second ← taken.serve .atomic 100 [beginsKey [12], finishesKey]
  second.drive .atomic homeAnswers 100 [] begun.procs.length

theorem adaRaces_reachable {world : World (calls enrollingApp)} (ran : adaRaces = some world) :
    Reachable (calls enrollingApp) .atomic nineKeys [] world := by
  obtain ⟨begun, isBegun, ran⟩ := Option.bind_eq_some_iff.mp ran
  obtain ⟨called, isCalled, ran⟩ := Option.bind_eq_some_iff.mp ran
  obtain ⟨taken, isTaken, ran⟩ := Option.bind_eq_some_iff.mp ran
  obtain ⟨second, isSecond, ran⟩ := Option.bind_eq_some_iff.mp ran
  have reached := (Reachable.initial.of_serve isBegun).step isCalled
  exact ((reached.of_drive isTaken).of_serve isSecond).of_drive ran

/-- Ada ends with eleven keys. -/
theorem adaRaces_past_bound :
    ¬∀ (app : App) (mode : Mode) (start : Db) (ids : List Drawn) (world : World (calls app))
      (person : Uuid), Db.keyEnrollment start person = none →
      (listKeys start person).length ≤ MAX_SECURITY_KEYS →
      Reachable (calls app) mode start ids world → ∀ units ≤ world.past.length,
        (listKeys (dbAt start world.past units) person).length ≤ MAX_SECURITY_KEYS := by
  intro claimed
  have ran : adaRaces.map (fun world => (listKeys world.db 1).length) = some 11 := by
    decide +kernel
  obtain ⟨world, isWorld, eleven⟩ := Option.map_eq_some_iff.mp ran
  have reached := adaRaces_reachable isWorld
  have bounded := claimed enrollingApp .atomic nineKeys [] world 1 rfl (by decide +kernel) reached
    world.past.length (Nat.le_refl _)
  rw [← reached.db_eq, eleven] at bounded
  exact absurd bounded (by decide)

/-- Whether a run wrote a key of a person once at most. -/
def writesOnce (past : List (Commit (calls enrollingApp))) (person : Uuid) : Bool :=
  (List.range past.length).all fun last => (List.range last).all fun first =>
    !((past.reverse[first]?).any (writesKeyOf person) && (past.reverse[last]?).any (writesKeyOf person))

theorem alone_of_writesOnce {past : List (Commit (calls enrollingApp))} {person : Uuid}
    (once : writesOnce past person = true) (enrollment : Enrollment past person) :
    enrollment.Alone := by
  intro place unit _ before there
  have pairs := List.all_eq_true.mp once _ (List.mem_range.mpr enrollment.writesAt.lt)
  have pair := List.all_eq_true.mp pairs _ (List.mem_range.mpr before)
  rw [CommittedAt.iff_getElem?.mp there, CommittedAt.iff_getElem?.mp enrollment.writesAt,
    Option.any_some, Option.any_some, enrollment.inserts, Bool.and_true, Bool.not_eq_true'] at pair
  exact pair

theorem adaEnrollsKey_within_bound : ∃ world, Reachable (calls enrollingApp) .atomic nineKeys [] world ∧
    (listKeys world.db 1).length = 10 ∧ (listKeys world.db 1).length ≤ MAX_SECURITY_KEYS := by
  have ran : ((World.initial nineKeys []).serve .atomic 100 [beginsKey [11], finishesKey]).map
      (fun world => writesOnce world.past 1 && (listKeys world.db 1).length = 10) = some true := by
    decide +kernel
  obtain ⟨world, served, checked⟩ := Option.map_eq_some_iff.mp ran
  obtain ⟨once, ten⟩ := Bool.and_eq_true_iff.mp checked
  have reached := Reachable.initial.of_serve served
  refine ⟨world, reached, of_decide_eq_true ten, ?_⟩
  rw [reached.db_eq]
  exact keys_within_bound reached rfl (by decide +kernel) (alone_of_writesOnce once) (Nat.le_refl _)

end Saffui.Oidc
