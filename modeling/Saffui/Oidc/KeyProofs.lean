import Saffui.Oidc.Keys

/-!
# The proofs of a security key

A proof is compared to the record its unit read, and kept by one statement in
place of that record and of no other. A key that counts moves its counter, any
other the instant of its last use: two proofs compared to one reading are not
both believed.

Source: `saffui-core/src/login/steps/webauthn.rs`,
`store/src/stores/security_keys.rs`, `crypto/src/adapters/webauthn.rs`.
-/

namespace Saffui.Oidc
open Saffui.Foundation Saffui.Foundation.Language Saffui.Login

/-- What is relied on of the library: a record reads back as the key it was
written for, with the greatest counter the key signed. -/
structure KeyLibrary.Lawful (library : KeyLibrary) : Prop where
  registers : ∀ answer state credentialId record,
    library.finishRegistration answer state = some (credentialId, some record) →
    ∃ counter, library.readKey record = some ⟨credentialId, counter⟩
  moves : ∀ record key proven, library.readKey record = some key →
    key.credentialId = proven.credentialId → key.counter < proven.counter →
    (library.updateCredential record proven).moved = some true
  stores : ∀ record key proven kept, library.readKey record = some key →
    key.credentialId = proven.credentialId →
    library.updateCredential record proven = ⟨some true, some kept⟩ →
    library.readKey kept = some ⟨key.credentialId, max key.counter proven.counter⟩

/-- A key whose record reads as the one it is kept under. -/
def Recorded (library : KeyLibrary) (credentialId : Bytes) (row : Option SecurityKey) : Prop :=
  ∀ key, row = some key → key.credentialId = credentialId ∧
    ∃ counter, library.readKey key.record = some ⟨credentialId, counter⟩

/-- The proof a unit compared to the key it read. -/
structure Judgment (library : KeyLibrary) (script : List Told) (judged : SecurityKey)
    (record : Option Bytes) (proven : ProvenKey) : Prop where
  compared : ∃ person keys state answer, Leading (told (.listSecurityKeys person) keys) script ∧
    library.finishAuthentication answer state = .ok proven ∧
    finishProof library state answer (keys.map SecurityKey.record) = .ok ⟨proven.credentialId, record⟩ ∧
    keys.find? (fun key => key.credentialId = proven.credentialId) = some judged

/-- A counter that went on, or that counts nothing. -/
def GoesOn (kept signed : Nat) : Prop := kept < signed ∨ kept = 0 ∧ signed = 0

section Proof

variable {library : KeyLibrary} {state : Bytes} {answer : Json} {keys : List SecurityKey}
  {proven : ProvenKey} {record : Option Bytes} {judged : SecurityKey}

/-- Where every record reads as its key, the record found is the one of the
key found. -/
theorem findHeld_of_find {credentialId : Bytes}
    (recorded : ∀ key ∈ keys, ∃ counter, library.readKey key.record = some ⟨key.credentialId, counter⟩)
    (found : keys.find? (fun key => key.credentialId = credentialId) = some judged) :
    ∃ counter, library.readKey judged.record = some ⟨credentialId, counter⟩ ∧
      findHeld library (keys.map SecurityKey.record) credentialId =
        some (judged.record, ⟨credentialId, counter⟩) := by
  induction keys with
  | nil => cases found
  | cons key keys ih =>
    obtain ⟨counter, reads⟩ := recorded key List.mem_cons_self
    by_cases same : key.credentialId = credentialId
    · obtain rfl : key = judged := by simpa [same] using found
      refine ⟨counter, by rw [reads, same], ?_⟩
      simp [findHeld, reads, same]
    · have later := ih (fun one inside => recorded one (List.mem_cons_of_mem _ inside))
        (by simpa [same] using found)
      simpa [findHeld, reads, same] using later

/-- A proof that is kept went on from the counter of the record found, and
leaves the counter it signed. -/
theorem finishProof_ok (lawful : library.Lawful) {held : List Bytes} {kept : Bytes} {counter : Nat}
    (proves : library.finishAuthentication answer state = .ok proven)
    (found : findHeld library held proven.credentialId = some (kept, ⟨proven.credentialId, counter⟩))
    (reads : library.readKey kept = some ⟨proven.credentialId, counter⟩)
    (finished : finishProof library state answer held = .ok ⟨proven.credentialId, record⟩) :
    GoesOn counter proven.counter ∧
      library.readKey (record.getD kept) = some ⟨proven.credentialId, proven.counter⟩ := by
  unfold finishProof at finished
  split at finished
  · cases finished
  split at finished
  · cases finished
  rw [proves] at finished
  simp only [found] at finished
  split at finished
  · cases finished
  next advances =>
  have goesOn : GoesOn counter proven.counter := by
    simp only [Bool.and_eq_true, Bool.or_eq_true, decide_eq_true_eq] at advances
    rw [GoesOn]
    omega
  refine ⟨goesOn, ?_⟩
  split at finished
  · next moved =>
    split at finished
    · next written isWritten =>
      obtain rfl : some written = record := by injection finished with same; injection same
      have stored := lawful.stores kept _ proven written reads rfl
        (by rw [← moved, ← isWritten])
      rw [Option.getD_some, stored]
      have most : max counter proven.counter = proven.counter := by
        rw [GoesOn] at goesOn
        omega
      rw [most]
    · cases finished
  · next unmoved =>
    obtain rfl : none = record := by injection finished with same; injection same
    rw [Option.getD_none, reads]
    rcases goesOn with less | ⟨none_, zero⟩
    · exact absurd (lawful.moves kept _ proven reads rfl less) unmoved
    · rw [none_, zero]

/-- A proof that is kept is one the library proved. -/
theorem proven_of_finishProof {held : List Bytes} {proof : KeyProof}
    (finished : finishProof library state answer held = .ok proof) :
    ∃ proven, library.finishAuthentication answer state = .ok proven ∧
      proof.credentialId = proven.credentialId := by
  unfold finishProof at finished
  split at finished
  · cases finished
  split at finished
  · cases finished
  split at finished
  · cases finished
  · cases finished
  · next proven proves =>
    refine ⟨proven, proves, ?_⟩
    split at finished
    · cases finished
    split at finished
    · cases finished
    dsimp only at finished
    split at finished
    · split at finished
      · cases finished
        rfl
      · cases finished
    · cases finished
      rfl

theorem registered_of_finishEnrollment {enrolled : EnrolledKey}
    (finished : finishEnrollment library state answer = .ok enrolled) :
    library.finishRegistration answer state = some (enrolled.credentialId, some enrolled.record) := by
  unfold finishEnrollment at finished
  split at finished
  · cases finished
  split at finished
  · cases finished
  split at finished
  · cases finished
  · next registered =>
    cases finished
    exact registered
  · cases finished

end Proof

/-- A use that was recorded found its key as it was judged. -/
theorem recordKeyUse_answer {seen now : Db} {judged : SecurityKey} {record : Option Bytes}
    {instant : Instant} (answered : answer (.recordKeyUse judged record instant) seen now = true) :
    ∃ kept, Db.securityKey now judged.credentialId = some kept ∧ kept.person = judged.person ∧
      kept.record = judged.record ∧ kept.lastUsedAt = judged.lastUsedAt ∧
      (⟨.securityKey judged.credentialId,
        some { kept with record := record.getD judged.record, lastUsedAt := some instant }⟩ : Write Row) ∈
          writes (.recordKeyUse judged record instant) seen now := by
  have hit : Key.securityKey judged.credentialId ∈ hits (.recordKeyUse judged record instant) seen now :=
    hit_of_changed (by intro other row picked; cases other <;> simp_all [picks, ofSecurityKey]) answered
  obtain ⟨kept, found, picked, written⟩ := written_of_hit hit
  simp only [picks, ofSecurityKey, Bool.and_eq_true, decide_eq_true_eq] at picked
  exact ⟨kept, found, picked.1.1.2, picked.1.2, picked.2, written⟩

section Runs

variable {app : App} {mode : Mode} {start : Db} {ids : List Drawn} {world : World (calls app)}
  {place other : Nat} {commit one : Commit (calls app)} {judged again : SecurityKey}
  {proven later : ProvenKey} {instant next : Instant}
  (reached : Reachable (calls app) mode start ids world) (lawful : app.keyLibrary.Lawful)
  (new : ∀ credentialId, Recorded app.keyLibrary credentialId (Db.securityKey start credentialId))

/-- A unit that believed the proof of a key. -/
def Believes {app : App} (commit : Commit (calls app)) (judged : SecurityKey) (proven : ProvenKey)
    (instant : Instant) : Prop :=
  ∃ record, told (.recordKeyUse judged record instant) true ∈ commit.work.log.script ∧
    Judgment app.keyLibrary commit.work.log.script judged record proven

include reached

/-- Every use of a key was judged. -/
theorem judgment_of_use (here : CommittedAt world.past place commit) {record : Option Bytes}
    {believed : Bool}
    (said : told (.recordKeyUse judged record instant) believed ∈ commit.work.log.script) :
    ∃ proven, Judgment app.keyLibrary commit.work.log.script judged record proven := by
  have backed : KeyJudged app commit.work.log.script judged record instant believed :=
    committed_backed reached here _ said
  obtain ⟨person, keys, state, answer, proof, lists, finished, found, rfl⟩ := backed.proven
  obtain ⟨proven, proves, named⟩ := proven_of_finishProof finished
  rw [named] at found
  refine ⟨proven, person, keys, state, answer, lists, proves, ?_, found⟩
  rw [finished, ← named]

include lawful

/-- What a judged proof says of the record it was compared to, and leaves. -/
theorem counters_of_judgment
    (recorded : ∀ units ≤ place, ∀ credentialId,
      Recorded app.keyLibrary credentialId (Db.securityKey (dbAt start world.past units) credentialId))
    (here : CommittedAt world.past place commit) {record : Option Bytes}
    (judgment : Judgment app.keyLibrary commit.work.log.script judged record proven) :
    judged.credentialId = proven.credentialId ∧ ∃ kept,
      app.keyLibrary.readKey judged.record = some ⟨judged.credentialId, kept⟩ ∧
      GoesOn kept proven.counter ∧
      app.keyLibrary.readKey (record.getD judged.record) =
        some ⟨judged.credentialId, proven.counter⟩ := by
  obtain ⟨person, keys, state, answer, lists, proves, finished, found⟩ := judgment.compared
  obtain ⟨event, among, same, ended, faithful, seen, -⟩ := event_of_leading reached here lists
  have listed : listKeys event.seen person = keys := answer_of_told faithful same
  rw [seen, faithful.snapshot] at listed
  have reads : ∀ key ∈ keys, ∃ counter,
      app.keyLibrary.readKey key.record = some ⟨key.credentialId, counter⟩ := by
    intro key inside
    rw [← listed, listKeys, List.mem_insertionSort, mem_scan_iff] at inside
    obtain ⟨row, kept, found, picked⟩ := inside
    cases row with
    | securityKey credentialId =>
      simp only [pickSecurityKey, Option.ite_none_right_eq_some, Option.some.injEq] at picked
      obtain ⟨-, rfl⟩ := picked
      obtain ⟨named, reads⟩ := recorded event.started (Nat.le_trans faithful.started ended)
        credentialId kept found
      rwa [named]
    | _ => cases picked
  have named : judged.credentialId = proven.credentialId := by
    simpa using List.find?_some found
  obtain ⟨kept, isKept, held⟩ := findHeld_of_find reads found
  obtain ⟨goesOn, leaves⟩ := finishProof_ok lawful proves held isKept finished
  rw [named]
  exact ⟨rfl, kept, isKept, goesOn, leaves⟩

include new

/-- Every key of a run reads as the one it is kept under. -/
theorem recorded_at {units : Nat} (within : units ≤ world.past.length) (credentialId : Bytes) :
    Recorded app.keyLibrary credentialId
      (Db.securityKey (dbAt start world.past units) credentialId) := by
  induction units using Nat.strong_induction_on generalizing credentialId with
  | _ units ih =>
    cases units with
    | zero =>
      rw [dbAt_zero]
      exact new credentialId
    | succ units =>
      obtain ⟨commit, here⟩ := exists_committedAt_of_lt within
      have earlier : ∀ before ≤ units, ∀ credentialId, Recorded app.keyLibrary credentialId
          (Db.securityKey (dbAt start world.past before) credentialId) := by
        intro before order credentialId
        exact ih before (by omega) (by omega) credentialId
      have after : commit.after = dbAt start world.past (units + 1) := Reachable.after_eq here
      rw [← after]
      refine reached.unit_induction movement here
        (fun row : Option (language.Row (.securityKey credentialId)) =>
          Recorded app.keyLibrary credentialId row) ?_ ?_
      · rw [reached.before_eq here]
        exact earlier units (Nat.le_refl _) credentialId
      · intro event among stood row written
        obtain ⟨-, -, faithful⟩ := reached.faithful here (Work.mem_told_of_mem among)
        rcases securityKey_written written with ⟨key, op, rfl, rfl, -, answered⟩ |
          ⟨judged, record, instant, kept, op, rfl, found, -, -, -, answered, rfl⟩ | ⟨kept, -, -, rfl⟩
        · have said := mem_script_of_op among faithful op answered
          obtain ⟨script, instant, state, answer, -, -, enrolled⟩ :=
            (committed_backed reached here _ said).2.taken
          rintro one ⟨⟩
          exact ⟨rfl, lawful.registers _ _ _ _ (registered_of_finishEnrollment enrolled)⟩
        · have said := mem_script_of_op among faithful op answered
          obtain ⟨proven, judgment⟩ := judgment_of_use reached here said
          obtain ⟨-, -, -, -, leaves⟩ := counters_of_judgment reached lawful earlier here judgment
          rintro one ⟨⟩
          exact ⟨(stood kept found).1, _, leaves⟩
        · exact nofun

/-- What a believed proof leaves of its key, and every later one keeps, holds
of the key the next is compared to. -/
theorem held_until (holds : Option Instant → Nat → Prop) (here : CommittedAt world.past place commit)
    (there : CommittedAt world.past other one) (order : place < other)
    (believes : Believes commit judged proven instant) (made : holds (some instant) proven.counter)
    (then_ : Believes one again later next) (same : again.credentialId = judged.credentialId)
    (stays : ∀ between unit, place ≤ between → between ≤ other → CommittedAt world.past between unit →
      ∀ count, told (.deleteSecurityKeys judged.person) count ∉ unit.work.log.script)
    (keeps : ∀ between unit used signed usedAt kept, place ≤ between → between ≤ other →
      CommittedAt world.past between unit → Believes unit used signed usedAt →
      used.credentialId = judged.credentialId →
      app.keyLibrary.readKey used.record = some ⟨used.credentialId, kept⟩ →
      GoesOn kept signed.counter → holds used.lastUsedAt kept → holds (some usedAt) signed.counter) :
    ∃ kept, app.keyLibrary.readKey again.record = some ⟨again.credentialId, kept⟩ ∧
      GoesOn kept later.counter ∧ holds again.lastUsedAt kept := by
  let Kept : Option SecurityKey → Prop := fun row => ∃ key kept, row = some key ∧
    key.person = judged.person ∧
    app.keyLibrary.readKey key.record = some ⟨judged.credentialId, kept⟩ ∧ holds key.lastUsedAt kept
  have recorded : ∀ place unit, CommittedAt world.past place unit → ∀ units ≤ place, ∀ credentialId,
      Recorded app.keyLibrary credentialId
        (Db.securityKey (dbAt start world.past units) credentialId) := by
    intro place unit inUnit units order credentialId
    exact recorded_at reached lawful new (Nat.le_trans order (Nat.le_of_lt inUnit.lt)) credentialId
  have kept : ∀ between unit, place ≤ between → between ≤ other →
      CommittedAt world.past between unit → ∀ event ∈ unit.work.events, ∀ row,
      Kept (event.found.lookup (.securityKey judged.credentialId)) →
      (⟨.securityKey judged.credentialId, row⟩ : Write Row) ∈ event.writes → Kept row := by
    intro between unit since before inUnit event among row stood written
    obtain ⟨key, counter, isKey, ofPerson, reads, held⟩ := stood
    obtain ⟨-, -, faithful⟩ := reached.faithful inUnit (Work.mem_told_of_mem among)
    rcases securityKey_written written with ⟨-, -, -, -, absent, -⟩ |
      ⟨used, record, usedAt, kept, op, named, found, person, isRecord, isUsed, answered, rfl⟩ |
      ⟨kept, op, found, -⟩
    · cases absent.symm.trans isKey
    · obtain rfl : kept = key := Option.some.inj (found.symm.trans isKey)
      have said := mem_script_of_op among faithful op answered
      obtain ⟨signed, judgment⟩ := judgment_of_use reached inUnit said
      obtain ⟨-, counted, readsUsed, goesOn, leaves⟩ :=
        counters_of_judgment reached lawful (recorded between unit inUnit) inUnit judgment
      obtain rfl : counted = counter := by
        rw [isRecord, readsUsed] at reads
        exact (HeldKey.mk.inj (Option.some.inj reads)).2
      rw [isUsed] at held
      refine ⟨_, signed.counter, rfl, ofPerson, named ▸ leaves, ?_⟩
      exact keeps between unit used signed usedAt counted since before inUnit ⟨record, said, judgment⟩
        named readsUsed goesOn held
    · obtain rfl : kept = key := Option.some.inj (found.symm.trans isKey)
      rw [ofPerson] at op
      exact absurd (mem_script_of_op among faithful op rfl) (stays between unit since before inUnit _)
  obtain ⟨record, said, judgment⟩ := believes
  obtain ⟨event, among, isSaid, -, -, faithful⟩ := event_of_script reached here said
  obtain ⟨row, -, person, -, -, written⟩ := recordKeyUse_answer (answer_of_told faithful isSaid)
  rw [← writes_of_told isSaid] at written
  obtain ⟨-, -, -, -, leaves⟩ :=
    counters_of_judgment reached lawful (recorded place commit here) here judgment
  have after : Kept (commit.after.lookup (.securityKey judged.credentialId)) := by
    apply reached.kept_since movement here among (fun row => Kept row) written
      ⟨{ row with record := record.getD judged.record, lastUsedAt := some instant }, _, rfl, person,
        leaves, made⟩
    intro writer inside stood row wrote
    exact kept place commit (Nat.le_refl _) (Nat.le_of_lt order) here writer inside row stood wrote
  rw [Reachable.after_eq here] at after
  have before : Kept (one.before.lookup (.securityKey judged.credentialId)) := by
    rw [reached.before_eq there]
    by_contra gone
    obtain ⟨between, since, before, unit, inUnit, was, lost⟩ := reached.lost
      (fun db => Kept (db.lookup (.securityKey judged.credentialId))) order (Nat.le_of_lt there.lt)
      after gone
    apply lost
    refine reached.unit_induction movement inUnit
      (fun row : Option (language.Row (.securityKey judged.credentialId)) => Kept row) was ?_
    intro writer inside stood row wrote
    exact kept between unit (Nat.le_of_succ_le since) (Nat.le_of_lt before) inUnit writer inside row
      stood wrote
  obtain ⟨record', said', judgment'⟩ := then_
  obtain ⟨use, inOne, isUse, -, -, faithful'⟩ := event_of_script reached there said'
  obtain ⟨key, found, -, isRecord, isUsed, written'⟩ :=
    recordKeyUse_answer (answer_of_told faithful' isUse)
  rw [← writes_of_told isUse, same] at written'
  rw [same] at found
  obtain ⟨earlier, rest, split⟩ := List.append_of_mem inOne
  have stands : Kept (use.found.lookup (.securityKey judged.credentialId)) := by
    apply reached.found_induction movement there (fun row => Kept row) split written' before
    intro writer inside stood row wrote
    exact kept other one (Nat.le_of_lt order) (Nat.le_refl _) there writer (by simp [split, inside]) row
      stood wrote
  obtain ⟨held, counter, isHeld, -, reads, holdsIt⟩ := stands
  obtain rfl : key = held := Option.some.inj (found.symm.trans isHeld)
  obtain ⟨-, counted, readsAgain, goesOn, -⟩ :=
    counters_of_judgment reached lawful (recorded other one there) there judgment'
  rw [isRecord, readsAgain] at reads
  obtain rfl : counted = counter := (HeldKey.mk.inj (Option.some.inj reads)).2
  rw [isUsed] at holdsIt
  exact ⟨counted, readsAgain, goesOn, holdsIt⟩

/-- The counters a key signs go on from a believed proof to the next, as long
as it counts. -/
theorem counters_increase (here : CommittedAt world.past place commit)
    (there : CommittedAt world.past other one) (order : place < other)
    (believes : Believes commit judged proven instant) (then_ : Believes one again later next)
    (same : again.credentialId = judged.credentialId) (counts : 0 < proven.counter ∨ 0 < later.counter)
    (stays : ∀ between unit, place ≤ between → between ≤ other → CommittedAt world.past between unit →
      ∀ count, told (.deleteSecurityKeys judged.person) count ∉ unit.work.log.script) :
    proven.counter < later.counter := by
  obtain ⟨kept, -, goesOn, least⟩ := held_until reached lawful new (fun _ kept => proven.counter ≤ kept)
    here there order believes (Nat.le_refl _) then_ same stays (by
      intro between unit used signed usedAt kept since before inUnit believed isUsed reads goesOn least
      rw [GoesOn] at goesOn
      omega)
  rw [GoesOn] at goesOn
  omega

/-- A later instant than the last use of a key. -/
def MovedPast (before after : Option Instant) : Prop :=
  ∃ instant, after = some instant ∧ before.all (· < instant) = true

/-- Of two proofs judged against one reading of a key one is believed, where
the clock moved since the last use of a key that counts nothing. -/
theorem believed_once (here : CommittedAt world.past place commit)
    (there : CommittedAt world.past other one) (order : place < other)
    (believes : Believes commit judged proven instant) (then_ : Believes one judged later next)
    (stays : ∀ between unit, place ≤ between → between ≤ other → CommittedAt world.past between unit →
      ∀ count, told (.deleteSecurityKeys judged.person) count ∉ unit.work.log.script)
    (moved : ∀ between unit used signed usedAt, place ≤ between → between ≤ other →
      CommittedAt world.past between unit → Believes unit used signed usedAt →
      used.credentialId = judged.credentialId →
      0 < signed.counter ∨ used.lastUsedAt.all (· < usedAt) = true) : False := by
  obtain ⟨record, said, judgment⟩ := id believes
  obtain ⟨-, kept, reads, goesOn, -⟩ := counters_of_judgment reached lawful
    (fun units order credentialId =>
      recorded_at reached lawful new (Nat.le_trans order (Nat.le_of_lt here.lt)) credentialId)
    here judgment
  let Past : Option Instant → Nat → Prop := fun usedAt counter =>
    kept < counter ∨ kept ≤ counter ∧ MovedPast judged.lastUsedAt usedAt
  have made : Past (some instant) proven.counter := by
    rw [GoesOn] at goesOn
    rcases moved place commit judged proven instant (Nat.le_refl _) (Nat.le_of_lt order) here believes rfl
      with counts | since
    · exact Or.inl (by omega)
    · exact Or.inr ⟨by omega, instant, rfl, since⟩
  obtain ⟨counted, readsAgain, -, past⟩ := held_until reached lawful new Past here there order believes
    made then_ rfl stays (by
      intro between unit used signed usedAt counter since before inUnit believed isUsed _ goesOn past
      rw [GoesOn] at goesOn
      rcases moved between unit used signed usedAt since before inUnit believed isUsed with
        counts | ticked
      · rcases past with less | ⟨least, -⟩
        · exact Or.inl (by omega)
        · exact Or.inl (by omega)
      · rcases past with less | ⟨least, last, isLast, after⟩
        · exact Or.inl (by omega)
        · refine Or.inr ⟨by omega, usedAt, rfl, ?_⟩
          rw [isLast, Option.all_some, decide_eq_true_eq] at ticked
          cases isBefore : judged.lastUsedAt with
          | none => rfl
          | some first =>
            rw [isBefore, Option.all_some, decide_eq_true_eq] at after
            rw [Option.all_some, decide_eq_true_eq]
            exact Int.lt_trans after ticked)
  obtain rfl : kept = counted :=
    (HeldKey.mk.inj (Option.some.inj (reads.symm.trans readsAgain))).2
  rcases past with less | ⟨-, next, isNext, before⟩
  · exact Nat.lt_irrefl _ less
  · rw [isNext, Option.all_some, decide_eq_true_eq] at before
    exact Int.lt_irrefl _ before

end Runs

/-- However the sign-ins by key run beside each other: the counters believed
of a key that counts increase, one reading of a key is believed once, and a
unit that judged an answer is over in an outcome of `KeyOutcome`, that of its
very caller: an answer not believed counts as one failure of the name. -/
theorem key_proofs_in_turn {app : App} {mode : Mode} {start : Db} {ids : List Drawn}
    {world : World (calls app)} (reached : Reachable (calls app) mode start ids world)
    (lawful : app.keyLibrary.Lawful)
    (new : ∀ credentialId, Recorded app.keyLibrary credentialId (Db.securityKey start credentialId)) :
    (∀ place other commit one judged again proven later instant next,
      CommittedAt world.past place commit → CommittedAt world.past other one → place < other →
      Believes commit judged proven instant → Believes one again later next →
      again.credentialId = judged.credentialId → 0 < proven.counter ∨ 0 < later.counter →
      (∀ between unit, place ≤ between → between ≤ other → CommittedAt world.past between unit →
        ∀ count, told (.deleteSecurityKeys judged.person) count ∉ unit.work.log.script) →
      proven.counter < later.counter) ∧
    (∀ place commit, CommittedAt world.past place commit →
      commit.work.log.script.countP (fun said => isKeyUse said.1) ≤ 1) ∧
    (∀ place other commit one judged proven instant, CommittedAt world.past place commit →
      CommittedAt world.past other one → place < other → Believes commit judged proven instant →
      (∀ between unit, place ≤ between → between ≤ other → CommittedAt world.past between unit →
        ∀ count, told (.deleteSecurityKeys judged.person) count ∉ unit.work.log.script) →
      (∀ between unit used signed usedAt, place ≤ between → between ≤ other →
        CommittedAt world.past between unit → Believes unit used signed usedAt →
        used.credentialId = judged.credentialId →
        0 < signed.counter ∨ used.lastUsedAt.all (· < usedAt) = true) →
      ∀ later next, ¬Believes one judged later next) ∧
    (∀ record, Accounted (calls app) mode start ids world record → ∀ account ∈ record,
      ∀ request browserDigest answer before bound after,
      account.call = .finishSignIn request browserDigest (.key answer) →
      account.deeds = before ++ bound :: after → bound.closes = true →
      (∃ deed ∈ Deed.unit before, judges deed = true) →
      (∃ caller, KeyAnswered app caller request answer before bound) ∧
      ∀ place, bound = .committed place → ∃ commit, CommittedAt world.past place commit ∧
        commit.work.log.script = Deed.script (Deed.unit before)) := by
  refine ⟨?_, ?_, ?_, ?_⟩
  · intro place other commit one judged again proven later instant next here there order believes then_
      same counts stays
    exact counters_increase reached lawful new here there order believes then_ same counts stays
  · intro place commit here
    by_cases never : commit.work.log.script.countP (fun said => isKeyUse said.1) = 0
    · rw [never]
      exact Nat.zero_le _
    · obtain ⟨⟨op, result⟩, inside, uses⟩ := List.countP_pos_iff.mp (Nat.pos_of_ne_zero never)
      cases op with
      | recordKeyUse judged record instant =>
        have judgment : KeyJudged app commit.work.log.script judged record instant result :=
          committed_backed reached here _ inside
        exact Nat.le_of_eq judgment.once
      | _ => cases uses
  · intro place other commit one judged proven instant here there order believes stays moved later next
      then_
    exact believed_once reached lawful new here there order believes then_ stays moved
  · intro record accounted account inside request browserDigest answer before bound after isCall split
      closes judged
    have kept := accounted.kept (owed app)
    have owes : Owes app account.call before bound := kept.guar account inside before bound after split closes
    rw [isCall] at owes
    refine ⟨owes fun quiet => ?_, ?_⟩
    · obtain ⟨deed, among, isJudged⟩ := judged
      exact Bool.false_ne_true ((quiet deed among).symm.trans isJudged)
    · rintro place rfl
      obtain ⟨commit, here, -, isLog⟩ := kept.commits account inside before place after split
      exact ⟨commit, here, by rw [isLog, Deed.script_log]⟩

/-- A library whose records are the name of a key and its counter in unary, and
whose challenges tell the proof to come. -/
def countingKeys : KeyLibrary where
  served := true
  readsState _ := true
  readsProofAnswer _ := true
  finishAuthentication _ state := match state with
    | name :: counter => .ok ⟨[name], counter.length⟩
    | [] => .error .other
  readKey record := match record with
    | name :: counter => some ⟨[name], counter.length⟩
    | [] => none
  updateCredential record proven := match record with
    | name :: counter => if proven.credentialId = [name] then
        ⟨some (counter.length < proven.counter),
          some (name :: List.replicate (max counter.length proven.counter) 0)⟩
      else ⟨none, none⟩
    | [] => ⟨none, none⟩
  readsEnrollmentState _ := true
  readsEnrollmentAnswer _ := true
  finishRegistration _ state := match state with
    | name :: counter => some ([name], some (name :: counter))
    | [] => none

theorem countingKeys_lawful : countingKeys.Lawful where
  registers answer state credentialId record registered := by
    cases state with
    | nil => cases registered
    | cons name counter =>
      cases registered
      exact ⟨_, rfl⟩
  moves record key proven reads same less := by
    cases record with
    | nil => cases reads
    | cons name counter =>
      cases reads
      simp only [countingKeys, ← same, if_true]
      exact congrArg some (decide_eq_true less)
  stores record key proven kept reads same moved := by
    cases record with
    | nil => cases reads
    | cons name counter =>
      cases reads
      simp only [countingKeys, ← same, if_true, UpdatedKey.mk.injEq, Option.some.injEq] at moved
      obtain ⟨-, rfl⟩ := moved
      simp [countingKeys]

def countingApp : App := { homeApp with keyLibrary := countingKeys }

/-- Ada holds one key, which has not counted yet. -/
def oneKey : Db := openRealm.insert (.securityKey [1]) ⟨[1], 1, [1], 0, none⟩

theorem oneKey_recorded (credentialId : Bytes) :
    Recorded countingKeys credentialId (Db.securityKey oneKey credentialId) := by
  intro key found
  by_cases same : credentialId = [1]
  · subst same
    obtain rfl : (⟨[1], 1, [1], 0, none⟩ : SecurityKey) = key := Option.some.inj found
    exact ⟨rfl, 0, rfl⟩
  · rw [oneKey, Db.securityKey, AList.lookup_insert_ne (by simpa using same)] at found
    cases (openRealm_new.securityKeys credentialId).symm.trans found

def startsProof (state : Bytes) (instant : Instant) : (question : Ask) → Ans question
  | .startProof _ => some ⟨.null, state⟩
  | .now => instant
  | question => homeAnswers question

/-- A sign-in by key: the request, its password and the answer of the key. -/
def signsInByKey (request session : Uuid) (secret : UInt8) (state : Bytes) (instant : Instant) :
    List (World.Served (calls countingApp)) :=
  [⟨.beginAuthorization homeParameters none, startsProof state instant, [.secret [secret], .id request]⟩,
    ⟨.finishSignIn request [secret] (.password "ada" [1]), startsProof state instant, []⟩,
    ⟨.finishSignIn request [secret] (.key .null), startsProof state instant,
      [.secret [secret, 1], .id session, .secret [secret, 2]]⟩]

/-- The name of ada is locked before her key answers. -/
def lockedName : Db :=
  (oneKey.insert (.pending 10) {
    id := 10
    browserDigest := [10]
    clientId := "web"
    redirectUri := "https://web/back"
    scopes := ["openid"]
    state := none
    nonce := none
    codeChallenge := ""
    expectedPerson := none
    consentPrompted := false
    consentSession := none
    firstFactor := some 1
    keyProof := some ⟨[1, 0], .null⟩
    expiresAt := 1000 }).insert (.loginFailures [1] 0) (1000 : Nat)

theorem lockedName_recorded (credentialId : Bytes) :
    Recorded countingKeys credentialId (Db.securityKey lockedName credentialId) := by
  rw [lockedName, Db.securityKey, AList.lookup_insert_ne (by simp), AList.lookup_insert_ne (by simp)]
  exact oneKey_recorded credentialId

def lockedKey : List (World.Served (calls countingApp)) :=
  [⟨.finishSignIn 10 [10] (.key .null), homeAnswers, []⟩]

def answersWithKey : Call → Bool
  | .finishSignIn _ _ (.key _) => true
  | _ => false

theorem answersWithKey_iff {call : Call} (answers : answersWithKey call = true) :
    ∃ request browserDigest answer, call = .finishSignIn request browserDigest (.key answer) := by
  unfold answersWithKey at answers
  split at answers
  · next request browserDigest answer => exact ⟨request, browserDigest, answer, rfl⟩
  · cases answers

/-- The answer to a locked name is neither believed nor counted. -/
theorem lockedKey_uncounted :
    ¬∀ (app : App) (mode : Mode) (start : Db) (ids : List Drawn) (world : World (calls app)),
      Reachable (calls app) mode start ids world → app.keyLibrary.Lawful →
      (∀ credentialId, Recorded app.keyLibrary credentialId (Db.securityKey start credentialId)) →
      ∀ place commit request browserDigest answer, CommittedAt world.past place commit →
        commit.call = .finishSignIn request browserDigest (.key answer) →
        (∀ unit ∈ commit.work.ended, unit.committed = false) →
        ∃ said ∈ commit.work.log.script, believesKey said = true ∨ countsFailure said = true := by
  intro claimed
  have ran : ((World.initial lockedName []).serve .atomic 100 lockedKey).map (fun world =>
      (world.past.reverse[0]?).any fun commit => answersWithKey commit.call &&
        commit.work.ended.all (fun unit => !unit.committed) &&
        commit.work.log.script.all fun said => !countsFailure said && !believesKey said) =
      some true := by
    decide +kernel
  obtain ⟨world, served, checked⟩ := Option.map_eq_some_iff.mp ran
  obtain ⟨commit, isCommit, both⟩ := (Option.any_eq_true _ _).mp checked
  obtain ⟨⟨called, first⟩, uncounted⟩ := Bool.and_eq_true_iff.mp both |>.imp_left Bool.and_eq_true_iff.mp
  obtain ⟨request, browserDigest, answer, isCall⟩ := answersWithKey_iff called
  obtain ⟨said, inside, either⟩ := claimed countingApp .atomic lockedName [] world
    (Reachable.initial.of_serve served) countingKeys_lawful lockedName_recorded 0 commit request
    browserDigest answer (CommittedAt.iff_getElem?.mpr isCommit) isCall
    (by simpa using List.all_eq_true.mp first)
  have neither : countsFailure said = false ∧ believesKey said = false := by
    simpa using List.all_eq_true.mp uncounted said inside
  rcases either with believed | counted
  · exact Bool.false_ne_true (neither.2.symm.trans believed)
  · exact Bool.false_ne_true (neither.1.symm.trans counted)

def removesKeys : Op → Bool
  | .deleteSecurityKeys _ => true
  | _ => false

/-- A proof believed with the counter it left. -/
def leavesCounter (record : Bytes) : Told → Bool
  | ⟨.recordKeyUse judged (some kept) _, believed⟩ =>
    judged.credentialId = [1] && kept = record && believed
  | _ => false

theorem leavesCounter_iff {record : Bytes} {said : Told} (leaves : leavesCounter record said = true) :
    ∃ judged instant, judged.credentialId = [1] ∧
      said = told (.recordKeyUse judged (some record) instant) true := by
  unfold leavesCounter at leaves
  split at leaves
  · next judged kept instant believed =>
    simp only [Bool.and_eq_true, decide_eq_true_eq] at leaves
    obtain ⟨⟨named, rfl⟩, isBelieved⟩ := leaves
    obtain rfl : believed = true := isBelieved
    exact ⟨judged, instant, named, rfl⟩
  · cases leaves

theorem adaProvesTwice_increases : ∃ world, Reachable (calls countingApp) .atomic oneKey [] world ∧
    ∃ commit one judged again proven later instant next, CommittedAt world.past 3 commit ∧
      CommittedAt world.past 9 one ∧ Believes commit judged proven instant ∧
      Believes one again later next ∧ 0 < proven.counter ∧ proven.counter < later.counter := by
  have ran : ((World.initial oneKey []).serve .atomic 100
      (signsInByKey 10 20 10 [1, 0] 5 ++ signsInByKey 11 21 11 [1, 0, 0] 6)).map (fun world =>
        ((world.past.reverse[3]?).any fun commit =>
          commit.work.log.script.any (leavesCounter [1, 0])) &&
        ((world.past.reverse[9]?).any fun commit =>
          commit.work.log.script.any (leavesCounter [1, 0, 0])) &&
        world.past.all fun commit => commit.work.log.script.all fun said =>
          !removesKeys said.1) = some true := by
    decide +kernel
  obtain ⟨world, served, checked⟩ := Option.map_eq_some_iff.mp ran
  obtain ⟨⟨first, second⟩, kept⟩ := Bool.and_eq_true_iff.mp checked |>.imp_left Bool.and_eq_true_iff.mp
  have reached := Reachable.initial.of_serve served
  obtain ⟨commit, isCommit, proves⟩ := (Option.any_eq_true _ _).mp first
  obtain ⟨one, isOne, provesAgain⟩ := (Option.any_eq_true _ _).mp second
  obtain ⟨said, inside, leaves⟩ := List.any_eq_true.mp proves
  obtain ⟨judged, instant, named, rfl⟩ := leavesCounter_iff leaves
  obtain ⟨said, inside', leaves'⟩ := List.any_eq_true.mp provesAgain
  obtain ⟨again, next, named', rfl⟩ := leavesCounter_iff leaves'
  have here := CommittedAt.iff_getElem?.mpr isCommit
  have there := CommittedAt.iff_getElem?.mpr isOne
  obtain ⟨proven, judgment⟩ := judgment_of_use reached here inside
  obtain ⟨later, judgment'⟩ := judgment_of_use reached there inside'
  have recorded : ∀ units ≤ 3, ∀ credentialId, Recorded countingKeys credentialId
      (Db.securityKey (dbAt oneKey world.past units) credentialId) := by
    intro units order credentialId
    have before := here.lt
    exact recorded_at reached countingKeys_lawful oneKey_recorded (by omega) credentialId
  obtain ⟨-, -, -, -, counter⟩ :=
    counters_of_judgment reached countingKeys_lawful recorded here judgment
  have counts : 0 < proven.counter := by
    obtain ⟨-, one_⟩ := HeldKey.mk.inj (Option.some.inj counter)
    rw [← one_]
    decide
  refine ⟨world, reached, commit, one, judged, again, proven, later, instant, next, here, there,
    ⟨_, inside, judgment⟩, ⟨_, inside', judgment'⟩, counts, ?_⟩
  apply (key_proofs_in_turn reached countingKeys_lawful oneKey_recorded).1 3 9 commit one judged again
    proven later instant next here there (by decide) ⟨_, inside, judgment⟩ ⟨_, inside', judgment'⟩
    (named'.trans named.symm) (Or.inl counts)
  intro between unit _ _ inUnit count said
  have never := List.all_eq_true.mp (List.all_eq_true.mp kept unit inUnit.mem) _ said
  cases never

end Saffui.Oidc
