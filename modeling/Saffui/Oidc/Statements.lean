import Saffui.Oidc.BackedSound

/-!
# What the statements of a unit say of the storage

A statement that ran answered from the storage it found. Each lemma here reads
an answer back: the row it speaks of, as the statement found it, and what the
unit leaves of it. They are what the results about whole runs are made of.
-/

namespace Saffui.Oidc
open Saffui.Foundation Saffui.Foundation.Language Saffui.Login

section Answers

variable {op : Op} {seen now : Db} {key : Key}

/-- A row a statement changes is written. -/
theorem written_of_hit (hit : key ∈ hits op seen now) :
    ∃ row, now.lookup key = some row ∧ picks op seen key row = true ∧
      ⟨key, sets op key row⟩ ∈ writes op seen now := by
  obtain ⟨-, row, found, picked⟩ := mem_hits.mp hit
  refine ⟨row, found, picked, List.mem_append_left _ (mem_writeEach_iff.mpr ⟨hit, ?_⟩)⟩
  rw [found]
  rfl

theorem locked_of_picked {row : Row key} (read : seen.lookup key = some row)
    (picked : picks op seen key row = true) : (key, LockMode.exclusive) ∈ locks op seen := by
  have inside : key ∈ keysWhere seen (picks op seen) := mem_keysWhere_iff.mpr ⟨row, read, picked⟩
  cases op with
  | holdConsent => cases picked
  | _ => exact List.mem_append_left _ (List.mem_map.mpr ⟨key, inside, rfl⟩)

theorem locked_of_hit (hit : key ∈ hits op seen now) : (key, LockMode.exclusive) ∈ locks op seen := by
  obtain ⟨⟨row, read, picked⟩, -⟩ := mem_hits.mp hit
  exact locked_of_picked read picked

/-- A statement that changed something changed the one row it can. -/
theorem hit_of_changed (only : ∀ other row, picks op seen other row = true → other = key)
    (changed : (!(hits op seen now).isEmpty) = true) : key ∈ hits op seen now := by
  obtain ⟨other, rest, hit⟩ : ∃ other rest, hits op seen now = other :: rest := by
    cases found : hits op seen now with
    | nil => rw [found] at changed; cases changed
    | cons other rest => exact ⟨other, rest, rfl⟩
  have inside : other ∈ hits op seen now := by simp [hit]
  obtain ⟨⟨row, -, picked⟩, -⟩ := mem_hits.mp inside
  rwa [← only other row picked]

theorem spendRefreshToken_answer {digest : Bytes} {clientId : String} {instant : Instant}
    {spent : RefreshToken}
    (answered : answer (.spendRefreshToken digest clientId instant) seen now = some spent) :
    Key.token digest ∈ hits (.spendRefreshToken digest clientId instant) seen now ∧
      ∃ stored, Db.token now digest = some stored ∧ stored.token = spent ∧ spent.clientId = clientId ∧
        stored.usedAt = none ∧ stored.revokedAt = none ∧ hasRevokedKin seen spent.family = false := by
  simp only [answer] at answered
  split at answered
  · next changed =>
    have hit : Key.token digest ∈ hits (.spendRefreshToken digest clientId instant) seen now := by
      refine hit_of_changed ?_ changed
      intro other row picked
      cases other <;> simp_all [picks, ofToken]
    obtain ⟨-, stored, found, picked⟩ := mem_hits.mp hit
    obtain ⟨kept, read, rfl⟩ := Option.map_eq_some_iff.mp answered
    obtain rfl : kept = stored := Option.some.inj (read.symm.trans found)
    simp only [picks, ofToken, Bool.and_eq_true, Bool.not_eq_true', decide_eq_true_eq,
      Option.isNone_iff_eq_none] at picked
    obtain ⟨⟨⟨⟨⟨-, ofClient⟩, unused⟩, unrevoked⟩, -⟩, alone⟩ := picked
    exact ⟨hit, kept, read, rfl, ofClient, unused, unrevoked, alone⟩
  · cases answered

theorem spendAuthorizationCode_answer {digest : Bytes} {instant : Instant} {code : AuthorizationCode}
    (answered : answer (.spendAuthorizationCode digest instant) seen now = some code) :
    Key.code digest ∈ hits (.spendAuthorizationCode digest instant) seen now ∧
      ∃ stored, Db.code now digest = some stored ∧ stored.code = code ∧ stored.spentAt = none := by
  simp only [answer] at answered
  split at answered
  · next changed =>
    have hit : Key.code digest ∈ hits (.spendAuthorizationCode digest instant) seen now := by
      refine hit_of_changed ?_ changed
      intro other row picked
      cases other <;> simp_all [picks, ofCode]
    obtain ⟨-, stored, found, picked⟩ := mem_hits.mp hit
    obtain ⟨kept, read, rfl⟩ := Option.map_eq_some_iff.mp answered
    obtain rfl : kept = stored := Option.some.inj (read.symm.trans found)
    simp only [picks, ofCode, Bool.and_eq_true, Option.isNone_iff_eq_none] at picked
    exact ⟨hit, kept, read, rfl, picked.1.2⟩
  · cases answered

theorem bindCodeFamily_answer {digest : Bytes} {family : Uuid}
    (answered : answer (.bindCodeFamily digest family) seen now = true) :
    Key.code digest ∈ hits (.bindCodeFamily digest family) seen now ∧
      ∃ stored, Db.code now digest = some stored ∧ stored.spentAt.isSome ∧
        stored.replayedAt = none := by
  have hit : Key.code digest ∈ hits (.bindCodeFamily digest family) seen now := by
    refine hit_of_changed ?_ answered
    intro other row picked
    cases other <;> simp_all [picks, ofCode]
  obtain ⟨-, stored, found, picked⟩ := mem_hits.mp hit
  simp only [picks, ofCode, Bool.and_eq_true, Option.isNone_iff_eq_none] at picked
  exact ⟨hit, stored, found, picked.1.2, picked.2⟩

/-- A token is inserted under a digest that kept none. -/
theorem insertRefreshToken_answer {token : RefreshToken}
    (answered : answer (.insertRefreshToken token) seen now = true) :
    Db.token now token.tokenDigest = none ∧
      (⟨.token token.tokenDigest, some ⟨token, none, none⟩⟩ : Write Row) ∈
        writes (.insertRefreshToken token) seen now := by
  simp only [answer, inserts] at answered
  split at answered
  · next absent =>
    refine ⟨Option.isNone_iff_eq_none.mp absent, List.mem_append_right _ ?_⟩
    simp [inserts, absent]
  · cases answered

/-- The statement that inserts a row of a table whose rows are new. -/
def InsertedBy : (key : Key) → Option (Row key) → Told → Prop
  | .session id, row, said => ∃ session, said = told (.insertSession session) true ∧
    session.id = id ∧ row = some session
  | .pending id, row, said => ∃ pending, said = told (.insertPendingAuthorization pending) true ∧
    pending.id = id ∧ row = some pending
  | .code digest, row, said => ∃ code, said = told (.insertAuthorizationCode code) true ∧
    code.codeDigest = digest ∧ row = some ⟨code, none, none, none⟩
  | .token digest, row, said => ∃ token, said = told (.insertRefreshToken token) true ∧
    token.tokenDigest = digest ∧ row = some ⟨token, none, none⟩
  | .securityKey credentialId, row, said => ∃ key, said = told (.insertSecurityKey key) true ∧
    key.credentialId = credentialId ∧ row = some key
  | _, _, _ => True

theorem insertedBy_of_inserts (seen : Db) {write : Write Row} (inserted : inserts op now = some write) :
    InsertedBy write.1 write.2 (told op (answer op seen now)) := by
  cases op with
  | insertSession | insertPendingAuthorization | insertAuthorizationCode | insertRefreshToken
  | insertSecurityKey =>
    have answered := congrArg Option.isSome inserted
    simp only [inserts] at inserted
    split at inserted
    · obtain rfl := Option.some.inj inserted
      refine ⟨_, ?_, rfl, rfl⟩
      exact congrArg (told _) answered
    · cases inserted
  | addConsent | countCodeAttempt | writeKeyEnrollment | recordLoginFailure =>
    obtain rfl := Option.some.inj inserted
    trivial
  | writePendingTotp =>
    obtain ⟨key, row⟩ := write
    obtain rfl := Option.some.inj (insertedKey_of_inserts inserted)
    trivial
  | _ => cases inserted

end Answers

/-- A realm no one signed in to: it has persons and clients, each under its
own name, passwords and signing keys, and nothing else. -/
structure NewRealm (db : Db) : Prop where
  client : ∀ clientId row, Db.client db clientId = some row → row.clientId = clientId
  person : ∀ id row, Db.person db id = some row → row.id = id
  sessions : ∀ id, Db.session db id = none
  pendings : ∀ id, Db.pending db id = none
  codes : ∀ digest, Db.code db digest = none
  tokens : ∀ digest, Db.token db digest = none
  consents : ∀ person clientId, Db.consent db person clientId = none
  totps : ∀ person, Db.totp db person = none
  codeAttempts : ∀ person, Db.codeAttempts db person = none
  securityKeys : ∀ credentialId, Db.securityKey db credentialId = none
  keyEnrollments : ∀ person, Db.keyEnrollment db person = none
  loginFailures : ∀ digest bucket, db.lookup (.loginFailures digest bucket) = none

section Runs

variable {app : App} {mode : Mode} {start : Db} {ids : List Drawn} {world : World (calls app)}
  {place other : Nat} {commit one : Commit (calls app)} {event : language.Event}

theorem answer_of_told {past : List (Commit (calls app))} {op : Op} {result : Res op}
    (faithful : event.Faithful mode start past) (said : event.told = told op result) :
    answer op event.seen event.found = result := by
  have answered := faithful.result
  obtain ⟨op', span, wrote, snapshot, now, result'⟩ := event
  cases said
  exact answered.symm

theorem told_of_op {past : List (Commit (calls app))} {op : Op}
    (faithful : event.Faithful mode start past) (same : event.op = op) :
    event.told = told op (answer op event.seen event.found) := by
  have answered := faithful.result
  obtain ⟨op', span, wrote, snapshot, now, result'⟩ := event
  cases same
  exact congrArg (told op') answered

theorem writes_of_told {op : Op} {result : Res op} (said : event.told = told op result) :
    event.writes = writes op event.seen event.found := by
  obtain ⟨op', span, wrote, snapshot, now, result'⟩ := event
  cases said
  rfl

theorem locks_of_told {op : Op} {result : Res op} (said : event.told = told op result) :
    event.locks = locks op event.seen := by
  obtain ⟨op', span, wrote, snapshot, now, result'⟩ := event
  cases said
  rfl

theorem mem_script {said : Told} (inside : event ∈ commit.work.events) (same : event.told = said) :
    said ∈ commit.work.log.script :=
  List.mem_map.mpr ⟨event, inside, same⟩

theorem mem_script_of_op {past : List (Commit (calls app))} {op : Op} {result : Res op}
    (inside : event ∈ commit.work.events) (faithful : event.Faithful mode start past)
    (same : event.op = op) (answered : answer op event.seen event.found = result) :
    told op result ∈ commit.work.log.script := by
  refine mem_script inside ((told_of_op faithful same).trans ?_)
  rw [answered]

variable (reached : Reachable (calls app) mode start ids world)

include reached

/-- Every unit of a run backs what it writes. -/
theorem committed_backed (here : CommittedAt world.past place commit) :
    UnitBacked app commit.call commit.work.log :=
  (reached.logged (backedLogs app)).1 commit here.mem

theorem event_of_script {said : Told} (here : CommittedAt world.past place commit)
    (inside : said ∈ commit.work.log.script) : ∃ event ∈ commit.work.events, event.told = said ∧
      event ∈ world.ran ∧ event.finished ≤ place ∧ event.Faithful mode start world.past := by
  obtain ⟨event, among, same⟩ := Work.exists_of_mem_script inside
  exact ⟨event, among, same, reached.faithful here (Work.mem_told_of_mem among)⟩

/-- A statement before which its unit only read saw the storage alone. -/
theorem event_of_leading {said : Told} (here : CommittedAt world.past place commit)
    (leads : Leading said commit.work.log.script) :
    ∃ event ∈ commit.work.events, event.told = said ∧ event.finished ≤ place ∧
      event.Faithful mode start world.past ∧ event.seen = event.snapshot ∧
      event.found = event.now := by
  obtain ⟨earlier, event, later, split, same, reading⟩ := Work.exists_of_leads leads
  have among : event ∈ commit.work.events := by simp [split]
  obtain ⟨-, finished, faithful⟩ := reached.faithful here (Work.mem_told_of_mem among)
  refine ⟨event, among, same, finished, faithful, ?_⟩
  apply reached.leading movement here split
  intro read inside
  exact writes_of_reads (reading read inside) _ _

/-- Two statements of a unit, in their order: the first ended before the second
started. -/
theorem events_of_then {first second : Told} (here : CommittedAt world.past place commit)
    (ordered : Then first second commit.work.log.script) :
    ∃ one ∈ commit.work.events, ∃ other ∈ commit.work.events, one.told = first ∧
      other.told = second ∧ one.finished ≤ other.started := by
  obtain ⟨one, other, sub, isFirst, isSecond⟩ := exists_of_sublist_map ordered
  have pairs := reached.ordered here
  rw [Work.told, List.pairwise_append] at pairs
  have before := pairs.2.1.sublist sub
  simp only [List.pairwise_cons, List.mem_singleton, forall_eq] at before
  exact ⟨one, sub.subset (by simp), other, sub.subset (by simp), isFirst, isSecond, before.1⟩

/-- The row a leading statement changed is, as it found it, the one there when
its unit commits; what it makes of it the unit leaves, or moves on. -/
theorem before_of_leading {op : Op} {result : Res op} {key : Key}
    (here : CommittedAt world.past place commit)
    (leads : Leading (told op result) commit.work.log.script)
    (hits : ∀ seen now, answer op seen now = result → key ∈ hits op seen now) :
    ∃ event ∈ commit.work.events, event.told = told op result ∧ event.finished ≤ place ∧
      event.Faithful mode start world.past ∧ (key, LockMode.exclusive) ∈ event.locks ∧
      answer op event.snapshot event.now = result ∧
      commit.before.lookup key = event.now.lookup key ∧
      ∃ row, event.now.lookup key = some row ∧
        Grows key (sets op key row) (commit.after.lookup key) := by
  obtain ⟨event, among, same, finished, faithful, seen, found⟩ := event_of_leading reached here leads
  have answered := answer_of_told faithful same
  have hit := hits _ _ answered
  obtain ⟨row, read, -, written⟩ := written_of_hit hit
  rw [seen, found] at answered hit written
  rw [found] at read
  have locked : (key, LockMode.exclusive) ∈ event.locks := by
    rw [locks_of_told same, seen]
    exact locked_of_hit hit
  refine ⟨event, among, same, finished, faithful, locked, answered,
    reached.kept movement here among locked, row, read, ?_⟩
  · rw [← seen, ← found, ← writes_of_told same] at written
    exact reached.wrote movement here among written

/-- A row that is not there when a unit commits and is after it one of its
statements inserted. -/
theorem writer_of_absent (here : CommittedAt world.past place commit) {key : Key}
    (absent : commit.before.lookup key = none) (present : commit.after.lookup key ≠ none) :
    ∃ event ∈ commit.work.events, ∃ row, inserts event.op event.found = some ⟨key, row⟩ ∧
      (⟨key, row⟩ : Write Row) ∈ event.writes := by
  obtain ⟨event, among, found, row, written, -⟩ :=
    reached.made movement here key (fun row => row ≠ none) (not_not.mpr absent) present
  rcases mem_writes written with ⟨hit, -⟩ | inserted
  · obtain ⟨-, there, kept, -⟩ := mem_hits.mp hit
    rw [not_not.mp found] at kept
    cases kept
  · exact ⟨event, among, row, inserted, written⟩

theorem inserted_of_absent (here : CommittedAt world.past place commit) {key : Key}
    (absent : commit.before.lookup key = none) (present : commit.after.lookup key ≠ none) :
    ∃ said ∈ commit.work.log.script, ∃ written, InsertedBy key written said ∧
      Grows key written (commit.after.lookup key) := by
  obtain ⟨event, among, written, inserted, wrote⟩ := writer_of_absent reached here absent present
  obtain ⟨-, -, faithful⟩ := reached.faithful here (Work.mem_told_of_mem among)
  have said : InsertedBy key written (told event.op (answer event.op event.seen event.found)) :=
    insertedBy_of_inserts _ inserted
  rw [answer_of_told faithful rfl] at said
  exact ⟨event.told, List.mem_map_of_mem among, written, said,
    reached.wrote movement here among wrote⟩

/-- A row of a table whose rows stay, and that is there now, came with a unit
that inserted it. -/
theorem came_inserted {key : Key} (never : start.lookup key = none) {units : Nat}
    (within : units ≤ world.past.length) {row : Row key}
    (kept : (dbAt start world.past units).lookup key = some row) :
    ∃ place < units, ∃ commit, CommittedAt world.past place commit ∧
      commit.before.lookup key = none ∧ commit.after.lookup key ≠ none ∧
      Grows key (commit.after.lookup key) (some row) := by
  obtain ⟨place, before, commit, here, absent, stayed⟩ :=
    reached.came (fun db => (db.lookup key).isSome) (by simp [never]) within (by simp [kept])
  refine ⟨place, before, commit, here, by simpa using absent, ?_, ?_⟩
  · rw [Reachable.after_eq here, ← Option.isSome_iff_ne_none]
    exact stayed (place + 1) (Nat.lt_succ_self _) before
  · have moved := reached.grows movement before within key
    rwa [kept, ← Reachable.after_eq here] at moved

/-- A unit an answer speaks of is among those of the run. -/
theorem commit_of_answered {answered : Answered (calls app)} (inside : answered ∈ world.answered)
    {script : List Told} (ended : (true, script) ∈ answered.work.log.ended) :
    ∃ place commit, CommittedAt world.past place commit ∧ commit.pid = answered.pid ∧
      commit.call = answered.call ∧ commit.work.log.script = script := by
  obtain ⟨unit, among, same⟩ := List.mem_map.mp ended
  obtain ⟨committed, events⟩ := Prod.mk.inj same
  obtain ⟨commit, there, pid, call, ran⟩ :=
    reached.history.answered answered inside unit among committed
  obtain ⟨place, here⟩ := exists_committedAt there
  refine ⟨place, commit, here, pid, call, ?_⟩
  rw [← events, ← ran]
  rfl

/-- A session is kept under its own id. -/
theorem session_id (new : NewRealm start) {units : Nat} (within : units ≤ world.past.length)
    {id : Uuid} {session : Session}
    (kept : Db.session (dbAt start world.past units) id = some session) : session.id = id := by
  obtain ⟨place, -, commit, here, absent, present, later⟩ :=
    came_inserted reached (new.sessions id) within kept
  obtain ⟨-, -, written, ⟨opened, -, same, rfl⟩, first⟩ :=
    inserted_of_absent reached here absent present
  obtain ⟨next, found, moved⟩ := first opened rfl
  rw [found] at later
  obtain ⟨last, isLast, again⟩ := later next rfl
  obtain rfl := Option.some.inj isLast
  rw [again.1, moved.1]
  exact same

/-- A session a unit read is under the id it read, and is there when the unit
commits, maybe ended since. -/
theorem session_of_read (new : NewRealm start) (here : CommittedAt world.past place commit)
    {id : Uuid} {known : ReadSession}
    (read : told (.readSession id) (some known) ∈ commit.work.log.script) :
    known.session.id = id ∧ ∃ next, Db.session (dbAt start world.past (place + 1)) id = some next ∧
      SessionMoves known.session next := by
  obtain ⟨event, among, same, -, -, faithful⟩ := event_of_script reached here read
  have answered := answer_of_told faithful same
  obtain ⟨session, seen, rfl⟩ := Option.map_eq_some_iff.mp answered
  have moved := reached.grows_seen_after movement here among (.session id)
  rw [Reachable.after_eq here] at moved
  obtain ⟨next, found, moves⟩ := moved session seen
  refine ⟨?_, next, found, moves⟩
  have named := session_id reached new here.lt found
  rw [moves.1] at named
  exact named

/-- A person or a client is under its own name, as it was from the start. -/
theorem person_of_read (new : NewRealm start) (here : CommittedAt world.past place commit)
    {id : Uuid} {row : Person}
    (read : told (.readPerson id) (some row) ∈ commit.work.log.script) : row.id = id := by
  obtain ⟨event, among, same, -, -, faithful⟩ := event_of_script reached here read
  have seen : Db.person event.seen id = some row := answer_of_told faithful same
  have moved := reached.grows_seen_after movement here among (.person id)
  have since : Db.person commit.after id = Db.person start id := by
    have grown := reached.grows movement (Nat.zero_le (place + 1)) here.lt (.person id)
    rwa [dbAt_zero, ← Reachable.after_eq here] at grown
  have kept : Db.person commit.after id = Db.person event.seen id := moved
  exact new.person id row (by rw [← since, kept, seen])

theorem client_of_read (new : NewRealm start) (here : CommittedAt world.past place commit)
    {clientId : String} {row : Client}
    (read : told (.readClient clientId) (some row) ∈ commit.work.log.script) :
    Db.client start clientId = some row ∧ row.clientId = clientId := by
  obtain ⟨event, among, same, -, -, faithful⟩ := event_of_script reached here read
  have seen : Db.client event.seen clientId = some row := answer_of_told faithful same
  have moved := reached.grows_seen_after movement here among (.client clientId)
  have since : Db.client commit.after clientId = Db.client start clientId := by
    have grown := reached.grows movement (Nat.zero_le (place + 1)) here.lt (.client clientId)
    rwa [dbAt_zero, ← Reachable.after_eq here] at grown
  have kept : Db.client commit.after clientId = Db.client event.seen clientId := moved
  have first : Db.client start clientId = some row := by rw [← since, kept, seen]
  exact ⟨first, new.client clientId row first⟩

end Runs

end Saffui.Oidc
