import Saffui.Oidc.Requests

/-!
# Second factors, and the sessions the password alone opened

A sign-in that reads its person without a factor opens a session that proves
the password alone, while a factor of that person may be being set up. Three
things meet: setting a factor up ends the sessions the password alone opened,
a session read tells whether its person holds a factor, and a second factor
is asked of a request only once the password was accepted on it.

Source: `saffui-core/src/login/{session,flow,enroll}.rs`,
`store/src/stores/{sessions,authenticators,security_keys}.rs`.
-/

namespace Saffui.Oidc
open Saffui.Foundation Saffui.Foundation.Language Saffui.Login Saffui.Tokens

/-- The statements that set a factor of a person up. -/
def SetsFactor (person : Uuid) (said : Told) : Prop :=
  (∃ judged step instant,
    said = told (.acceptTotpStep person judged step .confirmation instant) true) ∨
  ∃ held, held.person = person ∧ said = told (.insertSecurityKey held) true

/-- A row that is a second factor of a person: a confirmed authenticator
application, or a security key. -/
def Factor (person : Uuid) : (key : Key) → Option (Row key) → Prop
  | .totp one, row => one = person ∧ ∃ authenticator, row = some authenticator ∧
    authenticator.confirmedAt.isSome = true
  | .securityKey _, row => ∃ held, row = some held ∧ held.person = person
  | _, _ => False

/-- The keys of the rows of factors. -/
def isFactorKey : Key → Bool
  | .totp _ | .securityKey _ => true
  | _ => false

theorem Factor.key {person : Uuid} {key : Key} {row : Option (Row key)}
    (factor : Factor person key row) : isFactorKey key = true := by
  cases key with
  | totp | securityKey => rfl
  | _ => cases factor

theorem holdsFactor_of_factor {db : Db} {person : Uuid} {key : Key}
    (factor : Factor person key (db.lookup key)) : personHoldsFactor db person = true := by
  cases key with
  | totp one =>
    obtain ⟨rfl, authenticator, found, confirmed⟩ := factor
    have read : Db.totp db one = some authenticator := found
    simp [personHoldsFactor, read, confirmed]
  | securityKey credentialId =>
    obtain ⟨held, found, rfl⟩ := factor
    have listed : held ∈ scan db (pickSecurityKey held.person) :=
      mem_scan_iff.mpr ⟨.securityKey credentialId, held, found, by simp [pickSecurityKey]⟩
    have some_held : (scan db (pickSecurityKey held.person)).isEmpty = false := by
      rw [List.isEmpty_eq_false_iff]
      exact List.ne_nil_of_mem listed
    simp [personHoldsFactor, some_held]
  | _ => cases factor

/-- A unit that read a session and found it answering: it proves a second
factor, or its person then held none. -/
def ReadAnswering (script : List Told) (id : Uuid) : Prop :=
  ∃ known, told (.readSession id) (some known) ∈ script ∧ known.session.id = id ∧
    answersForItsPerson known = true

/-- A code given at the end of a sign-in, on the session the same call opened:
it proves a second factor, or the call had read its person to hold none. -/
structure JustOpened {app : App} (past : List (Commit (calls app))) (place : Nat)
    (commit : Commit (calls app)) (code : AuthorizationCode) : Prop where
  called : ∃ request browserDigest answer, commit.call = .finishSignIn request browserDigest answer
  opened : ∃ opened < place, ∃ opening session, CommittedAt past opened opening ∧
    opening.pid = commit.pid ∧ told (.insertSession session) true ∈ opening.work.log.script ∧
    session.id = code.session ∧ session.person = code.person ∧
    (provesSecondFactor session = true ∨ FactorFree opening.work.log.told session.person)

/-- A unit that accepted the password of a person on a request, and noted it. -/
def PasswordFirst {app : App} (marking : Commit (calls app)) (request person : Uuid) : Prop :=
  ∃ browserDigest name password,
    marking.call = .finishSignIn request browserDigest (.password name password) ∧
    (∃ keyProof instant, told (.markFirstFactor request person keyProof instant) true ∈
      marking.work.log.script) ∧
    PasswordAccepted app marking.work.log.told name password person

section Written

variable {op : Op} {seen now : Db} {person : Uuid} {key : Key} {row : Option (Row key)}

/-- A factor that is there stays one, unless a statement takes it away. -/
theorem factor_written (factor : Factor person key (now.lookup key))
    (written : (⟨key, row⟩ : Write Row) ∈ writes op seen now) :
    Factor person key row ∨ removesFactor person op = true := by
  cases key with
  | totp one =>
    obtain ⟨rfl, authenticator, found, confirmed⟩ := factor
    rcases mem_writes written with ⟨hit, set⟩ | inserted
    · obtain ⟨-, kept, isKept, picked⟩ := mem_hits.mp hit
      obtain rfl : authenticator = kept := Option.some.inj (found.symm.trans isKept)
      change row = (now.lookup (.totp one)).bind (sets op (.totp one)) at set
      rw [found, Option.bind_some] at set
      cases op with
      | acceptTotpStep other judged step usedFor instant =>
        refine Or.inl ⟨rfl, _, set, ?_⟩
        obtain ⟨at_, isAt⟩ := Option.isSome_iff_exists.mp confirmed
        simp [isAt]
      | deleteTotp other =>
        simp only [picks, ofTotp, decide_eq_true_eq] at picked
        exact Or.inr (decide_eq_true picked.symm)
      | _ => cases picked
    · cases op with
      | writePendingTotp pending =>
        obtain rfl : pending.person = one :=
          Key.totp.inj (Option.some.inj (insertedKey_of_inserts inserted))
        change Db.totp now pending.person = some authenticator at found
        have confirmed' : authenticator.confirmedAt.isNone = false := by
          rw [Option.isNone_eq_false_iff]
          exact confirmed
        simp [inserts, found, confirmed'] at inserted
      | _ =>
        have named := insertedKey_of_inserts inserted
        cases named
  | securityKey credentialId =>
    obtain ⟨held, found, rfl⟩ := factor
    rcases mem_writes written with ⟨hit, set⟩ | inserted
    · obtain ⟨-, kept, isKept, picked⟩ := mem_hits.mp hit
      obtain rfl : held = kept := Option.some.inj (found.symm.trans isKept)
      change row = (now.lookup (.securityKey credentialId)).bind (sets op (.securityKey credentialId))
        at set
      rw [found, Option.bind_some] at set
      cases op with
      | recordKeyUse judged record instant => exact Or.inl ⟨_, set, rfl⟩
      | deleteSecurityKeys other =>
        simp only [picks, ofSecurityKey, decide_eq_true_eq] at picked
        exact Or.inr (decide_eq_true picked.symm)
      | _ => cases picked
    · cases op with
      | insertSecurityKey key =>
        obtain rfl : key.credentialId = credentialId :=
          Key.securityKey.inj (Option.some.inj (insertedKey_of_inserts inserted))
        simp [inserts, found] at inserted
      | _ =>
        have named := insertedKey_of_inserts inserted
        cases named
  | _ => cases factor

/-- Setting a factor up makes a row one. -/
theorem factor_set {set : Told} {person : Uuid} (sets : SetsFactor person set)
    (answered : answer set.1 seen now = set.2) :
    ∃ key row, (⟨key, row⟩ : Write Row) ∈ writes set.1 seen now ∧ Factor person key row := by
  rcases sets with ⟨judged, step, instant, rfl⟩ | ⟨held, rfl, rfl⟩
  · have hit : Key.totp person ∈ hits (.acceptTotpStep person judged step .confirmation instant) seen now :=
      hit_of_changed (by intro other row picked; cases other <;> simp_all [picks, ofTotp]) answered
    obtain ⟨authenticator, -, -, written⟩ := written_of_hit hit
    refine ⟨_, _, written, rfl, _, rfl, ?_⟩
    cases authenticator.confirmedAt <;> rfl
  · have isSome : (inserts (.insertSecurityKey held) now).isSome = true := answered
    obtain ⟨write, inserted⟩ := Option.isSome_iff_exists.mp isSome
    have written : write ∈ writes (.insertSecurityKey held) seen now :=
      List.mem_append_right _ (by simp [inserted])
    simp only [inserts] at inserted
    split at inserted
    · obtain rfl := Option.some.inj inserted
      exact ⟨_, _, written, held, rfl, rfl⟩
    · cases inserted

end Written

section Runs

variable {app : App} {mode : Mode} {start : Db} {ids : List Drawn} {world : World (calls app)}
  {place other units : Nat} {commit one : Commit (calls app)} {event read : language.Event}
  {person : Uuid}
  (reached : Reachable (calls app) mode start ids world)

include reached

/-- What a unit that sets a factor up owes. -/
theorem factorSet_of_sets (here : CommittedAt world.past place commit) {set : Told}
    (sets : SetsFactor person set) (inside : set ∈ commit.work.log.script) :
    FactorSet set person commit.work.log.script := by
  have backed := committed_backed reached here set inside
  rcases sets with ⟨judged, step, instant, rfl⟩ | ⟨held, rfl, rfl⟩
  · exact backed.1
  · exact backed.1

/-- Once the unit that sets a factor up committed, its person holds it. -/
theorem holds_of_set (here : CommittedAt world.past place commit) {set : Told}
    (sets : SetsFactor person set) (inside : set ∈ commit.work.log.script) :
    ∃ key, Factor person key (commit.after.lookup key) := by
  obtain ⟨event, among, rfl, -, -, faithful⟩ := event_of_script reached here inside
  obtain ⟨key, row, written, factor⟩ := factor_set sets (answer_of_told faithful rfl)
  refine ⟨key, reached.kept_since movement here among (Factor person key) written factor ?_⟩
  intro writer inUnit stood next wrote
  rcases factor_written stood wrote with stays | removes
  · exact stays
  · have held := (factorSet_of_sets reached here sets inside).held writer.told
      (List.mem_map_of_mem inUnit)
    change removesFactor person writer.op = false at held
    rw [held] at removes
    cases removes

/-- A factor is there until a unit takes it away. -/
theorem factor_stays (order : units ≤ other) (within : other ≤ world.past.length) {key : Key}
    (factor : Factor person key ((dbAt start world.past units).lookup key))
    (kept : ∀ place commit, units ≤ place → place < other → CommittedAt world.past place commit →
      ∀ said ∈ commit.work.log.script, removesFactor person said.1 = false) :
    Factor person key ((dbAt start world.past other).lookup key) := by
  by_contra gone
  obtain ⟨place, since, before, commit, here, was, lost⟩ :=
    reached.lost (fun db => Factor person key (db.lookup key)) order within factor gone
  obtain ⟨event, among, stood, row, written, broken⟩ := reached.made movement here key
    (fun row => ¬Factor person key row) (not_not.mpr was) lost
  rcases factor_written (not_not.mp stood) written with stays | removes
  · exact broken stays
  · have held := kept place commit since before here event.told (List.mem_map_of_mem among)
    change removesFactor person event.op = false at held
    rw [held] at removes
    cases removes

/-- A session read tells of its person what the storage then held. -/
theorem refused_of_factor (ran : read ∈ world.ran) {id : Uuid} {known : ReadSession}
    (said : read.told = told (.readSession id) (some known)) {key : Key}
    (untouched : ∀ write ∈ read.wrote, isFactorKey write.1 = false)
    (factor : Factor known.session.person key ((dbAt start world.past read.started).lookup key))
    (alone : provesSecondFactor known.session = false) : answersForItsPerson known = false := by
  have faithful := reached.history.ran read ran
  obtain ⟨session, found, rfl⟩ := Option.map_eq_some_iff.mp (answer_of_told faithful said)
  have unwritten : ∀ write ∈ read.wrote, write.1 ≠ key := by
    intro write inside same
    have other := untouched write inside
    rw [same, factor.key] at other
    cases other
  have stays : Factor session.person key (read.seen.lookup key) := by
    rw [Event.seen, lookup_overlay_of_not_mem unwritten, faithful.snapshot]
    exact factor
  have holds := holdsFactor_of_factor stays
  simp only [answersForItsPerson, alone, holds]
  rfl

/-- A session a unit ended with a factor set up is ended since. -/
theorem ended_of_closed (here : CommittedAt world.past place commit) {kept : Option Uuid}
    {ended : List Uuid}
    (said : told (.endSessionsProvenOnlyBy person [.password] kept) ended ∈ commit.work.log.script)
    {id : Uuid} (closed : id ∈ ended) : ∃ session, Db.session commit.after id = some session ∧
      session.state = .ended := by
  obtain ⟨event, among, same, -, -, faithful⟩ := event_of_script reached here said
  have answered := answer_of_told faithful same
  have hit : Key.session id ∈
      hits (.endSessionsProvenOnlyBy person [.password] kept) event.seen event.found := by
    rw [← answered] at closed
    obtain ⟨key, inside, named⟩ := List.mem_filterMap.mp closed
    cases key with
    | session other =>
      obtain rfl := Option.some.inj named
      exact inside
    | _ => cases named
  obtain ⟨session, -, -, written⟩ := written_of_hit hit
  rw [← writes_of_told same] at written
  obtain ⟨next, found, moves⟩ := reached.wrote movement here among written _ rfl
  exact ⟨next, found, moves.2 rfl⟩

/-- A token of a session a unit closed was spent before, or not at all. -/
theorem unspent_of_closed (here : CommittedAt world.past place commit)
    {kept : Option Uuid} {ended : List Uuid}
    (said : told (.endSessionsProvenOnlyBy person [.password] kept) ended ∈ commit.work.log.script)
    (there : CommittedAt world.past other one) {spend : language.Event}
    (among : spend ∈ one.work.events) {digest : Bytes} {clientId : String} {instant : Instant}
    {spent : RefreshToken}
    (spends : spend.told = told (.spendRefreshToken digest clientId instant) (some spent))
    (closed : spent.session ∈ ended) : spend.finished ≤ place := by
  obtain ⟨-, once, known, ordered, later, stood⟩ :=
    committed_backed reached there _ (mem_script among spends)
  obtain ⟨first, isFirst, second, isSecond, said', read, before⟩ := events_of_then reached there ordered
  obtain rfl : spend = first := spends_one reached there among isFirst spends said'
  by_contra after
  obtain ⟨ran, -, faithful⟩ := reached.faithful there (Work.mem_told_of_mem isSecond)
  obtain ⟨session, found, rfl⟩ := Option.map_eq_some_iff.mp (answer_of_told faithful read)
  obtain ⟨last, isLast, overlay⟩ := ended_of_closed reached here said closed
  have since : place + 1 ≤ second.started := by omega
  rw [Reachable.after_eq here] at isLast
  obtain ⟨next, isNext, moved⟩ := reached.grows movement since
    (Nat.le_trans faithful.started faithful.finished) (.session spent.session) last isLast
  rw [← faithful.snapshot] at isNext
  obtain ⟨seen, isSeen, again⟩ := reached.grows_seen movement ran (.session spent.session) next isNext
  obtain rfl : session = seen := Option.some.inj (found.symm.trans isSeen)
  have ends := again.2 (moved.2 overlay)
  simp [stands, ends] at stood

/-- A session a unit read that stood answered for its person. -/
theorem answering_of_standing (new : NewRealm start) (here : CommittedAt world.past place commit)
    {id : Uuid} {session : Session} (standing : Standing commit.work.log.script id session) :
    ReadAnswering commit.work.log.script session.id := by
  obtain ⟨known, read, rfl, instant, stood⟩ := standing.read
  have named := (session_of_read reached new here read).1
  simp only [stands, Bool.and_eq_true] at stood
  rw [named]
  exact ⟨known, read, named, stood.2⟩

/-- A refresh token is kept by a unit whose read of its session answered. -/
theorem token_answering (new : NewRealm start) (here : CommittedAt world.past place commit)
    {token : RefreshToken} (inserted : told (.insertRefreshToken token) true ∈ commit.work.log.script) :
    ReadAnswering commit.work.log.script token.session := by
  obtain ⟨backed, -⟩ := committed_backed reached here _ inserted
  cases backed with
  | rotated called spend subject issued =>
    rw [issued.inSession]
    exact answering_of_standing reached new here subject.standing
  | exchanged called spent subject drawn bound consent issued =>
    rw [issued.inSession]
    exact answering_of_standing reached new here subject.standing

/-- A code is given on a session its unit read, or its call opened. -/
theorem code_answering (new : NewRealm start) (here : CommittedAt world.past place commit)
    {code : AuthorizationCode}
    (inserted : told (.insertAuthorizationCode code) true ∈ commit.work.log.script) :
    ReadAnswering commit.work.log.script code.session ∨ JustOpened world.past place commit code := by
  obtain ⟨backed, -⟩ := committed_backed reached here _ inserted
  cases backed with
  | begun called read asked asks fresh expects hinted standing inSession ofPerson =>
    rw [inSession]
    exact Or.inl (answering_of_standing reached new here standing)
  | allowed called take browser waiting proves read asked standing inSession ofPerson =>
    rw [inSession]
    exact Or.inl (answering_of_standing reached new here standing)
  | finished called take asked hinted openedFor inSession ofPerson =>
    obtain ⟨script, ended, opens⟩ := openedFor.opened
    obtain ⟨unit, inside, isUnit⟩ := List.mem_map.mp ended
    obtain ⟨committed, rfl⟩ := Prod.mk.inj isUnit
    obtain ⟨opened, before, opening, there, pid, -, ran⟩ := reached.earlier here inside committed
    rw [← ran] at opens
    have backed := committed_backed reached there _ opens
    refine Or.inr ⟨⟨_, _, _, called⟩, opened, before, opening, _, there, pid, opens, inSession.symm,
      ofPerson.symm, ?_⟩
    obtain ⟨_, _, _, _, -, -, -, proven⟩ := backed.proven
    rcases proven with ⟨-, free, -⟩ | ⟨second, person, methods, differs, -⟩
    · exact Or.inr free
    · exact Or.inl (by simp [provesSecondFactor, methods, differs])

/-- A person read is under their own id. -/
theorem person_of_ran (new : NewRealm start) (ran : event ∈ world.ran) {id : Uuid} {row : Person}
    (said : event.told = told (.readPerson id) (some row)) : row.id = id := by
  have faithful := reached.history.ran event ran
  have seen : Db.person event.seen id = some row := answer_of_told faithful said
  have same : Db.person event.seen id = Db.person event.snapshot id :=
    reached.grows_seen movement ran (.person id)
  have since : Db.person event.snapshot id = Db.person start id := by
    rw [faithful.snapshot]
    have grown := reached.grows movement (Nat.zero_le event.started)
      (Nat.le_trans faithful.started faithful.finished) (.person id)
    rwa [dbAt_zero] at grown
  exact new.person id row (by rw [← since, ← same, seen])

/-- The first factor noted of a request is of a person whose password was
accepted on it. -/
theorem marked_after_password (new : NewRealm start) (within : units ≤ world.past.length)
    {request : Uuid} {pending : PendingAuthorization}
    (kept : Db.pending (dbAt start world.past units) request = some pending)
    (noted : pending.firstFactor = some person) :
    ∃ first < units, ∃ marking, CommittedAt world.past first marking ∧
      PasswordFirst marking request person := by
  obtain ⟨first, before, marking, there, -, -, event, among, unnoted, written, wrote, isNoted⟩ :=
    reached.came_made movement (.pending request)
      (fun row => ∃ kept, row = some kept ∧ kept.firstFactor = some person)
      (by rintro ⟨row, found, -⟩; cases (new.pendings request).symm.trans found) within
      ⟨pending, kept, noted⟩
  obtain ⟨left, rfl, marked⟩ := isNoted
  refine ⟨first, before, marking, there, ?_⟩
  rcases pending_writer reached there among wrote with ⟨old, found, -, marks⟩ | ⟨named, inserted⟩
  · rcases marks with ⟨who, keyProof, instant, rfl, said⟩ | ⟨session, instant, -, rfl, said⟩
    · obtain rfl : who = person := Option.some.inj marked
      obtain ⟨asked, browserDigest, name, password, read, called, readFirst, same, accepted⟩ :=
        committed_backed reached there _ said
      obtain ⟨earlier, wasKept, wasWithin, -⟩ := request_read reached there readFirst
      obtain ⟨-, -, -, arrived, -, isArrived, -, kin⟩ :=
        request_arrived reached new wasWithin wasKept
      obtain rfl : asked = request := by rw [← same, kin.id, isArrived]
      exact ⟨browserDigest, name, password, called, ⟨keyProof, instant, said⟩, accepted⟩
    · exact absurd ⟨old, found, marked⟩ unnoted
  · obtain ⟨⟨-, ⟨unproven, -⟩, -⟩, -⟩ := committed_backed reached there _ inserted
    cases unproven.symm.trans marked

/-- A session that proves a second factor is opened for a request on which the
password of its person was accepted before. -/
theorem opened_after_password (new : NewRealm start) (here : CommittedAt world.past place commit)
    {session : Session} (inserted : told (.insertSession session) true ∈ commit.work.log.script)
    (proves : provesSecondFactor session = true) :
    ∃ request browserDigest answer, commit.call = .finishSignIn request browserDigest answer ∧
      ∃ first < place, ∃ marking, CommittedAt world.past first marking ∧
        PasswordFirst marking request session.person := by
  have backed := committed_backed reached here _ inserted
  obtain ⟨request, browserDigest, answer, pending, called, readFirst, -, proven⟩ := backed.proven
  refine ⟨request, browserDigest, answer, called, ?_⟩
  rcases proven with ⟨methods, -⟩ | ⟨second, person, -, -, noted, row, read, ofPerson⟩
  · simp [provesSecondFactor, methods] at proves
  · obtain ⟨reader, wasTold, isRead⟩ := Work.exists_of_mem_told read
    have named := person_of_ran reached new (reached.faithful here wasTold).1 isRead
    obtain ⟨units, kept, within, order⟩ := request_read reached here readFirst
    obtain ⟨opens, among, same, -, finished, faithful⟩ := event_of_script reached here inserted
    have since := order opens (Work.mem_told_of_mem among) fun instant isRead => by
      have op := congrArg Sigma.fst same
      change opens.op = .insertSession session at op
      cases op.symm.trans isRead
    have started := faithful.started
    obtain ⟨first, before, marking, there, accepted⟩ :=
      marked_after_password reached new within kept noted
    rw [← ofPerson, named]
    exact ⟨first, by omega, marking, there, accepted⟩

/-- Once a factor is set up, a session its person opened with the password
alone answers no more, until a factor is taken away. -/
theorem refused_of_set (here : CommittedAt world.past place commit) {set : Told}
    (sets : SetsFactor person set) (inside : set ∈ commit.work.log.script) (ran : read ∈ world.ran)
    (after : place < read.started)
    (untouched : ∀ write ∈ read.wrote, isFactorKey write.1 = false)
    (kept : ∀ later removing, place < later → later < read.started →
      CommittedAt world.past later removing →
      ∀ said ∈ removing.work.log.script, removesFactor person said.1 = false)
    {id : Uuid} {known : ReadSession} (said : read.told = told (.readSession id) (some known))
    (ofPerson : known.session.person = person) (alone : provesSecondFactor known.session = false) :
    answersForItsPerson known = false := by
  have faithful := reached.history.ran read ran
  obtain ⟨key, factor⟩ := holds_of_set reached here sets inside
  rw [Reachable.after_eq here] at factor
  have stays := factor_stays reached (show place + 1 ≤ read.started by omega)
    (Nat.le_trans faithful.started faithful.finished) factor
    (fun later removing since before there => kept later removing (by omega) before there)
  rw [← ofPerson] at stays
  exact refused_of_factor reached ran said untouched stays alone

end Runs

/-- Over any interleaving of the calls. Tokens, and the live subject of a
session, are given by a unit whose read of the session found it answering; a
code too, or it is given at the end of the sign-in that opened its session.
Once a factor is set up, a session of its person that proves the password
alone answers no read, until a factor of theirs is taken away, and a token of
a session closed with it is spent no more. A session that proves a second
factor is opened for a request on which the password of its person was
accepted before. -/
theorem sessions_answer_with_their_factors {app : App} {mode : Mode} {start : Db} {ids : List Drawn}
    {world : World (calls app)} (new : NewRealm start)
    (reached : Reachable (calls app) mode start ids world) :
    (∀ answered ∈ world.answered, ∀ response, answered.answer = .tokens response →
      ∃ place commit, CommittedAt world.past place commit ∧ commit.pid = answered.pid ∧
        ReadAnswering commit.work.log.script response.accessToken.session) ∧
    (∀ answered ∈ world.answered, ∀ subject, answered.answer = .subject (some subject) →
      ∃ id known, answered.call = .readLiveSubject id ∧ known.session = subject.1 ∧
        told (.readSession id) (some known) ∈ answered.work.log.script ∧
        answersForItsPerson known = true) ∧
    (∀ place commit code, CommittedAt world.past place commit →
      told (.insertAuthorizationCode code) true ∈ commit.work.log.script →
      ReadAnswering commit.work.log.script code.session ∨ JustOpened world.past place commit code) ∧
    (∀ place commit person set, CommittedAt world.past place commit → SetsFactor person set →
      set ∈ commit.work.log.script →
      (∀ read ∈ world.ran, ∀ id known, place < read.started →
        read.told = told (.readSession id) (some known) → known.session.person = person →
        provesSecondFactor known.session = false →
        (∀ write ∈ read.wrote, isFactorKey write.1 = false) →
        (∀ later removing, place < later → later < read.started →
          CommittedAt world.past later removing →
          ∀ said ∈ removing.work.log.script, removesFactor person said.1 = false) →
        answersForItsPerson known = false) ∧
      ∃ kept ended,
        told (.endSessionsProvenOnlyBy person [.password] kept) ended ∈ commit.work.log.script ∧
        ∀ other one spend digest clientId instant spent, CommittedAt world.past other one →
          spend ∈ one.work.events →
          spend.told = told (.spendRefreshToken digest clientId instant) (some spent) →
          spent.session ∈ ended → spend.finished ≤ place) ∧
    (∀ place commit session, CommittedAt world.past place commit →
      told (.insertSession session) true ∈ commit.work.log.script →
      provesSecondFactor session = true →
      ∃ request browserDigest answer, commit.call = .finishSignIn request browserDigest answer ∧
        ∃ first < place, ∃ marking, CommittedAt world.past first marking ∧
          PasswordFirst marking request session.person) := by
  refine ⟨?_, ?_, ?_, ?_, ?_⟩
  · intro answered inside response given
    obtain ⟨token, place, commit, here, pid, inserted, ofToken, -⟩ :=
      tokens_answered reached inside given
    refine ⟨place, commit, here, pid, ?_⟩
    rw [ofToken.session]
    exact token_answering reached new here inserted
  · intro answered inside subject given
    have backed := (reached.logged (backedLogs app)).2 answered inside
    change AnswerBacked answered.call answered.answer answered.work.log at backed
    rw [given] at backed
    cases called : answered.call with
    | readLiveSubject id =>
      rw [called] at backed
      obtain ⟨known, read, same, instant, stood⟩ := Standing.read backed
      simp only [stands, Bool.and_eq_true] at stood
      exact ⟨id, known, rfl, same, read, stood.2⟩
    | _ =>
      rw [called] at backed
      cases backed
  · intro place commit code here inserted
    exact code_answering reached new here inserted
  · intro place commit person set here sets inside
    refine ⟨?_, ?_⟩
    · intro read ran id known after said ofPerson alone untouched kept
      exact refused_of_set reached here sets inside ran after untouched kept said ofPerson alone
    · obtain ⟨kept, ended, closes, -⟩ := (factorSet_of_sets reached here sets inside).ended
      have said : told (.endSessionsProvenOnlyBy person [.password] kept) ended ∈
          commit.work.log.script := closes.subset (by simp)
      refine ⟨kept, ended, said, ?_⟩
      intro other one spend digest clientId instant spent there among spends closed
      exact unspent_of_closed reached here said there among spends closed
  · intro place commit session here inserted proves
    exact opened_after_password reached new here inserted proves

def openRealm : Db := homeRealm.insert (.client "web") { webClient with requiresConsent := false }

theorem openRealm_new : NewRealm openRealm where
  client clientId row found := by
    by_cases same : clientId = "web"
    · subst same
      rw [openRealm, Db.client, AList.lookup_insert] at found
      rw [← Option.some.inj found]
      rfl
    · rw [openRealm, Db.client, AList.lookup_insert_ne (by simpa using same)] at found
      exact homeRealm_new.client clientId row found
  person id row found := by
    rw [openRealm, Db.person, AList.lookup_insert_ne (by simp)] at found
    exact homeRealm_new.person id row found
  sessions _ := rfl
  pendings _ := rfl
  codes _ := rfl
  tokens _ := rfl
  consents _ _ := rfl
  totps _ := rfl
  codeAttempts _ := rfl
  securityKeys _ := rfl
  keyEnrollments _ := rfl
  loginFailures _ _ := rfl

/-- The authenticator application of ada shows the code of step 1. -/
def totpAnswers : (question : Ask) → Ans question
  | .sealTotpSecret _ => some [7]
  | .findTotpStep _ _ _ => .ok (some 1)
  | question => homeAnswers question

def adaEnrolls : List (World.Served (calls homeApp)) :=
  [serves (.beginAuthorization homeParameters none) [.secret [10], .id 10],
    serves (.finishSignIn 10 [10] (.password "ada" [1])) [.secret [20], .id 20, .secret [30]],
    ⟨.beginTotpEnrollment (some ⟨20, [20]⟩), totpAnswers, []⟩,
    ⟨.confirmTotpEnrollment (some ⟨20, [20]⟩) [1] "000001", totpAnswers, []⟩,
    serves (.readLiveSubject 20) []]

def isSessionRead : Op → Bool
  | .readSession _ => true
  | _ => false

/-- The sign-in of ada gives a code in a unit that reads no session. -/
theorem adaEnrolls_unread :
    ¬∀ (app : App) (mode : Mode) (start : Db) (ids : List Drawn) (world : World (calls app)),
      NewRealm start → Reachable (calls app) mode start ids world →
      ∀ place commit code, CommittedAt world.past place commit →
        told (.insertAuthorizationCode code) true ∈ commit.work.log.script →
        ReadAnswering commit.work.log.script code.session := by
  intro claimed
  have ran : ((World.initial openRealm []).serve .atomic 100 adaEnrolls).map (fun world =>
      (world.past.reverse[3]?).any fun commit => commit.work.log.script.any givesCodeOfAda &&
        commit.work.log.script.all fun said => !isSessionRead said.1) = some true := by
    decide +kernel
  obtain ⟨world, served, checked⟩ := Option.map_eq_some_iff.mp ran
  obtain ⟨commit, isCommit, both⟩ := (Option.any_eq_true _ _).mp checked
  obtain ⟨gives, unread⟩ := Bool.and_eq_true_iff.mp both
  obtain ⟨said, inside, gives⟩ := List.any_eq_true.mp gives
  obtain ⟨code, rfl, -⟩ := givesCodeOfAda_iff gives
  obtain ⟨known, read, -⟩ := claimed homeApp .atomic openRealm [] world openRealm_new
    (Reachable.initial.of_serve served) 3 commit code (CommittedAt.iff_getElem?.mpr isCommit) inside
  have never := List.all_eq_true.mp unread _ read
  cases never

def confirmsFactorOfAda : Told → Bool
  | ⟨.acceptTotpStep person _ _ .confirmation _, true⟩ => person = 1
  | _ => false

theorem confirmsFactorOfAda_iff {said : Told} (confirms : confirmsFactorOfAda said = true) :
    SetsFactor 1 said := by
  unfold confirmsFactorOfAda at confirms
  split at confirms
  · next person judged step instant =>
    obtain rfl : person = 1 := of_decide_eq_true confirms
    exact Or.inl ⟨judged, step, instant, rfl⟩
  · cases confirms

/-- A read of the session of ada, which the password alone opened, after the
unit at a place. -/
def readsSessionOfAda (place : Nat) (read : language.Event) : Bool :=
  place < read.started && read.wrote.isEmpty &&
    match read.told with
    | ⟨.readSession id, some known⟩ =>
      id = 20 && known.session.person = 1 && !provesSecondFactor known.session
    | _ => false

theorem readsSessionOfAda_iff {place : Nat} {read : language.Event}
    (reads : readsSessionOfAda place read = true) :
    place < read.started ∧ read.wrote = [] ∧ ∃ known,
      read.told = told (.readSession 20) (some known) ∧ known.session.person = 1 ∧
      provesSecondFactor known.session = false := by
  obtain ⟨⟨after, unwritten⟩, rest⟩ := Bool.and_eq_true_iff.mp reads |>.imp_left Bool.and_eq_true_iff.mp
  refine ⟨of_decide_eq_true after, List.isEmpty_iff.mp unwritten, ?_⟩
  split at rest
  · next id known same =>
    simp only [Bool.and_eq_true, decide_eq_true_eq, Bool.not_eq_true'] at rest
    obtain ⟨⟨rfl, ofPerson⟩, alone⟩ := rest
    exact ⟨known, same, ofPerson, alone⟩
  · cases rest

theorem adaEnrolls_refused : ∃ world, NewRealm openRealm ∧
    Reachable (calls homeApp) .atomic openRealm [] world ∧
    ∃ read ∈ world.ran, ∃ known, read.told = told (.readSession 20) (some known) ∧
      provesSecondFactor known.session = false ∧ answersForItsPerson known = false := by
  have ran : ((World.initial openRealm []).serve .atomic 100 adaEnrolls).map (fun world =>
      ((world.past.reverse[6]?).any fun commit => commit.work.log.script.any confirmsFactorOfAda) &&
        world.ran.any (readsSessionOfAda 6) &&
        world.past.all fun commit => commit.work.log.script.all fun said =>
          !removesFactor 1 said.1) = some true := by
    decide +kernel
  obtain ⟨world, served, checked⟩ := Option.map_eq_some_iff.mp ran
  have reached := Reachable.initial.of_serve served
  obtain ⟨⟨confirmed, reads⟩, kept⟩ :=
    Bool.and_eq_true_iff.mp checked |>.imp_left Bool.and_eq_true_iff.mp
  obtain ⟨commit, isCommit, confirms⟩ := (Option.any_eq_true _ _).mp confirmed
  obtain ⟨set, inside, confirms⟩ := List.any_eq_true.mp confirms
  obtain ⟨read, ran, isRead⟩ := List.any_eq_true.mp reads
  obtain ⟨after, unwritten, known, said, ofPerson, alone⟩ := readsSessionOfAda_iff isRead
  refine ⟨world, openRealm_new, reached, read, ran, known, said, alone, ?_⟩
  apply ((sessions_answer_with_their_factors openRealm_new reached).2.2.2.1 6 commit 1 set
    (CommittedAt.iff_getElem?.mpr isCommit) (confirmsFactorOfAda_iff confirms) inside).1 read ran 20 known
    after said ofPerson alone
  · intro write wrote
    rw [unwritten] at wrote
    cases wrote
  · intro later removing since before there said ranSaid
    have unit := List.all_eq_true.mp kept removing there.mem
    simpa using List.all_eq_true.mp unit said ranSaid

end Saffui.Oidc
