import Saffui.Oidc.Withdrawals

/-!
# The way of a request to its code

A request is kept under an id drawn for it, and its row is moved by three
statements only: a first factor is noted, a session it waits for is noted, it
is taken. None touches what the client asked, the person a hint named or the
browser that started it. Taken, it is gone: so it yields one code.

Source: `saffui-core/src/oidc/authorize.rs`, `consent/answer.rs`,
`store/src/stores/codes.rs`.
-/

namespace Saffui.Oidc
open Saffui.Foundation Saffui.Foundation.Language Saffui.Login Saffui.Tokens

/-- One request, at two points of its way. -/
structure SameRequest (first later : PendingAuthorization) : Prop where
  id : later.id = first.id
  asked : later.asked = first.asked
  expectedPerson : later.expectedPerson = first.expectedPerson
  browserDigest : later.browserDigest = first.browserDigest

theorem SameRequest.refl (pending : PendingAuthorization) : SameRequest pending pending :=
  ⟨rfl, rfl, rfl, rfl⟩

theorem SameRequest.trans {first second third : PendingAuthorization}
    (one : SameRequest first second) (other : SameRequest second third) : SameRequest first third :=
  ⟨other.id.trans one.id, other.asked.trans one.asked, other.expectedPerson.trans one.expectedPerson,
    other.browserDigest.trans one.browserDigest⟩

/-- Asked for a sign-in, a client is given no session there was. -/
theorem fresh_of_login {prompt maxAge : Option String} {proof : ProofAsked}
    (asks : readProofAsked prompt maxAge = some proof)
    (login : "login" ∈ Text.words (prompt.getD "")) : proof.fresh = true := by
  have kept : ∀ {before after : ProofAsked} {word : String}, readPrompt before word = some after →
      before.fresh = true → after.fresh = true := by
    intro before after word read fresh
    unfold readPrompt at read
    split at read
    all_goals first | cases read; rfl | cases read; exact fresh | cases read
  have fold : ∀ (words : List String) (before after : ProofAsked),
      words.foldlM readPrompt before = some after → before.fresh = true ∨ "login" ∈ words →
      after.fresh = true := by
    intro words
    induction words with
    | nil =>
      intro before after done either
      obtain rfl : before = after := Option.some.inj done
      simpa using either
    | cons word words ih =>
      intro before after read either
      rw [List.foldlM_cons] at read
      obtain ⟨next, first, rest⟩ := Option.bind_eq_some_iff.mp read
      apply ih next after rest
      rcases either with fresh | inside
      · exact Or.inl (kept first fresh)
      · rcases List.mem_cons.mp inside with rfl | later
        · refine Or.inl ?_
          obtain rfl := Option.some.inj first
          rfl
        · exact Or.inr later
  unfold readProofAsked at asks
  obtain ⟨asked, words, rest⟩ := Option.bind_eq_some_iff.mp asks
  have fresh := fold _ _ _ words (Or.inr login)
  split at rest
  · cases rest
  · split at rest
    · obtain rfl := Option.some.inj rest
      exact fresh
    · split at rest
      · cases rest
      · obtain rfl := Option.some.inj rest
        exact fresh

section Answers

variable {seen now : Db} {id : Uuid}

theorem takePendingAuthorization_answer {instant : Instant} {taken : PendingAuthorization}
    (answered : answer (.takePendingAuthorization id instant) seen now = some taken) :
    Key.pending id ∈ hits (.takePendingAuthorization id instant) seen now ∧
      Db.pending now id = some taken := by
  simp only [answer] at answered
  split at answered
  · next changed =>
    refine ⟨hit_of_changed ?_ changed, answered⟩
    intro other row picked
    cases other <;> simp_all [picks, ofPending]
  · cases answered

/-- What a statement that leaves a row of a request may do to it. -/
theorem pending_written {op : Op} {row : PendingAuthorization}
    (written : (⟨.pending id, some row⟩ : Write Row) ∈ writes op seen now) :
    (∃ before, Db.pending now id = some before ∧
      ((∃ person keyProof instant, op = .markFirstFactor id person keyProof instant ∧
          Key.pending id ∈ hits op seen now ∧
          row = { before with firstFactor := some person, keyProof := keyProof }) ∨
        ∃ session instant, op = .markConsentOwed id session instant ∧
          Key.pending id ∈ hits op seen now ∧ before.consentSession = none ∧
          row = { before with consentSession := some session })) ∨
      (row.id = id ∧ told op (answer op seen now) = told (.insertPendingAuthorization row) true) := by
  rcases mem_writes written with ⟨hit, set⟩ | inserted
  · obtain ⟨-, before, found, picked⟩ := mem_hits.mp hit
    refine Or.inl ⟨before, found, ?_⟩
    change some row = (now.lookup (.pending id)).bind (sets op (.pending id)) at set
    rw [found, Option.bind_some] at set
    cases op with
    | markFirstFactor other person keyProof instant =>
      simp only [picks, ofPending, Bool.and_eq_true, decide_eq_true_eq] at picked
      obtain rfl : id = other := picked.1
      exact Or.inl ⟨person, keyProof, instant, rfl, hit, Option.some.inj set⟩
    | markConsentOwed other session instant =>
      simp only [picks, ofPending, Bool.and_eq_true, decide_eq_true_eq,
        Option.isNone_iff_eq_none] at picked
      obtain rfl : id = other := picked.1.1
      exact Or.inr ⟨session, instant, rfl, hit, picked.2, Option.some.inj set⟩
    | takePendingAuthorization => cases set
    | _ => cases picked
  · obtain ⟨pending, said, named, same⟩ := insertedBy_of_inserts seen inserted
    obtain rfl := Option.some.inj same
    exact Or.inr ⟨named, said⟩

end Answers

section Runs

variable {app : App} {mode : Mode} {start : Db} {ids : List Drawn} {world : World (calls app)}
  {place other units : Nat} {commit one : Commit (calls app)} {event : language.Event}
  {id : Uuid} {row : PendingAuthorization}
  (reached : Reachable (calls app) mode start ids world)

include reached

/-- The same, of a statement of a unit. -/
theorem pending_writer (here : CommittedAt world.past place commit)
    (among : event ∈ commit.work.events)
    (written : (⟨.pending id, some row⟩ : Write Row) ∈ event.writes) :
    (∃ before, Db.pending event.found id = some before ∧ SameRequest before row ∧
      ((∃ person keyProof instant,
          row = { before with firstFactor := some person, keyProof := keyProof } ∧
          told (.markFirstFactor id person keyProof instant) true ∈ commit.work.log.script) ∨
        ∃ session instant, before.consentSession = none ∧
          row = { before with consentSession := some session } ∧
          told (.markConsentOwed id session instant) true ∈ commit.work.log.script)) ∨
      (row.id = id ∧ told (.insertPendingAuthorization row) true ∈ commit.work.log.script) := by
  obtain ⟨-, -, faithful⟩ := reached.faithful here (Work.mem_told_of_mem among)
  rcases pending_written written with ⟨before, found, marks⟩ | ⟨named, inserted⟩
  · rcases marks with ⟨person, keyProof, instant, op, hit, rfl⟩ | ⟨session, instant, op, hit, free, rfl⟩
    · rw [op] at hit
      exact Or.inl ⟨before, found, ⟨rfl, rfl, rfl, rfl⟩,
        Or.inl ⟨person, keyProof, instant, rfl, mem_script_of_op among faithful op (changed_of_hit hit)⟩⟩
    · rw [op] at hit
      exact Or.inl ⟨before, found, ⟨rfl, rfl, rfl, rfl⟩,
        Or.inr ⟨session, instant, free, rfl, mem_script_of_op among faithful op (changed_of_hit hit)⟩⟩
  · exact Or.inr ⟨named, mem_script among ((told_of_op faithful rfl).trans inserted)⟩

/-- A request arrives once. -/
theorem arrived_once {first second : PendingAuthorization}
    (here : CommittedAt world.past place commit) (there : CommittedAt world.past other one)
    (inserted : told (.insertPendingAuthorization first) true ∈ commit.work.log.script)
    (again : told (.insertPendingAuthorization second) true ∈ one.work.log.script)
    (same : first.id = second.id) : place = other ∧ first = second := by
  obtain ⟨backed, only⟩ := committed_backed reached here _ inserted
  obtain ⟨backed', -⟩ := committed_backed reached there _ again
  have drawn := backed'.drawn
  rw [← same] at drawn
  obtain rfl := reached.drawn_once here there backed.drawn drawn
  obtain rfl := here.unique there
  exact ⟨rfl, (only second again).symm⟩

/-- A request kept arrived with a unit before, as it still asks. -/
theorem request_arrived (new : NewRealm start) (within : units ≤ world.past.length)
    (kept : Db.pending (dbAt start world.past units) id = some row) :
    ∃ place < units, ∃ commit first, CommittedAt world.past place commit ∧ first.id = id ∧
      told (.insertPendingAuthorization first) true ∈ commit.work.log.script ∧
      SameRequest first row := by
  obtain ⟨place, before, commit, here, absent, stays, event, among, none_found, written, wrote, isSome⟩ :=
    reached.came_made movement (.pending id) (fun row => row ≠ none)
      (not_not.mpr (new.pendings id)) within (by change Db.pending _ _ ≠ none; simp [kept])
  obtain ⟨first, rfl⟩ := Option.ne_none_iff_exists'.mp isSome
  rcases pending_writer reached here among wrote with ⟨old, found, -⟩ | ⟨named, inserted⟩
  · exact absurd found (by rw [Db.pending, not_not.mp none_found]; simp)
  refine ⟨place, before, commit, first, here, named, inserted, ?_⟩
  by_contra differs
  obtain ⟨last, from_first, upto, unit, there, was, broken⟩ := reached.lost
    (fun db => ∀ row, Db.pending db id = some row → SameRequest first row)
    (Nat.le_of_lt before) within
    (by
      intro row found
      rw [← reached.before_eq here] at found
      exact absurd found (by rw [Db.pending, not_not.mp absent]; simp))
    (fun holds => differs (holds row kept))
  obtain ⟨writer, inside, unbroken, row', wrote', isBroken⟩ := reached.made movement there
    (.pending id) (fun row => ¬∀ kept, row = some kept → SameRequest first kept)
    (not_not.mpr was) broken
  have holds := not_not.mp unbroken
  apply isBroken
  rintro later rfl
  rcases pending_writer reached there inside wrote' with ⟨old, found, same, -⟩ | ⟨named', inserted'⟩
  · exact (holds old found).trans same
  · obtain ⟨-, rfl⟩ := arrived_once reached here there inserted inserted' (named.trans named'.symm)
    exact .refl _

/-- A request a unit took was there until it commits, and is gone after. -/
theorem taken_gone (new : NewRealm start) (here : CommittedAt world.past place commit)
    {instant : Instant} {taken : PendingAuthorization}
    (said : told (.takePendingAuthorization id instant) (some taken) ∈ commit.work.log.script) :
    Db.pending commit.before id = some taken ∧ Db.pending commit.after id = none := by
  obtain ⟨event, among, same, -, faithful, -, answered, before, -⟩ :=
    before_of_leading reached here (committed_backed reached here _ said)
      fun seen now answered => (takePendingAuthorization_answer answered).1
  have kept := before.trans (takePendingAuthorization_answer answered).2
  refine ⟨kept, ?_⟩
  obtain ⟨row, -, -, written⟩ :=
    written_of_hit (takePendingAuthorization_answer (answer_of_told faithful same)).1
  rw [← writes_of_told same] at written
  refine reached.kept_since movement here among (fun row => row = none) written rfl ?_
  intro writer inUnit absent row wrote
  cases row with
  | none => rfl
  | some row =>
    change commit.before.lookup (.pending id) = some taken at kept
    rw [reached.before_eq here] at kept
    obtain ⟨arrival, earlier, begun, first, there, named, inserted, -⟩ :=
      request_arrived reached new (Nat.le_of_lt here.lt) kept
    rcases pending_writer reached here inUnit wrote with ⟨old, found, -⟩ | ⟨named', again⟩
    · exact absurd (found.symm.trans absent) (by simp)
    · obtain ⟨rfl, -⟩ := arrived_once reached there here inserted again (named.trans named'.symm)
      exact absurd earlier (Nat.lt_irrefl _)

/-- A request is taken once. -/
theorem taken_once (new : NewRealm start) (here : CommittedAt world.past place commit)
    (there : CommittedAt world.past other one) {instant instant' : Instant}
    {taken taken' : PendingAuthorization}
    (said : told (.takePendingAuthorization id instant) (some taken) ∈ commit.work.log.script)
    (again : told (.takePendingAuthorization id instant') (some taken') ∈ one.work.log.script) :
    place = other := by
  have later : ∀ {first last : Nat} {early late : Commit (calls app)} {at_ at_' : Instant}
      {given given' : PendingAuthorization}, first < last → CommittedAt world.past first early →
      CommittedAt world.past last late →
      told (.takePendingAuthorization id at_) (some given) ∈ early.work.log.script →
      told (.takePendingAuthorization id at_') (some given') ∉ late.work.log.script := by
    intro first last early late at_ at_' given given' before isFirst isLast takes takesToo
    obtain ⟨kept, gone⟩ := taken_gone reached new isFirst takes
    obtain ⟨present, -⟩ := taken_gone reached new isLast takesToo
    rw [Reachable.after_eq isFirst] at gone
    rw [reached.before_eq isFirst] at kept
    rw [reached.before_eq isLast] at present
    obtain ⟨arrival, earlier, begun, pending, isArrival, named, inserted, -⟩ :=
      request_arrived reached new (Nat.le_of_lt isFirst.lt) kept
    obtain ⟨since, after, -, unit, isSince, absent, back⟩ := reached.lost
      (fun db => Db.pending db id = none) before (Nat.le_of_lt isLast.lt) gone
      (by rw [present]; simp)
    obtain ⟨writer, inUnit, none_found, row, wrote, isRow⟩ := reached.made movement isSince
      (.pending id) (fun row => row ≠ none) (not_not.mpr absent) back
    obtain ⟨row, rfl⟩ := Option.ne_none_iff_exists'.mp isRow
    rcases pending_writer reached isSince inUnit wrote with ⟨old, found, -⟩ | ⟨named', inserted'⟩
    · exact absurd (found.symm.trans (not_not.mp none_found)) (by simp)
    · obtain ⟨rfl, -⟩ :=
        arrived_once reached isArrival isSince inserted inserted' (named.trans named'.symm)
      omega
  rcases Nat.lt_trichotomy place other with less | same | more
  · exact absurd again (later less here there said)
  · exact same
  · exact absurd said (later more there here again)

/-- A session a unit opened is kept once it commits. -/
theorem session_of_inserted (here : CommittedAt world.past place commit) {session : Session}
    (inserted : told (.insertSession session) true ∈ commit.work.log.script) :
    ∃ next, Db.session (dbAt start world.past (place + 1)) session.id = some next ∧
      SessionMoves session next := by
  obtain ⟨event, among, same, -, -, faithful⟩ := event_of_script reached here inserted
  have answered : (inserts (.insertSession session) event.found).isSome = true :=
    answer_of_told faithful same
  obtain ⟨write, isWrite⟩ := Option.isSome_iff_exists.mp answered
  have written : write ∈ event.writes := by
    rw [writes_of_told same]
    exact List.mem_append_right _ (by simp [isWrite])
  have moved := reached.wrote movement here among written
  simp only [inserts] at isWrite
  split at isWrite
  · obtain rfl := Option.some.inj isWrite
    rw [Reachable.after_eq here] at moved
    exact moved session rfl
  · cases isWrite

/-- A call that began by reading a request read it as it then was. -/
theorem request_read (here : CommittedAt world.past place commit) {pending : PendingAuthorization}
    (read : ReadFirst commit.work.log id pending) :
    ∃ units, Db.pending (dbAt start world.past units) id = some pending ∧
      units ≤ world.past.length ∧ ∀ event ∈ commit.work.told,
        (∀ instant, event.op ≠ .readPendingAuthorization id instant) → units ≤ event.started := by
  obtain ⟨instant, rest, split⟩ := read
  rw [Work.told_log] at split
  obtain ⟨first, others, told_, said, -⟩ := List.map_eq_cons_iff.mp split.symm
  have among : first ∈ commit.work.told := by simp [told_]
  obtain ⟨-, -, faithful⟩ := reached.faithful here among
  have alone := (reached.begun here.mem).first first others told_
  have answered : answer (.readPendingAuthorization id instant) first.seen first.found =
      some pending := answer_of_told faithful said
  obtain ⟨found, -⟩ := Option.filter_eq_some_iff.mp answered
  rw [Event.seen, alone, overlay_nil, faithful.snapshot] at found
  refine ⟨first.started, found, Nat.le_trans faithful.started faithful.finished, ?_⟩
  intro event inside differs
  have ordered := reached.ordered here
  rw [told_, List.pairwise_cons] at ordered
  rw [told_] at inside
  rcases List.mem_cons.mp inside with rfl | later
  · exact absurd (congrArg Sigma.fst said) (differs instant)
  · exact Nat.le_trans faithful.started (ordered.1 event later)

/-- A session opened for a request was opened after the request arrived. -/
theorem opened_since (new : NewRealm start) (here : CommittedAt world.past place commit)
    {pending : PendingAuthorization} {session : Session}
    (openedFor : OpenedFor commit.work.log id pending session) :
    ∃ arrival opened, arrival < opened ∧ opened < place ∧ ∃ begun first opening,
      CommittedAt world.past arrival begun ∧ first.id = id ∧
      told (.insertPendingAuthorization first) true ∈ begun.work.log.script ∧
      SameRequest first pending ∧ CommittedAt world.past opened opening ∧
      told (.insertSession session) true ∈ opening.work.log.script := by
  obtain ⟨script, ended, inserted⟩ := openedFor.opened
  obtain ⟨unit, inside, isUnit⟩ := List.mem_map.mp ended
  obtain ⟨committed, rfl⟩ := Prod.mk.inj isUnit
  obtain ⟨opened, before, opening, there, -, -, ran⟩ := reached.earlier here inside committed
  obtain ⟨units, kept, within, order⟩ := request_read reached here openedFor.read
  obtain ⟨arrival, earlier, begun, first, isArrival, named, arrives, same⟩ :=
    request_arrived reached new within kept
  obtain ⟨event, among, isInsert⟩ := List.mem_map.mp inserted
  have told_ : event ∈ commit.work.told :=
    List.mem_append_left _ (List.mem_flatMap.mpr ⟨unit, inside, among⟩)
  have since := order event told_ fun instant same => by
    have op := congrArg Sigma.fst isInsert
    change event.op = .insertSession session at op
    cases op.symm.trans same
  rw [← ran] at among inserted
  obtain ⟨-, finished, faithful⟩ := reached.faithful there (Work.mem_told_of_mem among)
  have started := faithful.started
  exact ⟨arrival, opened, by omega, before, begun, first, opening, isArrival, named, arrives, same,
    there, inserted⟩

/-- The session a request waits for was noted when it arrived, or later. -/
theorem waits_for (new : NewRealm start) (within : units ≤ world.past.length)
    (kept : Db.pending (dbAt start world.past units) id = some row) {session : Uuid}
    (waits : row.consentSession = some session) :
    ∃ place < units, ∃ commit, CommittedAt world.past place commit ∧
      ((∃ first, first.id = id ∧ first.consentSession = some session ∧
          told (.insertPendingAuthorization first) true ∈ commit.work.log.script) ∨
        ∃ instant, told (.markConsentOwed id session instant) true ∈ commit.work.log.script) := by
  obtain ⟨place, before, commit, here, -, -, event, among, unnoted, written, wrote, noted⟩ :=
    reached.came_made movement (.pending id)
      (fun row => ∃ kept, row = some kept ∧ kept.consentSession = some session)
      (by rintro ⟨row, found, -⟩; cases (new.pendings id).symm.trans found) within
      ⟨row, kept, waits⟩
  obtain ⟨left, rfl, isNoted⟩ := noted
  refine ⟨place, before, commit, here, ?_⟩
  rcases pending_writer reached here among wrote with ⟨old, found, -, marks⟩ | ⟨named, inserted⟩
  · rcases marks with ⟨person, keyProof, instant, rfl, -⟩ | ⟨given, instant, -, rfl, said⟩
    · exact absurd ⟨old, found, isNoted⟩ unnoted
    · obtain rfl : given = session := Option.some.inj isNoted
      exact Or.inr ⟨instant, said⟩
  · exact Or.inl ⟨left, named, isNoted, inserted⟩

/-- The person of the session a request waits for is the one a hint named, and
where a sign-in was asked the session was opened since. -/
theorem waiting_backed (new : NewRealm start) (within : units ≤ world.past.length)
    (kept : Db.pending (dbAt start world.past units) id = some row) {session : Uuid}
    (waits : row.consentSession = some session) :
    (∃ found, Db.session (dbAt start world.past units) session = some found ∧
      ∀ person, row.expectedPerson = some person → found.person = person) ∧
    ∀ arrival begun first, CommittedAt world.past arrival begun → first.id = id →
      told (.insertPendingAuthorization first) true ∈ begun.work.log.script →
      (∃ parameters ticket proof, begun.call = .beginAuthorization parameters ticket ∧
        readProofAsked parameters.prompt parameters.maxAge = some proof ∧ proof.fresh = false) ∨
      ∃ opened opening found, arrival < opened ∧ opened < units ∧
        CommittedAt world.past opened opening ∧ found.id = session ∧
        told (.insertSession found) true ∈ opening.work.log.script := by
  obtain ⟨arrived, -, begins, request, isArrived, isNamed, arrives, same⟩ :=
    request_arrived reached new within kept
  obtain ⟨place, earlier, commit, here, noted⟩ := waits_for reached new within kept waits
  rcases noted with ⟨first, named, noted, inserted⟩ | ⟨instant, marked⟩
  · obtain ⟨⟨-, -, parameters, ticket, client, proof, called, -, -, asks, -, waiting⟩, -⟩ :=
      committed_backed reached here _ inserted
    obtain ⟨old, shown, found, -, standing, rfl, hinted⟩ := waiting session noted
    obtain ⟨-, rfl⟩ := arrived_once reached isArrived here arrives inserted (isNamed.trans named.symm)
    refine ⟨?_, ?_⟩
    · obtain ⟨known, read, rfl, -⟩ := standing.read
      obtain ⟨id, next, there, moved⟩ := session_of_read reached new here read
      obtain ⟨last, isLast, moves⟩ := reached.grows movement earlier within (.session _) next there
      rw [id]
      refine ⟨last, isLast, fun person expected => ?_⟩
      rw [moves.1, moved.1]
      exact hinted person (same.expectedPerson.symm.trans expected)
    · intro arrival begun other there isOther again
      obtain ⟨rfl, -⟩ := arrived_once reached here there inserted again (named.trans isOther.symm)
      obtain rfl := here.unique there
      exact Or.inl ⟨parameters, ticket, proof, called, asks, old⟩
  · obtain ⟨browserDigest, answer, pending, found, -, openedFor, rfl, hinted⟩ :=
      committed_backed reached here _ marked
    obtain ⟨arrival, opened, order, until_mark, begun, first, opening, isArrival, named, inserted, read,
      isOpened, opens⟩ := opened_since reached new here openedFor
    obtain ⟨-, rfl⟩ :=
      arrived_once reached isArrived isArrival arrives inserted (isNamed.trans named.symm)
    refine ⟨?_, ?_⟩
    · obtain ⟨next, there, moved⟩ := session_of_inserted reached isOpened opens
      obtain ⟨last, isLast, moves⟩ := reached.grows movement (show opened + 1 ≤ units by omega) within
        (.session _) next there
      refine ⟨last, isLast, fun person expected => ?_⟩
      rw [moves.1, moved.1]
      have expects : pending.expectedPerson = some person := by
        rw [read.expectedPerson, ← same.expectedPerson]
        exact expected
      simp only [isHintedAtAnother, expects, Option.any_some] at hinted
      exact (not_not.mp (of_decide_eq_false hinted)).symm
    · intro arrival' begun' other there isOther again
      obtain ⟨rfl, -⟩ := arrived_once reached isArrival there inserted again (named.trans isOther.symm)
      exact Or.inr ⟨opened, opening, found, order, by omega, isOpened, rfl, opens⟩

end Runs

/-- Where the parameters of a request hold an identity token hint, the person
is the one it names, read with the keys listed. -/
def HintedAt (app : App) (parameters : AuthorizationParameters) (script : List Told) (person : Uuid) :
    Prop :=
  ∀ hint, parameters.idTokenHint.filter (· ≠ "") = some hint → ∃ keys named,
    told .listSigningKeys keys ∈ script ∧
    readIdentityHint app.toTokenPackages app.issuer hint keys = some named ∧
    Uuid.parse named.subject = some person

theorem HintedAt.of_expects {app : App} {parameters : AuthorizationParameters} {script : List Told}
    {expected : Option Uuid} {person : Uuid} (expects : Expects app parameters script expected)
    (same : ∀ one, expected = some one → person = one) : HintedAt app parameters script person := by
  intro hint present
  unfold Expects at expects
  rw [present] at expects
  obtain ⟨keys, named, listed, read, isSome, parsed⟩ := expects
  obtain ⟨one, isOne⟩ := Option.isSome_iff_exists.mp isSome
  refine ⟨keys, named, listed, read, ?_⟩
  rw [← parsed, isOne, same one isOne]

/-- A code a session was given at once, for a request that asked no sign-in. -/
structure GivenAtOnce {app : App} (commit : Commit (calls app)) (code : AuthorizationCode)
    (parameters : AuthorizationParameters) (client : Client) : Prop where
  called : ∃ ticket, commit.call = .beginAuthorization parameters (some ticket)
  named : ∃ id, parameters.clientId = some id ∧
    told (.readClient id) (some client) ∈ commit.work.log.script
  asks : Asks parameters client code.asked
  hinted : HintedAt app parameters commit.work.log.script code.person
  unasked : "login" ∉ Text.words (parameters.prompt.getD "")

/-- A request as it arrived, with the parameters it was made of. -/
structure Arrived {app : App} (begun : Commit (calls app)) (first : PendingAuthorization)
    (parameters : AuthorizationParameters) (client : Client) : Prop where
  kept : told (.insertPendingAuthorization first) true ∈ begun.work.log.script
  called : ∃ ticket, begun.call = .beginAuthorization parameters ticket
  named : ∃ id, parameters.clientId = some id ∧
    told (.readClient id) (some client) ∈ begun.work.log.script
  asks : Asks parameters client first.asked

/-- A code given for a request that arrived after `arrival` units, by a unit
that took it, itself after `place`. -/
structure GivenFor {app : App} (past : List (Commit (calls app))) (arrival place : Nat)
    (begun commit : Commit (calls app)) (code : AuthorizationCode) (first : PendingAuthorization)
    (parameters : AuthorizationParameters) : Prop where
  asked : code.asked = first.asked
  hinted : HintedAt app parameters begun.work.log.script code.person
  /-- Asked to sign in, the person did so for this request. -/
  signedIn : "login" ∈ Text.words (parameters.prompt.getD "") → ∃ opened opening session,
    arrival < opened ∧ opened < place ∧ CommittedAt past opened opening ∧
    told (.insertSession session) true ∈ opening.work.log.script ∧ session.id = code.session
  taken : ∃ instant taken,
    told (.takePendingAuthorization first.id instant) (some taken) ∈ commit.work.log.script ∧
    /- From the page of consents: by the browser of the request, in the session
    it was left waiting with, which the ticket proves. -/
    ∀ request browserDigest ticket decision,
      commit.call = .answerConsent request browserDigest ticket decision →
      request = first.id ∧ browserDigest = first.browserDigest ∧
      taken.consentSession = some code.session ∧ ∃ shown session, ticket = some shown ∧
        Standing commit.work.log.script shown.session session ∧ session.id = code.session ∧
        shown.session = code.session ∧ session.secretDigest = shown.secretDigest

section Results

variable {app : App} {mode : Mode} {start : Db} {ids : List Drawn} {world : World (calls app)}
  {place : Nat} {commit : Commit (calls app)} {code : AuthorizationCode}
  (reached : Reachable (calls app) mode start ids world)

include reached

/-- What a request was made of when it arrived. -/
theorem arrived_with {begun : Commit (calls app)} {arrival : Nat} {first : PendingAuthorization}
    (here : CommittedAt world.past arrival begun)
    (inserted : told (.insertPendingAuthorization first) true ∈ begun.work.log.script) :
    ∃ parameters client, Arrived begun first parameters client ∧
      Expects app parameters begun.work.log.script first.expectedPerson := by
  obtain ⟨⟨-, -, parameters, ticket, client, proof, called, named, asks, -, expects, -⟩, -⟩ :=
    committed_backed reached here _ inserted
  exact ⟨parameters, client, ⟨inserted, ⟨ticket, called⟩, named, asks⟩, expects⟩

/-- A code given at the end of a sign-in. -/
theorem given_of_finished (new : NewRealm start) (here : CommittedAt world.past place commit)
    {request : Uuid} {browserDigest : Bytes} {answer : SignInAnswer}
    {taken pending : PendingAuthorization} {session : Session}
    (called : commit.call = .finishSignIn request browserDigest answer)
    (take : ∃ instant, told (.takePendingAuthorization request instant) (some taken) ∈
      commit.work.log.script)
    (asked : code.asked = taken.asked) (hinted : isHintedAtAnother taken code.person = false)
    (openedFor : OpenedFor commit.work.log request pending session)
    (inSession : code.session = session.id) :
    ∃ arrival begun first parameters client, arrival < place ∧
      CommittedAt world.past arrival begun ∧ Arrived begun first parameters client ∧
      GivenFor world.past arrival place begun commit code first parameters := by
  obtain ⟨instant, takes⟩ := take
  obtain ⟨kept, -⟩ := taken_gone reached new here takes
  rw [reached.before_eq here] at kept
  obtain ⟨arrival, before, begun, first, isArrival, rfl, inserted, same⟩ :=
    request_arrived reached new (Nat.le_of_lt here.lt) kept
  obtain ⟨parameters, client, arrived, expects⟩ := arrived_with reached isArrival inserted
  refine ⟨arrival, begun, first, parameters, client, before, isArrival, arrived, ?_, ?_, ?_, ?_⟩
  · rw [asked, same.asked]
  · refine .of_expects expects fun person expected => ?_
    simp only [isHintedAtAnother, same.expectedPerson, expected, Option.any_some] at hinted
    exact (not_not.mp (of_decide_eq_false hinted)).symm
  · intro _
    obtain ⟨arrival', opened, order, before', begun', first', opening, isArrival', named', inserted',
      -, isOpened, opens⟩ := opened_since reached new here openedFor
    obtain ⟨rfl, -⟩ := arrived_once reached isArrival isArrival' inserted inserted' named'.symm
    exact ⟨opened, opening, session, order, before', isOpened, opens, inSession.symm⟩
  · refine ⟨instant, taken, takes, fun request' browser ticket decision isCall => ?_⟩
    cases called.symm.trans isCall

/-- A code given on the page of consents. -/
theorem given_of_allowed (new : NewRealm start) (here : CommittedAt world.past place commit)
    {request : Uuid} {browserDigest : Bytes} {ticket : SessionTicket}
    {taken : PendingAuthorization} {session : Session} {client : Client}
    (called : commit.call = .answerConsent request browserDigest (some ticket) .allow)
    (take : ∃ instant, told (.takePendingAuthorization request instant) (some taken) ∈
      commit.work.log.script)
    (browser : taken.browserDigest = browserDigest)
    (waiting : taken.consentSession = some session.id)
    (proves : session.secretDigest = ticket.secretDigest)
    (read : told (.readClient taken.clientId) (some client) ∈ commit.work.log.script)
    (asked : code.asked = { taken.asked with clientId := client.clientId })
    (standing : Standing commit.work.log.script ticket.session session)
    (inSession : code.session = session.id) (ofPerson : code.person = session.person) :
    ∃ arrival begun first parameters client, arrival < place ∧
      CommittedAt world.past arrival begun ∧ Arrived begun first parameters client ∧
      GivenFor world.past arrival place begun commit code first parameters := by
  obtain ⟨instant, takes⟩ := take
  obtain ⟨kept, -⟩ := taken_gone reached new here takes
  rw [reached.before_eq here] at kept
  obtain ⟨arrival, before, begun, first, isArrival, rfl, inserted, same⟩ :=
    request_arrived reached new (Nat.le_of_lt here.lt) kept
  obtain ⟨parameters, client', arrived, expects⟩ := arrived_with reached isArrival inserted
  obtain ⟨⟨found, isFound, hinted⟩, since⟩ :=
    waiting_backed reached new (Nat.le_of_lt here.lt) kept waiting
  refine ⟨arrival, begun, first, parameters, client', before, isArrival, arrived, ?_, ?_, ?_, ?_⟩
  · rw [asked, (client_of_read reached new here read).2, ← same.asked]
    rfl
  · refine .of_expects expects fun person expected => ?_
    obtain ⟨known, wasRead, rfl, -⟩ := standing.read
    obtain ⟨named, next, there, moved⟩ := session_of_read reached new here wasRead
    obtain ⟨last, isLast, moves⟩ := reached.grows movement (Nat.le_succ place) here.lt (.session _) found
      isFound
    rw [named] at isLast
    obtain rfl : last = next := Option.some.inj (isLast.symm.trans there)
    have one : last.person = known.session.person := by rw [moved.1]
    have other : last.person = found.person := by rw [moves.1]
    rw [ofPerson, ← one, other]
    exact hinted person (same.expectedPerson.trans expected)
  · intro login
    rcases since arrival begun first isArrival rfl inserted with
      ⟨parameters', ticket', proof, isCall, asks, old⟩ |
      ⟨opened, opening, found', order, before', isOpened, named, opens⟩
    · obtain ⟨ticket'', isCall'⟩ := arrived.called
      obtain ⟨rfl, -⟩ := Call.beginAuthorization.inj (isCall'.symm.trans isCall)
      rw [fresh_of_login asks login] at old
      cases old
    · exact ⟨opened, opening, found', order, before', isOpened, opens, named.trans inSession.symm⟩
  · refine ⟨instant, taken, takes, fun request' browserDigest' ticket' decision isCall => ?_⟩
    obtain ⟨rfl, rfl, rfl, -⟩ := Call.answerConsent.inj (called.symm.trans isCall)
    refine ⟨rfl, browser.symm.trans same.browserDigest, waiting.trans (by rw [inSession]), ticket,
      session, rfl, standing, inSession.symm, ?_, proves⟩
    obtain ⟨known, wasRead, rfl, -⟩ := standing.read
    rw [inSession, (session_of_read reached new here wasRead).1]

end Results

/-- Over any interleaving of the calls: a request that was taken yields one
code. Every code was given at once by a session that answered, for a request
that asked no sign-in, or for a request that arrived before: it repeats what
that request asked, is for the person its hint named, is of a session opened
since where a sign-in was asked, and on the page of consents is given only to
the browser of the request and the session it was left waiting with. -/
theorem requests_yield_their_codes {app : App} {mode : Mode} {start : Db} {ids : List Drawn}
    {world : World (calls app)} (new : NewRealm start)
    (reached : Reachable (calls app) mode start ids world) :
    (∀ place other commit one request instant instant' taken taken' code code',
      CommittedAt world.past place commit → CommittedAt world.past other one →
      told (.takePendingAuthorization request instant) (some taken) ∈ commit.work.log.script →
      told (.takePendingAuthorization request instant') (some taken') ∈ one.work.log.script →
      told (.insertAuthorizationCode code) true ∈ commit.work.log.script →
      told (.insertAuthorizationCode code') true ∈ one.work.log.script →
      place = other ∧ code = code') ∧
    (∀ place commit code, CommittedAt world.past place commit →
      told (.insertAuthorizationCode code) true ∈ commit.work.log.script →
      (∃ parameters client, GivenAtOnce commit code parameters client) ∨
      ∃ arrival begun first parameters client, arrival < place ∧
        CommittedAt world.past arrival begun ∧ Arrived begun first parameters client ∧
        GivenFor world.past arrival place begun commit code first parameters) := by
  refine ⟨?_, ?_⟩
  · intro place other commit one request instant instant' taken taken' code code' here there takes
      takesToo inserted again
    obtain rfl := taken_once reached new here there takes takesToo
    obtain rfl := here.unique there
    obtain ⟨-, only⟩ := committed_backed reached here _ inserted
    exact ⟨rfl, (only code' again).symm⟩
  · intro place commit code here inserted
    obtain ⟨backed, -⟩ := committed_backed reached here _ inserted
    cases backed with
    | begun called read asked asks fresh expects hinted standing inSession ofPerson =>
      refine Or.inl ⟨_, _, ⟨_, called⟩, read, asked, .of_expects expects hinted, fun login => ?_⟩
      rw [fresh_of_login asks login] at fresh
      cases fresh
    | finished called take asked hinted opened inSession ofPerson =>
      exact Or.inr (given_of_finished reached new here called take asked hinted opened inSession)
    | allowed called take browser waiting proves read asked standing inSession ofPerson =>
      exact Or.inr (given_of_allowed reached new here called take browser waiting proves read asked
        standing inSession ofPerson)

def givesCodeOfAda : Told → Bool
  | ⟨.insertAuthorizationCode code, true⟩ => code.codeDigest = [30]
  | _ => false

theorem givesCodeOfAda_iff {said : Told} (gives : givesCodeOfAda said = true) :
    ∃ code, said = told (.insertAuthorizationCode code) true ∧ code.codeDigest = [30] := by
  unfold givesCodeOfAda at gives
  split at gives
  · next code => exact ⟨code, rfl, of_decide_eq_true gives⟩
  · cases gives

def isConsentAnswer : Call → Bool
  | .answerConsent _ _ _ _ => true
  | _ => false

theorem adaSignsIn_yields : ∃ world, NewRealm homeRealm ∧
    Reachable (calls homeApp) .atomic homeRealm [] world ∧
    ∃ commit code arrival begun first parameters client, CommittedAt world.past 4 commit ∧
      code.codeDigest = [30] ∧ told (.insertAuthorizationCode code) true ∈ commit.work.log.script ∧
      arrival < 4 ∧ CommittedAt world.past arrival begun ∧ Arrived begun first parameters client ∧
      GivenFor world.past arrival 4 begun commit code first parameters := by
  have ran : ((World.initial homeRealm []).serve .atomic 100 adaSignsIn).map (fun world =>
      (world.past.reverse[4]?).any fun commit => isConsentAnswer commit.call &&
        commit.work.log.script.any givesCodeOfAda) = some true := by
    decide +kernel
  obtain ⟨world, served, checked⟩ := Option.map_eq_some_iff.mp ran
  have reached := Reachable.initial.of_serve served
  obtain ⟨commit, isCommit, both⟩ := (Option.any_eq_true _ _).mp checked
  obtain ⟨answers, gives⟩ := Bool.and_eq_true_iff.mp both
  obtain ⟨said, inside, gives⟩ := List.any_eq_true.mp gives
  obtain ⟨code, rfl, digest⟩ := givesCodeOfAda_iff gives
  have here := CommittedAt.iff_getElem?.mpr isCommit
  rcases (requests_yield_their_codes homeRealm_new reached).2 4 commit code here inside with
    ⟨parameters, client, ⟨ticket, called⟩, -⟩ | ⟨arrival, begun, first, parameters, client, given⟩
  · rw [called] at answers
    cases answers
  · exact ⟨world, homeRealm_new, reached, commit, code, arrival, begun, first, parameters, client, here,
      digest, inside, given⟩

end Saffui.Oidc
