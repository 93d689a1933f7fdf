import Saffui.Oidc.Families

/-!
# A code presented twice

One exchange spends a code, in a unit that commits whatever follows, and binds
it to the family it opens in another. Between the two a replay may come. It
marks the code, and a marked code is bound no more; or it finds the family
bound, as the row of the code is held from the binding to its commit, and
revokes it. Either way the code obtains nothing that lasts. A replay that comes
before the spend committed waits for it, as the row of the code is held, unless
it reads a clock past the expiry of the code: then the row is none it waits for.

Source: `saffui-core/src/oidc/token.rs`, `store/src/stores/codes.rs`.
-/

namespace Saffui.Oidc
open Saffui.Foundation Saffui.Foundation.Language Saffui.Login

section Answers

variable {seen now : Db} {digest : Bytes} {instant : Instant}

theorem changed_of_hit {op : Op} {key : Key} (hit : key ∈ hits op seen now) :
    (!(hits op seen now).isEmpty) = true := by
  cases keys : hits op seen now with
  | nil => rw [keys] at hit; cases hit
  | cons => rfl

/-- A spend that is answered nothing found no row. -/
theorem spendAuthorizationCode_unhit
    (answered : answer (.spendAuthorizationCode digest instant) seen now = none) :
    hits (.spendAuthorizationCode digest instant) seen now = [] := by
  rw [List.eq_nil_iff_forall_not_mem]
  intro key hit
  obtain ⟨⟨read, -, picked⟩, row, found, -⟩ := mem_hits.mp hit
  have same : key = .code digest := by
    cases key <;> simp_all [picks, ofCode]
  subst same
  change (if _ then _ else _) = none at answered
  rw [if_pos (changed_of_hit hit), Db.code, found] at answered
  cases answered

/-- A spend that found nothing to spend wrote nothing. -/
theorem spendAuthorizationCode_none
    (answered : answer (.spendAuthorizationCode digest instant) seen now = none) :
    writes (.spendAuthorizationCode digest instant) seen now = [] := by
  simp [writes, spendAuthorizationCode_unhit answered, inserts, writeEach]

/-- A code that is marked was spent, is of that client, and was not marked. -/
theorem markCodeReplayed_hit {clientId : String} {key : Key}
    (hit : key ∈ hits (.markCodeReplayed digest clientId instant) seen now) :
    key = .code digest ∧ ∃ stored, Db.code now digest = some stored ∧
      stored.code.clientId = clientId ∧
      answer (.markCodeReplayed digest clientId instant) seen now =
        some ⟨stored.code.person, stored.code.session, stored.family⟩ := by
  obtain ⟨-, row, found, picked⟩ := mem_hits.mp hit
  have same : key = .code digest := by
    cases key <;> simp_all [picks, ofCode]
  subst same
  simp only [picks, ofCode, Bool.and_eq_true, decide_eq_true_eq] at picked
  refine ⟨rfl, row, found, picked.1.1.2, ?_⟩
  change (if _ then _ else _) = _
  rw [if_pos (changed_of_hit hit), Db.code, found]
  rfl

/-- A statement that leaves a mark where there was none marks it. -/
theorem marks_of_written {op : Op} {row : StoredCode}
    (written : (⟨.code digest, some row⟩ : Write Row) ∈ writes op seen now)
    (unmarked : ∀ stored, Db.code now digest = some stored → stored.replayedAt = none)
    (marked : row.replayedAt.isSome) :
    ∃ clientId instant, op = .markCodeReplayed digest clientId instant ∧
      Key.code digest ∈ hits op seen now := by
  rcases mem_writes written with ⟨hit, set⟩ | inserted
  · obtain ⟨-, stored, found, picked⟩ := mem_hits.mp hit
    have free := unmarked stored found
    change some row = (now.lookup (.code digest)).bind (sets op (.code digest)) at set
    rw [found, Option.bind_some] at set
    cases op with
    | markCodeReplayed other clientId instant =>
      simp only [picks, ofCode, Bool.and_eq_true, decide_eq_true_eq] at picked
      obtain rfl : digest = other := picked.1.1.1
      exact ⟨clientId, instant, rfl, hit⟩
    | spendAuthorizationCode | bindCodeFamily =>
      have same : row.replayedAt = stored.replayedAt := by rw [Option.some.inj set]
      rw [same, free] at marked
      cases marked
    | _ => cases picked
  · have said := insertedBy_of_inserts seen inserted
    obtain ⟨code, -, -, same⟩ := said
    obtain rfl := Option.some.inj same
    cases marked

/-- A statement that leaves a family where there was another binds it. -/
theorem binds_of_written {op : Op} {row : StoredCode} {family : Uuid}
    (written : (⟨.code digest, some row⟩ : Write Row) ∈ writes op seen now)
    (other : ∀ stored, Db.code now digest = some stored → stored.family ≠ some family)
    (bound : row.family = some family) :
    op = .bindCodeFamily digest family ∧ Key.code digest ∈ hits op seen now := by
  rcases mem_writes written with ⟨hit, set⟩ | inserted
  · obtain ⟨-, stored, found, picked⟩ := mem_hits.mp hit
    have free := other stored found
    change some row = (now.lookup (.code digest)).bind (sets op (.code digest)) at set
    rw [found, Option.bind_some] at set
    cases op with
    | bindCodeFamily named given =>
      simp only [picks, ofCode, Bool.and_eq_true, decide_eq_true_eq] at picked
      obtain rfl : digest = named := picked.1.1
      have same : row.family = some given := by rw [Option.some.inj set]
      obtain rfl : given = family := Option.some.inj (same.symm.trans bound)
      exact ⟨rfl, hit⟩
    | spendAuthorizationCode | markCodeReplayed =>
      have same : row.family = stored.family := by rw [Option.some.inj set]
      exact absurd (same.symm.trans bound) free
    | _ => cases picked
  · have said := insertedBy_of_inserts seen inserted
    obtain ⟨code, -, -, same⟩ := said
    obtain rfl := Option.some.inj same
    cases bound

end Answers

section Runs

variable {app : App} {mode : Mode} {start : Db} {ids : List Drawn} {world : World (calls app)}
  {place other units : Nat} {commit one : Commit (calls app)} {event : language.Event}
  {digest : Bytes} {instant : Instant} {code : AuthorizationCode} {family : Uuid}
  (reached : Reachable (calls app) mode start ids world)

include reached

/-- A code a unit spent is unspent until it commits, and spent from then on. -/
theorem code_of_spent (here : CommittedAt world.past place commit)
    (said : told (.spendAuthorizationCode digest instant) (some code) ∈ commit.work.log.script) :
    (∃ stored, Db.code commit.before digest = some stored ∧ stored.spentAt = none) ∧
      ∃ next, Db.code commit.after digest = some next ∧ next.code = code ∧ next.spentAt.isSome := by
  obtain ⟨event, -, -, -, -, -, answered, before, row, found, grown⟩ :=
    before_of_leading reached here (committed_backed reached here _ said).1
      fun seen now answered => (spendAuthorizationCode_answer answered).1
  obtain ⟨-, stored, read, ofCode, unspent⟩ := spendAuthorizationCode_answer answered
  obtain rfl : row = stored := Option.some.inj (found.symm.trans read)
  obtain ⟨next, after, moved⟩ := grown { row with spentAt := some instant } rfl
  exact ⟨⟨row, before.trans read, unspent⟩, next, after, moved.code.trans ofCode, moved.spent.isSome rfl⟩

/-- Until a unit that spent it commits, a code is unspent wherever it is kept. -/
theorem unspent_until (here : CommittedAt world.past place commit)
    (said : told (.spendAuthorizationCode digest instant) (some code) ∈ commit.work.log.script)
    (least : units ≤ place) {row : StoredCode}
    (kept : Db.code (dbAt start world.past units) digest = some row) :
    row.spentAt = none ∧ row.code = code := by
  obtain ⟨⟨before, isBefore, unspent⟩, final, isAfter, isCode, -⟩ := code_of_spent reached here said
  obtain ⟨next, isNext, moved⟩ :=
    reached.grows movement least (Nat.le_of_lt here.lt) (.code digest) row kept
  rw [← reached.before_eq here] at isNext
  obtain rfl : next = before := Option.some.inj (isNext.symm.trans isBefore)
  obtain ⟨last, isLast, moved'⟩ := reached.grows_commit movement here (.code digest) next isBefore
  obtain rfl : last = final := Option.some.inj (isLast.symm.trans isAfter)
  refine ⟨?_, (moved.code.symm.trans moved'.code.symm).trans isCode⟩
  by_contra set
  have still := moved.spent.isSome (Option.isSome_iff_ne_none.mpr set)
  simp [unspent] at still

/-- A code is spent by one unit. -/
theorem code_spent_once (here : CommittedAt world.past place commit)
    (there : CommittedAt world.past other one) {instant' : Instant} {code' : AuthorizationCode}
    (said : told (.spendAuthorizationCode digest instant) (some code) ∈ commit.work.log.script)
    (again : told (.spendAuthorizationCode digest instant') (some code') ∈ one.work.log.script) :
    place = other := by
  have later : ∀ {first last : Nat} {early late : Commit (calls app)} {at_ at_' : Instant}
      {given given' : AuthorizationCode}, first < last → CommittedAt world.past first early →
      CommittedAt world.past last late →
      told (.spendAuthorizationCode digest at_) (some given) ∈ early.work.log.script →
      told (.spendAuthorizationCode digest at_') (some given') ∉ late.work.log.script := by
    intro first last early late at_ at_' given given' before isFirst isLast spends spendsToo
    obtain ⟨-, next, after, -, spent⟩ := code_of_spent reached isFirst spends
    obtain ⟨⟨stored, kept, unspent⟩, -⟩ := code_of_spent reached isLast spendsToo
    have grown := reached.grows movement before (Nat.le_of_lt isLast.lt) (.code digest)
    rw [← Reachable.after_eq isFirst, ← reached.before_eq isLast] at grown
    obtain ⟨last, found, moved⟩ := grown next after
    obtain rfl : last = stored := Option.some.inj (found.symm.trans kept)
    have still := moved.spent.isSome spent
    simp [unspent] at still
  rcases Nat.lt_trichotomy place other with less | same | more
  · exact absurd again (later less here there said)
  · exact same
  · exact absurd said (later more there here again)

/-- The call that spent a code is one. -/
theorem spender_unique (here : CommittedAt world.past place commit)
    (there : CommittedAt world.past other one) {request request' : CodeRequest}
    {client client' : Client} {code' : AuthorizationCode}
    (spent : SpentCode commit.work.log request client code)
    (spent' : SpentCode one.work.log request' client' code') (same : request.code = request'.code) :
    commit.pid = one.pid := by
  obtain ⟨script, ended, -, instant, spends⟩ := spent.unit
  obtain ⟨script', ended', -, instant', spends'⟩ := spent'.unit
  obtain ⟨unit, inside, isUnit⟩ := List.mem_map.mp ended
  obtain ⟨unit', inside', isUnit'⟩ := List.mem_map.mp ended'
  obtain ⟨committed, rfl⟩ := Prod.mk.inj isUnit
  obtain ⟨committed', rfl⟩ := Prod.mk.inj isUnit'
  obtain ⟨first, -, early, isEarly, pid, -, ran⟩ := reached.earlier here inside committed
  obtain ⟨second, -, late, isLate, pid', -, ran'⟩ := reached.earlier there inside' committed'
  rw [← ran] at spends
  rw [← ran', ← same] at spends'
  obtain rfl := code_spent_once reached isEarly isLate spends spends'
  obtain rfl := isEarly.unique isLate
  exact pid.symm.trans pid'

/-- A code is bound by one unit, to one family. -/
theorem bound_once (here : CommittedAt world.past place commit)
    (there : CommittedAt world.past other one) {family' : Uuid}
    (said : told (.bindCodeFamily digest family) true ∈ commit.work.log.script)
    (again : told (.bindCodeFamily digest family') true ∈ one.work.log.script) :
    place = other ∧ family = family' := by
  obtain ⟨-, request, client, code, -, named, spent, -, only, alone⟩ :=
    committed_backed reached here _ said
  obtain ⟨-, request', client', code', -, named', spent', -, -, alone'⟩ :=
    committed_backed reached there _ again
  have pid := spender_unique reached here there spent spent' (named.trans named'.symm)
  rcases Nat.lt_trichotomy place other with less | rfl | more
  · have earlier := reached.earlier_of_pid there here less pid
    have inside : (true, commit.work.log.script) ∈ one.work.log.ended :=
      List.mem_map.mpr ⟨_, earlier, rfl⟩
    exact absurd said (alone' _ inside family)
  · obtain rfl := here.unique there
    exact ⟨rfl, (only family' again).symm⟩
  · have earlier := reached.earlier_of_pid here there more pid.symm
    have inside : (true, one.work.log.script) ∈ commit.work.log.ended :=
      List.mem_map.mpr ⟨_, earlier, rfl⟩
    exact absurd again (alone _ inside family')

/-- The statement of a unit that bound a code: it found it spent and unmarked,
and holds it until the unit commits with the first token of the family. -/
theorem bound_event (here : CommittedAt world.past place commit)
    (said : told (.bindCodeFamily digest family) true ∈ commit.work.log.script) :
    (Key.code digest, LockMode.exclusive) ∈ commit.work.locks ∧
      (∃ stored, Db.code commit.before digest = some stored ∧ stored.replayedAt = none) ∧
      (∃ next, Db.code commit.after digest = some next ∧ next.family.isSome) ∧
      ∃ token, token.family = family ∧
        told (.insertRefreshToken token) true ∈ commit.work.log.script := by
  obtain ⟨leads, request, client, code, -, -, -, first, -, -⟩ := committed_backed reached here _ said
  obtain ⟨event, among, -, -, -, locked, answered, before, row, found, grown⟩ :=
    before_of_leading reached here leads fun seen now answered => (bindCodeFamily_answer answered).1
  obtain ⟨-, stored, read, -, unmarked⟩ := bindCodeFamily_answer answered
  obtain ⟨next, after, moved⟩ := grown { row with family := some family } rfl
  exact ⟨reached.locks_subset movement here among locked, ⟨stored, before.trans read, unmarked⟩,
    ⟨next, after, moved.bound rfl⟩, first⟩

/-- Once a code is bound, its row keeps the family. -/
theorem family_of_bound (new : NewRealm start) (here : CommittedAt world.past place commit)
    (said : told (.bindCodeFamily digest family) true ∈ commit.work.log.script)
    (later : place < units) (within : units ≤ world.past.length) :
    ∃ stored, Db.code (dbAt start world.past units) digest = some stored ∧
      stored.family = some family := by
  obtain ⟨-, -, ⟨next, after, bound⟩, -⟩ := bound_event reached here said
  have grown := reached.grows movement later within (.code digest)
  rw [← Reachable.after_eq here] at grown
  obtain ⟨stored, kept, moved⟩ := grown next after
  obtain ⟨given, isGiven⟩ := Option.isSome_iff_exists.mp (moved.bound bound)
  obtain ⟨since, -, unit, there, -, -, event, among, unbound, row, written, binds⟩ :=
    reached.came_made movement (.code digest)
      (fun row => ∃ stored, row = some stored ∧ stored.family = some given)
      (by rintro ⟨row, found, -⟩; cases (new.codes digest).symm.trans found) within
      ⟨stored, kept, isGiven⟩
  obtain ⟨row, rfl, isBound⟩ := binds
  obtain ⟨op, hit⟩ := binds_of_written written (fun stored found same => unbound ⟨stored, found, same⟩)
    isBound
  have binds : told (.bindCodeFamily digest given) true ∈ unit.work.log.script := by
    obtain ⟨-, -, faithful⟩ := reached.faithful there (Work.mem_told_of_mem among)
    rw [op] at hit
    exact mem_script_of_op among faithful op (changed_of_hit hit)
  obtain ⟨-, rfl⟩ := bound_once reached here there said binds
  exact ⟨stored, kept, isGiven⟩

omit reached in
/-- The statements of a unit that took back what a code obtained. -/
theorem events_of_takenBack {request : CodeRequest} {client : Client}
    (taken : TakenBack request client instant commit.work.log.script) :
    ∃ read spend mark later replayed, commit.work.events = read :: spend :: mark :: later ∧
      read.told = told (.readClient request.clientId) (some client) ∧
      spend.told = told (.spendAuthorizationCode request.code instant) none ∧
      mark.told = told (.markCodeReplayed request.code client.clientId instant) replayed ∧
      ((later = [] ∧ replayed.bind ReplayedCode.family = none) ∨ ∃ revoke family count,
        later = [revoke] ∧ revoke.told = told (.revokeRefreshFamily family instant) count ∧
        replayed.bind ReplayedCode.family = some family) := by
  generalize same : commit.work.log.script = script at taken
  change commit.work.events.map Event.told = script at same
  cases taken with
  | nothing unbound =>
    rename_i replayed
    match events : commit.work.events with
    | [read, spend, mark] =>
      rw [events] at same
      simp only [List.map_cons, List.map_nil, List.cons.injEq, and_true] at same
      exact ⟨read, spend, mark, [], replayed, rfl, same.1, same.2.1, same.2.2, Or.inl ⟨rfl, unbound⟩⟩
    | [] | [_] | [_, _] | _ :: _ :: _ :: _ :: _ => simp [events] at same
  | family count bound =>
    rename_i replayed family
    match events : commit.work.events with
    | [read, spend, mark, revoke] =>
      rw [events] at same
      simp only [List.map_cons, List.map_nil, List.cons.injEq, and_true] at same
      exact ⟨read, spend, mark, [revoke], replayed, rfl, same.1, same.2.1, same.2.2.1,
        Or.inr ⟨revoke, family, count, rfl, same.2.2.2, bound⟩⟩
    | [] | [_] | [_, _] | [_, _, _] | _ :: _ :: _ :: _ :: _ :: _ => simp [events] at same

/-- The mark of a replay is its first statement that may write. -/
theorem mark_leads (here : CommittedAt world.past place commit) {request : CodeRequest}
    {client : Client} {read spend mark : language.Event} {later : List language.Event}
    (split : commit.work.events = read :: spend :: mark :: later)
    (reads : read.told = told (.readClient request.clientId) (some client))
    (spends : spend.told = told (.spendAuthorizationCode request.code instant) none) :
    read.writes = [] ∧ spend.writes = [] ∧ mark.seen = mark.snapshot ∧ mark.found = mark.now := by
  have honest : spend.Faithful mode start world.past :=
    (reached.faithful here (Work.mem_told_of_mem (by simp [split]))).2.2
  have first : read.writes = [] := by
    rw [writes_of_told reads]
    exact writes_of_reads rfl _ _
  have second : spend.writes = [] := by
    rw [writes_of_told spends]
    exact spendAuthorizationCode_none (answer_of_told honest spends)
  have alone : ∀ one ∈ [read, spend], one.writes = [] := by
    simp [first, second]
  exact ⟨first, second, reached.leading movement here
    (show commit.work.events = [read, spend] ++ mark :: later from split) alone⟩

/-- Once its client presented it again, a spent code is marked. -/
theorem marked_of_replay (here : CommittedAt world.past place commit)
    (among : event ∈ commit.work.events) {clientId : String} {replayed : Option ReplayedCode}
    (said : event.told = told (.markCodeReplayed digest clientId instant) replayed)
    {stored : StoredCode} (saw : Db.code event.snapshot digest = some stored)
    (ofClient : stored.code.clientId = clientId) (spent : stored.spentAt.isSome) :
    ∃ next, Db.code commit.after digest = some next ∧ next.replayedAt.isSome := by
  obtain ⟨ran, -, -⟩ := reached.faithful here (Work.mem_told_of_mem among)
  obtain ⟨first, seen, moved⟩ := reached.grows_seen movement ran (.code digest) stored saw
  obtain ⟨row, found, later⟩ := reached.grows_seen_found movement ran (.code digest) first seen
  obtain ⟨next, after, last⟩ := reached.grows_found_after movement here among (.code digest) row found
  refine ⟨next, after, ?_⟩
  cases unmarked : row.replayedAt with
  | some instant => exact last.replayed.isSome (by simp [unmarked])
  | none =>
    have before : first.replayedAt = none := by
      by_contra set
      have still := later.replayed.isSome (Option.isSome_iff_ne_none.mpr set)
      simp [unmarked] at still
    have picked : ∀ one : StoredCode, one.code = stored.code → one.spentAt.isSome →
        one.replayedAt = none →
        picks (.markCodeReplayed digest clientId instant) event.seen (.code digest) one = true := by
      intro one same isSpent free
      simp [picks, ofCode, same, ofClient, isSpent, free]
    have hit : Key.code digest ∈ hits (.markCodeReplayed digest clientId instant) event.seen
        event.found := by
      refine mem_hits.mpr ⟨⟨first, seen, picked first moved.code ?_ before⟩, row, found,
        picked row (later.code.trans moved.code) ?_ unmarked⟩
      · exact moved.spent.isSome spent
      · exact later.spent.isSome (moved.spent.isSome spent)
    obtain ⟨held, there, -, written⟩ := written_of_hit hit
    rw [← writes_of_told said] at written
    obtain ⟨final, isFinal, grown⟩ := reached.wrote movement here among written _ rfl
    obtain rfl : final = next := Option.some.inj (isFinal.symm.trans after)
    exact grown.replayed.isSome rfl

/-- A marked code was marked by a unit that found it so far unmarked, and took
back what it had obtained. -/
theorem marker (new : NewRealm start) (within : units ≤ world.past.length) {stored : StoredCode}
    (kept : Db.code (dbAt start world.past units) digest = some stored)
    (marked : stored.replayedAt.isSome) :
    ∃ place < units, ∃ commit request client instant, CommittedAt world.past place commit ∧
      TakenBack request client instant commit.work.log.script ∧ request.code = digest ∧
      ∃ event ∈ commit.work.events, event.op = .markCodeReplayed digest client.clientId instant ∧
        Key.code digest ∈ hits event.op event.seen event.found := by
  obtain ⟨place, before, commit, here, -, -, event, among, unmarked, row, written, marks⟩ :=
    reached.came_made movement (.code digest)
      (fun row => ∃ stored, row = some stored ∧ stored.replayedAt.isSome)
      (by rintro ⟨row, found, -⟩; cases (new.codes digest).symm.trans found) within
      ⟨stored, kept, marked⟩
  obtain ⟨row, rfl, isMarked⟩ := marks
  obtain ⟨clientId, instant, op, hit⟩ := marks_of_written written (fun stored found => by
    by_contra set
    exact unmarked ⟨stored, found, Option.isSome_iff_ne_none.mpr set⟩) isMarked
  obtain ⟨-, -, faithful⟩ := reached.faithful here (Work.mem_told_of_mem among)
  obtain ⟨request, client, -, named, rfl, taken⟩ :=
    committed_backed reached here _ (mem_script among (told_of_op faithful op))
  exact ⟨place, before, commit, request, client, instant, here, taken, named, event, among, op, hit⟩

/-- A unit that marked a code which was bound revokes the family it was bound
to, and the binding committed before. -/
theorem marker_revokes (new : NewRealm start) (here : CommittedAt world.past place commit)
    {request : CodeRequest} {client : Client}
    (taken : TakenBack request client instant commit.work.log.script)
    (among : event ∈ commit.work.events)
    (marks : event.op = .markCodeReplayed request.code client.clientId instant)
    (hit : Key.code request.code ∈ hits event.op event.seen event.found)
    (there : CommittedAt world.past other one)
    (bound : told (.bindCodeFamily request.code family) true ∈ one.work.log.script) :
    other < place ∧ ∃ revoke ∈ commit.work.events, other < revoke.started ∧
      (∃ count, revoke.told = told (.revokeRefreshFamily family instant) count) ∧
      ∀ token, told (.insertRefreshToken token) true ∉ commit.work.log.script := by
  obtain ⟨locked, ⟨unmarked, before, free⟩, -, -⟩ := bound_event reached there bound
  obtain ⟨read, spend, mark, later, replayed, split, reads, spends, isMark, rest⟩ :=
    events_of_takenBack taken
  obtain ⟨-, -, seen, found⟩ := mark_leads reached here split reads spends
  have script : commit.work.log.script = commit.work.events.map Event.told := rfl
  obtain rfl : event = mark := by
    have op := congrArg Sigma.fst reads
    have op' := congrArg Sigma.fst spends
    change read.op = .readClient request.clientId at op
    change spend.op = .spendAuthorizationCode request.code instant at op'
    rw [split] at among
    simp only [List.mem_cons] at among
    rcases among with rfl | rfl | rfl | last
    · cases op.symm.trans marks
    · cases op'.symm.trans marks
    · rfl
    · rcases rest with ⟨rfl, -⟩ | ⟨revoke, given, count, rfl, isRevoke, -⟩
      · cases last
      · obtain rfl := List.mem_singleton.mp last
        have op'' := congrArg Sigma.fst isRevoke
        change event.op = .revokeRefreshFamily given instant at op''
        cases op''.symm.trans marks
  obtain ⟨ran, finished, faithful⟩ := reached.faithful here (Work.mem_told_of_mem among)
  have earlier : other < place := by
    rcases Nat.lt_trichotomy other place with less | rfl | more
    · exact less
    · obtain rfl := here.unique there
      rw [script, split] at bound
      rcases rest with ⟨rfl, -⟩ | ⟨revoke, given, count, rfl, isRevoke, -⟩
      · simp [reads, spends, isMark, told] at bound
      · simp [reads, spends, isMark, isRevoke, told] at bound
    · obtain ⟨row, -, -, written⟩ := written_of_hit hit
      have grown := reached.wrote movement here among written
      rw [marks, Reachable.after_eq here] at grown
      obtain ⟨next, after, moved⟩ := grown { row with replayedAt := some instant } rfl
      obtain ⟨last, kept, again⟩ := reached.grows movement more (Nat.le_of_lt there.lt)
        (.code request.code) next after
      rw [← reached.before_eq there] at kept
      obtain rfl : last = unmarked := Option.some.inj (kept.symm.trans before)
      have still := again.replayed.isSome (moved.replayed.isSome rfl)
      simp [free] at still
  have since : other < event.finished := by
    by_contra soon
    rw [marks] at hit
    have holds : (Key.code request.code, LockMode.exclusive) ∈ event.locks := by
      rw [locks_of_told isMark]
      exact locked_of_hit hit
    have shared := reached.held movement here among holds there (by omega) earlier locked
    cases shared.1
  obtain ⟨row, kept, isBound⟩ := family_of_bound reached new there bound since faithful.finished
  rw [marks] at hit
  obtain ⟨-, stored, read', -, answered⟩ := markCodeReplayed_hit hit
  rw [found, faithful.now] at read'
  obtain rfl : row = stored := Option.some.inj (kept.symm.trans read')
  rw [answer_of_told faithful isMark] at answered
  have given : replayed.bind ReplayedCode.family = some family := by
    rw [answered]
    exact isBound
  rcases rest with ⟨-, none_bound⟩ | ⟨revoke, revoked, count, rfl, isRevoke, same⟩
  · cases none_bound.symm.trans given
  obtain rfl : revoked = family := Option.some.inj (same.symm.trans given)
  have order : event.finished ≤ revoke.started := by
    have ordered := reached.ordered here
    rw [Work.told, split, List.pairwise_append] at ordered
    have tail := ordered.2.1
    simp only [List.pairwise_cons] at tail
    exact tail.2.2.1 revoke (by simp)
  refine ⟨earlier, revoke, by simp [split], by omega, ⟨count, isRevoke⟩, ?_⟩
  intro token inserted
  rw [script, split] at inserted
  simp [reads, spends, isMark, isRevoke, told] at inserted

/-- A unit of an exchange that found nothing to spend, and whose statement that
marks the code started after as many units. -/
def Replays (commit : Commit (calls app)) (request : CodeRequest) (units : Nat) : Prop :=
  commit.call = .exchangeCode request ∧ ∃ mark ∈ commit.work.events, units ≤ mark.started ∧
    ∃ clientId instant replayed,
      mark.told = told (.markCodeReplayed request.code clientId instant) replayed

/-- A unit of an exchange that presented a code which was kept, read the clock
and found nothing to spend. -/
def Presents (commit : Commit (calls app)) (request : CodeRequest) (spend : language.Event)
    (instant : Instant) : Prop :=
  commit.call = .exchangeCode request ∧ spend ∈ commit.work.events ∧
    spend.told = told (.spendAuthorizationCode request.code instant) none ∧
    ∃ stored, Db.code spend.snapshot request.code = some stored

/-- Presented before it expires, a code that another unit is spending is waited
for: what is marked is marked once that unit committed. -/
theorem replays_of_presents (here : CommittedAt world.past place commit) {request : CodeRequest}
    (spends : told (.spendAuthorizationCode request.code instant) (some code) ∈
      commit.work.log.script)
    (there : CommittedAt world.past other one) {spend : language.Event} {now : Instant}
    (presents : Presents one request spend now) (early : now < code.expiresAt) :
    Replays one request (place + 1) := by
  obtain ⟨called, among, said, stored, saw⟩ := presents
  obtain ⟨request', client, isCall, -, taken⟩ :=
    committed_backed reached there _ (mem_script among said)
  obtain rfl : request = request' := by
    rw [called] at isCall
    exact Call.exchangeCode.inj isCall
  obtain ⟨read, spend', mark, later, replayed, split, reads, -, isMark, rest⟩ :=
    events_of_takenBack taken
  obtain rfl : spend = spend' := by
    have op : spend.op = .spendAuthorizationCode request.code now := congrArg Sigma.fst said
    rw [split] at among
    simp only [List.mem_cons] at among
    rcases among with rfl | same | rfl | last
    · cases op.symm.trans (congrArg Sigma.fst reads)
    · exact same
    · cases op.symm.trans (congrArg Sigma.fst isMark)
    · rcases rest with ⟨rfl, -⟩ | ⟨revoke, family, count, rfl, isRevoke, -⟩
      · cases last
      · obtain rfl := List.mem_singleton.mp last
        cases op.symm.trans (congrArg Sigma.fst isRevoke)
  have alone : ∀ event ∈ [read], event.writes = [] := by
    rw [List.forall_mem_singleton, writes_of_told reads]
    exact writes_of_reads rfl _ _
  obtain ⟨seen, found⟩ := reached.leading movement there
    (show one.work.events = [read] ++ spend :: mark :: later from split) alone
  obtain ⟨-, -, honest⟩ := reached.faithful there (Work.mem_told_of_mem among)
  have after : place < spend.finished := by
    by_contra soon
    have started := honest.started
    have within := here.lt
    have picked : ∀ {row : StoredCode} {db : Db}, row.spentAt = none ∧ row.code = code →
        picks (.spendAuthorizationCode request.code now) db (.code request.code) row = true := by
      rintro row db ⟨free, same⟩
      simp [picks, ofCode, free, same, early]
    rw [honest.snapshot] at saw
    obtain ⟨row, isRow, -⟩ := reached.grows movement started (by omega) (.code request.code) stored saw
    have hit : Key.code request.code ∈
        hits (.spendAuthorizationCode request.code now) spend.seen spend.found := by
      rw [seen, found, honest.snapshot, honest.now]
      exact mem_hits.mpr ⟨⟨stored, saw, picked (unspent_until reached here spends (by omega) saw)⟩,
        row, isRow, picked (unspent_until reached here spends (by omega) isRow)⟩
    rw [spendAuthorizationCode_unhit (answer_of_told honest said)] at hit
    cases hit
  have order : spend.finished ≤ mark.started := by
    have ordered := reached.ordered there
    rw [Work.told, split, List.pairwise_append] at ordered
    have tail := ordered.2.1
    simp only [List.pairwise_cons] at tail
    exact tail.2.1 mark (by simp)
  exact ⟨called, mark, by simp [split], by omega, client.clientId, now, replayed, isMark⟩

/-- A code its client presented again after a unit spent it is marked. -/
theorem marked_of_replays (new : NewRealm start) (here : CommittedAt world.past place commit)
    {request : CodeRequest}
    (spends : told (.spendAuthorizationCode request.code instant) (some code) ∈
      commit.work.log.script)
    (there : CommittedAt world.past other one) (replays : Replays one request (place + 1))
    (ofClient : request.clientId = code.clientId) :
    ∃ next, Db.code (dbAt start world.past (other + 1)) request.code = some next ∧
      next.replayedAt.isSome := by
  obtain ⟨called, mark, among, since, clientId, at_, replayed, said⟩ := replays
  obtain ⟨-, finished, faithful⟩ := reached.faithful there (Work.mem_told_of_mem among)
  obtain ⟨-, stored, after, isCode, isSpent⟩ := code_of_spent reached here spends
  rw [Reachable.after_eq here] at after
  obtain ⟨row, saw, moved⟩ := reached.grows movement since
    (Nat.le_trans faithful.started faithful.finished) (.code request.code) stored after
  rw [← faithful.snapshot] at saw
  have named : clientId = code.clientId := by
    obtain ⟨request', client, isCall, -, rfl, taken⟩ :=
      committed_backed reached there _ (mem_script among said)
    obtain rfl : request = request' := by
      rw [called] at isCall
      exact Call.exchangeCode.inj isCall
    obtain ⟨read, spend, mark', later, replayed', split, reads, -⟩ := events_of_takenBack taken
    have inScript := mem_script (show read ∈ one.work.events by simp [split]) reads
    rw [(client_of_read reached new there inScript).2, ofClient]
  obtain ⟨next, isMarked, marked⟩ := marked_of_replay reached there among said saw
    (by rw [moved.code, isCode, named]) (moved.spent.isSome isSpent)
  rw [Reachable.after_eq there] at isMarked
  exact ⟨next, isMarked, marked⟩

/-- Of the exchanges of one code, one is answered with tokens. -/
theorem exchanged_once {first second : Answered (calls app)} (inside : first ∈ world.answered)
    (among : second ∈ world.answered) {request request' : CodeRequest}
    {response response' : TokenResponse} (called : first.call = .exchangeCode request)
    (called' : second.call = .exchangeCode request') (same : request.code = request'.code)
    (given : first.answer = .tokens response) (given' : second.answer = .tokens response') :
    first.pid = second.pid := by
  have spender : ∀ {answered : Answered (calls app)} {request : CodeRequest}
      {response : TokenResponse}, answered ∈ world.answered → answered.call = .exchangeCode request →
      answered.answer = .tokens response → ∃ place commit instant code,
        CommittedAt world.past place commit ∧ commit.pid = answered.pid ∧
        told (.spendAuthorizationCode request.code instant) (some code) ∈
          commit.work.log.script := by
    intro answered request response there isCall isAnswer
    have backed := (reached.logged (backedLogs app)).2 answered there
    change AnswerBacked answered.call answered.answer answered.work.log at backed
    rw [isCall, isAnswer] at backed
    obtain ⟨-, -, client, code, -, -, spent, -⟩ := backed
    obtain ⟨script, ended, -, instant, spends⟩ := spent.unit
    obtain ⟨place, commit, here, pid, -, rfl⟩ := commit_of_answered reached there ended
    exact ⟨place, commit, instant, code, here, pid, spends⟩
  obtain ⟨place, commit, instant, code, here, pid, spends⟩ := spender inside called given
  obtain ⟨other, one, instant', code', there, pid', spends'⟩ := spender among called' given'
  rw [← same] at spends'
  obtain rfl := code_spent_once reached here there spends spends'
  obtain rfl := here.unique there
  exact pid.symm.trans pid'

/-- A code presented by a client it is not of changes nothing. -/
theorem replay_of_another (new : NewRealm start) (here : CommittedAt world.past place commit)
    {request : CodeRequest} (called : commit.call = .exchangeCode request)
    (said : told (.spendAuthorizationCode request.code instant) none ∈ commit.work.log.script)
    (ofAnother : ∀ stored, Db.code commit.before request.code = some stored →
      stored.code.clientId ≠ request.clientId) : commit.after = commit.before := by
  obtain ⟨request', client, isCall, -, taken⟩ := committed_backed reached here _ said
  obtain rfl : request = request' := by
    rw [called] at isCall
    exact Call.exchangeCode.inj isCall
  obtain ⟨read, spend, mark, later, replayed, split, reads, spends, isMark, rest⟩ :=
    events_of_takenBack taken
  obtain ⟨first, second, -, found⟩ := mark_leads reached here split reads spends
  have among : mark ∈ commit.work.events := by simp [split]
  obtain ⟨-, finished, faithful⟩ := reached.faithful here (Work.mem_told_of_mem among)
  have named : client.clientId = request.clientId := by
    have inScript : told (.readClient request.clientId) (some client) ∈ commit.work.log.script :=
      mem_script (show read ∈ commit.work.events by simp [split]) reads
    exact (client_of_read reached new here inScript).2
  have unhit : hits (.markCodeReplayed request.code client.clientId instant) mark.seen mark.found
      = [] := by
    rw [List.eq_nil_iff_forall_not_mem]
    intro key hit
    obtain ⟨-, stored, there, ofClient, -⟩ := markCodeReplayed_hit hit
    rw [found, faithful.now] at there
    obtain ⟨row, kept, moved⟩ := reached.grows movement finished (Nat.le_of_lt here.lt)
      (.code request.code) stored there
    rw [← reached.before_eq here] at kept
    apply ofAnother row kept
    rw [moved.code, ofClient, named]
  have third : mark.writes = [] := by
    rw [writes_of_told isMark]
    simp [writes, unhit, inserts, writeEach]
  have unmarked : replayed = none := by
    rw [← answer_of_told faithful isMark]
    change (if _ then _ else _) = none
    rw [unhit]
    rfl
  rcases rest with ⟨rfl, -⟩ | ⟨revoke, family, count, rfl, -, bound⟩
  · obtain ⟨newer, older, -, -, sound⟩ := reached.unit movement here
    rw [reached.history.written commit here.mem, sound.writes, split]
    simp [first, second, third]
  · rw [unmarked] at bound
    cases bound

end Runs

/-- Over any interleaving of the exchanges of one code, and of every other
call: one is answered with tokens at most. Once a unit spent the code, and
another of the client it is of presented it again, before it expired or after
that unit committed, the family it was bound to was bound before; no statement
that starts after spends a token of it, a unit that still inserts one spent the
last before; where each statement is atomic, none does. Presented by another
client it changes nothing. -/
theorem replayed_codes_obtain_nothing {app : App} {mode : Mode} {start : Db} {ids : List Drawn}
    {world : World (calls app)} (new : NewRealm start)
    (reached : Reachable (calls app) mode start ids world) :
    (∀ first ∈ world.answered, ∀ second ∈ world.answered, ∀ request request' response response',
      first.call = .exchangeCode request → second.call = .exchangeCode request' →
      request.code = request'.code → first.answer = .tokens response →
      second.answer = .tokens response' → first.pid = second.pid) ∧
    (∀ spender spent instant code request, CommittedAt world.past spender spent →
      told (.spendAuthorizationCode request.code instant) (some code) ∈ spent.work.log.script →
      ∀ place replay, CommittedAt world.past place replay → request.clientId = code.clientId →
      (Replays replay request (spender + 1) ∨
        ∃ again, ∃ now < code.expiresAt, Presents replay request again now) →
      ∀ binder binding family, CommittedAt world.past binder binding →
      told (.bindCodeFamily request.code family) true ∈ binding.work.log.script →
      binder < place ∧
      (∀ spend ∈ world.ran, place < spend.started → ∀ digest clientId instant token,
        spend.told = told (.spendRefreshToken digest clientId instant) (some token) →
        token.family ≠ family) ∧
      (∀ later one token, CommittedAt world.past later one → place < later →
        told (.insertRefreshToken token) true ∈ one.work.log.script → token.family = family →
        mode ≠ .atomic ∧ ∃ spend ∈ one.work.events, spend.started ≤ place ∧
          ∃ digest clientId instant last,
            spend.told = told (.spendRefreshToken digest clientId instant) (some last))) ∧
    (∀ place replay request instant, CommittedAt world.past place replay →
      replay.call = .exchangeCode request →
      told (.spendAuthorizationCode request.code instant) none ∈ replay.work.log.script →
      (∀ stored, Db.code replay.before request.code = some stored →
        stored.code.clientId ≠ request.clientId) →
      replay.after = replay.before) := by
  refine ⟨?_, ?_, ?_⟩
  · intro first inside second among request request' response response' called called' same given given'
    exact exchanged_once reached inside among called called' same given given'
  · intro spender spent instant code request isSpender spends place replay isReplay ofClient timely
      binder binding family isBinder binds
    have replays : Replays replay request (spender + 1) := by
      rcases timely with replays | ⟨again, now, early, presents⟩
      · exact replays
      · exact replays_of_presents reached isSpender spends isReplay presents early
    obtain ⟨marked, isMarked, marks⟩ := marked_of_replays reached new isSpender spends isReplay replays
      ofClient
    obtain ⟨first, before, marker, request', client, at_, isMarker, taken, same, event, inside, op,
      hit⟩ := marker reached new isReplay.lt isMarked marks
    rw [← same] at hit op binds
    obtain ⟨earlier, revoke, inUnit, afterBinding, ⟨count, revokes⟩, silent⟩ :=
      marker_revokes reached new isMarker taken inside op hit isBinder binds
    obtain ⟨-, -, -, token, ofFamily, inserted⟩ := bound_event reached isBinder binds
    obtain ⟨kept, isKept, isToken⟩ := kept_of_inserted reached isBinder inserted
    obtain ⟨-, -, honest⟩ := reached.faithful isMarker (Work.mem_told_of_mem inUnit)
    obtain ⟨row, saw, moved⟩ := reached.grows movement afterBinding
      (Nat.le_trans honest.started honest.finished) (.token token.tokenDigest) kept isKept
    rw [← honest.snapshot] at saw
    have kin : row.token.family = family := by rw [moved.token, isToken, ofFamily]
    have revoking : revoke.op = .revokeRefreshFamily family at_ := congrArg Sigma.fst revokes
    have covered : covers revoke.op revoke.seen row.token = true := by
      rw [revoking]
      simp [covers, kin]
    obtain ⟨unspendable, uninserted⟩ :=
      family_stopped reached new isMarker inUnit saw covered silent
    rw [kin] at unspendable uninserted
    refine ⟨by omega, ?_, ?_⟩
    · intro spend wasRun later digest clientId instant token spending
      exact unspendable spend wasRun (by omega) digest clientId instant token spending
    · intro later one token isLater since inserts isKin
      obtain ⟨waits, spend, inOne, early, spends⟩ :=
        uninserted later one token isLater (by omega) inserts isKin
      exact ⟨waits, spend, inOne, by omega, spends⟩
  · intro place replay request instant here called said ofAnother
    exact replay_of_another reached new here called said ofAnother

def adaReplays : List (World.Served (calls homeApp)) :=
  adaSignsIn ++ [serves (.exchangeCode codeOfAda) [.id 40, .secret [40]],
    serves (.exchangeCode codeOfAda) []]

def spendsCodeOfAda : Told → Bool
  | ⟨.spendAuthorizationCode digest _, some code⟩ => digest = [30] && code.clientId = "web"
  | _ => false

def bindsCodeOfAda : Told → Bool
  | ⟨.bindCodeFamily digest family, true⟩ => digest = [30] && family = 40
  | _ => false

def replaysCodeOfAda (units : Nat) (commit : Commit (calls homeApp)) : Bool :=
  (match commit.call with
    | .exchangeCode request => request = codeOfAda
    | _ => false) &&
  commit.work.events.any fun event => units ≤ event.started &&
    match event.op with
    | .markCodeReplayed digest _ _ => digest = [30]
    | _ => false

theorem spendsCodeOfAda_iff {said : Told} (spends : spendsCodeOfAda said = true) :
    ∃ instant code, said = told (.spendAuthorizationCode codeOfAda.code instant) (some code) ∧
      code.clientId = "web" := by
  unfold spendsCodeOfAda at spends
  split at spends
  · next digest instant code =>
    simp only [Bool.and_eq_true, decide_eq_true_eq] at spends
    obtain ⟨rfl, ofWeb⟩ := spends
    exact ⟨instant, code, rfl, ofWeb⟩
  · cases spends

theorem bindsCodeOfAda_iff {said : Told} (binds : bindsCodeOfAda said = true) :
    said = told (.bindCodeFamily codeOfAda.code 40) true := by
  unfold bindsCodeOfAda at binds
  split at binds
  · next digest family =>
    simp only [Bool.and_eq_true, decide_eq_true_eq] at binds
    obtain ⟨rfl, rfl⟩ := binds
    rfl
  · cases binds

theorem replaysCodeOfAda_iff {units : Nat} {commit : Commit (calls homeApp)}
    (replays : replaysCodeOfAda units commit = true) : Replays commit codeOfAda units := by
  simp only [replaysCodeOfAda, Bool.and_eq_true, List.any_eq_true, decide_eq_true_eq] at replays
  obtain ⟨called, event, among, since, marks⟩ := replays
  split at called
  · next request isCall =>
    refine ⟨?_, event, among, since, ?_⟩
    · rw [isCall, of_decide_eq_true called]
    · obtain ⟨op, span, wrote, snapshot, now, result⟩ := event
      cases op with
      | markCodeReplayed digest clientId instant =>
        obtain rfl : digest = [30] := of_decide_eq_true marks
        exact ⟨clientId, instant, result, rfl⟩
      | _ => cases marks
  · cases called

/-- The first exchange opened the family 40; it is stopped once the second
committed. -/
theorem adaReplays_stops : ∃ world, NewRealm homeRealm ∧
    Reachable (calls homeApp) .atomic homeRealm [] world ∧
    ∃ replay, CommittedAt world.past 7 replay ∧ Replays replay codeOfAda 6 ∧
      ∀ spend ∈ world.ran, 7 < spend.started → ∀ digest clientId instant token,
        spend.told = told (.spendRefreshToken digest clientId instant) (some token) →
        token.family ≠ 40 := by
  have ran : ((World.initial homeRealm []).serve .atomic 100 adaReplays).map (fun world =>
      ((world.past.reverse[5]?).any (fun commit => commit.work.log.script.any spendsCodeOfAda),
        (world.past.reverse[6]?).any (fun commit => commit.work.log.script.any bindsCodeOfAda),
        (world.past.reverse[7]?).any (replaysCodeOfAda 6))) = some (true, true, true) := by
    decide +kernel
  obtain ⟨world, served, checked⟩ := Option.map_eq_some_iff.mp ran
  obtain ⟨spends, binds, replays⟩ : _ ∧ _ ∧ _ := by simpa only [Prod.mk.injEq] using checked
  have reached := Reachable.initial.of_serve served
  obtain ⟨spent, isSpent, inScript⟩ := (Option.any_eq_true _ _).mp spends
  obtain ⟨binding, isBinding, inScript'⟩ := (Option.any_eq_true _ _).mp binds
  obtain ⟨replay, isReplay, isReplayed⟩ := (Option.any_eq_true _ _).mp replays
  obtain ⟨said, inside, spending⟩ := List.any_eq_true.mp inScript
  obtain ⟨bound, among, binding_⟩ := List.any_eq_true.mp inScript'
  obtain ⟨instant, code, rfl, ofWeb⟩ := spendsCodeOfAda_iff spending
  rw [bindsCodeOfAda_iff binding_] at among
  have here := CommittedAt.iff_getElem?.mpr isReplay
  refine ⟨world, homeRealm_new, reached, replay, here, replaysCodeOfAda_iff isReplayed, ?_⟩
  exact ((replayed_codes_obtain_nothing homeRealm_new reached).2.1 5 spent instant code codeOfAda
    (CommittedAt.iff_getElem?.mpr isSpent) inside 7 replay here ofWeb.symm
    (Or.inl (replaysCodeOfAda_iff isReplayed)) 6 binding 40 (CommittedAt.iff_getElem?.mpr isBinding) among).2.1

def lateAnswers : (question : Ask) → Ans question
  | .now => 1000000000000
  | question => homeAnswers question

/-- The first exchange spends the code, and has not committed when another
request begins and the code, by then past its expiry, is presented again. The
token of the family it opens then rotates. -/
def adaOverlaps : Option (World (calls homeApp)) := do
  let signed ← (World.initial homeRealm []).serve .atomic 100 adaSignsIn
  let called ← signed.step .atomic (.call (.exchangeCode codeOfAda))
  let spending ← called.drive .atomic homeAnswers 6 [] signed.procs.length
  let replayed ← spending.serve .atomic 100
    [serves (.beginAuthorization homeParameters none) [.secret [11], .id 11],
      ⟨.exchangeCode codeOfAda, lateAnswers, []⟩]
  let bound ← replayed.drive .atomic homeAnswers 100 [Drawn.id 40, Drawn.secret [40]]
    signed.procs.length
  bound.serve .atomic 100 [serves (.rotateRefreshToken (tokenOfAda [40])) [.secret [50]]]

theorem adaOverlaps_reachable {world : World (calls homeApp)} (ran : adaOverlaps = some world) :
    Reachable (calls homeApp) .atomic homeRealm [] world := by
  obtain ⟨signed, isSigned, ran⟩ := Option.bind_eq_some_iff.mp ran
  obtain ⟨called, isCalled, ran⟩ := Option.bind_eq_some_iff.mp ran
  obtain ⟨spending, isSpending, ran⟩ := Option.bind_eq_some_iff.mp ran
  obtain ⟨replayed, isReplayed, ran⟩ := Option.bind_eq_some_iff.mp ran
  obtain ⟨bound, isBound, ran⟩ := Option.bind_eq_some_iff.mp ran
  have reached := (Reachable.initial.of_serve isSigned).step isCalled
  exact (((reached.of_drive isSpending).of_serve isReplayed).of_drive isBound).of_serve ran

/-- A statement that found the code of ada kept, and nothing to spend. -/
def missesCodeOfAda (event : language.Event) : Bool :=
  (match event.told with
    | ⟨.spendAuthorizationCode digest _, none⟩ => digest = [30]
    | _ => false) && (Db.code event.snapshot [30]).isSome

theorem presents_of_misses {commit : Commit (calls homeApp)} {event : language.Event}
    (called : commit.call = .exchangeCode codeOfAda) (among : event ∈ commit.work.events)
    (misses : missesCodeOfAda event = true) : ∃ instant, Presents commit codeOfAda event instant := by
  obtain ⟨said, kept⟩ := Bool.and_eq_true_iff.mp misses
  generalize isTold : event.told = saying at said
  split at said
  · next digest instant =>
    obtain rfl : digest = [30] := of_decide_eq_true said
    exact ⟨instant, called, among, isTold, Option.isSome_iff_exists.mp kept⟩
  · cases said

def rotatesFamilyOfAda : Told → Bool
  | ⟨.spendRefreshToken _ _ _, some token⟩ => token.family = 40
  | _ => false

theorem rotatesFamilyOfAda_iff {said : Told} (rotates : rotatesFamilyOfAda said = true) :
    ∃ digest clientId instant token, token.family = 40 ∧
      said = told (.spendRefreshToken digest clientId instant) (some token) := by
  unfold rotatesFamilyOfAda at rotates
  split at rotates
  · next digest clientId instant token =>
    exact ⟨digest, clientId, instant, token, of_decide_eq_true rotates, rfl⟩
  · cases rotates

def isExchangeOfAda : Call → Bool
  | .exchangeCode request => request = codeOfAda
  | _ => false

theorem eq_of_isExchangeOfAda {call : Call} (exchanges : isExchangeOfAda call = true) :
    call = .exchangeCode codeOfAda := by
  unfold isExchangeOfAda at exchanges
  split at exchanges
  · rw [of_decide_eq_true exchanges]
  · cases exchanges

/-- Presented again past its expiry, before the unit that spent it committed, a
code obtains a family that lives once both units have ended. -/
theorem adaOverlaps_lives :
    ¬∀ (app : App) (mode : Mode) (start : Db) (ids : List Drawn) (world : World (calls app)),
      NewRealm start → Reachable (calls app) mode start ids world →
      ∀ spender spent first instant code request, CommittedAt world.past spender spent →
      first ∈ spent.work.events →
      first.told = told (.spendAuthorizationCode request.code instant) (some code) →
      ∀ place replay second now, CommittedAt world.past place replay →
      Presents replay request second now → first.finished < second.started →
      request.clientId = code.clientId →
      ∀ binder binding family, CommittedAt world.past binder binding →
      told (.bindCodeFamily request.code family) true ∈ binding.work.log.script →
      ∀ spend ∈ world.ran, place < spend.started → binder < spend.started →
      ∀ digest clientId at_ token,
        spend.told = told (.spendRefreshToken digest clientId at_) (some token) →
        token.family ≠ family := by
  intro claimed
  have ran : adaOverlaps.map (fun world =>
      ((world.past.reverse[7]?).any (fun commit => commit.work.events.any fun event =>
          event.finished = 5 && spendsCodeOfAda event.told),
        (world.past.reverse[6]?).any (fun commit => isExchangeOfAda commit.call &&
          commit.work.events.any fun event => 5 < event.started && missesCodeOfAda event),
        (world.past.reverse[8]?).any (fun commit => commit.work.log.script.any bindsCodeOfAda),
        world.ran.any fun event => 8 < event.started && rotatesFamilyOfAda event.told)) =
      some (true, true, true, true) := by
    decide +kernel
  obtain ⟨world, isWorld, checked⟩ := Option.map_eq_some_iff.mp ran
  obtain ⟨spends, misses, binds, rotates⟩ : _ ∧ _ ∧ _ ∧ _ := by
    simpa only [Prod.mk.injEq] using checked
  have reached := adaOverlaps_reachable isWorld
  obtain ⟨spent, isSpent, inUnit⟩ := (Option.any_eq_true _ _).mp spends
  obtain ⟨replay, isReplay, replays⟩ := (Option.any_eq_true _ _).mp misses
  obtain ⟨binding, isBinding, inScript⟩ := (Option.any_eq_true _ _).mp binds
  obtain ⟨first, amongFirst, ofFirst⟩ := List.any_eq_true.mp inUnit
  obtain ⟨isFive, spending⟩ := Bool.and_eq_true_iff.mp ofFirst
  obtain ⟨exchanges, inReplay⟩ := Bool.and_eq_true_iff.mp replays
  obtain ⟨second, amongSecond, ofSecond⟩ := List.any_eq_true.mp inReplay
  obtain ⟨afterFive, missing⟩ := Bool.and_eq_true_iff.mp ofSecond
  obtain ⟨bound, amongBound, binding_⟩ := List.any_eq_true.mp inScript
  obtain ⟨rotation, wasRun, ofRotation⟩ := List.any_eq_true.mp rotates
  obtain ⟨afterEight, rotating⟩ := Bool.and_eq_true_iff.mp ofRotation
  obtain ⟨instant, code, isSpend, ofWeb⟩ := spendsCodeOfAda_iff spending
  obtain ⟨digest, clientId, at_, token, ofFamily, isRotation⟩ := rotatesFamilyOfAda_iff rotating
  rw [bindsCodeOfAda_iff binding_] at amongBound
  obtain ⟨now, presents⟩ :=
    presents_of_misses (eq_of_isExchangeOfAda exchanges) amongSecond missing
  have order : first.finished < second.started := by
    rw [of_decide_eq_true isFive]
    exact of_decide_eq_true afterFive
  have late : 8 < rotation.started := of_decide_eq_true afterEight
  exact claimed homeApp .atomic homeRealm [] world homeRealm_new reached 7 spent first instant code
    codeOfAda (CommittedAt.iff_getElem?.mpr isSpent) amongFirst isSpend 6 replay second now
    (CommittedAt.iff_getElem?.mpr isReplay) presents order ofWeb.symm 8 binding 40
    (CommittedAt.iff_getElem?.mpr isBinding) amongBound rotation wasRun (by omega) late digest
    clientId at_ token isRotation ofFamily

end Saffui.Oidc
