import Saffui.Oidc.Replays

/-!
# A consent withdrawn

An exchange holds the consent of its person until it commits, where its client
requires one; a withdrawal deletes it. So of the two one waits: an exchange that
commits first has opened its family before the withdrawal revokes, one that
commits later found a consent given since.

Source: `saffui-core/src/consent/manage.rs`, `store/src/stores/consents.rs`.
-/

namespace Saffui.Oidc
open Saffui.Foundation Saffui.Foundation.Language Saffui.Login

section Answers

variable {seen now : Db} {person : Uuid} {clientId : String}

theorem deleteConsent_answer (answered : answer (.deleteConsent person clientId) seen now = true) :
    Key.consent person clientId ∈ hits (.deleteConsent person clientId) seen now := by
  refine hit_of_changed ?_ answered
  intro other row picked
  cases other <;> simp_all [picks, ofConsent]

theorem holdConsent_answer {allowed : List String}
    (answered : answer (.holdConsent person clientId) seen now = some allowed) :
    (Key.consent person clientId, LockMode.share) ∈ locks (.holdConsent person clientId) seen ∧
      (Db.consent now person clientId).isSome := by
  simp only [answer] at answered
  split at answered
  · next held =>
    obtain ⟨kept, found, -⟩ := Option.map_eq_some_iff.mp answered
    exact ⟨by simp [locks, held], by simp [found]⟩
  · cases answered

/-- A consent is written by who gives it. -/
theorem adds_of_written {op : Op} {row : Consent}
    (written : (⟨.consent person clientId, some row⟩ : Write Row) ∈ writes op seen now) :
    ∃ consent, op = .addConsent consent ∧ consent.person = person ∧ consent.clientId = clientId := by
  rcases mem_writes written with ⟨hit, set⟩ | inserted
  · obtain ⟨-, stored, found, picked⟩ := mem_hits.mp hit
    cases op with
    | deleteConsent =>
      change some row = (now.lookup (.consent person clientId)).bind _ at set
      rw [found] at set
      cases set
    | _ => cases picked
  · have named := insertedKey_of_inserts inserted
    cases op with
    | addConsent consent =>
      obtain ⟨ofPerson, ofClient⟩ := Key.consent.inj (Option.some.inj named)
      exact ⟨consent, rfl, ofPerson, ofClient⟩
    | insertSession | insertPendingAuthorization | insertAuthorizationCode | insertRefreshToken
    | insertSecurityKey | writePendingTotp | countCodeAttempt | writeKeyEnrollment
    | recordLoginFailure => cases named
    | _ => cases inserted

end Answers

section Runs

variable {app : App} {mode : Mode} {start : Db} {ids : List Drawn} {world : World (calls app)}
  {place other : Nat} {commit one : Commit (calls app)} {person : Uuid} {clientId : String}
  {client : Client} {first : RefreshToken}
  (reached : Reachable (calls app) mode start ids world)

include reached

/-- The statements of a unit that withdrew a consent: it holds it, revokes
after, and once it committed there is none. -/
theorem withdrawal (here : CommittedAt world.past place commit)
    (said : told (.deleteConsent person clientId) true ∈ commit.work.log.script) :
    Db.consent commit.after person clientId = none ∧ ∃ delete ∈ commit.work.events,
      (Key.consent person clientId, LockMode.exclusive) ∈ delete.locks ∧
      ∃ revoke ∈ commit.work.events, delete.finished ≤ revoke.started ∧
        ∃ instant, revoke.op = .revokeRefreshFamiliesOfClient person clientId instant := by
  obtain ⟨-, instant, count, ordered, -, added⟩ := committed_backed reached here _ said
  obtain ⟨delete, among, revoke, inside, deletes, revokes, order⟩ :=
    events_of_then reached here ordered
  obtain ⟨-, -, faithful⟩ := reached.faithful here (Work.mem_told_of_mem among)
  have hit := deleteConsent_answer (answer_of_told faithful deletes)
  refine ⟨?_, delete, among, ?_, revoke, inside, order, instant, congrArg Sigma.fst revokes⟩
  · obtain ⟨row, -, -, written⟩ := written_of_hit hit
    rw [← writes_of_told deletes] at written
    refine reached.kept_since movement here among (fun row => row = none) written rfl ?_
    intro writer inUnit _ row byWriter
    cases row with
    | none => rfl
    | some consent =>
      obtain ⟨given, op, -⟩ := adds_of_written byWriter
      obtain ⟨-, -, honest⟩ := reached.faithful here (Work.mem_told_of_mem inUnit)
      exact absurd (mem_script inUnit (told_of_op honest op)) (added given)
  · rw [locks_of_told deletes]
    exact locked_of_hit hit

/-- The statement of an exchange that holds the consent of its person: it
found one, and holds it until the unit commits. -/
theorem exchange_holds (new : NewRealm start) (here : CommittedAt world.past place commit)
    (opening : Opening commit first) (isClient : Db.client start first.clientId = some client)
    (required : client.requiresConsent = true) :
    ∃ event ∈ commit.work.events, event.finished ≤ place ∧ event.Faithful mode start world.past ∧
      (Key.consent first.person first.clientId, LockMode.share) ∈ event.locks ∧
      (Db.consent (dbAt start world.past event.finished) first.person first.clientId).isSome := by
  obtain ⟨backed, -⟩ := committed_backed reached here _ opening.inserted
  cases backed with
  | rotated called =>
    obtain ⟨request, -, -, exchanges, -⟩ := opening.exchange
    cases called.symm.trans exchanges
  | exchanged called spent subject drawn bound consent issued =>
    rename_i request reader code session
    obtain ⟨-, ofPerson, -⟩ := session_of_token reached new here subject issued
    have same : reader = client := by
      obtain ⟨script, ended, read, -⟩ := spent.unit
      obtain ⟨unit, inside, isUnit⟩ := List.mem_map.mp ended
      obtain ⟨committed, rfl⟩ := Prod.mk.inj isUnit
      obtain ⟨before, -, spender, there, -, -, ran⟩ := reached.earlier here inside committed
      rw [← ran] at read
      obtain ⟨kept, named⟩ := client_of_read reached new there read
      rw [← named, ← issued.clientId] at kept
      exact Option.some.inj (kept.symm.trans isClient)
    subst same
    obtain ⟨allowed, leads⟩ := consent required
    obtain ⟨event, among, said, finished, faithful, -, found⟩ := event_of_leading reached here leads
    obtain ⟨locked, kept⟩ := holdConsent_answer (answer_of_told faithful said)
    rw [found, faithful.now] at kept
    rw [← locks_of_told said] at locked
    rw [ofPerson, issued.clientId]
    exact ⟨event, among, finished, faithful, locked, kept⟩

/-- An exchange that commits after a withdrawal found a consent given since. -/
theorem consented_anew (new : NewRealm start) (here : CommittedAt world.past place commit)
    (said : told (.deleteConsent person clientId) true ∈ commit.work.log.script)
    (there : CommittedAt world.past other one) (opening : Opening one first)
    (ofPerson : first.person = person) (ofClient : first.clientId = clientId)
    (isClient : Db.client start clientId = some client) (required : client.requiresConsent = true)
    (later : place < other) :
    ∃ since, place < since ∧ since < other ∧ ∃ giving request browserDigest ticket consent,
      CommittedAt world.past since giving ∧
      giving.call = .answerConsent request browserDigest (some ticket) .allow ∧
      told (.addConsent consent) () ∈ giving.work.log.script ∧ consent.person = person ∧
      consent.clientId = clientId := by
  subst ofPerson ofClient
  obtain ⟨gone, delete, among, deletes, -⟩ := withdrawal reached here said
  obtain ⟨event, inside, finished, faithful, holds, kept⟩ :=
    exchange_holds reached new there opening isClient required
  rw [Reachable.after_eq here] at gone
  have since : place < event.finished := by
    by_contra soon
    have rival := reached.locks_subset movement here among deletes
    have shared := reached.held movement there inside holds here (by omega) later rival
    cases shared.2
  obtain ⟨given, after, before, giving, isGiving, absent, present⟩ := reached.lost
    (fun db => Db.consent db first.person first.clientId = none) since faithful.finished gone
    (Option.isSome_iff_ne_none.mp kept)
  obtain ⟨writer, inUnit, -, row, written, isRow⟩ := reached.made movement isGiving
    (.consent first.person first.clientId) (fun row => row ≠ none) (not_not.mpr absent) present
  obtain ⟨consent, rfl⟩ := Option.ne_none_iff_exists'.mp isRow
  obtain ⟨adding, op, forPerson, forClient⟩ := adds_of_written written
  obtain ⟨-, -, honest⟩ := reached.faithful isGiving (Work.mem_told_of_mem inUnit)
  have inScript := mem_script inUnit (told_of_op honest op)
  obtain ⟨request, browserDigest, ticket, session, called, -, -⟩ :=
    committed_backed reached isGiving _ inScript
  exact ⟨given, by omega, by omega, giving, request, browserDigest, ticket, adding, isGiving, called,
    inScript, forPerson, forClient⟩

/-- The withdrawal saw the first token of a family opened before it. -/
theorem withdrawal_covers (new : NewRealm start) (here : CommittedAt world.past place commit)
    (said : told (.deleteConsent person clientId) true ∈ commit.work.log.script)
    (there : CommittedAt world.past other one) (opening : Opening one first)
    (ofPerson : first.person = person) (ofClient : first.clientId = clientId)
    (isClient : Db.client start clientId = some client) (required : client.requiresConsent = true)
    (earlier : other < place) :
    ∃ event ∈ commit.work.events, ∃ stored,
      Db.token event.snapshot first.tokenDigest = some stored ∧ stored.token = first ∧
      covers event.op event.seen stored.token = true := by
  subst ofPerson ofClient
  obtain ⟨-, delete, among, deletes, revoke, inUnit, order, instant, revokes⟩ :=
    withdrawal reached here said
  obtain ⟨event, inside, -, -, holds, -⟩ := exchange_holds reached new there opening isClient required
  have before : other < delete.finished := by
    by_contra since
    have rival := reached.locks_subset movement there inside holds
    have shared := reached.held movement here among deletes there (by omega) earlier rival
    cases shared.1
  obtain ⟨ran, -, faithful⟩ := reached.faithful here (Work.mem_told_of_mem inUnit)
  have upto := Nat.le_trans faithful.started faithful.finished
  have since : other + 1 ≤ revoke.started := by omega
  obtain ⟨stored, kept, isFirst⟩ := kept_of_inserted reached there opening.inserted
  obtain ⟨row, saw, moved⟩ := reached.grows movement since upto (.token _) stored kept
  obtain ⟨-, session, open_, ofPerson, -⟩ := insertion_cases reached new there opening.inserted
  obtain ⟨next, sees, moves⟩ := reached.grows movement since upto (.session _) session open_
  rw [← faithful.snapshot] at saw sees
  obtain ⟨last, seen, again⟩ := reached.grows_seen movement ran (.session _) next sees
  have same : row.token = first := by rw [moved.token, isFirst]
  refine ⟨revoke, inUnit, row, saw, same, ?_⟩
  have found : Db.session revoke.seen first.session = some last := seen
  have lastPerson : last.person = first.person := by
    rw [again.1, moves.1]
    exact ofPerson
  rw [same, revokes]
  simp [covers, found, lastPerson]

end Runs

/-- Over any interleaving of the calls, for a client that requires consent: an
answer with tokens is of a unit that inserted its refresh token. Once a unit
withdrew the consent of a person, an exchange that commits later for that
person and that client found a consent the person gave since; a family opened
before is revoked by the withdrawal, no statement that starts after it spends
a token of it, and, each statement atomic, no unit that commits after it
inserts one. -/
theorem withdrawn_consents_hold {app : App} {mode : Mode} {start : Db} {ids : List Drawn}
    {world : World (calls app)} (new : NewRealm start)
    (reached : Reachable (calls app) mode start ids world) :
    (∀ answered ∈ world.answered, ∀ response, answered.answer = .tokens response →
      ∃ place commit token, CommittedAt world.past place commit ∧ commit.pid = answered.pid ∧
        told (.insertRefreshToken token) true ∈ commit.work.log.script ∧
        response.refreshToken = token.tokenDigest ∧
        (Opening commit token ∨ ∃ digest spent, Rotation commit digest spent token)) ∧
    (∀ place withdrawing person clientId client, CommittedAt world.past place withdrawing →
      told (.deleteConsent person clientId) true ∈ withdrawing.work.log.script →
      Db.client start clientId = some client → client.requiresConsent = true →
      ∀ other opening first, CommittedAt world.past other opening → Opening opening first →
      first.person = person → first.clientId = clientId →
      (place < other → ∃ since, place < since ∧ since < other ∧
        ∃ giving request browserDigest ticket consent, CommittedAt world.past since giving ∧
          giving.call = .answerConsent request browserDigest (some ticket) .allow ∧
          told (.addConsent consent) () ∈ giving.work.log.script ∧ consent.person = person ∧
          consent.clientId = clientId) ∧
      (other < place →
        (∃ stored, Db.token withdrawing.after first.tokenDigest = some stored ∧
          stored.token = first ∧ stored.revokedAt.isSome) ∧
        (∀ spend ∈ world.ran, place < spend.started → ∀ digest clientId instant token,
          spend.told = told (.spendRefreshToken digest clientId instant) (some token) →
          token.family ≠ first.family) ∧
        (mode = .atomic → ∀ later one token, CommittedAt world.past later one → place < later →
          told (.insertRefreshToken token) true ∈ one.work.log.script →
          token.family ≠ first.family))) := by
  refine ⟨?_, ?_⟩
  · intro answered inside response given
    obtain ⟨token, place, commit, here, pid, inserted, ofToken, -⟩ :=
      tokens_answered reached inside given
    exact ⟨place, commit, token, here, pid, inserted, ofToken.refreshToken,
      (insertion_cases reached new here inserted).1⟩
  · intro place withdrawing person clientId client here said isClient required other opening first
      there opens ofPerson ofClient
    refine ⟨fun later => ?_, fun earlier => ?_⟩
    · exact consented_anew reached new here said there opens ofPerson ofClient isClient required later
    · obtain ⟨event, among, stored, saw, same, covered⟩ := withdrawal_covers reached new here said there
        opens ofPerson ofClient isClient required earlier
      obtain ⟨-, -, -, -, silent, -⟩ := committed_backed reached here _ said
      obtain ⟨unspendable, uninserted⟩ := family_stopped reached new here among saw covered silent
      rw [same] at unspendable uninserted
      refine ⟨?_, unspendable, ?_⟩
      · obtain ⟨ran, -, -⟩ := reached.faithful here (Work.mem_told_of_mem among)
        obtain ⟨row, seen, moved⟩ := reached.grows_seen movement ran (.token _) stored saw
        obtain ⟨next, after, isNext, revoked⟩ := revoked_of_covers reached here among seen
          (by rw [moved.token]; exact covered)
        exact ⟨next, after, by rw [isNext, moved.token, same], revoked⟩
      · intro atomic later one token isLater since inserted kin
        exact (uninserted later one token isLater since inserted kin).1 atomic

def adaWithdraws : List (World.Served (calls homeApp)) :=
  adaSignsIn ++ [serves (.exchangeCode codeOfAda) [.id 40, .secret [40]],
    serves (.withdrawPersonConsent 1 "web") []]

def withdrawsOfAda : Told → Bool
  | ⟨.deleteConsent person clientId, true⟩ => person = 1 && clientId = "web"
  | _ => false

theorem withdrawsOfAda_iff {said : Told} (withdraws : withdrawsOfAda said = true) :
    said = told (.deleteConsent 1 "web") true := by
  unfold withdrawsOfAda at withdraws
  split at withdraws
  · next person clientId =>
    simp only [Bool.and_eq_true, decide_eq_true_eq] at withdraws
    obtain ⟨rfl, rfl⟩ := withdraws
    rfl
  · cases withdraws

theorem adaWithdraws_stops : ∃ world, NewRealm homeRealm ∧
    Reachable (calls homeApp) .atomic homeRealm [] world ∧
    (∃ withdrawing, CommittedAt world.past 7 withdrawing ∧
      told (.deleteConsent 1 "web") true ∈ withdrawing.work.log.script) ∧
    ∀ later one token, CommittedAt world.past later one → 7 < later →
      told (.insertRefreshToken token) true ∈ one.work.log.script → token.family ≠ 40 := by
  have ran : ((World.initial homeRealm []).serve .atomic 100 adaWithdraws).map (fun world =>
      ((world.past.reverse[7]?).any (fun commit => commit.work.log.script.any withdrawsOfAda),
        (Db.token (dbAt homeRealm world.past 7) [40]).any fun stored =>
          stored.token.person = 1 && stored.token.clientId = "web" && stored.token.family = 40)) =
        some (true, true) := by
    decide +kernel
  obtain ⟨world, served, checked⟩ := Option.map_eq_some_iff.mp ran
  obtain ⟨withdraws, kept⟩ := Prod.mk.inj checked
  have reached := Reachable.initial.of_serve served
  obtain ⟨withdrawing, isWithdrawing, inScript⟩ := (Option.any_eq_true _ _).mp withdraws
  obtain ⟨said, inside, withdraws⟩ := List.any_eq_true.mp inScript
  rw [withdrawsOfAda_iff withdraws] at inside
  have here := CommittedAt.iff_getElem?.mpr isWithdrawing
  obtain ⟨stored, found, facts⟩ := (Option.any_eq_true _ _).mp kept
  simp only [Bool.and_eq_true, decide_eq_true_eq] at facts
  obtain ⟨⟨ofAda, ofWeb⟩, family⟩ := facts
  obtain ⟨place, before, opened, first, there, opening, grant⟩ :=
    family_opened reached homeRealm_new (Nat.le_of_lt here.lt) found
  refine ⟨world, homeRealm_new, reached, ⟨withdrawing, here, inside⟩, ?_⟩
  have stopped := ((withdrawn_consents_hold homeRealm_new reached).2 7 withdrawing 1 "web" webClient
    here inside rfl rfl place opened first there opening (grant.person.symm.trans ofAda)
    (grant.clientId.symm.trans ofWeb)).2 before
  rw [← family, grant.family]
  exact stopped.2.2 rfl

end Saffui.Oidc
