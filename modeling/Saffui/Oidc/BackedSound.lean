import Saffui.Oidc.Backed

/-!
# Every call backs what it writes

One lemma for each program of the model, then one for each call.
-/

namespace Saffui.Oidc
open Saffui.Foundation Saffui.Foundation.Language Saffui.Login Saffui.Tokens

section Programs

variable {app : App} {guar : Log → Prop} {log : Log}

theorem readNamedClient_logs {post : Option Client → Log → Prop} {clientId : String}
    (unknown : post none log)
    (read : ∀ client, post client (log.ran (.readClient clientId) client)) :
    (readNamedClient clientId).logs guar post log := by
  unfold readNamedClient
  split
  · exact unknown
  · exact read

theorem identifyClient_logs {post : Client → Log → Prop} {clientId : String}
    {presented : Option Bytes}
    (read : ∀ client, post client (log.ran (.readClient clientId) (some client))) :
    (identifyClient clientId presented).logs guar post log := by
  have filtered : ∀ test : Option Client → Client → Bool,
      (readNamedClient clientId).logs guar (fun client log => ∀ one,
        client.filter (test client) = some one → post one log) log := by
    intro test
    apply readNamedClient_logs
    · nofun
    · intro client one found
      obtain rfl := (Option.filter_eq_some_iff.mp found).1
      exact read one
  cases presented with
  | some digest =>
    simp only [identifyClient, authenticateClient, Prog.logs_bind, logs_orFail]
    exact filtered fun client known =>
      digest = (client.bind Client.secretDigest).getD (List.replicate 32 0) && known.enabled
  | none =>
    simp only [identifyClient, Prog.logs_bind, logs_orFail]
    exact filtered fun _ known => known.enabled && known.secretDigest.isNone

theorem requireLiveSubject_logs {post : Session × Person → Log → Prop} {session person : Uuid}
    (read : ∀ known instant row, stands known instant = true → row.id = person →
      post (known.session, row) ((log.ran (.readSession session) (some known)).ran
        (.readPerson known.session.person) (some row))) :
    (requireLiveSubject session person).logs guar post log := by
  simp only [requireLiveSubject, readLiveSubject, Prog.logs_bind, logs_tellNow, query, exec,
    Prog.logs, logs_orFail]
  intro instant found
  split
  · simp
  · next known stood =>
    obtain ⟨rfl, standing⟩ := Option.filter_eq_some_iff.mp stood
    simp only [Prog.logs_bind, Prog.logs, Prog.logs_pure]
    intro row subject named
    obtain ⟨same, named⟩ := Option.filter_eq_some_iff.mp named
    obtain ⟨one, enabled, rfl⟩ := Option.map_eq_some_iff.mp same
    obtain ⟨rfl, -⟩ := Option.filter_eq_some_iff.mp enabled
    have holds : one.enabled = true ∧ one.id = person := by simpa using named
    exact read known instant one standing holds.2

theorem answerForPerson_logs {post : TokenResponse → Log → Prop} {granted : Granted}
    (issued : ∀ token response, TokenOf token granted.family.family granted.family.clientId
        granted.family.session granted.family.scopes →
      response.refreshToken = token.tokenDigest →
      response.accessToken.clientId = granted.clientId →
      response.accessToken.session = granted.session.id →
      response.accessToken.scopes = granted.scopes →
      post response ((log.drew (.secret token.tokenDigest)).ran (.insertRefreshToken token) true)) :
    (answerForPerson app granted).logs guar post log := by
  simp only [answerForPerson, issueRefreshToken, Prog.logs_bind, ask, inquire, query, exec, Prog.logs,
    logs_refuseIf, logs_drawSecret, logs_tellNow, Prog.logs_pure, Bool.not_eq_false']
  intro signed _ digest instant inserted kept
  subst kept
  exact issued _ _ ⟨rfl, rfl, rfl, rfl, rfl, Int.min_le_right _ _⟩ rfl rfl rfl rfl

theorem takeBackReplayed_logs {post : Unit → Log → Prop} {digest : Bytes} {clientId : String}
    {instant : Instant}
    (left : ∀ known, post () (log.ran (.readRefreshToken digest) known))
    (revoked : ∀ known family count,
      guar ((log.ran (.readRefreshToken digest) known).ran (.revokeRefreshFamily family instant)
        count) ∧
      post () (((log.ran (.readRefreshToken digest) known).ran (.revokeRefreshFamily family instant)
        count).finish true)) :
    (takeBackReplayed digest clientId instant).logs guar post log := by
  simp only [takeBackReplayed, Prog.logs_bind, query, exec, Prog.logs]
  intro known
  split
  · exact left known
  · simp only [Prog.logs_bind, Prog.logs, logs_commitWork]
    exact fun count => revoked known _ count

theorem readProvenSession_logs {post : Option ReadSession → Log → Prop} {ticket : SessionTicket}
    (unproven : ∀ known, post none (log.ran (.readSession ticket.session) known))
    (proven : ∀ known instant, known.session.secretDigest = ticket.secretDigest →
      known.session.state = .active → known.session.expiresAt > instant →
      post (some known) (log.ran (.readSession ticket.session) (some known))) :
    (readProvenSession ticket).logs guar post log := by
  simp only [readProvenSession, Prog.logs_bind, query, exec, Prog.logs, logs_tellNow, Prog.logs_pure]
  intro read instant
  cases read with
  | none => exact unproven none
  | some known =>
    rw [Option.filter_some]
    split
    · next live =>
      simp only [Bool.and_eq_true, decide_eq_true_eq] at live
      exact proven known instant live.1.1 live.1.2 live.2
    · exact unproven (some known)

theorem findLiveSession_logs {post : Option Session → Log → Prop} {ticket : SessionTicket}
    (dead : ∀ known, post none (log.ran (.readSession ticket.session) known))
    (live : ∀ known, post (some known.session) (log.ran (.readSession ticket.session) (some known))) :
    (findLiveSession ticket).logs guar post log := by
  simp only [findLiveSession, Prog.logs_bind, Prog.logs_pure]
  apply readProvenSession_logs
  · exact dead
  · exact fun known _ _ _ _ => live known

theorem findAnsweringSession_logs {post : Option Session → Log → Prop} {ticket : SessionTicket}
    (silent : ∀ known, post none (log.ran (.readSession ticket.session) known))
    (answers : ∀ known instant, known.session.secretDigest = ticket.secretDigest →
      stands known instant = true →
      post (some known.session) (log.ran (.readSession ticket.session) (some known))) :
    (findAnsweringSession ticket).logs guar post log := by
  simp only [findAnsweringSession, Prog.logs_bind, Prog.logs_pure]
  apply readProvenSession_logs
  · exact silent
  · intro known instant secret active lasting
    rw [Option.filter_some]
    split
    · next answering =>
      exact answers known instant secret (by simp [stands, active, lasting, answering])
    · exact silent (some known)

theorem readHint_logs {post : Option IdentityHint → Log → Prop} {hint : Option String}
    (absent : hint = none → post none log)
    (read : ∀ token keys, hint = some token →
      post (readIdentityHint app.toTokenPackages app.issuer token keys)
        (log.ran .listSigningKeys keys)) :
    (readHint app hint).logs guar post log := by
  cases hint with
  | none => exact absent rfl
  | some token =>
    simp only [readHint, Prog.logs_bind, query, exec, Prog.logs, Prog.logs_pure]
    exact fun keys => read token keys rfl

/-- A session closed ends with its tokens. -/
theorem closeSession_logs {post : Unit → Log → Prop} {call : Call} {session : Session}
    (plain : Plain log) (closed : ∀ log, UnitBacked app call log → post () log) :
    (closeSession session).logs guar post log := by
  simp only [closeSession, Prog.logs_bind, query, exec, Prog.logs, logs_ite, logs_tellNow,
    Prog.logs_pure]
  intro ended
  refine ⟨?_, ?_⟩
  · intro overlay instant count
    subst overlay
    apply closed
    simp only [UnitBacked, Log.script_ran, List.forall_mem_append, List.append_assoc,
      List.forall_mem_singleton]
    exact ⟨plain.backed, ⟨instant, count, by simp [Then, told]⟩, trivial⟩
  · intro still
    apply closed
    simp only [UnitBacked, Log.script_ran, List.forall_mem_append, List.forall_mem_singleton]
    refine ⟨plain.backed, ?_⟩
    cases ended with
    | true => exact absurd rfl still
    | false => trivial

/-- A consent withdrawn goes with the families of its client. -/
theorem withdrawConsent_logs {post : Unit → Log → Prop} {call : Call} {person : Uuid}
    {clientId : String} (reading : Reading log)
    (withdrawn : ∀ log, UnitBacked app call log → post () log) :
    (withdrawConsent person clientId).logs guar post log := by
  unfold withdrawConsent
  cases checkClientIdentifier clientId with
  | error code => simp [Prog.logs_bind]
  | ok _ =>
    simp only [Prog.logs_bind, query, exec, Prog.logs, logs_refuseIf, logs_tellNow, Prog.logs_pure,
      Bool.not_eq_false']
    intro deleted kept instant count
    subst kept
    apply withdrawn
    simp only [UnitBacked, Log.script_ran, List.forall_mem_append, List.append_assoc,
      List.forall_mem_singleton]
    refine ⟨reading.plain.backed, ⟨?_, instant, count, by simp [Then, told], ?_, ?_⟩, trivial⟩
    · simpa [Leading, told] using reading.leads _ _
    · intro token inserted
      have earlier : told (.insertRefreshToken token) true ∈ log.script := by
        simpa [told] using inserted
      cases reading _ earlier
    · intro consent added
      have earlier : told (.addConsent consent) () ∈ log.script := by
        simpa [told] using added
      cases reading _ earlier

/-- The statements over the counters of the brake. -/
def brakes : Op → Bool
  | .countLoginFailures _ _ | .recordLoginFailure _ _ | .forgetLoginFailures _ => true
  | _ => false

theorem backed_of_brakes {call : Call} {one : Told} (counting : brakes one.1 = true) :
    Backed app call log one := by
  obtain ⟨op, result⟩ := one
  cases op with
  | countLoginFailures | recordLoginFailure | forgetLoginFailures => trivial
  | _ => cases counting

/-- A unit that went on with counters of the brake only. -/
structure Braked (log later : Log) : Prop where
  script : ∃ more, later.script = log.script ++ more ∧ ∀ one ∈ more, brakes one.1 = true
  ended : later.ended = log.ended
  drawn : later.drawn = log.drawn

theorem Braked.refl (log : Log) : Braked log log :=
  ⟨⟨[], by simp, by simp⟩, rfl, rfl⟩

theorem Braked.ran {later : Log} (braked : Braked log later) (op : Op) (counting : brakes op = true)
    {result : Res op} : Braked log (later.ran op result) := by
  obtain ⟨more, script, all⟩ := braked.script
  refine ⟨⟨more ++ [⟨op, result⟩], by simp [script], ?_⟩, braked.ended, braked.drawn⟩
  exact List.forall_mem_append.mpr ⟨all, by simpa using counting⟩

theorem Braked.plain {later : Log} (braked : Braked log later) (plain : Plain log) : Plain later := by
  obtain ⟨more, script, all⟩ := braked.script
  intro one inside
  rw [script] at inside
  rcases List.mem_append.mp inside with before | after
  · exact plain one before
  · exact fun _ _ _ => backed_of_brakes (all one after)

theorem Braked.subset {later : Log} (braked : Braked log later) : log.script ⊆ later.script := by
  obtain ⟨more, script, -⟩ := braked.script
  simp [script]

theorem Braked.told {later : Log} (braked : Braked log later) : log.told <+: later.told := by
  obtain ⟨more, script, -⟩ := braked.script
  simp [Log.told, braked.ended, script]

/-- What is not of the brake is counted as before. -/
theorem Braked.countP {later : Log} (braked : Braked log later) {test : Told → Bool}
    (other : ∀ said, brakes said.1 = true → test said = false) :
    later.script.countP test = log.script.countP test := by
  obtain ⟨more, script, all⟩ := braked.script
  have none : more.countP test = 0 := by
    rw [List.countP_eq_zero]
    intro said inside
    simp [other said (all said inside)]
  rw [script, List.countP_append, none]
  rfl

theorem ofTyped_logs {post : Brake → Log → Prop} {typed : String}
    (made : ∀ brake, app.digestCounter 5 [.text typed] = some brake.nameToday → post brake log) :
    (Brake.ofTyped app typed).logs guar post log := by
  simp only [Brake.ofTyped, digestNameLocks, digestCounter, ask, inquire, Prog.logs_bind, Prog.logs,
    logs_orFail, Prog.logs_pure]
  intro address name _ today isToday
  cases address with
  | none => exact made _ isToday
  | some address =>
    simp only [Prog.logs_bind, logs_orFail, Prog.logs_pure]
    exact fun _ _ _ _ => made _ isToday

theorem ofCaller_logs {post : Brake → Log → Prop} {brake : Brake} {typed : String}
    {person : Option Uuid} (made : ∀ other, other.nameToday = brake.nameToday → post other log) :
    (brake.ofCaller app typed person).logs guar post log := by
  simp only [Brake.ofCaller, ask, inquire, Prog.logs_bind, Prog.logs]
  intro device
  cases device with
  | none => exact made brake rfl
  | some device =>
    simp only [Brake.countBrowserApart, digestCounter, Prog.logs_bind, logs_orFail, Prog.logs_pure]
    exact fun _ _ _ _ _ _ => made _ rfl

theorem admit_logs {post : Unit → Log → Prop} {brake : Brake} {now : Instant}
    (admitted : ∀ later, Braked log later → post () later) :
    ( brake.admit now).logs guar post log := by
  simp only [ Brake.admit]
  split
  · exact admitted log (.refl log)
  · simp only [query, exec, Prog.logs_bind, Prog.logs, logs_refuseIf]
    exact fun _ _ _ => admitted _ (((Braked.refl log).ran _ rfl).ran _ rfl)

theorem isNameLocked_logs {post : Bool → Log → Prop} {brake : Brake} {now : Instant}
    (asked : ∀ locked later, Braked log later → (Reading log → Reading later) → post locked later) :
    (brake.isNameLocked now).logs guar post log := by
  simp only [Brake.isNameLocked]
  split
  · simp only [query, exec, Prog.logs_bind, Prog.logs, logs_ite, Prog.logs_pure]
    intro recent
    refine ⟨fun _ => asked _ _ ((Braked.refl log).ran _ rfl) fun reading => reading.ran _ rfl,
      fun _ today => ?_⟩
    exact asked _ _ (((Braked.refl log).ran _ rfl).ran _ rfl) fun reading =>
      (reading.ran _ rfl).ran _ rfl
  · simp only [query, exec, Prog.logs_bind, Prog.logs]
    intro failed today
    split
    · simp only [Prog.logs_bind, Prog.logs, Prog.logs_pure]
      exact fun here => asked _ _ ((((Braked.refl log).ran _ rfl).ran _ rfl).ran _ rfl)
        fun reading => ((reading.ran _ rfl).ran _ rfl).ran _ rfl
    · exact asked _ _ (((Braked.refl log).ran _ rfl).ran _ rfl) fun reading =>
        (reading.ran _ rfl).ran _ rfl

theorem recordFailure_logs {post : Unit → Log → Prop} {brake : Brake} {now : Instant}
    (counted : ∀ later, Braked log later →
      told (.recordLoginFailure brake.nameToday (startLongBucket now)) () ∈ later.script →
      post () later) :
    (brake.recordFailure now).logs guar post log := by
  have first : Braked log
      (log.ran (.recordLoginFailure brake.nameToday (startLongBucket now)) ()) :=
    (Braked.refl log).ran _ rfl
  simp only [Brake.recordFailure, query, exec, Prog.logs_bind, Prog.logs]
  intro _
  split
  · simp only [Prog.logs_bind, Prog.logs]
    exact fun _ _ => counted _ ((first.ran _ rfl).ran _ rfl) (by simp [told])
  · simp only [Prog.logs_bind, Prog.logs]
    intro _
    split
    · exact fun _ => counted _ ((first.ran _ rfl).ran _ rfl) (by simp [told])
    · exact counted _ (first.ran _ rfl) (by simp [told])

theorem forgetBrowserFailures_logs {post : Unit → Log → Prop} {brake : Brake}
    (forgot : ∀ later, Braked log later → post () later) :
    brake.forgetBrowserFailures.logs guar post log := by
  simp only [Brake.forgetBrowserFailures]
  split
  · simp only [query, exec, Prog.logs_bind, Prog.logs]
    exact fun _ _ => forgot _ (((Braked.refl log).ran _ rfl).ran _ rfl)
  · exact forgot log (.refl log)

theorem admitPendingSignIn_logs {post : Unit → Log → Prop}
    (admitted : ∀ later, Braked log later → post () later) :
    (admitPendingSignIn app).logs guar post log := by
  simp only [admitPendingSignIn, ask, inquire, Prog.logs_bind, logs_tellNow, Prog.logs]
  intro now kept address
  split
  · exact admitted log (.refl log)
  · simp only [digestCounter, query, exec, Prog.logs_bind, logs_orFail, Prog.logs, logs_refuseIf]
    exact fun _ _ _ _ _ => admitted _ (((Braked.refl log).ran _ rfl).ran _ rfl)

/-- Between two units, and no earlier than a log. -/
structure After (log later : Log) : Prop where
  idle : later.script = []
  told : log.told <+: later.told

theorem After.trans {first second third : Log} (one : After first second) (other : After second third) :
    After first third :=
  ⟨other.idle, one.told.trans other.told⟩

theorem After.reading {later : Log} (after : After log later) : Reading later := by
  intro read inside
  rw [after.idle] at inside
  cases inside

theorem After.mem {later : Log} {one : Told} (after : After log later) (inside : one ∈ log.told) :
    one ∈ later.told :=
  after.told.subset inside

/-- The first unit of a proof by password, once its person was read. -/
theorem checkPassword_logs {post : Person × Brake → Log → Prop} {name : String} {password : Bytes}
    {first : Log} {brake : Brake} {typed : String} {now : Instant} {found : Option Person}
    (unit : ∀ log, Plain log → guar log) (plain : Plain first) (longer : log.told <+: first.told)
    (named : ∀ person, found = some person → ∃ username, normalizeUsername name = some username ∧
      told (.readPersonByUsername username) (some person) ∈ first.told)
    (accepted : ∀ person brake later, After log later →
      PasswordAccepted app later.told name password person.id → post (person, brake) later) :
    Prog.logs guar (do
      let brake ← brake.ofCaller app typed (found.map Person.id)
      brake.admit now
      let locked ← brake.isNameLocked now
      let person := found.filter fun _ => !locked
      let stored ← query (.readPassword (person.elim 0 Person.id))
      commitWork
      refuseIf locked .signInFailed
      let shared ← ask .hasFreeShare
      refuseIf (!shared) .hashingBusy
      let verified := app.verifyPassword password (stored.getD app.decoyHash)
      match person.filter fun person => verified && person.enabled with
      | some person => return (person, brake)
      | none =>
        beginWork
        brake.recordFailure now
        commitWork
        failed .signInFailed) post first := by
  rw [Prog.logs_bind]
  apply ofCaller_logs
  intro brake _
  rw [Prog.logs_bind]
  apply admit_logs
  intro admitted isAdmitted
  rw [Prog.logs_bind]
  apply isNameLocked_logs
  intro locked asked isAsked _
  simp only [query, exec, ask, inquire, Prog.logs_bind, Prog.logs, logs_refuseIf]
  intro stored
  have ended : Plain asked := isAsked.plain (isAdmitted.plain plain)
  have kept : first.told <+: asked.told := isAdmitted.told.trans isAsked.told
  refine ⟨unit _ (ended.ran fun _ _ _ => trivial), ?_⟩
  intro unlocked shared _
  subst unlocked
  split
  · next person same =>
    obtain ⟨isFound, proven⟩ := Option.filter_eq_some_iff.mp same
    obtain ⟨rfl, -⟩ := Option.filter_eq_some_iff.mp isFound
    obtain ⟨verified, enabled⟩ := Bool.and_eq_true_iff.mp proven
    obtain ⟨username, normalized, read⟩ := named person rfl
    refine accepted person brake _ ⟨rfl, ?_⟩ ⟨⟨person, username, normalized, ?_, rfl, enabled⟩,
      stored, ?_, verified⟩
    · simpa using (longer.trans kept).trans (List.prefix_append _ _)
    · simp [kept.subset read]
    · simp [told, Option.filter_some]
  · simp only [Prog.logs_bind, logs_beginWork]
    apply recordFailure_logs
    intro later braked _
    exact ⟨unit _ (braked.plain (Reading.finish _ _).plain), trivial⟩

theorem verifyPassword_logs {post : Person × Brake → Log → Prop} {name : String} {password : Bytes}
    (unit : ∀ log, Plain log → guar log)
    (accepted : ∀ person brake later, After log later →
      PasswordAccepted app later.told name password person.id → post (person, brake) later) :
    (verifyPassword app name password).logs guar post log := by
  rw [verifyPassword, Prog.logs_bind, logs_refuseIf]
  intro _
  rw [Prog.logs_bind]
  apply ofTyped_logs
  intro brake _
  simp only [ask, inquire, Prog.logs_bind, Prog.logs, logs_refuseIf, logs_tellNow, logs_beginWork]
  intro free _ now
  cases normalized : normalizeUsername name with
  | none =>
    have longer : log.told <+: (log.finish false).told := by simp
    apply checkPassword_logs unit (Reading.finish _ _).plain longer
    · nofun
    · exact accepted
  | some username =>
    intro found
    have longer : log.told <+:
        ((log.finish false).ran (.readPersonByUsername username) found).told := by simp
    apply checkPassword_logs unit ((Reading.finish _ _).ran _ rfl).plain longer
    · rintro person rfl
      exact ⟨username, normalized, by simp [told]⟩
    · exact accepted

theorem openSessionFor_logs {post : SignedIn → Log → Prop} {person : Person} {brake : Brake}
    {methods : List AuthenticationMethod}
    (opened : ∀ first session digest, Braked (log.finish false) first → session.person = person.id →
      session.methods = methods → session.state = .active →
      guar (((first.drew (.secret digest)).drew (.id session.id)).ran (.insertSession session) true) ∧
      ∀ ticket, post ⟨person, session.id, ticket⟩ ((((first.drew (.secret digest)).drew
        (.id session.id)).ran (.insertSession session) true).finish true)) :
    (openSessionFor person brake methods).logs guar post log := by
  rw [openSessionFor, Prog.logs_bind, logs_beginWork, Prog.logs_bind]
  apply forgetBrowserFailures_logs
  intro first braked
  simp only [openSession, Prog.logs_bind, logs_drawSecret, logs_tellNow, logs_mintId, query, exec,
    Prog.logs, logs_refuseIf, logs_commitWork, Prog.logs_pure, Bool.not_eq_false']
  intro digest instant id inserted kept
  subst kept
  have session := opened first
    ⟨id, person.id, digest, .active, methods, instant, instant + SESSION_LIFETIME⟩ digest braked
    rfl rfl rfl
  exact ⟨session.1, session.2 _⟩

theorem startKeyProof_logs {post : KeyProofStart → Log → Prop} {person : Uuid}
    (started : ∀ start held, (start = .noKeyHeld → held = []) →
      post start (log.ran (.listSecurityKeys person) held)) :
    (startKeyProof app person).logs guar post log := by
  simp only [startKeyProof, Prog.logs_bind, query, exec, Prog.logs, logs_ite, Prog.logs_pure, ask,
    inquire, logs_orFail]
  intro held
  refine ⟨fun empty => started _ held fun _ => List.isEmpty_iff.mp empty, fun _ =>
    ⟨fun _ => started _ held nofun, fun _ begun one _ => ?_⟩⟩
  exact started _ held nofun

theorem keyOwed_logs {post : Option KeyCeremony → Log → Prop} {code : Bool} {start : KeyProofStart}
    (owed : ∀ key : Option KeyCeremony, (code = false → key = none → start = .noKeyHeld) →
      post key log) :
    (keyOwed code start).logs guar post log := by
  cases start with
  | noKeyHeld => exact owed none fun _ _ => rfl
  | started ceremony => exact owed (some ceremony) nofun
  | notServed =>
    simp only [keyOwed, logs_ite, logs_failed, implies_true, and_true]
    intro hasCode
    refine owed none fun hasNone => ?_
    rw [hasCode] at hasNone
    cases hasNone

theorem acceptCode_logs {post : Bool → Log → Prop} {person : Uuid} {sealedSecret : Bytes}
    {code : String} {usedFor : TotpUse} (refused : post false log)
    (judged : ∀ step instant accepted,
      post accepted (log.ran (.acceptTotpStep person sealedSecret step usedFor instant) accepted)) :
    (acceptCode person sealedSecret code usedFor).logs guar post log := by
  simp only [acceptCode, Prog.logs_bind, logs_tellNow, logs_ite, Prog.logs_pure, ask, inquire,
    Prog.logs]
  intro instant
  refine ⟨fun _ => refused, fun _ found => ?_⟩
  match found with
  | .error code => trivial
  | .ok none => exact refused
  | .ok (some step) => exact fun accepted => judged step instant accepted

/-- Reads are not counted among what else a unit did. -/
theorem Reading.countP {test : Told → Bool} (reading : Reading log)
    (other : ∀ said, reads said.1 = true → test said = false) : log.script.countP test = 0 := by
  rw [List.countP_eq_zero]
  intro said inside
  simp [other said (reading said inside)]

theorem not_counts_of_reads {said : Told} (reading : reads said.1 = true) :
    countsCode said.1 = false ∧ acceptsCode said = false ∧ clearsCodes said = false ∧
      suspendsCodes said = false ∧ isKeyUse said.1 = false := by
  obtain ⟨op, result⟩ := said
  cases op <;> first | exact ⟨rfl, rfl, rfl, rfl, rfl⟩ | cases reading

theorem not_counts_of_brakes {said : Told} (counting : brakes said.1 = true) :
    countsCode said.1 = false ∧ acceptsCode said = false ∧ clearsCodes said = false ∧
      suspendsCodes said = false ∧ isKeyUse said.1 = false := by
  obtain ⟨op, result⟩ := said
  cases op <;> first | exact ⟨rfl, rfl, rfl, rfl, rfl⟩ | cases counting

/-- A unit that counted a code, accepted it and forgot those before. -/
theorem acceptedCode_backed {call : Call} {read final : Log} {person : Uuid} {attempts : Nat}
    {judged : Bytes} {step : Int} {instant : Instant} (reading : Reading read)
    (within : attempts ≤ MAX_CODE_FAILURES)
    (script : final.script = read.script ++ [told (.countCodeAttempt person) attempts,
      told (.acceptTotpStep person judged step .signIn instant) true,
      told (.clearCodeAttempts person) ()]) :
    UnitBacked app call final := by
  have counted : CodeJudged person attempts final.script := by
    refine ⟨?_, ?_, .accepted within ⟨judged, step, instant, by simp [script]⟩ ?_ ?_ ?_⟩
    · rw [script]
      exact reading.leads _ _
    · rw [script, List.countP_append, reading.countP fun _ read => (not_counts_of_reads read).1]
      rfl
    · rw [script, List.countP_append, reading.countP fun _ read => (not_counts_of_reads read).2.1]
      rfl
    · have ends : final.script = (read.script ++ [told (.countCodeAttempt person) attempts,
          told (.acceptTotpStep person judged step .signIn instant) true]) ++
          [told (.clearCodeAttempts person) ()] := by
        simp [script]
      rw [ends]
      exact .of_mem (by simp) (List.mem_singleton.mpr rfl)
    · rw [script, List.countP_append,
        reading.countP fun _ read => (not_counts_of_reads read).2.2.2.1]
      rfl
  intro one inside
  rw [script] at inside
  simp only [List.mem_append, List.mem_cons, List.not_mem_nil, or_false] at inside
  rcases inside with earlier | rfl | rfl | rfl
  · exact reading.plain.backed one earlier
  · exact counted
  · exact ⟨attempts, counted⟩
  · exact Or.inr ⟨attempts, counted⟩

/-- A unit that counted a code and refused it. -/
theorem refusedCode_backed {call : Call} {read final : Log} {person : Uuid} (attempts : Nat)
    {tried more : List Told} (reading : Reading read)
    (tries : ∀ said ∈ tried, ∃ judged step instant,
      said = told (.acceptTotpStep person judged step .signIn instant) false)
    (counting : ∀ said ∈ more, brakes said.1 = true)
    (script : final.script = read.script ++ told (.countCodeAttempt person) attempts ::
      (tried ++ more ++ if attempts = MAX_CODE_FAILURES then
        [told (.recordEvent .codesSuspended person) ()] else [])) :
    UnitBacked app call final := by
  have triedNone : ∀ {test : Told → Bool}, (∀ judged step instant,
      test (told (.acceptTotpStep person judged step .signIn instant) false) = false) →
      tried.countP test = 0 := by
    intro test other
    rw [List.countP_eq_zero]
    intro said inside
    obtain ⟨judged, step, instant, rfl⟩ := tries said inside
    simp [other]
  have moreNone : ∀ {test : Told → Bool}, (∀ said, brakes said.1 = true → test said = false) →
      more.countP test = 0 := by
    intro test other
    rw [List.countP_eq_zero]
    intro said inside
    simp [other said (counting said inside)]
  have counted : CodeJudged person attempts final.script := by
    refine ⟨?_, ?_, .refused ?_ ?_ ?_ ?_⟩
    · rw [script]
      exact reading.leads _ _
    · rw [script, List.countP_append, reading.countP fun _ read => (not_counts_of_reads read).1,
        List.countP_cons, List.countP_append, List.countP_append, triedNone fun _ _ _ => rfl,
        moreNone fun _ brake => (not_counts_of_brakes brake).1]
      split <;> rfl
    · rw [script, List.countP_append, reading.countP fun _ read => (not_counts_of_reads read).2.1,
        List.countP_cons, List.countP_append, List.countP_append, triedNone fun _ _ _ => rfl,
        moreNone fun _ brake => (not_counts_of_brakes brake).2.1]
      split <;> rfl
    · rw [script, List.countP_append, reading.countP fun _ read => (not_counts_of_reads read).2.2.1,
        List.countP_cons, List.countP_append, List.countP_append, triedNone fun _ _ _ => rfl,
        moreNone fun _ brake => (not_counts_of_brakes brake).2.2.1]
      split <;> rfl
    · intro said inside suspends
      rw [script] at inside
      simp only [List.mem_append, List.mem_cons] at inside
      rcases inside with earlier | rfl | (among | among) | last
      · rw [(not_counts_of_reads (reading said earlier)).2.2.2.1] at suspends
        cases suspends
      · cases suspends
      · obtain ⟨judged, step, instant, rfl⟩ := tries said among
        cases suspends
      · rw [(not_counts_of_brakes (counting said among)).2.2.2.1] at suspends
        cases suspends
      · split at last
        · exact List.mem_singleton.mp last
        · cases last
    · rw [script, List.countP_append,
        reading.countP fun _ read => (not_counts_of_reads read).2.2.2.1,
        List.countP_cons, List.countP_append, List.countP_append, triedNone fun _ _ _ => rfl,
        moreNone fun _ brake => (not_counts_of_brakes brake).2.2.2.1]
      split <;> rfl
  intro one inside
  have again := inside
  rw [script] at inside
  simp only [List.mem_append, List.mem_cons] at inside
  rcases inside with earlier | rfl | (among | among) | last
  · exact reading.plain.backed one earlier
  · exact counted
  · obtain ⟨judged, step, instant, rfl⟩ := tries one among
    trivial
  · exact backed_of_brakes (counting one among)
  · split at last
    · next most =>
      obtain rfl := List.mem_singleton.mp last
      rw [most] at counted
      exact counted
    · cases last

theorem settleCode_logs {post : Unit → Log → Prop} {call : Call} {brake : Brake} {person : Uuid}
    {now : Instant} {accepted : Bool} {attempts : Option Nat}
    (accepts : accepted = true →
      UnitBacked app call (log.ran (.clearCodeAttempts person) ()))
    (refuses : accepted = false → ∀ final more, (∀ said ∈ more, brakes said.1 = true) →
      final.script = log.script ++ (more ++ if attempts = some MAX_CODE_FAILURES then
        [told (.recordEvent .codesSuspended person) ()] else []) →
      UnitBacked app call final)
    (settled : ∀ later, After log later → post () later) :
    (settleCode brake person now accepted attempts).logs (UnitBacked app call) post log := by
  cases accepted with
  | true =>
    simp only [settleCode, Prog.logs_bind, logs_ite, query, exec, Prog.logs, logs_commitWork]
    exact ⟨fun _ _ => ⟨nofun, fun _ => ⟨accepts rfl, settled _ ⟨rfl, by simp⟩⟩⟩, nofun⟩
  | false =>
    simp only [settleCode, Prog.logs_bind, logs_ite, Bool.false_eq_true, false_implies, true_and,
      not_false_eq_true, true_implies]
    apply recordFailure_logs
    intro later braked _
    obtain ⟨more, script, all⟩ := braked.script
    simp only [query, exec, Prog.logs, logs_commitWork, Bool.not_false, Bool.true_and,
      decide_eq_true_eq]
    refine ⟨fun most _ => ⟨refuses rfl _ more all ?_, settled _ ⟨rfl, ?_⟩⟩,
      fun less => ⟨refuses rfl _ more all ?_, settled _ ⟨rfl, ?_⟩⟩⟩
    · simp [most, script, told]
    · simpa using braked.told.trans (List.prefix_append _ _)
    · simp [less, script]
    · simpa using braked.told

theorem verifyCode_logs {post : Brake → Log → Prop} {call : Call} {person : Person} {code : String}
    (verified : ∀ brake later, After log later → post brake later) :
    (verifyCode app person code).logs (UnitBacked app call) post log := by
  rw [verifyCode, Prog.logs_bind]
  apply ofTyped_logs
  intro brake _
  simp only [Prog.logs_bind, logs_tellNow, logs_beginWork]
  intro now
  apply ofCaller_logs
  intro brake _
  apply isNameLocked_logs
  intro locked asked isAsked stillReading
  have reading := stillReading (Reading.finish _ _)
  simp only [logs_ite, Prog.logs_bind, logs_commitWork, logs_failed, and_true]
  refine ⟨fun _ => reading.plain.backed, fun _ => ?_⟩
  simp only [query, exec, Prog.logs]
  intro totp
  have known : Reading (asked.ran (.readTotp person.id) totp) := reading.ran _ rfl
  have since : After log (asked.finish false) := ⟨rfl, by simpa using isAsked.told⟩
  have ends : ∀ {judged later : Log} {accepted : Bool}, asked.told <+: judged.told →
      After judged later → (refuseIf (!accepted) .codeRejected).logs (UnitBacked app call)
        (fun _ log => post brake log) later := by
    intro judged later accepted longer after
    rw [logs_refuseIf]
    intro _
    refine verified brake later ⟨after.idle, ?_⟩
    have start := since.told
    rw [Log.told_finish] at start
    exact start.trans (longer.trans after.told)
  cases totp.filter (fun known => known.confirmedAt.isSome) with
  | none =>
    simp only [judgeCode, Prog.logs_pure]
    apply settleCode_logs
    · nofun
    · intro _ final more counting script one inside
      simp only [reduceCtorEq, if_false, List.append_nil] at script
      rw [script] at inside
      rcases List.mem_append.mp inside with before | after
      · exact known.plain.backed one before
      · exact backed_of_brakes (counting one after)
    · exact fun later after => ends (by simp) after
  | some authenticator =>
    simp only [judgeCode, Prog.logs_bind, query, exec, Prog.logs, logs_ite, Prog.logs_pure]
    intro attempts
    have refuses : ∀ (judged : Log) (tried : List Told), (∀ said ∈ tried, ∃ judged step instant,
        said = told (.acceptTotpStep person.id judged step .signIn instant) false) →
        judged.script = (asked.ran (.readTotp person.id) totp).script ++
          told (.countCodeAttempt person.id) attempts :: tried → asked.told <+: judged.told →
        (settleCode brake person.id now false (some attempts)).logs (UnitBacked app call)
          (fun _ log => (refuseIf (!false) .codeRejected).logs (UnitBacked app call)
            (fun _ log => post brake log) log) judged := by
      intro judged tried tries script longer
      apply settleCode_logs
      · nofun
      · intro _ final more counting ended
        apply refusedCode_backed attempts known tries counting
        rw [ended, script]
        simp only [Option.some.injEq, List.append_assoc, List.cons_append]
      · exact fun later after => ends longer after
    let counted : Log := (asked.ran (.readTotp person.id) totp).ran (.countCodeAttempt person.id) attempts
    have unjudged : counted.script = (asked.ran (.readTotp person.id) totp).script ++
        [told (.countCodeAttempt person.id) attempts] := rfl
    have longer : asked.told <+: counted.told := by simp [counted]
    have untried := refuses counted [] (by simp) unjudged longer
    refine ⟨fun within => ?_, fun _ => untried⟩
    apply acceptCode_logs untried
    · intro step instant accepted
      cases accepted with
      | false =>
        apply refuses _ [told (.acceptTotpStep person.id authenticator.sealedSecret step .signIn
          instant) false]
        · intro said inside
          exact ⟨_, _, _, List.mem_singleton.mp inside⟩
        · simp [told]
        · simp
      | true =>
        apply settleCode_logs
        · intro _
          apply acceptedCode_backed known within
          rw [Log.script_ran, Log.script_ran, Log.script_ran, List.append_assoc, List.append_assoc]
          rfl
        · nofun
        · exact fun later after => ends (by simp) after

/-- A statement that records the use of a key, judged by what a unit read. -/
def RecordsKeyUse (app : App) (read : Log) (used : Told) : Prop :=
  ∃ judged record instant believed,
    used = told (.recordKeyUse judged record instant) believed ∧
    ∃ person keys state answer proof,
      Leading (told (.listSecurityKeys person) keys) read.script ∧
      finishProof app.keyLibrary state answer (keys.map SecurityKey.record) = .ok proof ∧
      keys.find? (fun key => key.credentialId = proof.credentialId) = some judged ∧
      proof.record = record

/-- What a unit that judged a key does after. -/
def settlesKey : Told → Bool
  | ⟨.clearCodeAttemptsBelow _ bound, _⟩ => bound = MAX_CODE_FAILURES
  | ⟨.recordEvent .keyCopySuspected _, _⟩ => true
  | said => brakes said.1

theorem settlesKey_backed {call : Call} {said : Told} (settles : settlesKey said = true) :
    Backed app call log said := by
  unfold settlesKey at settles
  split at settles
  · next bound _ =>
    have same : bound = MAX_CODE_FAILURES := of_decide_eq_true settles
    exact same
  · trivial
  · exact backed_of_brakes settles

theorem not_keyUse_of_settles {said : Told} (settles : settlesKey said = true) :
    isKeyUse said.1 = false := by
  unfold settlesKey at settles
  split at settles
  · rfl
  · rfl
  · exact (not_counts_of_brakes settles).2.2.2.2

/-- A unit that judged the answer of a key. -/
theorem judgedKey_backed {call : Call} {read final : Log} {used rest : List Told}
    (reading : Reading read)
    (uses : used = [] ∨ ∃ said, used = [said] ∧ RecordsKeyUse app read said)
    (settles : ∀ said ∈ rest, settlesKey said = true)
    (script : final.script = read.script ++ (used ++ rest)) : UnitBacked app call final := by
  intro one inside
  rw [script] at inside
  rcases List.mem_append.mp inside with earlier | later
  · exact reading.plain.backed one earlier
  rcases List.mem_append.mp later with among | after
  · rcases uses with rfl | ⟨said, rfl, judged, record, instant, believed, rfl, person, keys, state, answer,
      proof, lists, finished, found, kept⟩
    · cases among
    · obtain rfl := List.mem_singleton.mp among
      refine ⟨?_, ?_, person, keys, state, answer, proof, ?_, finished, found, kept⟩
      · rw [script]
        exact reading.leads _ _
      · have none : rest.countP (fun said => isKeyUse said.1) = 0 := by
          rw [List.countP_eq_zero]
          intro said inside
          simp [not_keyUse_of_settles (settles said inside)]
        rw [script, List.countP_append,
          reading.countP fun _ read => (not_counts_of_reads read).2.2.2.2, List.countP_append, none]
        rfl
      · obtain ⟨before, after, same, all⟩ := lists
        exact ⟨before, after ++ (told (.recordKeyUse judged record instant) believed :: rest),
          by rw [script, same]; simp, all⟩
  · exact settlesKey_backed (settles one after)

theorem settleKey_logs {post : Unit → Log → Prop} {call : Call} {brake : Brake} {person : Uuid}
    {now : Instant} {refusal : Option KeyRefusal}
    (backs : ∀ final rest, (∀ said ∈ rest, settlesKey said = true) →
      final.script = log.script ++ rest → UnitBacked app call final)
    (settled : ∀ later, After log later → post () later) :
    (settleKey brake person now refusal).logs (UnitBacked app call) post log := by
  have ends : ∀ (later : Log) (rest : List Told), log.told <+: later.told →
      later.script = log.script ++ rest → (∀ said ∈ rest, settlesKey said = true) →
      UnitBacked app call later ∧ post () (later.finish true) := by
    intro later rest longer script all
    exact ⟨backs later rest all script, settled _ ⟨rfl, by simpa using longer⟩⟩
  cases refusal with
  | none =>
    simp only [settleKey, Prog.logs_bind, logs_ite, query, exec, Prog.logs, logs_commitWork]
    refine ⟨fun _ _ => ⟨nofun, fun _ => ?_⟩, nofun⟩
    exact ends _ [told (.clearCodeAttemptsBelow person MAX_CODE_FAILURES) ()] (by simp) rfl
      (by simp [settlesKey, told])
  | some refusal =>
    simp only [settleKey, Prog.logs_bind, logs_ite, Option.isNone_some, Bool.false_eq_true,
      false_implies, true_and, not_false_eq_true, true_implies]
    apply recordFailure_logs
    intro later braked _
    obtain ⟨more, script, all⟩ := braked.script
    have settles : ∀ said ∈ more, settlesKey said = true := by
      intro said inside
      have counting := all said inside
      obtain ⟨op, result⟩ := said
      cases op <;> first | exact counting | cases counting
    simp only [query, exec, Prog.logs, logs_commitWork]
    refine ⟨fun _ _ => ?_, fun _ => ends later more braked.told script settles⟩
    apply ends _ (more ++ [told (.recordEvent .keyCopySuspected person) ()])
    · simpa using braked.told.trans (List.prefix_append _ _)
    · simp [script, told]
    · exact List.forall_mem_append.mpr ⟨settles, by simp [settlesKey, told]⟩

theorem judgeKey_logs {post : Option KeyRefusal → Log → Prop} {person : Uuid}
    {keys : List SecurityKey} {state : Bytes} {answer : Json} {instant : Instant}
    (lists : Leading (told (.listSecurityKeys person) keys) log.script)
    (judged : ∀ refusal used later, (used = [] ∨ ∃ said, used = [said] ∧ RecordsKeyUse app log said) →
      later.script = log.script ++ used → log.told <+: later.told → post refusal later) :
    (judgeKey keys instant (finishProof app.keyLibrary state answer
      (keys.map SecurityKey.record))).logs guar post log := by
  have unused : ∀ refusal, post refusal log := fun refusal =>
    judged refusal [] log (Or.inl rfl) (by simp) (List.prefix_refl _)
  cases finished : finishProof app.keyLibrary state answer (keys.map SecurityKey.record) with
  | error refusal =>
    cases refusal with
    | failed => trivial
    | refused => exact unused _
    | copySuspected => exact unused _
  | ok proof =>
    simp only [judgeKey]
    split
    · next key found =>
      simp only [Prog.logs_bind, query, exec, Prog.logs, Prog.logs_pure]
      intro recorded
      refine judged _ _ _ (Or.inr ⟨told (.recordKeyUse key proof.record instant) recorded, rfl,
        key, proof.record, instant, recorded, rfl, person, keys, state, answer, proof, lists, finished,
        found, rfl⟩) rfl (by simp)
    · exact unused _

theorem verifyKey_logs {post : Brake → Log → Prop} {call : Call} {person : Person} {state : Bytes}
    {answer : Json} (verified : ∀ brake later, After log later → post brake later) :
    (verifyKey app person state answer).logs (UnitBacked app call) post log := by
  rw [verifyKey, Prog.logs_bind]
  apply ofTyped_logs
  intro brake _
  simp only [Prog.logs_bind, logs_tellNow, logs_beginWork]
  intro now
  apply ofCaller_logs
  intro brake _
  apply isNameLocked_logs
  intro locked asked isAsked stillReading
  have reading := stillReading (Reading.finish _ _)
  simp only [logs_ite, Prog.logs_bind, logs_commitWork, logs_failed, and_true]
  refine ⟨fun _ => reading.plain.backed, fun _ => ?_⟩
  simp only [query, exec, Prog.logs]
  intro keys
  have listed : Reading (asked.ran (.listSecurityKeys person.id) keys) := reading.ran _ rfl
  have lists : Leading (told (.listSecurityKeys person.id) keys)
      (asked.ran (.listSecurityKeys person.id) keys).script := reading.leads _ []
  apply judgeKey_logs lists
  intro refusal used judged uses script longer
  apply settleKey_logs
  · intro final rest settles ended
    exact judgedKey_backed listed uses settles (by rw [ended, script, List.append_assoc])
  · intro later after
    rw [logs_refuseIf]
    intro _
    refine verified brake later ⟨after.idle, ?_⟩
    have start := isAsked.told
    simp only [Log.told_finish, Log.told_ran] at start longer
    exact start.trans ((List.prefix_append _ _).trans (longer.trans after.told))

theorem readPersonWhoOwes_logs {post : Person → Log → Prop} {person : Uuid} {refusal : ErrorCode}
    (read : ∀ row later, After log later → told (.readPerson person) (some row) ∈ later.told →
      post row later) :
    (readPersonWhoOwes person refusal).logs guar post log := by
  simp only [readPersonWhoOwes, Prog.logs_bind, logs_beginWork, query, exec, Prog.logs,
    logs_dropWork, logs_orFail]
  intro found row enabled
  obtain ⟨rfl, -⟩ := Option.filter_eq_some_iff.mp enabled
  exact read row _ ⟨rfl, by simp⟩ (by simp [told])

/-- A sign-in for a request: it was read, from the browser that asked. -/
structure SignsIn (call : Call) (request : Uuid) (pending : PendingAuthorization)
    (answer : SignInAnswer) (log : Log) : Prop where
  idle : log.script = []
  read : ReadFirst log request pending
  called : call = .finishSignIn request pending.browserDigest answer

theorem SignsIn.after {call : Call} {request : Uuid} {pending : PendingAuthorization}
    {answer : SignInAnswer} {later : Log} (signs : SignsIn call request pending answer log)
    (after : After log later) : SignsIn call request pending answer later := by
  exact ⟨after.idle, signs.read.mono after.told, signs.called⟩

/-- The session a sign-in opened. -/
structure Opened (log : Log) (request : Uuid) (pending : PendingAuthorization) (signedIn : SignedIn) :
    Prop where
  session : ∃ session, OpenedFor log request pending session ∧ session.id = signedIn.session ∧
    session.person = signedIn.person.id

/-- The session of a person who proved all they owe. -/
theorem openProven_logs {post : SignedIn → Log → Prop} {call : Call} {request : Uuid}
    {pending : PendingAuthorization} {answer : SignInAnswer} {person : Person} {brake : Brake}
    {methods : List AuthenticationMethod} (signs : SignsIn call request pending answer log)
    (proven : (methods = [.password] ∧ FactorFree log.told person.id ∧
        ∃ name password, answer = .password name password ∧
          PasswordAccepted app log.told name password person.id) ∨
      ∃ second owing, methods = [.password, second] ∧ second ≠ .password ∧
        pending.firstFactor = some owing ∧
        ∃ row, told (.readPerson owing) (some row) ∈ log.told ∧ row.id = person.id)
    (opened : ∀ signedIn later, Opened later request pending signedIn → post signedIn later) :
    (openSessionFor person brake methods).logs (UnitBacked app call) post log := by
  apply openSessionFor_logs
  intro first session digest braked ofPerson byMethods active
  have longer : log.told <+: (((first.drew (.secret digest)).drew (.id session.id)).ran
      (.insertSession session) true).told := by
    have start := braked.told
    rw [Log.told_finish] at start
    simpa using start.trans (List.prefix_append _ _)
  have read := signs.read.mono longer
  refine ⟨?_, fun ticket => opened _ _ ⟨session, ⟨?_, read.mono (by simp)⟩, rfl, ofPerson⟩⟩
  · have wider := longer.subset
    obtain ⟨more, script, counting⟩ := braked.script
    simp only [UnitBacked, Log.script_ran, Log.script_drew, script, Log.script_finish,
      List.nil_append, List.forall_mem_append, List.forall_mem_singleton]
    refine ⟨fun one inside => backed_of_brakes (counting one inside), by simp, active, request,
      pending.browserDigest, answer, pending, signs.called, read, rfl, ?_⟩
    rw [byMethods]
    rcases proven with ⟨alone, free, name, password, answered, accepted⟩ |
      ⟨second, owing, methods, more⟩
    · rw [ofPerson]
      exact Or.inl ⟨alone, free.mono wider, name, password, answered, accepted.mono wider⟩
    · obtain ⟨isSecond, owed, row, named, same⟩ := more
      exact Or.inr ⟨second, owing, methods, isSecond, owed, row, wider named, by rw [same, ofPerson]⟩
  · exact ⟨_, List.mem_append_right _ (List.mem_singleton.mpr rfl), by simp [told]⟩

theorem signInWithPassword_logs {post : FirstStep → Log → Prop} {call : Call} {request : Uuid}
    {pending : PendingAuthorization} {name : String} {password : Bytes}
    (signs : SignsIn call request pending (.password name password) log)
    (opened : ∀ signedIn later, Opened later request pending signedIn → post (.signedIn signedIn) later)
    (owes : ∀ owed later, After log later →
      PasswordAccepted app later.told name password owed.person.id →
      post (.secondFactorRequired owed) later) :
    (signInWithPassword app name password).logs (UnitBacked app call) post log := by
  simp only [signInWithPassword, Prog.logs_bind]
  apply verifyPassword_logs
  · exact fun log plain => plain.backed
  intro person brake proven after accepted
  simp only [logs_beginWork, query, exec, Prog.logs]
  intro totp
  apply startKeyProof_logs
  intro start held noneHeld
  apply keyOwed_logs
  intro key noneOwed
  simp only [logs_dropWork, logs_ite, Prog.logs_pure]
  let read : Log := (((proven.finish false).ran (.readTotp person.id) totp).ran
    (.listSecurityKeys person.id) held).finish false
  have later : After proven read := ⟨rfl, by simp [read]⟩
  have still := accepted.mono later.told.subset
  refine ⟨fun _ => owes _ read (after.trans later) still, fun nothing => ?_⟩
  simp only [Prog.logs_bind, Prog.logs_pure]
  apply openProven_logs ((signs.after after).after later)
  · simp only [Bool.or_eq_true, not_or, Bool.not_eq_true, Option.isSome_eq_false_iff,
      Option.isNone_iff_eq_none] at nothing
    obtain ⟨noCode, noKey⟩ := nothing
    obtain rfl := noneHeld (noneOwed noCode noKey)
    refine Or.inl ⟨rfl, ⟨⟨totp, by simp [read, told], ?_⟩, by simp [read, told]⟩, name, password, rfl,
      still⟩
    cases totp with
    | none => rfl
    | some authenticator => simpa using noCode
  · exact opened

theorem leaveSecondFactorOwed_logs {post : Proven → Log → Prop} {call : Call} {request : Uuid}
    {pending : PendingAuthorization} {name : String} {password : Bytes} {owed : SecondFactor}
    (signs : SignsIn call request pending (.password name password) log)
    (accepted : PasswordAccepted app log.told name password owed.person.id)
    (left : ∀ owed later, post (.owes owed) later) :
    (leaveSecondFactorOwed pending.id owed).logs (UnitBacked app call) post log := by
  simp only [leaveSecondFactorOwed, Prog.logs_bind, logs_beginWork, logs_tellNow, query, exec,
    Prog.logs, logs_commitWork, logs_refuseIf, Prog.logs_pure]
  intro instant marked
  refine ⟨?_, fun _ => left _ _⟩
  simp only [UnitBacked, Log.script_ran, Log.script_finish, List.nil_append,
    List.forall_mem_singleton]
  cases marked with
  | false => trivial
  | true =>
    exact ⟨request, pending.browserDigest, name, password, pending, signs.called,
      signs.read.mono (by simp), rfl, accepted.mono (by simp)⟩

theorem proveAnswer_logs {post : Proven → Log → Prop} {call : Call} {request : Uuid}
    {pending : PendingAuthorization} {answer : SignInAnswer}
    (signs : SignsIn call request pending answer log)
    (opened : ∀ signedIn later, Opened later request pending signedIn → post (.signedIn signedIn) later)
    (owes : ∀ owed later, post (.owes owed) later) :
    (proveAnswer app pending answer).logs (UnitBacked app call) post log := by
  have second : ∀ {method : AuthenticationMethod} {owing : Uuid} {row : Person} {brake : Brake}
      {later : Log}, method ≠ .password → pending.firstFactor = some owing → After log later →
      told (.readPerson owing) (some row) ∈ later.told →
      (openSessionFor row brake [.password, method]).logs (UnitBacked app call)
        (fun signedIn log => post (.signedIn signedIn) log) later := by
    intro method owing row brake later isSecond owed after named
    apply openProven_logs (signs.after after)
    · exact Or.inr ⟨method, owing, rfl, isSecond, owed, row, named, rfl⟩
    · exact opened
  cases answer with
  | password name password =>
    simp only [proveAnswer, Prog.logs_bind]
    apply signInWithPassword_logs signs
    · exact opened
    · intro owed later after accepted
      exact leaveSecondFactorOwed_logs (signs.after after) accepted owes
  | code code =>
    simp only [proveAnswer, finishSignInWithCode, Prog.logs_bind, logs_orFail, Prog.logs_pure]
    intro owing owed
    apply readPersonWhoOwes_logs
    intro row read after named
    apply verifyCode_logs
    intro brake later verified
    exact second (by decide) owed (after.trans verified) (verified.mem named)
  | key answer =>
    simp only [proveAnswer, finishSignInWithKey, Prog.logs_bind, logs_orFail, Prog.logs_pure]
    intro owing owed proof _
    apply readPersonWhoOwes_logs
    intro row read after named
    apply verifyKey_logs
    intro brake later verified
    exact second (by decide) owed (after.trans verified) (verified.mem named)

theorem issueCode_logs {post : ReturnLocation → Log → Prop} {grant : CodeGrant}
    (issued : ∀ code location, code.asked = ⟨grant.clientId, grant.redirectUri, grant.scopes,
        grant.nonce, grant.codeChallenge⟩ →
      code.session = grant.session → code.person = grant.person →
      post location ((log.drew (.secret code.codeDigest)).ran (.insertAuthorizationCode code) true)) :
    (issueCode app grant).logs guar post log := by
  simp only [issueCode, Prog.logs_bind, logs_drawSecret, logs_tellNow, query, exec, Prog.logs,
    logs_refuseIf, Prog.logs_pure, Bool.not_eq_false']
  intro digest instant inserted kept
  subst kept
  exact issued _ _ rfl rfl rfl

theorem endOrphanSession_logs {post : Unit → Log → Prop} {call : Call} {session : Uuid}
    (plain : Plain log) (ended : ∀ later, post () later) :
    (endOrphanSession session).logs (UnitBacked app call) post log := by
  simp only [endOrphanSession, Prog.logs_bind, query, exec, Prog.logs]
  intro read
  split
  · simp only [Prog.logs_bind, logs_commitWork]
    apply closeSession_logs
    · exact plain.ran fun _ _ _ => trivial
    · exact fun log backed => ⟨backed, ended _⟩
  · exact ended _

theorem leaveConsentOwed_logs {post : SignInStep → Log → Prop} {call : Call} {request : Uuid}
    {pending : PendingAuthorization} {answer : SignInAnswer} {signedIn : SignedIn}
    (called : call = .finishSignIn request pending.browserDigest answer) (reading : Reading log)
    (opened : Opened log request pending signedIn)
    (hinted : isHintedAtAnother pending signedIn.person.id = false)
    (left : ∀ step later, post step later) :
    (leaveConsentOwed request signedIn).logs (UnitBacked app call) post log := by
  simp only [leaveConsentOwed, Prog.logs_bind, logs_tellNow, query, exec, Prog.logs, logs_ite,
    logs_commitWork, Prog.logs_pure]
  intro instant marked
  refine ⟨fun lost => ?_, fun kept => ⟨?_, left _ _⟩⟩
  · have unmarked : marked = false := by simpa using lost
    subst unmarked
    apply endOrphanSession_logs
    · exact reading.plain.ran fun _ _ _ => trivial
    · exact fun _ => trivial
  · have waiting : marked = true := by simpa using kept
    subst waiting
    obtain ⟨session, openedFor, same, ofPerson⟩ := opened.session
    simp only [UnitBacked, Log.script_ran, List.forall_mem_append, List.forall_mem_singleton]
    refine ⟨reading.plain.backed, pending.browserDigest, answer, pending, session, called, ?_, same, ?_⟩
    · exact openedFor.mono (List.Subset.refl _) (by simp)
    · rw [ofPerson]
      exact hinted

theorem finishRequest_logs {post : SignInStep → Log → Prop} {call : Call} {request : Uuid}
    {pending : PendingAuthorization} {answer : SignInAnswer} {signedIn : SignedIn}
    (called : call = .finishSignIn request pending.browserDigest answer) (reading : Reading log)
    (opened : Opened log request pending signedIn) (finished : ∀ step later, post step later) :
    (finishRequest app request signedIn).logs (UnitBacked app call) post log := by
  simp only [finishRequest, takeRequest, Prog.logs_bind, logs_tellNow, query, exec, Prog.logs]
  intro instant taken
  cases taken with
  | none =>
    simp only [Prog.logs_bind]
    apply endOrphanSession_logs
    · exact reading.plain.ran fun _ _ _ => trivial
    · exact fun _ => trivial
  | some taken =>
    simp only [Prog.logs_bind, Prog.logs_pure, logs_ite, logs_commitWork, logs_tellNow]
    have took : Leading (told (.takePendingAuthorization request instant) (some taken))
        (log.ran (.takePendingAuthorization request instant) (some taken)).script :=
      reading.leads _ _
    refine ⟨fun _ => ⟨?_, finished _ _⟩, fun mine _ => ?_⟩
    · simp only [UnitBacked, Log.script_ran, List.forall_mem_append, List.forall_mem_singleton]
      exact ⟨reading.plain.backed, took⟩
    · apply issueCode_logs
      intro code location asked inSession ofPerson
      refine ⟨?_, finished _ _⟩
      obtain ⟨session, openedFor, same, owner⟩ := opened.session
      simp only [UnitBacked, Log.script_ran, Log.script_drew, List.forall_mem_append,
        List.forall_mem_singleton]
      refine ⟨⟨reading.plain.backed, ?_⟩, ?_, ?_⟩
      · change Leading _ _
        simpa [Leading, told] using reading.leads _ _
      · refine .finished called ⟨instant, by simp [told]⟩ asked ?_ (openedFor.mono ?_ ?_)
          (inSession.trans same.symm) (ofPerson.trans owner.symm)
        · rw [ofPerson]
          simpa using mine
        · exact List.Subset.refl _
        · simp
      · intro other inserted
        have either : told (.insertAuthorizationCode other) true ∈ log.script ∨ other = code := by
          simpa [told] using inserted
        exact either.resolve_left fun earlier => by cases reading _ earlier

theorem checkWaitingConsent_logs {post : PendingAuthorization × Session → Log → Prop}
    {taken : Option PendingAuthorization} {browserDigest : Bytes} {ticket : SessionTicket}
    (checked : ∀ pending known instant, taken = some pending →
      pending.browserDigest = browserDigest → pending.consentSession = some known.session.id →
      known.session.secretDigest = ticket.secretDigest → stands known instant = true →
      post (pending, known.session) (log.ran (.readSession ticket.session) (some known))) :
    (checkWaitingConsent taken browserDigest ticket).logs guar post log := by
  simp only [checkWaitingConsent, requireBrowser, Prog.logs_bind, logs_orFail, Prog.logs_pure]
  intro pending found waitingIn waiting
  obtain ⟨same, browser⟩ := Option.filter_eq_some_iff.mp found
  apply findAnsweringSession_logs
  · intro known session impossible
    cases impossible
  · intro known instant secret standing session here
    obtain ⟨known', inside⟩ := Option.filter_eq_some_iff.mp here
    obtain rfl := Option.some.inj known'
    refine checked pending known instant same (of_decide_eq_true browser).symm ?_ secret standing
    rw [waiting, of_decide_eq_true inside]

theorem allowClient_logs {post : ReturnLocation → Log → Prop} {pending : PendingAuthorization}
    {session : Session}
    (allowed : ∀ client code location kept later,
      (∀ one ∈ kept, ∃ consent, consent.person = session.person ∧
        one = told (.addConsent consent) ()) →
      later.script = log.script ++ told (.readClient pending.clientId) (some client) ::
        (kept ++ [told (.insertAuthorizationCode code) true]) →
      code.asked = { pending.asked with clientId := client.clientId } →
      code.session = session.id → code.person = session.person → post location later) :
    (allowClient app pending session).logs guar post log := by
  simp only [allowClient, Prog.logs_bind, logs_orFail]
  apply readNamedClient_logs
  · nofun
  intro found client known
  obtain ⟨rfl, -⟩ := Option.filter_eq_some_iff.mp known
  simp only [logs_ite, Prog.logs_bind, logs_tellNow, query, exec, Prog.logs]
  refine ⟨fun _ instant _ => ?_, fun _ => ?_⟩
  · apply issueCode_logs
    intro code location
    exact allowed client code location
      [told (.addConsent ⟨session.person, client.clientId, pending.scopes, instant⟩) ()] _
      (by simp [told]) (by simp [told])
  · apply issueCode_logs
    intro code location
    exact allowed client code location [] _ (by simp) (by simp [told])

theorem trustRequest_logs {post : TrustedRequest → Log → Prop} {parameters : AuthorizationParameters}
    (trusts : ∀ trusted client id, trusted.client = client → parameters.clientId = some id →
      Asks parameters client trusted.asked →
      readProofAsked parameters.prompt parameters.maxAge = some trusted.proof →
      post trusted ((log.finish false).ran (.readClient id) (some client))) :
    (trustRequest app parameters).logs guar post log := by
  simp only [trustRequest, Prog.logs_bind, logs_beginWork, logs_orFail]
  intro id named
  apply readNamedClient_logs
  · nofun
  intro found client known redirectUri registered
  obtain ⟨rfl, -⟩ := Option.filter_eq_some_iff.mp known
  obtain ⟨asked, inside⟩ := Option.filter_eq_some_iff.mp registered
  simp only [logs_ite, logs_tellClient, implies_true, true_and, Prog.logs_bind, logs_orTell,
    Prog.logs_pure]
  intro _ _ challenge formed proof reads scopes narrowed
  obtain ⟨challenged, -⟩ := Option.filter_eq_some_iff.mp formed
  apply trusts _ client id rfl named _ reads
  refine ⟨rfl, asked, of_decide_eq_true inside, rfl, challenged, ?_⟩
  cases given : narrowScopes (some (parameters.scope.getD "")) client.scopes with
  | error code => rw [given] at narrowed; cases narrowed
  | ok granted =>
    rw [given] at narrowed
    obtain rfl : granted = scopes := Option.some.inj narrowed
    rfl

theorem findSessionFor_logs {post : Option Session → Log → Prop} {proof : ProofAsked}
    {ticket : Option SessionTicket} (reading : Reading log)
    (unanswered : ∀ later, Reading later → log.script ⊆ later.script → post none later)
    (answered : ∀ known shown instant later, Reading later → log.script ⊆ later.script →
      ticket = some shown → proof.fresh = false → stands known instant = true →
      told (.readSession shown.session) (some known) ∈ later.script →
      post (some known.session) later) :
    (findSessionFor proof ticket).logs guar post log := by
  cases given : ticket.filter fun _ => !proof.fresh with
  | none =>
    simp only [findSessionFor, given, Prog.logs_bind, Prog.logs_pure, logs_tellNow]
    exact fun _ => unanswered log reading (List.Subset.refl _)
  | some shown =>
    obtain ⟨shows, old⟩ := Option.filter_eq_some_iff.mp given
    simp only [findSessionFor, given, Prog.logs_bind, Prog.logs_pure, logs_tellNow]
    apply findAnsweringSession_logs
    · exact fun known _ => unanswered _ (reading.ran _ rfl) (by simp)
    · intro known instant _ standing now
      rw [Option.filter_some]
      split
      · exact answered known shown instant _ (reading.ran _ rfl) (by simp) shows (by simpa using old)
          standing (by simp [told])
      · exact unanswered _ (reading.ran _ rfl) (by simp)

theorem holdSessionToHint_logs {post : Option Session × Option Uuid → Log → Prop}
    {trusted : TrustedRequest} {parameters : AuthorizationParameters} {session : Option Session}
    (reading : Reading log)
    (held : ∀ kept expected later, Reading later → log.script ⊆ later.script →
      Expects app parameters later.script expected →
      (∀ one, kept = some one → session = some one ∧
        ∀ person, expected = some person → one.person = person) →
      post (kept, expected) later) :
    (holdSessionToHint app trusted parameters.idTokenHint session).logs guar post log := by
  cases hinted : parameters.idTokenHint.filter (· ≠ "") with
  | none =>
    simp only [holdSessionToHint, hinted, Prog.logs_pure]
    apply held _ _ log reading (List.Subset.refl _)
    · simp only [Expects, hinted]
    · exact fun one same => ⟨same, nofun⟩
  | some hint =>
    simp only [holdSessionToHint, hinted, readExpected, Prog.logs_bind, logs_orTell, Prog.logs_pure]
    apply readHint_logs
    · nofun
    rintro token keys same expected read
    obtain rfl := Option.some.inj same
    obtain ⟨named, mine, parsed⟩ := Option.bind_eq_some_iff.mp read
    obtain ⟨known, -⟩ := Option.filter_eq_some_iff.mp mine
    apply held _ _ _ (reading.ran _ rfl) (by simp)
    · simp only [Expects, hinted]
      exact ⟨keys, named, by simp [told], known, rfl, parsed.symm⟩
    · intro one kept
      obtain ⟨same, ofPerson⟩ := Option.filter_eq_some_iff.mp kept
      refine ⟨same, fun person expects => ?_⟩
      rw [← Option.some.inj expects]
      exact of_decide_eq_true ofPerson

theorem isConsentOwedBy_logs {post : Bool → Log → Prop} {client : Client} {prompted : Bool}
    {person : Uuid} {scopes : List String} (reading : Reading log)
    (owed : ∀ owed later, Reading later → log.script ⊆ later.script → post owed later) :
    (isConsentOwedBy client prompted person scopes).logs guar post log := by
  unfold isConsentOwedBy
  split
  · simp only [Prog.logs_bind, query, exec, Prog.logs, Prog.logs_pure]
    exact fun held => owed _ _ (reading.ran _ rfl) (by simp)
  · exact owed _ _ reading (List.Subset.refl _)

/-- A request was read, with the client that asks and the person it hints at. -/
structure Begun (app : App) (call : Call) (parameters : AuthorizationParameters)
    (ticket : Option SessionTicket) (trusted : TrustedRequest) (expected : Option Uuid) (log : Log) :
    Prop where
  called : call = .beginAuthorization parameters ticket
  reading : Reading log
  read : ∃ id, parameters.clientId = some id ∧
    told (.readClient id) (some trusted.client) ∈ log.script
  asks : Asks parameters trusted.client trusted.asked
  proof : readProofAsked parameters.prompt parameters.maxAge = some trusted.proof
  expects : Expects app parameters log.script expected

theorem leaveRequestWaiting_logs {post : Uuid × Bytes → Log → Prop} {call : Call}
    {parameters : AuthorizationParameters} {ticket : Option SessionTicket} {trusted : TrustedRequest}
    {expected waiting : Option Uuid} (begun : Begun app call parameters ticket trusted expected log)
    (consents : ∀ session, waiting = some session → trusted.proof.fresh = false ∧
      ∃ shown found, ticket = some shown ∧ Standing log.script shown.session found ∧
        found.id = session ∧ ∀ person, expected = some person → found.person = person)
    (left : ∀ kept later, post kept later) :
    (leaveRequestWaiting app trusted expected waiting).logs (UnitBacked app call) post log := by
  rw [leaveRequestWaiting, Prog.logs_bind]
  apply admitPendingSignIn_logs
  intro counted braked
  simp only [keepPendingAuthorization, Prog.logs_bind, Prog.logs, logs_refuseIf, logs_drawSecret,
    logs_mintId, logs_tellNow, query, exec, logs_commitWork, Prog.logs_pure, Bool.not_eq_false']
  intro browserDigest id instant inserted kept
  subst kept
  refine ⟨?_, left _ _⟩
  obtain ⟨clientId, named, read⟩ := begun.read
  have wider := braked.subset
  simp only [UnitBacked, Log.script_ran, Log.script_drew, List.forall_mem_append,
    List.forall_mem_singleton]
  refine ⟨(braked.plain begun.reading.plain).backed, ⟨by simp, ⟨rfl, rfl⟩, parameters, ticket,
    trusted.client, trusted.proof, begun.called, ⟨clientId, named, by simp [wider read]⟩, begun.asks,
    begun.proof, begun.expects.mono (List.subset_append_of_subset_left _ wider), ?_⟩, ?_⟩
  · intro session waits
    obtain ⟨old, shown, found, shows, standing, same⟩ := consents session waits
    exact ⟨old, shown, found, shows, standing.mono (List.subset_append_of_subset_left _ wider), same⟩
  · intro other again
    rcases List.mem_append.mp again with earlier | last
    · obtain ⟨more, script, counting⟩ := braked.script
      change _ ∈ counted.script at earlier
      rw [script] at earlier
      rcases List.mem_append.mp earlier with before | after
      · cases begun.reading _ before
      · cases counting _ after
    · obtain ⟨same, -⟩ := Sigma.mk.inj (List.mem_singleton.mp last)
      exact Op.insertPendingAuthorization.inj same

theorem answerWithSession_logs {post : Authorization → Log → Prop} {call : Call}
    {parameters : AuthorizationParameters} {shown : SessionTicket} {trusted : TrustedRequest}
    {expected : Option Uuid} {session : Session}
    (begun : Begun app call parameters (some shown) trusted expected log)
    (fresh : trusted.proof.fresh = false) (standing : Standing log.script shown.session session)
    (hinted : ∀ person, expected = some person → session.person = person)
    (answered : ∀ answer later, post answer later) :
    (answerWithSession app trusted expected session).logs (UnitBacked app call) post log := by
  simp only [answerWithSession, Prog.logs_bind]
  apply isConsentOwedBy_logs begun.reading
  intro owed later reading inside
  obtain ⟨id, named, read⟩ := begun.read
  have still : Begun app call parameters (some shown) trusted expected later :=
    ⟨begun.called, reading, ⟨id, named, inside read⟩, begun.asks, begun.proof,
      begun.expects.mono inside⟩
  have stood := standing.mono inside
  simp only [logs_ite, logs_tellClient, implies_true, true_and, Prog.logs_bind, Prog.logs_pure,
    logs_commitWork]
  refine ⟨fun _ _ => ?_, fun _ => ?_⟩
  · apply leaveRequestWaiting_logs still
    · intro waiting same
      exact ⟨fresh, shown, session, rfl, stood, Option.some.inj same, hinted⟩
    · exact fun _ _ => answered _ _
  · apply issueCode_logs
    intro code location asked inSession ofPerson
    refine ⟨?_, answered _ _⟩
    simp only [UnitBacked, Log.script_ran, Log.script_drew, List.forall_mem_append,
      List.forall_mem_singleton]
    refine ⟨reading.plain.backed, ?_, ?_⟩
    · refine .begun begun.called ⟨id, named, List.mem_append_left _ (inside read)⟩ ?_ begun.proof
        fresh (still.expects.mono (by simp)) ?_ (stood.mono (by simp)) inSession ofPerson
      · rw [asked]
        exact begun.asks
      · rw [ofPerson]
        exact hinted
    · intro other inserted
      have either : told (.insertAuthorizationCode other) true ∈ later.script ∨ other = code := by
        simpa [told] using inserted
      exact either.resolve_left fun earlier => by cases reading _ earlier

theorem requireSignedInPerson_logs {post : SignedInPerson → Log → Prop}
    {ticket : Option SessionTicket}
    (signed : ∀ found later, Reading later → post found later) :
    (requireSignedInPerson ticket).logs guar post log := by
  simp only [requireSignedInPerson, Prog.logs_bind, logs_beginWork, logs_orFail]
  intro shown _
  apply readProvenSession_logs
  · intro known one impossible
    cases impossible
  · simp only [query, exec, Prog.logs, Prog.logs_pure]
    intro known instant _ _ _ one _ row person _
    exact signed _ _ (((Reading.finish _ _).ran _ rfl).ran _ rfl)

theorem requireFactorProof_logs {post : Unit → Log → Prop} {person : Uuid} {session : Session}
    (reading : Reading log)
    (proven : ∀ later, Reading later → later.ended = log.ended → post () later) :
    (requireFactorProof person session).logs guar post log := by
  simp only [requireFactorProof, refuseUnprovenSession, Prog.logs_bind, query, exec, Prog.logs,
    logs_refuseIf]
  exact fun holds _ => proven _ (reading.ran _ rfl) rfl

/-- The statements that close the sessions the password alone opened. -/
def closes : Op → Bool
  | .endSessionsProvenOnlyBy _ _ _ | .revokeRefreshTokensOfSessions _ _ => true
  | _ => false

/-- A factor set up ends the sessions the password alone opened. -/
theorem closeSessionsWithoutFactor_logs {post : Unit → Log → Prop} {call : Call} {person : Uuid}
    {kept : Option Uuid} {earlier later : List Told} (set : Told)
    (plain : ∀ one ∈ earlier ++ later, ∀ later, Backed app call later one)
    (script : log.script = earlier ++ set :: later)
    (held : ∀ one ∈ log.script, removesFactor person one.1 = false)
    (sets : ∀ final : Log, final.ended = log.ended →
      (∃ more, final.script = log.script ++ more ∧ ∀ said ∈ more, closes said.1 = true) →
      FactorSet set person final.script → Backed app call final set)
    (closed : ∀ log, UnitBacked app call log → post () log) :
    (closeSessionsWithoutFactor person kept).logs guar post log := by
  simp only [closeSessionsWithoutFactor, Prog.logs_bind, query, exec, Prog.logs, logs_ite,
    Prog.logs_pure, logs_tellNow]
  have backs : ∀ (ended : Log) (more : List Told), ended.script = log.script ++ more →
      (∀ one ∈ more, closes one.1 = true) → ended.ended = log.ended →
      FactorSet set person ended.script → UnitBacked app call ended := by
    intro ended more longer trailing same factor one inside
    rw [longer, script] at inside
    simp only [List.mem_append, List.mem_cons] at inside
    rcases inside with (before | rfl | after) | last
    · exact plain one (List.mem_append_left _ before) _
    · exact sets _ same ⟨more, longer, trailing⟩ factor
    · exact plain one (List.mem_append_right _ after) _
    · have closing := trailing one last
      obtain ⟨op, result⟩ := one
      cases op with
      | endSessionsProvenOnlyBy | revokeRefreshTokensOfSessions => trivial
      | _ => cases closing
  have set_mem : set ∈ log.script := by simp [script]
  intro ended
  refine ⟨fun none => ?_, fun some instant count => ?_⟩
  · apply closed
    apply backs (log.ran (.endSessionsProvenOnlyBy person [.password] kept) ended)
      [⟨.endSessionsProvenOnlyBy person [.password] kept, ended⟩] rfl (by simp [closes]) rfl
    · refine ⟨?_, kept, ended, ?_, fun there => absurd (by simpa using none) there⟩
      · exact List.forall_mem_append.mpr ⟨held, by simp [removesFactor]⟩
      · exact .of_mem set_mem (by simp [told])
  · apply closed
    apply backs ((log.ran (.endSessionsProvenOnlyBy person [.password] kept) ended).ran
      (.revokeRefreshTokensOfSessions ended instant) count)
      [⟨.endSessionsProvenOnlyBy person [.password] kept, ended⟩,
        ⟨.revokeRefreshTokensOfSessions ended instant, count⟩] (by simp) (by simp [closes]) rfl
    · refine ⟨?_, kept, ended, ?_, fun _ => ⟨instant, count, ?_⟩⟩
      · exact List.forall_mem_append.mpr
          ⟨List.forall_mem_append.mpr ⟨held, by simp [removesFactor]⟩, by simp [removesFactor]⟩
      · rw [Log.script_ran, Log.script_ran, List.append_assoc]
        exact .of_mem set_mem (by simp [told])
      · simp [Then, told]

end Programs

section Calls

variable (app : App)

theorem rotateRefreshToken_logs (request : RefreshRequest) :
    (program app (.rotateRefreshToken request)).logs (UnitBacked app (.rotateRefreshToken request))
      (AnswerBacked (.rotateRefreshToken request)) .fresh := by
  simp only [program, rotateRefreshToken, Prog.logs_bind, logs_tellNow, logs_beginWork]
  intro instant
  apply identifyClient_logs
  intro client
  simp only [logs_refuseIf, query, exec, Prog.logs]
  intro _ spent
  cases spent with
  | none =>
    simp only [Prog.logs_bind]
    apply takeBackReplayed_logs
    · intro known
      trivial
    · intro known family count
      refine ⟨?_, trivial⟩
      simp [UnitBacked, Backed]
  | some spent =>
    simp only [Prog.logs_bind]
    apply requireLiveSubject_logs
    intro known later row standing same
    cases narrowed : narrowScopes request.scope spent.scopes with
    | error code => trivial
    | ok scopes =>
      apply answerForPerson_logs
      intro token response issued refreshed ofClient inSession given
      simp only [logs_commitWork, Prog.logs_pure]
      refine ⟨?_, ?_⟩
      · simp [UnitBacked, Backed, told, isRefreshSpend]
        refine ⟨⟨.cons rfl .head, known, by simp [Then], later, standing⟩, ?_⟩
        exact .rotated rfl ⟨instant, by simp [told]⟩
          ⟨⟨known, by simp [told], rfl, later, standing⟩, row, by simp [told], same⟩ issued
      · refine ⟨_, token, by simp; rfl, by simp [told], ⟨refreshed, ?_, ?_⟩, ?_⟩
        · rw [ofClient, issued.clientId]
        · rw [inSession, issued.inSession]
        · rw [given, issued.granted]
          exact narrowed

/-- The family of a code opens, for a subject that was read and a consent that
is held. -/
theorem openFamily_logs {request : CodeRequest} {client : Client} {code : AuthorizationCode}
    {session : Session} {person : Person} {log : Log} (spent : SpentCode log request client code)
    (subject : Subject log.script code.session code.person session)
    (consent : client.requiresConsent → ∃ allowed,
      told (.holdConsent code.person client.clientId) (some allowed) ∈ log.script)
    (reading : Reading log) (unbound : ∀ script, (true, script) ∈ log.ended → ∀ other,
      told (.bindCodeFamily request.code other) true ∉ script) :
    (do
      let family ← mintId
      let bound ← query (.bindCodeFamily request.code family)
      refuseIf (!bound) .grantInvalid
      let response ← answerForPerson app {
        clientId := client.clientId, session, person, scopes := code.scopes, nonce := code.nonce
        family := { family, clientId := client.clientId, session, scopes := code.scopes } }
      commitWork
      return Answer.tokens response : Run Answer).logs (UnitBacked app (.exchangeCode request))
      (AnswerBacked (.exchangeCode request)) log := by
  simp only [Prog.logs_bind, logs_mintId, query, exec, Prog.logs, logs_refuseIf, Bool.not_eq_false']
  intro family bound opened
  subst opened
  apply answerForPerson_logs
  intro token response issued refreshed ofClient inSession given
  simp only [logs_commitWork, Prog.logs_pure]
  have spentBy : ∀ later : Log, later.ended = log.ended → SpentCode later request client code :=
    fun later same => ⟨same ▸ spent.unit, spent.ofClient⟩
  refine ⟨?_, ?_⟩
  · intro one inside
    simp only [Log.script_ran, Log.script_drew, List.append_assoc, List.mem_append,
      List.cons_append, List.nil_append, List.mem_cons, List.not_mem_nil, or_false] at inside
    rcases inside with earlier | rfl | rfl
    · exact backed_of_reads (reading one earlier)
    · refine ⟨⟨log.script, [told (.insertRefreshToken token) true], by simp [told], reading⟩, ?_⟩
      refine ⟨request, client, code, rfl, rfl, spentBy _ rfl, ⟨token, issued.family, by simp [told]⟩,
        ?_, unbound⟩
      intro other bound
      have either : told (.bindCodeFamily request.code other) true ∈ log.script ∨ other = family := by
        simpa [told] using bound
      exact either.resolve_left fun earlier => by cases reading _ earlier
    · have wider : log.script ⊆ ((((log.drew (.id family)).ran (.bindCodeFamily request.code family)
          true).drew (.secret token.tokenDigest)).ran (.insertRefreshToken token) true).script := by
        simp
      have same : token.family = family := issued.family
      refine ⟨.exchanged rfl (spentBy _ rfl) (subject.mono wider) (by simp [same])
        (by simp [told, same]) ?_ (same ▸ issued), ?_⟩
      · intro required
        obtain ⟨allowed, held⟩ := consent required
        obtain ⟨earlier, later, split⟩ := List.append_of_mem held
        refine ⟨allowed, earlier, later ++ [told (.bindCodeFamily request.code family) true,
          told (.insertRefreshToken token) true], by simp [split, told], ?_⟩
        intro one inside
        exact reading one (by simp [split, inside])
      · intro other inserted
        have either : told (.insertRefreshToken other) true ∈ log.script ∨ other = token := by
          simpa [told] using inserted
        exact either.resolve_left fun earlier => by cases reading _ earlier
  · refine ⟨_, token, client, code, by simp; exact Or.inr rfl, by simp [told], ?_, ⟨refreshed, ?_, ?_⟩, ?_⟩
    · obtain ⟨script, among, spend⟩ := spent.unit
      exact ⟨⟨script, by simp [among], spend⟩, spent.ofClient⟩
    · rw [ofClient, issued.clientId]
    · rw [inSession, issued.inSession]
    · rw [given, issued.granted]

theorem exchangeCode_logs (request : CodeRequest) :
    (program app (.exchangeCode request)).logs (UnitBacked app (.exchangeCode request))
      (AnswerBacked (.exchangeCode request)) .fresh := by
  simp only [program, exchangeCode, spendCode, Prog.logs_bind, logs_tellNow, logs_beginWork]
  apply identifyClient_logs
  intro client
  simp only [logs_refuseIf, query, exec, Prog.logs]
  intro _ instant spent
  cases spent with
  | none =>
    simp only [takeBackWhatACodeObtained, Prog.logs_bind, query, exec, Prog.logs]
    intro replayed
    split
    · next unbound =>
      refine ⟨?_, trivial⟩
      simp [UnitBacked, Backed, told]
      exact ⟨⟨client, .nothing unbound⟩, client, rfl, .nothing unbound⟩
    · next family bound =>
      simp only [Prog.logs_bind, Prog.logs, logs_commitWork]
      intro count
      refine ⟨?_, trivial⟩
      simp [UnitBacked, Backed, told]
      exact ⟨⟨client, .family count bound⟩, client, rfl, .family count bound⟩
  | some code =>
    simp only [Prog.logs_bind, logs_commitWork, Prog.logs_pure, Bool.or_eq_false_iff,
      decide_eq_false_iff_not, not_not]
    refine ⟨?_, ?_⟩
    · simp [UnitBacked, Backed, told]
      exact .cons rfl .head
    intro matched
    apply requireLiveSubject_logs
    intro known later row standing same
    simp only [requireHeldConsent, Prog.logs_bind, logs_ite, query, exec, Prog.logs]
    have spent : ∀ log : Log, log.ended = [(false, []), (true,
        [told (.readClient request.clientId) (some client),
          told (.spendAuthorizationCode request.code instant) (some code)]), (false, [])] →
        SpentCode log request client code := by
      intro log ended
      refine ⟨⟨[told (.readClient request.clientId) (some client),
        told (.spendAuthorizationCode request.code instant) (some code)], ?_, ?_, instant, ?_⟩,
        matched.1.1⟩
      all_goals simp [told, ended]
    have opens := fun log spent => @openFamily_logs app request client code known.session row log spent
    simp only [Prog.logs_bind, query, exec, Prog.logs, logs_refuseIf, logs_commitWork,
      Prog.logs_pure] at opens ⊢
    have stood : ∀ script : List Told, told (.readSession code.session) (some known) ∈ script →
        told (.readPerson known.session.person) (some row) ∈ script →
        Subject script code.session code.person known.session :=
      fun script read named => ⟨⟨known, read, rfl, later, standing⟩, row, named, same⟩
    refine ⟨?_, ?_⟩
    · intro required allowed held
      apply opens _ (spent _ rfl) (stood _ (by simp [told]) (by simp [told]))
      · intro _
        cases allowed with
        | none => simp [isConsentOwed] at held
        | some allowed => exact ⟨allowed, by simp [told, same]⟩
      · exact (((Reading.finish _ _).ran _ rfl).ran _ rfl).ran _ rfl
      · simp [told]
    · intro free
      apply opens _ (spent _ rfl) (stood _ (by simp [told]) (by simp [told]))
      · exact fun required => absurd required free
      · exact ((Reading.finish _ _).ran _ rfl).ran _ rfl
      · simp [told]

theorem revokeToken_logs (clientId : String) (secretDigest : Option Bytes) (token : PresentedToken) :
    (program app (.revokeToken clientId secretDigest token)).logs
      (UnitBacked app (.revokeToken clientId secretDigest token))
      (AnswerBacked (.revokeToken clientId secretDigest token)) .fresh := by
  simp only [program, revokeToken, Prog.logs_bind, logs_beginWork]
  apply identifyClient_logs
  intro client
  simp only [query, exec, Prog.logs]
  intro known
  split
  · simp only [Prog.logs_bind, logs_ite, logs_tellNow, Prog.logs_pure, Prog.logs, logs_commitWork]
    refine ⟨fun _ => trivial, fun _ instant count => ⟨?_, trivial⟩⟩
    exact ((((Reading.finish _ _).ran _ rfl).ran _ rfl).plain.ran (by intros; trivial)).backed
  · simp only [verifyAccessToken, Prog.logs_bind, query, exec, Prog.logs]
    intro keys
    split
    · simp [AnswerBacked]
    · simp [AnswerBacked]

theorem beginLogout_logs (hint : Option String) (ticket : Option SessionTicket) :
    (program app (.beginLogout hint ticket)).logs (UnitBacked app (.beginLogout hint ticket))
      (AnswerBacked (.beginLogout hint ticket)) .fresh := by
  have hinted : ∀ {guar : Log → Prop} {post : Option IdentityHint → Log → Prop} {log : Log},
      Reading log → (∀ named log, Reading log → post named log) →
      (readHint app hint).logs guar post log := by
    intro guar post log reading holds
    apply readHint_logs
    · exact fun _ => holds none log reading
    · exact fun _ keys _ => holds _ _ (reading.ran .listSigningKeys rfl)
  cases ticket with
  | none =>
    simp only [program, beginLogout, Prog.logs_bind, logs_beginWork, Prog.logs_pure]
    apply hinted (Reading.finish _ _)
    intro named log reading
    exact ⟨reading.plain.backed, trivial⟩
  | some ticket =>
    simp only [program, beginLogout, Prog.logs_bind, logs_beginWork, Prog.logs_pure]
    apply findLiveSession_logs
    · intro known
      apply hinted ((Reading.finish _ _).ran _ rfl)
      intro named log reading
      exact ⟨reading.plain.backed, trivial⟩
    · intro known
      apply hinted ((Reading.finish _ _).ran _ rfl)
      intro named log reading
      simp only [Prog.logs_bind, logs_ite, logs_commitWork, Prog.logs_pure]
      refine ⟨fun _ => trivial, fun _ => ?_⟩
      exact closeSession_logs reading.plain fun log backed => ⟨backed, trivial⟩

theorem confirmLogout_logs (ticket : SessionTicket) :
    (program app (.confirmLogout ticket)).logs (UnitBacked app (.confirmLogout ticket))
      (AnswerBacked (.confirmLogout ticket)) .fresh := by
  simp only [program, confirmLogout, Prog.logs_bind, logs_beginWork, Prog.logs_pure]
  apply findLiveSession_logs
  · intro known
    trivial
  · intro known
    simp only [Prog.logs_bind, logs_commitWork]
    apply closeSession_logs ((Reading.finish _ _).ran _ rfl).plain
    exact fun log backed => ⟨backed, trivial⟩

theorem withdrawMyConsent_logs (ticket : Option SessionTicket) (clientId : String) :
    (program app (.withdrawMyConsent ticket clientId)).logs
      (UnitBacked app (.withdrawMyConsent ticket clientId))
      (AnswerBacked (.withdrawMyConsent ticket clientId)) .fresh := by
  simp only [program, withdrawMyConsent, findSignedInSession, Prog.logs_bind, logs_orFail,
    logs_beginWork, logs_commitWork, Prog.logs_pure]
  intro shown _
  apply findAnsweringSession_logs
  · intro known session impossible
    cases impossible
  · simp only [query, exec, Prog.logs]
    intro known instant _ standing session same person _ _
    apply withdrawConsent_logs (((Reading.finish _ _).ran _ rfl).ran _ rfl)
    exact fun log backed => ⟨backed, trivial⟩

theorem withdrawPersonConsent_logs (person : Uuid) (clientId : String) :
    (program app (.withdrawPersonConsent person clientId)).logs
      (UnitBacked app (.withdrawPersonConsent person clientId))
      (AnswerBacked (.withdrawPersonConsent person clientId)) .fresh := by
  simp only [program, withdrawPersonConsent, Prog.logs_bind, logs_beginWork, logs_commitWork,
    Prog.logs_pure]
  exact withdrawConsent_logs (Reading.finish _ _) fun log backed => ⟨backed, trivial⟩

theorem finishSignIn_logs (request : Uuid) (browserDigest : Bytes) (answer : SignInAnswer) :
    (program app (.finishSignIn request browserDigest answer)).logs
      (UnitBacked app (.finishSignIn request browserDigest answer))
      (AnswerBacked (.finishSignIn request browserDigest answer)) .fresh := by
  simp only [program, finishSignIn, requireBrowser, Prog.logs_bind, logs_beginWork, logs_tellNow,
    query, exec, Prog.logs, logs_dropWork, logs_orFail]
  intro instant read pending known
  obtain ⟨rfl, browser⟩ := Option.filter_eq_some_iff.mp known
  obtain rfl := of_decide_eq_true browser
  have signs : SignsIn (.finishSignIn request pending.browserDigest answer) request pending answer
      ((((.fresh : Log).finish false).ran (.readPendingAuthorization request instant)
        (some pending)).finish false) :=
    ⟨rfl, ⟨instant, by simp [told]⟩, rfl⟩
  apply proveAnswer_logs signs
  · intro signedIn log opened
    have begun : Opened (log.finish false) request pending signedIn := by
      obtain ⟨session, openedFor, same⟩ := opened.session
      exact ⟨session, openedFor.mono (by simp) (by simp), same⟩
    simp only [Prog.logs_bind, logs_beginWork]
    split
    · simp only [Prog.logs_pure]
      exact finishRequest_logs rfl (Reading.finish _ _) begun fun _ _ => trivial
    · next mine =>
      have hinted : isHintedAtAnother pending signedIn.person.id = false := by simpa using mine
      have decided : ∀ (owed : Bool) (log : Log), Reading log → Opened log request pending signedIn →
          (if owed then leaveConsentOwed request signedIn
            else finishRequest app request signedIn).logs
            (UnitBacked app (.finishSignIn request pending.browserDigest answer))
            (fun step log => AnswerBacked (.finishSignIn request pending.browserDigest answer)
              (.signIn step) log) log := by
        intro owed log reading opened
        rw [logs_ite]
        refine ⟨fun _ => ?_, fun _ => ?_⟩
        · exact leaveConsentOwed_logs rfl reading opened hinted fun _ _ => trivial
        · exact finishRequest_logs rfl reading opened fun _ _ => trivial
      simp only [isConsentOwedAfterSignIn]
      split
      · exact decided true _ (Reading.finish _ _) begun
      · simp only [Prog.logs_bind, query, exec, Prog.logs, Prog.logs_pure]
        intro terms
        apply decided _ _ ((Reading.finish _ _).ran _ rfl)
        obtain ⟨session, openedFor, same⟩ := begun.session
        exact ⟨session, openedFor.mono (by simp) (by simp), same⟩
  · exact fun _ _ => trivial

theorem answerConsent_logs (request : Uuid) (browserDigest : Bytes) (ticket : Option SessionTicket)
    (decision : ConsentDecision) :
    (program app (.answerConsent request browserDigest ticket decision)).logs
      (UnitBacked app (.answerConsent request browserDigest ticket decision))
      (AnswerBacked (.answerConsent request browserDigest ticket decision)) .fresh := by
  simp only [program, answerConsent, Prog.logs_bind, logs_orFail, logs_beginWork, logs_tellNow, query,
    exec, Prog.logs]
  rintro shown rfl instant taken
  apply checkWaitingConsent_logs
  rintro pending known later rfl browser waiting secret standing
  cases decision with
  | deny =>
    simp only [Prog.logs_pure]
    refine ⟨?_, trivial⟩
    simp [UnitBacked, Backed, told]
    exact .head
  | allow =>
    simp only [Prog.logs_bind]
    apply allowClient_logs
    intro client code location kept log adds script asked inSession ofPerson
    simp only [logs_commitWork, Prog.logs_pure]
    refine ⟨?_, trivial⟩
    simp only [Log.script_ran, Log.script_finish, List.nil_append, List.cons_append] at script
    intro one inside
    rw [script] at inside
    simp only [List.mem_cons, List.mem_append, List.not_mem_nil, or_false] at inside
    rcases inside with rfl | rfl | rfl | keeps | rfl
    · change Leading _ log.script
      rw [script]
      exact .head
    · trivial
    · trivial
    · obtain ⟨consent, ofPerson, rfl⟩ := adds one keeps
      exact ⟨request, browserDigest, _, known.session, rfl,
        ⟨known, by simp [script, told], rfl, later, standing⟩, ofPerson⟩
    · refine ⟨.allowed rfl ⟨instant, by simp [script, told]⟩ browser waiting secret
        (by simp [script]) asked
        ⟨known, by simp [script, told], rfl, later, standing⟩ inSession ofPerson, ?_⟩
      intro other inserted
      rw [script] at inserted
      have either : told (.insertAuthorizationCode other) true ∈ kept ∨ other = code := by
        simpa [told] using inserted
      refine either.resolve_left fun earlier => ?_
      obtain ⟨consent, -, impossible⟩ := adds _ earlier
      cases impossible

theorem beginAuthorization_logs (parameters : AuthorizationParameters)
    (ticket : Option SessionTicket) :
    (program app (.beginAuthorization parameters ticket)).logs
      (UnitBacked app (.beginAuthorization parameters ticket))
      (AnswerBacked (.beginAuthorization parameters ticket)) .fresh := by
  simp only [program, beginAuthorization, Prog.logs_bind]
  apply trustRequest_logs
  rintro trusted client id rfl named asks proof
  have client : told (.readClient id) (some trusted.client) ∈
      (((Log.fresh : Log).finish false).ran (.readClient id) (some trusted.client)).script := by
    simp [told]
  apply findSessionFor_logs ((Reading.finish _ _).ran _ rfl)
  · intro found reading inside
    apply holdSessionToHint_logs reading
    intro kept expected later reading within expects same
    cases kept with
    | some session =>
      have impossible := (same session rfl).1
      cases impossible
    | none =>
      simp only [logs_ite, logs_tellClient, implies_true, true_and]
      intro _
      simp only [Prog.logs_bind, Prog.logs_pure]
      apply leaveRequestWaiting_logs
        ⟨rfl, reading, ⟨id, named, within (inside client)⟩, asks, proof, expects⟩
      · nofun
      · exact fun _ _ => trivial
  · intro known shown instant found reading inside shows fresh standing read
    apply holdSessionToHint_logs reading
    intro kept expected later reading within expects same
    cases kept with
    | none =>
      simp only [logs_ite, logs_tellClient, implies_true, true_and]
      intro _
      simp only [Prog.logs_bind, Prog.logs_pure]
      apply leaveRequestWaiting_logs
        ⟨rfl, reading, ⟨id, named, within (inside client)⟩, asks, proof, expects⟩
      · nofun
      · exact fun _ _ => trivial
    | some session =>
      obtain ⟨known', hinted⟩ := same session rfl
      obtain rfl := Option.some.inj known'
      subst shows
      simp only [Prog.logs_pure]
      apply answerWithSession_logs
        ⟨rfl, reading, ⟨id, named, within (inside client)⟩, asks, proof, expects⟩ fresh
        ⟨known, within read, rfl, instant, standing⟩ hinted
      exact fun _ _ => trivial

theorem beginTotpEnrollment_logs (ticket : Option SessionTicket) :
    (program app (.beginTotpEnrollment ticket)).logs (UnitBacked app (.beginTotpEnrollment ticket))
      (AnswerBacked (.beginTotpEnrollment ticket)) .fresh := by
  simp only [program, beginTotpEnrollment, refuseUnprovenSession, Prog.logs_bind]
  apply requireSignedInPerson_logs
  intro found log reading
  simp only [logs_refuseIf, ask, inquire, query, exec, Prog.logs, logs_orFail, logs_tellNow]
  intro _ made sealedSecret _ instant written _
  refine ⟨?_, trivial⟩
  exact (reading.plain.ran (by intros; trivial)).backed

theorem confirmTotpEnrollment_logs (ticket : Option SessionTicket) (password : Bytes)
    (code : String) :
    (program app (.confirmTotpEnrollment ticket password code)).logs
      (UnitBacked app (.confirmTotpEnrollment ticket password code))
      (AnswerBacked (.confirmTotpEnrollment ticket password code)) .fresh := by
  simp only [program, confirmTotpEnrollment, Prog.logs_bind]
  apply requireSignedInPerson_logs
  intro found log _
  simp only [logs_dropWork]
  apply verifyPassword_logs
  · exact fun log plain => plain.backed
  intro person _ later _ _
  simp only [logs_refuseIf, logs_beginWork, query, exec, Prog.logs, logs_orFail]
  intro _ kept pending _ _
  apply requireFactorProof_logs ((Reading.finish _ _).ran _ rfl)
  intro log reading _
  apply acceptCode_logs
  · nofun
  intro step instant accepted
  simp only [Bool.not_eq_false']
  intro held _
  subst held
  have clears : ∀ one ∈ log.script ++ [told (.clearCodeAttempts found.person.id) ()], ∀ later,
      Backed app (.confirmTotpEnrollment ticket password code) later one := by
    intro one inside later
    rcases List.mem_append.mp inside with before | after
    · exact reading.plain one before _ _ _
    · rw [List.mem_singleton.mp after]
      exact Or.inl trivial
  apply closeSessionsWithoutFactor_logs (told (.acceptTotpStep found.person.id pending.sealedSecret
    step .confirmation instant) true) clears
  · simp [told]
  · intro one inside
    simp only [Log.script_ran, List.append_assoc, List.mem_append, List.mem_cons, List.not_mem_nil,
      or_false, List.cons_append, List.nil_append] at inside
    rcases inside with earlier | rfl | rfl
    · exact removesFactor_of_reads (reading one earlier)
    · rfl
    · rfl
  · rintro final - ⟨more, longer, closing⟩ set
    refine ⟨set, ?_⟩
    have none : more.countP acceptsCode = 0 := by
      rw [List.countP_eq_zero]
      intro said inside
      have closed := closing said inside
      obtain ⟨op, result⟩ := said
      cases op <;> first | exact Bool.false_ne_true | cases closed
    rw [longer, List.countP_append, none, Log.script_ran, Log.script_ran, List.countP_append,
      List.countP_append, reading.countP fun _ read => (not_counts_of_reads read).2.1]
    rfl
  · exact fun log backed => ⟨backed, trivial⟩

theorem removeTotp_logs (person : Uuid) :
    (program app (.removeTotp person)).logs (UnitBacked app (.removeTotp person))
      (AnswerBacked (.removeTotp person)) .fresh := by
  simp only [program, removeTotp, Prog.logs_bind, logs_beginWork, query, exec, Prog.logs,
    logs_refuseIf]
  intro deleted _ _
  refine ⟨?_, trivial⟩
  simp only [UnitBacked, Log.script_ran, Log.script_finish, List.nil_append, List.forall_mem_append,
    List.forall_mem_singleton]
  exact ⟨by trivial, Or.inl rfl⟩

theorem beginKeyEnrollment_logs (ticket : Option SessionTicket) (password : Bytes) :
    (program app (.beginKeyEnrollment ticket password)).logs
      (UnitBacked app (.beginKeyEnrollment ticket password))
      (AnswerBacked (.beginKeyEnrollment ticket password)) .fresh := by
  simp only [program, beginKeyEnrollment, Prog.logs_bind]
  apply requireSignedInPerson_logs
  intro found log _
  simp only [ask, inquire, Prog.logs, logs_refuseIf, logs_dropWork]
  intro _
  apply verifyPassword_logs
  · exact fun log plain => plain.backed
  intro person _ later _ _
  simp only [logs_beginWork]
  intro _
  apply requireFactorProof_logs (Reading.finish _ _)
  intro log reading _
  simp only [query, exec, Prog.logs, logs_orFail, logs_tellNow]
  intro held room started ceremony _ instant _
  refine ⟨?_, trivial⟩
  have listed : Reading (log.ran (.listSecurityKeys found.person.id) held) := reading.ran _ rfl
  intro one inside
  rcases List.mem_append.mp inside with earlier | last
  · exact listed.plain.backed one earlier
  · rw [List.mem_singleton.mp last]
    refine ⟨held, ?_, by simpa using room⟩
    rw [Log.script_ran, Log.script_ran, List.append_assoc]
    exact reading.leads _ _

theorem finishKeyEnrollment_logs (ticket : Option SessionTicket) (answer : Json) :
    (program app (.finishKeyEnrollment ticket answer)).logs
      (UnitBacked app (.finishKeyEnrollment ticket answer))
      (AnswerBacked (.finishKeyEnrollment ticket answer)) .fresh := by
  simp only [program, finishKeyEnrollment, Prog.logs_bind]
  apply requireSignedInPerson_logs
  intro found log reading
  simp only [logs_tellNow, query, exec, Prog.logs, logs_commitWork, logs_orFail]
  intro instant taken
  refine ⟨(reading.plain.ran (by intros; trivial)).backed, ?_⟩
  intro state isTaken
  cases finished : finishEnrollment app.keyLibrary state answer with
  | error refusal => cases refusal <;> trivial
  | ok enrolled =>
    simp only [readEnrolledKey, Prog.logs_pure, logs_beginWork]
    apply requireFactorProof_logs (Reading.finish _ _)
    intro later stillReading before_
    simp only [logs_refuseIf, Bool.not_eq_false']
    intro now inserted kept
    subst kept
    have before : ∀ one ∈ later.script ++ [], ∀ log,
        Backed app (.finishKeyEnrollment ticket answer) log one := by
      rw [List.append_nil]
      exact fun one inside log => stillReading.plain one inside _ _ _
    apply closeSessionsWithoutFactor_logs (told (.insertSecurityKey
      ⟨enrolled.credentialId, found.person.id, enrolled.record, now, none⟩) true) before
    · simp [told]
    · intro one inside
      rcases List.mem_append.mp inside with earlier | last
      · exact removesFactor_of_reads (stillReading one earlier)
      · rw [List.mem_singleton.mp last]
        rfl
    · rintro final ended ⟨more, longer, closing⟩ set
      refine ⟨set, ⟨_, instant, state, answer, ?_, reading.leads _ [], finished⟩, ?_⟩
      · have among : (true, (log.ran (.takeKeyEnrollment found.person.id instant) (some state)).script) ∈
            later.ended := by
          rw [before_]
          simp [isTaken]
        rw [ended]
        exact among
      · intro other again
        rw [longer] at again
        rcases List.mem_append.mp again with inUnit | closed
        · rcases List.mem_append.mp inUnit with earlier | last
          · exact nomatch stillReading _ earlier
          · obtain ⟨same, -⟩ := Sigma.mk.inj (List.mem_singleton.mp last)
            exact Op.insertSecurityKey.inj same
        · exact nomatch closing _ closed
    · exact fun log backed => ⟨backed, trivial⟩

theorem removeSecurityKeys_logs (person : Uuid) :
    (program app (.removeSecurityKeys person)).logs (UnitBacked app (.removeSecurityKeys person))
      (AnswerBacked (.removeSecurityKeys person)) .fresh := by
  simp only [program, removeSecurityKeys, Prog.logs_bind, logs_beginWork, query, exec, Prog.logs,
    logs_refuseIf]
  intro removed _
  exact ⟨((Reading.finish _ _).plain.ran (by intros; trivial)).backed, trivial⟩

theorem resumeCodes_logs (person : Uuid) :
    (program app (.resumeCodes person)).logs (UnitBacked app (.resumeCodes person))
      (AnswerBacked (.resumeCodes person)) .fresh := by
  simp only [program, resumeCodes, Prog.logs_bind, logs_beginWork, query, exec, Prog.logs,
    logs_orFail]
  intro found one _ _
  refine ⟨?_, trivial⟩
  simp only [UnitBacked, Log.script_ran, Log.script_finish, List.nil_append, List.forall_mem_append,
    List.forall_mem_singleton]
  exact ⟨by trivial, Or.inl rfl⟩

theorem unlockPerson_logs (username : String) :
    (program app (.unlockPerson username)).logs (UnitBacked app (.unlockPerson username))
      (AnswerBacked (.unlockPerson username)) .fresh := by
  simp only [program, unlockPerson, digestNameLocks, digestCounter, Prog.logs_bind, logs_beginWork,
    query, exec, Prog.logs, logs_orFail, Prog.logs_pure]
  intro name _ found person _ first _ today _ _ _
  refine ⟨Plain.backed (Plain.ran (Plain.ran ((Reading.finish _ _).ran _ rfl).plain ?_) ?_), trivial⟩
  · intros; trivial
  · intros; trivial

theorem readLiveSubject_logs (session : Uuid) :
    (program app (.readLiveSubject session)).logs (UnitBacked app (.readLiveSubject session))
      (AnswerBacked (.readLiveSubject session)) .fresh := by
  simp only [program, askLiveSubject, readLiveSubject, Prog.logs_bind, logs_beginWork, logs_tellNow,
    query, exec, Prog.logs]
  intro instant read
  split
  · trivial
  · next known stood =>
    obtain ⟨rfl, standing⟩ := Option.filter_eq_some_iff.mp stood
    simp only [Prog.logs_bind, Prog.logs, Prog.logs_pure]
    intro person
    cases enabled : person.filter Person.enabled with
    | none => trivial
    | some row => exact ⟨known, by simp [told], rfl, instant, standing⟩

/-- Every call backs what it writes and answers. -/
def backedLogs : Logs (calls app) where
  guar := UnitBacked app
  post := AnswerBacked
  calls call := by
    cases call with
    | beginAuthorization parameters ticket => exact beginAuthorization_logs app parameters ticket
    | finishSignIn request browserDigest answer =>
      exact finishSignIn_logs app request browserDigest answer
    | answerConsent request browserDigest ticket decision =>
      exact answerConsent_logs app request browserDigest ticket decision
    | exchangeCode request => exact exchangeCode_logs app request
    | rotateRefreshToken request => exact rotateRefreshToken_logs app request
    | revokeToken clientId secretDigest token => exact revokeToken_logs app clientId secretDigest token
    | beginLogout hint ticket => exact beginLogout_logs app hint ticket
    | confirmLogout ticket => exact confirmLogout_logs app ticket
    | withdrawMyConsent ticket clientId => exact withdrawMyConsent_logs app ticket clientId
    | withdrawPersonConsent person clientId => exact withdrawPersonConsent_logs app person clientId
    | beginTotpEnrollment ticket => exact beginTotpEnrollment_logs app ticket
    | confirmTotpEnrollment ticket password code =>
      exact confirmTotpEnrollment_logs app ticket password code
    | removeTotp person => exact removeTotp_logs app person
    | beginKeyEnrollment ticket password => exact beginKeyEnrollment_logs app ticket password
    | finishKeyEnrollment ticket answer => exact finishKeyEnrollment_logs app ticket answer
    | removeSecurityKeys person => exact removeSecurityKeys_logs app person
    | resumeCodes person => exact resumeCodes_logs app person
    | unlockPerson username => exact unlockPerson_logs app username
    | readLiveSubject session => exact readLiveSubject_logs app session

end Calls

end Saffui.Oidc
