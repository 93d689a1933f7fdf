import Saffui.Authz.Decide

/-!
# A decision permits only what it may

`Permitted` says when a subject may take an action on a resource, in the
terms of what the realm keeps and of what the clock showed while the question
was answered: no walk, no bound and no order of reads. A decision that permits
is `Permitted`, whatever the clock shows, whichever reads fail and whichever
bounds are met.
-/

namespace Saffui.Authz
open Saffui.Authz.Relations Saffui.Login Saffui.Tokens

/-- A reading of the clock that a computation made. -/
def Shown (before after : Readings) (reading : Nat) : Prop :=
  before.clock ≤ reading ∧ reading < after.clock

section Spec

variable (node : Node) (around : Around) (state : RealmState) (before after : Readings)

/-- A client that is there, enabled, and whose secret was presented. A public
client has none: it would take a secret of the digest of nothing. -/
structure Authenticated (clientId : String) (presented : Bytes) (client : Client) : Prop where
  known : state.readClient clientId = some client
  enabled : client.enabled
  proven : client.secretDigest = some (node.sha256 presented) ∨
    client.secretDigest = none ∧ node.sha256 presented = NO_DIGEST

/-- A token signed by a key of the realm, an access token of its issuer, not
expired at an instant the clock showed meanwhile. -/
structure Verified (issuer token : String) (claims : AccessTokenClaims) : Prop where
  verifies : ∃ verified reading, Shown before after reading ∧
    verifyCompact node.packages token state.keys = some verified ∧
    verified.tokenType = some ACCESS_TOKEN_TYPE ∧
    readClaims verified.claims issuer (around.now reading) = some claims

/-- A subject that is live: an enabled client, or an enabled person for whom
a session answers still, at an instant the clock showed meanwhile. -/
inductive Live (claims : AccessTokenClaims) : Subject → Prop where
  | client {client : Client} (alone : claims.session = none)
      (known : state.readClient claims.subject = some client) (enabled : client.enabled) :
      Live claims (.ofClient client claims)
  | person {session : Uuid} {read : ReadSession} {person : Person} (reading : Nat)
      (shown : Shown before after reading) (named : claims.session = some session)
      (known : state.readSession session = some read)
      (active : read.session.state = .active)
      (lasting : read.session.expiresAt > around.now reading)
      (answers : provesSecondFactor read.session ∨ read.personHoldsFactor = false)
      (kept : state.readPerson read.session.person = some person) (enabled : person.enabled)
      (same : person.id.text = claims.subject) : Live claims (.ofPerson person claims)

/-- The schema of the realm decides a type for a client: it defines it, and
the client guards it. -/
structure Defines (clientId resourceType : String) (schema : CompiledSchema) : Prop where
  kept : state.schema.bind StoredSchema.open = some schema
  defined : (schema.types.get? resourceType).isSome
  guarded : (resourceType, clientId) ∈ state.guards

/-- The subject stands in the member asked for, by the least fixed point of
the rules over the relations the schema admits. -/
def PermittedByRelations (clientId : String) (request : DecisionRequest) (subject : Subject) :
    Prop :=
  ∃ schema objectId, Defines state clientId request.resourceType schema ∧
    request.resourceId = some objectId ∧
    (⟨request.resourceType, objectId⟩, request.action) ∈
      schema.stands (schema.admitted {tuple | tuple ∈ state.tuples}) subject.object

/-- What is known of the subject at an instant: for a person, every role of
the realm or of the client held then, and every group. -/
def factsAt (clientId : String) (subject : Subject) (now : Instant) : SubjectFacts :=
  match subject.person with
  | none => subject.facts
  | some person => { subject.facts with
      roles := rolesFor clientId (state.heldRoles person now)
      groups := state.memberGroups person now }

/-- No schema decides the type for the client, and of the policies that apply
one permits, none denies, and each could tell, at an instant the clock showed
meanwhile. -/
structure PermittedByPolicies (clientId : String) (request : DecisionRequest) (subject : Subject) :
    Prop where
  readable : state.schema.isSome → (state.schema.bind StoredSchema.open).isSome
  undefined : ∀ schema, ¬Defines state clientId request.resourceType schema
  weighed : ∃ reading, Shown before after reading ∧ let facts : Facts :=
      ⟨factsAt state clientId subject (around.now reading), request.attributes, around.now reading⟩
    (∃ policy ∈ state.policies,
      appliesTo clientId request.resourceType request.action policy ∧
        evaluatePolicy node.formats policy facts = .applies .permit) ∧
    ∀ policy ∈ state.policies, appliesTo clientId request.resourceType request.action policy →
      evaluatePolicy node.formats policy facts ≠ .applies .deny ∧
        evaluatePolicy node.formats policy facts ≠ .undecided

end Spec

/-- What a permit of the point of decision stands for, between two readings of
the clock. -/
def Permitted (node : Node) (around : Around) (before after : Readings) (realms : String → Option RealmState)
    (realm : String) (clientId : Option String) (clientSecret : Option Bytes)
    (request : DecisionRequest) : Prop :=
  ∃ state named presented client token claims subject, realms realm = some state ∧
    state.enabled ∧ clientId = some named ∧ clientSecret = some presented ∧
    Authenticated node state named presented client ∧ request.subjectToken = some token ∧
    Verified node around state before after (nameIssuer node realm) token claims ∧
    Live around state before after claims subject ∧
    (PermittedByRelations state client.clientId request subject ∨
      PermittedByPolicies node around state before after client.clientId request subject)

namespace AskM

theorem bind_ok {α β : Type} {first : AskM α} {next : α → AskM β} {before between : Readings}
    {middle : α} (ran : first before = .ok (middle, between)) :
    (first >>= next) before = next middle between := by
  change AskM.bind first next before = _
  rw [AskM.bind, ran]

/-- A computation that answers answered at each of its steps. -/
theorem bind_eq_ok {α β : Type} {first : AskM α} {next : α → AskM β} {before after : Readings}
    {value : β} (answered : (first >>= next) before = .ok (value, after)) :
    ∃ middle between, first before = .ok (middle, between) ∧
      next middle between = .ok (value, after) := by
  change AskM.bind first next before = _ at answered
  unfold AskM.bind at answered
  split at answered
  · next middle between ran => exact ⟨middle, between, ran, answered⟩
  · cases answered

theorem pure_eq_ok {α : Type} {given value : α} {before after : Readings}
    (answered : (Pure.pure given : AskM α) before = .ok (value, after)) : value = given := by
  change Except.ok (given, before) = _ at answered
  simp only [Except.ok.injEq, Prod.mk.injEq] at answered
  exact answered.1.symm

end AskM

/-- Readings that come no earlier on the clock. -/
def Readings.Follows (before after : Readings) : Prop := before.clock ≤ after.clock

theorem Shown.widen {first before after last : Readings} {reading : Nat}
    (shown : Shown before after reading) (earlier : first.Follows before)
    (later : after.Follows last) : Shown first last reading :=
  ⟨earlier.trans shown.1, shown.2.trans_le later⟩

/-- A computation under which the clock is not read backwards. -/
def Onward {α : Type} (ask : AskM α) : Prop :=
  ∀ before value after, ask before = .ok (value, after) → before.Follows after

section Onward

variable (node : Node) (around : Around) (state : RealmState)

theorem onward_pure {α : Type} (value : α) : Onward (Pure.pure value : AskM α) := by
  rintro before _ _ ⟨⟩
  exact le_rfl

theorem onward_fail {α : Type} (code : ErrorCode) : Onward (AskM.fail code : AskM α) := by
  rintro before _ _ ⟨⟩

theorem Onward.bind {α β : Type} {first : AskM α} {next : α → AskM β} (here : Onward first)
    (there : ∀ value, Onward (next value)) : Onward (first >>= next) := by
  intro before value after ran
  obtain ⟨middle, between, asked, ran⟩ := AskM.bind_eq_ok ran
  exact (here _ _ _ asked).trans (there middle _ _ _ ran)

theorem onward_ite {α : Type} {holds : Prop} [Decidable holds] {one other : AskM α}
    (first : Onward one) (second : Onward other) : Onward (if holds then one else other) := by
  split
  · exact first
  · exact second

theorem onward_readClock : Onward (readClock around) := by
  rintro before _ _ ⟨⟩
  exact Nat.le_succ _

theorem onward_readStorage {α : Type} (value : α) : Onward (readStorage around value) := by
  intro before read after ran
  unfold readStorage at ran
  split at ran
  · cases ran
  · cases ran
    exact le_rfl

theorem onward_readNamedClientOf (clientId : String) :
    Onward (readNamedClientOf around state clientId) := by
  unfold readNamedClientOf
  split
  · exact onward_pure _
  · exact onward_readStorage around _

theorem onward_authenticateClient (clientId : String) (presented : Bytes) :
    Onward (authenticateClient node around state clientId presented) := by
  refine (onward_readNamedClientOf around state clientId).bind fun client => ?_
  cases client with
  | none => exact onward_fail _
  | some client => exact onward_ite (onward_pure _) (onward_fail _)

theorem onward_verifyAccessToken (issuer token : String) :
    Onward (verifyAccessToken node around state issuer token) := by
  refine (onward_readStorage around state.keys).bind fun keys => ?_
  split
  · exact onward_pure _
  · exact onward_ite (onward_pure _) ((onward_readClock around).bind fun now => onward_pure _)

theorem onward_readLiveSubject (session : Uuid) : Onward (readLiveSubject around state session) := by
  refine (onward_readClock around).bind fun now => ?_
  refine (onward_readStorage around _).bind fun read => ?_
  split
  · exact onward_pure _
  · exact (onward_readStorage around _).bind fun person => onward_pure _

theorem onward_readSubject (issuer token : String) :
    Onward (readSubject node around state issuer token) := by
  refine (onward_verifyAccessToken node around state issuer token).bind fun claims => ?_
  cases claims with
  | none => exact onward_pure _
  | some claims =>
    dsimp only
    split
    · exact (onward_readNamedClientOf around state _).bind fun client => onward_pure _
    · refine (onward_readLiveSubject around state _).bind fun found => ?_
      cases found with
      | none => exact onward_pure _
      | some found => exact onward_ite (onward_pure _) (onward_pure _)

theorem onward_openSchema (compiled : Json) : Onward (openSchema around state compiled) := by
  unfold openSchema
  split
  · exact onward_pure _
  · exact (onward_readStorage around state.schema).bind fun stored => onward_pure _

theorem onward_readSchemaFor (clientId resourceType : String) :
    Onward (readSchemaFor around state clientId resourceType) := by
  refine (onward_readStorage around _).bind fun read => ?_
  cases read with
  | none => exact onward_pure _
  | some read =>
    refine (onward_openSchema around state read.compiled).bind fun schema => ?_
    cases schema with
    | none => exact onward_pure _
    | some schema => exact onward_ite (onward_pure _) (onward_pure _)

theorem onward_resolveRealm (realms : String → Option RealmState) (realm : String) :
    Onward (resolveRealm around realms realm) := by
  refine onward_ite (onward_fail _) ?_
  refine (onward_readStorage around (realms realm)).bind fun found => ?_
  cases found with
  | none => exact onward_fail _
  | some state => exact onward_ite (onward_pure _) (onward_fail _)

theorem onward_readHeldRoles (person : Uuid) (now : Instant) :
    Onward (readHeldRoles around state person now) :=
  (onward_readStorage around _).bind fun _ => onward_ite (onward_fail _) (onward_pure _)

theorem onward_readMemberGroups (person : Uuid) (now : Instant) :
    Onward (readMemberGroups around state person now) :=
  (onward_readStorage around _).bind fun _ => onward_ite (onward_fail _) (onward_pure _)

theorem onward_readFacts (clientId : String) (subject : Subject) (now : Instant) :
    Onward (readFacts around state clientId subject now) := by
  unfold readFacts
  split
  · exact onward_pure _
  · next person _ =>
    exact (onward_readHeldRoles around state person now).bind fun held =>
      (onward_readMemberGroups around state person now).bind fun groups => onward_pure _

theorem onward_walk (schema : CompiledSchema) (object : ObjectRef) (action : String)
    (subject : ObjectRef) (deadline : Instant) :
    Onward (walk around state schema object action subject deadline) := by
  intro before value after ran
  unfold walk at ran
  dsimp only at ran
  split at ran
  · cases ran
    exact le_rfl
  · cases ran
  · cases ran

theorem onward_decideByRelations (schema : CompiledSchema) (request : DecisionRequest)
    (subject : ObjectRef) (deadline : Instant) :
    Onward (decideByRelations around state schema request subject deadline) := by
  unfold decideByRelations
  split
  · exact onward_fail _
  · refine onward_ite (onward_pure _) ?_
    refine (onward_walk around state schema _ _ subject deadline).bind fun told => ?_
    cases told <;> exact onward_pure _

theorem onward_decideByPolicies (clientId : String) (request : DecisionRequest) (subject : Subject) :
    Onward (decideByPolicies node around state clientId request subject) := by
  refine (onward_readStorage around _).bind fun policies => onward_ite (onward_pure _) ?_
  refine (onward_readClock around).bind fun now => ?_
  refine (onward_readFacts around state clientId subject now).bind fun facts => ?_
  split <;> exact onward_pure _

end Onward

section Steps

variable {node : Node} {around : Around} {state : RealmState} {before after : Readings}

theorem readStorage_ok {α : Type} {value read : α}
    (ran : readStorage around value before = .ok (read, after)) : read = value := by
  unfold readStorage at ran
  split at ran
  · cases ran
  · simp only [Except.ok.injEq, Prod.mk.injEq] at ran
    exact ran.1.symm

/-- What the clock shows is a reading of its own. -/
theorem readClock_ok {now : Instant} (ran : readClock around before = .ok (now, after)) :
    now = around.now before.clock ∧ Shown before after before.clock := by
  simp only [readClock, Except.ok.injEq, Prod.mk.injEq] at ran
  obtain ⟨shown, rfl⟩ := ran
  exact ⟨shown.symm, le_rfl, Nat.lt_succ_self _⟩

theorem readNamedClientOf_ok {clientId : String} {client : Client}
    (ran : readNamedClientOf around state clientId before = .ok (some client, after)) :
    state.readClient clientId = some client := by
  unfold readNamedClientOf at ran
  cases checked : checkClientIdentifier clientId with
  | error code =>
    rw [checked] at ran
    cases AskM.pure_eq_ok ran
  | ok =>
    rw [checked] at ran
    exact (readStorage_ok ran).symm

theorem authenticateClient_ok {clientId : String} {presented : Bytes} {client : Client}
    (ran : authenticateClient node around state clientId presented before = .ok (client, after)) :
    Authenticated node state clientId presented client := by
  obtain ⟨found, between, named, ran⟩ := AskM.bind_eq_ok ran
  cases found with
  | none => cases ran
  | some found =>
    dsimp only at ran
    split at ran
    · next matched =>
      obtain rfl := AskM.pure_eq_ok ran
      obtain ⟨proven, enabled⟩ := Bool.and_eq_true_iff.mp matched
      refine ⟨readNamedClientOf_ok named, enabled, ?_⟩
      have digests := of_decide_eq_true proven
      cases kept : client.secretDigest with
      | none =>
        rw [Option.bind_some, kept, Option.getD_none] at digests
        exact Or.inr ⟨rfl, digests⟩
      | some digest =>
        rw [Option.bind_some, kept, Option.getD_some] at digests
        exact Or.inl (by rw [digests])
    · cases ran

theorem verifyAccessToken_ok {issuer token : String} {claims : AccessTokenClaims}
    (ran : verifyAccessToken node around state issuer token before = .ok (some claims, after)) :
    Verified node around state before after issuer token claims := by
  obtain ⟨keys, listed, read, ran⟩ := AskM.bind_eq_ok ran
  have begun := onward_readStorage around _ _ _ _ read
  obtain rfl := readStorage_ok read
  cases verifies : verifyCompact node.packages token state.keys with
  | none =>
    rw [verifies] at ran
    cases AskM.pure_eq_ok ran
  | some verified =>
    rw [verifies] at ran
    dsimp only at ran
    split at ran
    · cases AskM.pure_eq_ok ran
    · next typed =>
      obtain ⟨now, clocked, clock, ran⟩ := AskM.bind_eq_ok ran
      obtain ⟨same, shown⟩ := readClock_ok clock
      have ended := onward_pure _ _ _ _ ran
      refine ⟨verified, listed.clock, shown.widen begun ended, verifies, not_not.mp typed, ?_⟩
      rw [← same]
      exact (AskM.pure_eq_ok ran).symm

theorem readLiveSubject_ok {session : Uuid} {opened : Session} {person : Person}
    (ran : readLiveSubject around state session before = .ok (some (opened, person), after)) :
    ∃ read reading, Shown before after reading ∧ state.readSession session = some read ∧
      stands read (around.now reading) ∧
      state.readPerson read.session.person = some person ∧ person.enabled := by
  obtain ⟨now, clocked, clock, ran⟩ := AskM.bind_eq_ok ran
  obtain ⟨same, shown⟩ := readClock_ok clock
  obtain ⟨found, looked, read, ran⟩ := AskM.bind_eq_ok ran
  have listed := onward_readStorage around _ _ _ _ read
  obtain rfl := readStorage_ok read
  cases filtered : (state.readSession session).filter fun known => stands known now with
  | none =>
    rw [filtered] at ran
    cases AskM.pure_eq_ok ran
  | some read =>
    rw [filtered] at ran
    obtain ⟨known, standing⟩ := Option.filter_eq_some_iff.mp filtered
    obtain ⟨kept, named, look, ran⟩ := AskM.bind_eq_ok ran
    have ended := (onward_readStorage around _ _ _ _ look).trans (onward_pure _ _ _ _ ran)
    obtain rfl := readStorage_ok look
    obtain ⟨one, inside, found⟩ := Option.map_eq_some_iff.mp (AskM.pure_eq_ok ran).symm
    obtain ⟨kept, enabled⟩ := Option.filter_eq_some_iff.mp inside
    obtain ⟨-, rfl⟩ := Prod.mk.inj found
    exact ⟨read, before.clock, shown.widen le_rfl (listed.trans ended), known, same ▸ standing,
      kept, enabled⟩

theorem Verified.widen {first last : Readings} {issuer token : String} {claims : AccessTokenClaims}
    (verified : Verified node around state before after issuer token claims)
    (earlier : first.Follows before) (later : after.Follows last) :
    Verified node around state first last issuer token claims := by
  obtain ⟨compact, reading, shown, read⟩ := verified.verifies
  exact ⟨compact, reading, shown.widen earlier later, read⟩

theorem Live.widen {first last : Readings} {claims : AccessTokenClaims} {subject : Subject}
    (live : Live around state before after claims subject)
    (earlier : first.Follows before) (later : after.Follows last) :
    Live around state first last claims subject := by
  cases live with
  | client alone known enabled => exact .client alone known enabled
  | person reading shown named known active lasting answers kept enabled same =>
    exact .person reading (shown.widen earlier later) named known active lasting answers kept enabled
      same

theorem readSubject_ok {issuer token : String} {subject : Subject}
    (ran : readSubject node around state issuer token before = .ok (some subject, after)) :
    ∃ claims, Verified node around state before after issuer token claims ∧
      Live around state before after claims subject := by
  obtain ⟨claims, verified, verify, ran⟩ := AskM.bind_eq_ok ran
  have begun := onward_verifyAccessToken node around state _ _ _ _ _ verify
  cases claims with
  | none => cases AskM.pure_eq_ok ran
  | some claims =>
    have proven := verifyAccessToken_ok verify
    dsimp only at ran
    cases named : claims.session with
    | none =>
      rw [named] at ran
      obtain ⟨found, looked, look, ran⟩ := AskM.bind_eq_ok ran
      have ended := (onward_readNamedClientOf around state _ _ _ _ look).trans
        (onward_pure _ _ _ _ ran)
      obtain ⟨client, inside, rfl⟩ := Option.map_eq_some_iff.mp (AskM.pure_eq_ok ran).symm
      obtain ⟨rfl, enabled⟩ := Option.filter_eq_some_iff.mp inside
      exact ⟨claims, proven.widen le_rfl ended, .client named (readNamedClientOf_ok look) enabled⟩
    | some session =>
      rw [named] at ran
      obtain ⟨found, looked, look, ran⟩ := AskM.bind_eq_ok ran
      have lived := onward_readLiveSubject around state _ _ _ _ look
      cases found with
      | none => cases AskM.pure_eq_ok ran
      | some found =>
        obtain ⟨opened, person⟩ := found
        have ended := onward_ite (onward_pure _) (onward_pure _) _ _ _ ran
        dsimp only at ran
        split at ran
        · cases AskM.pure_eq_ok ran
        · next same =>
          obtain rfl := Option.some.inj (AskM.pure_eq_ok ran)
          obtain ⟨read, reading, shown, known, standing, kept, enabled⟩ := readLiveSubject_ok look
          simp only [stands, answersForItsPerson, Bool.and_eq_true, Bool.or_eq_true,
            decide_eq_true_eq, Bool.not_eq_true'] at standing
          obtain ⟨⟨active, lasting⟩, answers⟩ := standing
          exact ⟨claims, proven.widen le_rfl (lived.trans ended),
            .person reading (shown.widen begun ended) named known active lasting answers kept enabled
              (not_not.mp same)⟩

theorem openSchema_ok {stored : StoredSchema} {found : Option CompiledSchema}
    (kept : state.schema = some stored)
    (ran : openSchema around state stored.compiled before = .ok (found, after)) :
    found = stored.open := by
  unfold openSchema at ran
  rw [StoredSchema.open]
  cases formed : readCompiledSchema stored.compiled with
  | some schema =>
    rw [formed] at ran
    exact AskM.pure_eq_ok ran
  | none =>
    rw [formed] at ran
    obtain ⟨again, looked, look, ran⟩ := AskM.bind_eq_ok ran
    obtain rfl := readStorage_ok look
    rw [AskM.pure_eq_ok ran, kept, Option.bind_some]

/-- What the schema is to a type, told of the realm. -/
theorem readSchemaFor_ok {clientId resourceType : String} {schemaFor : SchemaFor}
    (ran : readSchemaFor around state clientId resourceType before = .ok (schemaFor, after)) :
    (∀ schema, schemaFor = .relations schema → Defines state clientId resourceType schema) ∧
      (schemaFor = .policies →
        (state.schema.isSome → (state.schema.bind StoredSchema.open).isSome) ∧
          ∀ schema, ¬Defines state clientId resourceType schema) := by
  obtain ⟨read, looked, look, ran⟩ := AskM.bind_eq_ok ran
  obtain rfl := readStorage_ok look
  cases kept : state.schema with
  | none =>
    rw [RealmState.readGuardedSchema, kept] at ran
    obtain rfl := AskM.pure_eq_ok ran
    refine ⟨by simp, fun _ => ⟨by simp, fun schema defines => ?_⟩⟩
    have opened := defines.kept
    rw [kept] at opened
    cases opened
  | some stored =>
    rw [RealmState.readGuardedSchema, kept] at ran
    obtain ⟨found, opening, opened, ran⟩ := AskM.bind_eq_ok ran
    obtain rfl := openSchema_ok kept opened
    cases opens : stored.open with
    | none =>
      rw [opens] at ran
      obtain rfl := AskM.pure_eq_ok ran
      exact ⟨by simp, by simp⟩
    | some schema =>
      rw [opens] at ran
      dsimp only at ran
      have same : ∀ other, Defines state clientId resourceType other → other = schema := by
        intro other defines
        have opened := defines.kept
        rw [kept, Option.bind_some, opens] at opened
        exact (Option.some.inj opened).symm
      split at ran
      · next apart =>
        obtain rfl := AskM.pure_eq_ok ran
        refine ⟨by simp, fun _ => ⟨fun _ => by simp [opens], fun other defines => ?_⟩⟩
        obtain rfl := same other defines
        rcases Bool.or_eq_true_iff.mp apart with undefined | unguarded
        · rw [Option.isNone_iff_eq_none] at undefined
          have defined := defines.defined
          rw [undefined] at defined
          cases defined
        · simp [defines.guarded] at unguarded
      · next defined =>
        obtain rfl := AskM.pure_eq_ok ran
        simp only [Bool.or_eq_true, not_or, Option.isNone_iff_eq_none, Bool.not_eq_true',
          Bool.not_eq_false, decide_eq_true_eq] at defined
        refine ⟨?_, by simp⟩
        rintro _ ⟨⟩
        exact ⟨by rw [kept, Option.bind_some, opens], Option.isSome_iff_ne_none.mpr defined.1,
          defined.2⟩

theorem decideByRelations_ok {schema : CompiledSchema} {request : DecisionRequest}
    {subject : ObjectRef} {deadline : Instant} {decision : Decision}
    (ran : decideByRelations around state schema request subject deadline before =
      .ok (decision, after)) (permits : decision.decision = .permit) :
    ∃ objectId, request.resourceId = some objectId ∧
      (⟨request.resourceType, objectId⟩, request.action) ∈
        schema.stands (schema.admitted {tuple | tuple ∈ state.tuples}) subject := by
  unfold decideByRelations at ran
  cases named : request.resourceId.filter isObjectId with
  | none =>
    rw [named] at ran
    cases ran
  | some objectId =>
    rw [named] at ran
    dsimp only at ran
    split at ran
    · rw [AskM.pure_eq_ok ran] at permits
      cases permits
    · obtain ⟨told, walked, walking, ran⟩ := AskM.bind_eq_ok ran
      refine ⟨objectId, (Option.filter_eq_some_iff.mp named).1, ?_⟩
      cases told with
      | notFound =>
        rw [AskM.pure_eq_ok ran] at permits
        cases permits
      | undecided limit =>
        rw [AskM.pure_eq_ok ran] at permits
        cases permits
      | found =>
        unfold walk at walking
        dsimp only at walking
        split at walking
        · next walk answered =>
          obtain ⟨rfl, -⟩ := Prod.mk.inj (Except.ok.inj walking)
          have right := walkRelations_right (readsFrom_ofKept _ _ _ _ _ _) answered
          rw [CompiledSchema.stands_admitted]
          exact right.1 rfl
        · cases walking
        · cases walking

theorem take_of_length_take_le {α : Type} {list : List α} {most : Nat}
    (short : (list.take (most + 1)).length ≤ most) : list.take (most + 1) = list := by
  rw [List.length_take] at short
  exact List.take_of_length_le (by omega)

/-- What is read is all that is held: past the bound a question has no
answer. -/
theorem readHeldRoles_ok {person : Uuid} {now : Instant} {held : List HeldRole}
    (ran : readHeldRoles around state person now before = .ok (held, after)) :
    held = state.heldRoles person now := by
  obtain ⟨ways, listed, list, ran⟩ := AskM.bind_eq_ok ran
  obtain rfl := readStorage_ok list
  split at ran
  · cases ran
  · next few =>
    rw [AskM.pure_eq_ok ran]
    exact take_of_length_take_le (not_lt.mp few)

theorem readMemberGroups_ok {person : Uuid} {now : Instant} {groups : List Uuid}
    (ran : readMemberGroups around state person now before = .ok (groups, after)) :
    groups = state.memberGroups person now := by
  obtain ⟨members, listed, list, ran⟩ := AskM.bind_eq_ok ran
  obtain rfl := readStorage_ok list
  split at ran
  · cases ran
  · next few =>
    rw [AskM.pure_eq_ok ran]
    exact take_of_length_take_le (not_lt.mp few)

theorem readFacts_ok {clientId : String} {subject : Subject} {now : Instant} {facts : SubjectFacts}
    (ran : readFacts around state clientId subject now before = .ok (facts, after)) :
    facts = factsAt state clientId subject now := by
  unfold readFacts at ran
  unfold factsAt
  cases presented : subject.person with
  | none =>
    rw [presented] at ran
    exact AskM.pure_eq_ok ran
  | some person =>
    rw [presented] at ran
    obtain ⟨held, heldAfter, holding, ran⟩ := AskM.bind_eq_ok ran
    obtain ⟨groups, groupsAfter, grouping, ran⟩ := AskM.bind_eq_ok ran
    rw [AskM.pure_eq_ok ran, readHeldRoles_ok holding, readMemberGroups_ok grouping]

theorem decideByPolicies_ok {clientId : String} {request : DecisionRequest} {subject : Subject}
    {decision : Decision}
    (ran : decideByPolicies node around state clientId request subject before =
      .ok (decision, after)) (permits : decision.decision = .permit) :
    ∃ reading, Shown before after reading ∧ let facts : Facts :=
        ⟨factsAt state clientId subject (around.now reading), request.attributes,
          around.now reading⟩
      (∃ policy ∈ state.policies,
        appliesTo clientId request.resourceType request.action policy ∧
          evaluatePolicy node.formats policy facts = .applies .permit) ∧
      ∀ policy ∈ state.policies, appliesTo clientId request.resourceType request.action policy →
        evaluatePolicy node.formats policy facts ≠ .applies .deny ∧
          evaluatePolicy node.formats policy facts ≠ .undecided := by
  obtain ⟨policies, listed, list, ran⟩ := AskM.bind_eq_ok ran
  have begun := onward_readStorage around _ _ _ _ list
  obtain rfl := readStorage_ok list
  have among : ∀ policy,
      policy ∈ state.listApplicablePolicies clientId request.resourceType request.action ↔
        policy ∈ state.policies ∧
          appliesTo clientId request.resourceType request.action policy = true := by
    intro policy
    rw [RealmState.listApplicablePolicies, List.mem_insertionSort, List.mem_filter]
  split at ran
  · rw [AskM.pure_eq_ok ran] at permits
    cases permits
  · obtain ⟨now, clocked, clock, ran⟩ := AskM.bind_eq_ok ran
    obtain ⟨facts, read, reading, ran⟩ := AskM.bind_eq_ok ran
    have gone := onward_readFacts around state _ _ _ _ _ _ reading
    obtain rfl := readFacts_ok reading
    obtain ⟨rfl, shown⟩ := readClock_ok clock
    generalize weighing : weighPolicies node.formats
      (state.listApplicablePolicies clientId request.resourceType request.action)
      ⟨factsAt state clientId subject (around.now listed.clock), request.attributes,
        around.now listed.clock⟩ = verdict at ran
    cases verdict with
    | permit name =>
      obtain ⟨-, granted, others⟩ := weighPoliciesFrom_permit node.formats weighing
      have ended := gone.trans (onward_pure _ _ _ _ ran)
      refine ⟨listed.clock, shown.widen begun ended, ?_⟩
      refine ⟨?_, fun policy inside applies => others policy ((among policy).mpr ⟨inside, applies⟩)⟩
      rcases granted with none | ⟨policy, inside, applies⟩
      · cases none
      · obtain ⟨kept, applicable⟩ := (among policy).mp inside
        exact ⟨policy, kept, applicable, applies⟩
    | deny name | undecided name | noPolicy =>
      rw [AskM.pure_eq_ok ran] at permits
      cases permits

theorem resolveRealm_ok {realms : String → Option RealmState} {realm : String}
    (ran : resolveRealm around realms realm before = .ok (state, after)) :
    realms realm = some state ∧ state.enabled := by
  unfold resolveRealm at ran
  split at ran
  · cases ran
  · obtain ⟨found, located, locate, ran⟩ := AskM.bind_eq_ok ran
    obtain rfl := readStorage_ok locate
    cases found : realms realm with
    | none =>
      rw [found] at ran
      cases ran
    | some kept =>
      rw [found] at ran
      dsimp only at ran
      split at ran
      · next enabled =>
        obtain rfl := AskM.pure_eq_ok ran
        exact ⟨rfl, enabled⟩
      · cases ran

end Steps

/-- Whatever the realm keeps, whoever asks and whatever they ask, and
whatever the clock and the storage do meanwhile: a permit is one of a client
that authenticated, for a subject that is live, by its relations or by the
policies of the client. What is judged at an instant is judged at one the
clock showed between the question and its answer. -/
theorem decide_permits_only_permitted {node : Node} {around : Around}
    {realms : String → Option RealmState} {realm : String} {clientId : Option String}
    {clientSecret : Option Bytes} {request : DecisionRequest} {decision : Decision}
    {before after : Readings}
    (answered : decide node around realms realm clientId clientSecret request before =
      .ok (decision, after)) (permits : decision.decision = .permit) :
    Permitted node around before after realms realm clientId clientSecret request := by
  obtain ⟨asked, clocked, clock, ran⟩ := AskM.bind_eq_ok answered
  obtain ⟨state, located, locate, ran⟩ := AskM.bind_eq_ok ran
  obtain ⟨known, enabled⟩ := resolveRealm_ok locate
  cases clientId with
  | none => cases ran
  | some named =>
    cases clientSecret with
    | none => cases ran
    | some presented =>
      obtain ⟨⟨⟩, begun, begin, ran⟩ := AskM.bind_eq_ok ran
      obtain ⟨client, identified, identify, ran⟩ := AskM.bind_eq_ok ran
      have authenticated := authenticateClient_ok identify
      have opened : before.Follows identified := calc
        before.clock ≤ clocked.clock := onward_readClock around _ _ _ clock
        _ ≤ located.clock := onward_resolveRealm around _ _ _ _ _ locate
        _ ≤ begun.clock := onward_readStorage around _ _ _ _ begin
        _ ≤ identified.clock := onward_authenticateClient node around state _ _ _ _ _ identify
      cases given : request.subjectToken with
      | none =>
        rw [given] at ran
        cases ran
      | some token =>
        rw [given] at ran
        dsimp only at ran
        split at ran
        · cases ran
        split at ran
        · cases ran
        obtain ⟨found, looked, look, ran⟩ := AskM.bind_eq_ok ran
        cases found with
        | none =>
          rw [AskM.pure_eq_ok ran] at permits
          cases permits
        | some subject =>
          obtain ⟨claims, verified, live⟩ := readSubject_ok look
          have subjected := onward_readSubject node around state _ _ _ _ _ look
          obtain ⟨schemaFor, schemed, scheming, ran⟩ := AskM.bind_eq_ok ran
          have schemas := onward_readSchemaFor around state _ _ _ _ _ scheming
          obtain ⟨byRelations, byPolicies⟩ := readSchemaFor_ok scheming
          have decided : schemed.Follows after := by
            cases schemaFor with
            | unreadable => exact onward_pure _ _ _ _ ran
            | relations schema => exact onward_decideByRelations around state _ _ _ _ _ _ _ ran
            | policies => exact onward_decideByPolicies node around state _ _ _ _ _ _ ran
          have ended := schemas.trans decided
          refine ⟨state, named, presented, client, token, claims, subject, known, enabled, rfl, rfl,
            authenticated, given, verified.widen opened ended, live.widen opened ended, ?_⟩
          cases schemaFor with
          | unreadable =>
            rw [AskM.pure_eq_ok ran] at permits
            cases permits
          | relations schema =>
            obtain ⟨objectId, asked, stands⟩ := decideByRelations_ok ran permits
            exact Or.inl ⟨schema, objectId, byRelations schema rfl, asked, stands⟩
          | policies =>
            obtain ⟨readable, undefined⟩ := byPolicies rfl
            obtain ⟨reading, shown, weighed⟩ := decideByPolicies_ok ran permits
            have first := opened.trans (subjected.trans schemas)
            exact Or.inr ⟨readable, undefined, reading, shown.widen first le_rfl, weighed⟩

def textBytes (text : String) : Bytes := text.toByteArray.data.toList

/-- An access token `mail` was issued as itself, and what its parts hold. -/
def mailHeader : String := "eyJhbGciOiJFUzI1NiIsImtpZCI6ImsiLCJ0eXAiOiJhdCtqd3QifQ"

def mailClaims : String :=
  "eyJjbGllbnRfaWQiOiJtYWlsIiwiZXhwIjo5OSwiaWF0IjoxLCJpc3MiOiJodHRwOi8vaWQvcmVhbG1zL3IiLCJqdGkiOiJ0Iiwic2NvcGUiOiIiLCJzdWIiOiJtYWlsIn0"

def mailSignature : String :=
  "xOE46J-dX40u7fFOw4PdOma1zcob4ep8IweXfCj3mLyTCOw22LZ-6CK8OZ6BsWh53vFB9iO3s46KpWY78f5UXg"

def mailSignatureBytes : Bytes :=
  [196, 225, 56, 232, 159, 157, 95, 141, 46, 237, 241, 78, 195, 131, 221, 58, 102, 181, 205, 202,
    27, 225, 234, 124, 35, 7, 151, 124, 40, 247, 152, 188, 147, 8, 236, 54, 216, 182, 126, 232, 34,
    188, 57, 158, 129, 177, 104, 121, 222, 241, 65, 246, 35, 183, 179, 142, 138, 165, 102, 59, 241,
    254, 84, 94]

def mailHeaderText : String := "\x7b\"alg\":\"ES256\",\"kid\":\"k\",\"typ\":\"at+jwt\"\x7d"

def mailHeaderJson : Json :=
  .object [("alg", .string "ES256"), ("kid", .string "k"), ("typ", .string "at+jwt")]

def mailClaimsText : String :=
  "\x7b\"client_id\":\"mail\",\"exp\":99,\"iat\":1,\"iss\":\"http://id/realms/r\",\"jti\":\"t\"," ++
    "\"scope\":\"\",\"sub\":\"mail\"\x7d"

def mailClaimsJson : Json :=
  .object [("client_id", .string "mail"), ("exp", .number (.posInt 99)),
    ("iat", .number (.posInt 1)), ("iss", .string "http://id/realms/r"), ("jti", .string "t"),
    ("scope", .string ""), ("sub", .string "mail")]

def mailToken : String := mailHeader ++ "." ++ mailClaims ++ "." ++ mailSignature

/-- The packages, on the parts of that token. -/
def mailPackages : TokenPackages where
  decode part :=
    [(mailHeader, textBytes mailHeaderText), (mailClaims, textBytes mailClaimsText),
      (mailSignature, mailSignatureBytes)].lookup part
  readJson bytes :=
    [(textBytes mailHeaderText, mailHeaderJson),
      (textBytes mailClaimsText, mailClaimsJson)].lookup bytes
  verify _ _ input signature := input = mailHeader ++ "." ++ mailClaims && signature = mailSignatureBytes

def mailSecretDigest : Bytes :=
  [30, 193, 194, 107, 80, 213, 211, 197, 141, 149, 131, 24, 26, 248, 7, 102, 85, 254, 0, 117, 107,
    247, 40, 89, 64, 186, 54, 112, 249, 159, 203, 160]

def mailNode : Node where
  publicOrigin := "http://id"
  sha256 secret := if secret = textBytes "s3cret" then mailSecretDigest else []
  packages := mailPackages
  formats := ⟨fun _ => none, fun _ => ""⟩

/-- A storage that answers, and a clock that shows one instant. -/
def calm : Around := ⟨fun _ => 50000000, fun _ => none, true⟩

/-- `mail` may read what is said to be its own. -/
def ownPolicy : Policy where
  id := 1
  clientId := "mail"
  name := "own"
  resourceType := "folder"
  action := "read"
  effect := .permit
  combine := .all
  conditions := writeConditions [.attributed (.resource "owner") .equals (some (.subject .id))]
  createdAt := 0

def ownState : RealmState where
  enabled := true
  clients := [⟨"mail", some mailSecretDigest, true, false, [], false, [], true⟩]
  keys := [⟨"k", .es256, .object [("kty", .string "EC"), ("crv", .string "P-256"),
    ("x", .string "bPsYt-Vd5muCsyW-H4wt2H5oKTV0pRa660lTaRkRRFA"),
    ("y", .string "bl2S0NZJBndjV6PimRwH5BA10VM2MZtDwNzoRixf3jw")]⟩]
  sessions := []
  confirmedAuthenticators := []
  securityKeys := []
  persons := []
  schema := none
  guards := []
  tuples := []
  policies := [ownPolicy]
  roles := []
  personRoles := []
  groupMembers := []
  groupRoles := []

def ownRealms (realm : String) : Option RealmState := if realm = "r" then some ownState else none

def readOwnFolder : DecisionRequest where
  subjectToken := some mailToken
  action := "read"
  resourceType := "folder"
  resourceId := none
  attributes := [("owner", .string "mail")]

set_option maxRecDepth 2000 in
theorem mailToken_verified : verifyCompact mailNode.packages mailToken ownState.keys =
    some ⟨some "at+jwt", mailClaimsJson⟩ := by
  have split : Text.split '.' mailToken = [mailHeader, mailClaims, mailSignature] :=
    Text.split_joined (Text.not_mem_toList (by decide))
      (Text.not_mem_toList (by decide)) (Text.not_mem_toList (by decide))
  rw [verifyCompact, split]
  decide

def mailSubject : Subject := .ofClient
  ⟨"mail", some mailSecretDigest, true, false, [], false, [], true⟩
  ⟨"mail", "mail", [], "t", 1, 99, none⟩

theorem mailToken_subject : readSubject mailNode calm ownState "http://id/realms/r" mailToken ⟨1, 3⟩ =
    .ok (some mailSubject, ⟨2, 5⟩) := by
  have verified : verifyAccessToken mailNode calm ownState "http://id/realms/r" mailToken ⟨1, 3⟩ =
      .ok (some ⟨"mail", "mail", [], "t", 1, 99, none⟩, ⟨2, 4⟩) := by
    have listed : readStorage calm ownState.keys ⟨1, 3⟩ = .ok (ownState.keys, ⟨1, 4⟩) := rfl
    rw [verifyAccessToken, AskM.bind_ok listed, mailToken_verified]
    rfl
  rw [readSubject, AskM.bind_ok verified]
  rfl

theorem readOwnFolder_permitted : Permitted mailNode calm ⟨0, 0⟩ ⟨3, 7⟩ ownRealms "r" (some "mail")
    (some (textBytes "s3cret")) readOwnFolder := by
  have answered : decide mailNode calm ownRealms "r" (some "mail") (some (textBytes "s3cret"))
      readOwnFolder ⟨0, 0⟩ = .ok (.permit "policy" (some "own"), ⟨3, 7⟩) := by
    have clocked : readClock calm ⟨0, 0⟩ = .ok (50000000, ⟨1, 0⟩) := rfl
    have located : resolveRealm calm ownRealms "r" ⟨1, 0⟩ = .ok (ownState, ⟨1, 1⟩) := rfl
    have begun : readStorage calm () ⟨1, 1⟩ = .ok ((), ⟨1, 2⟩) := rfl
    have proven : authenticateClient mailNode calm ownState "mail" (textBytes "s3cret") ⟨1, 2⟩ =
        .ok (⟨"mail", some mailSecretDigest, true, false, [], false, [], true⟩, ⟨1, 3⟩) := rfl
    have askable : (!isRoleName readOwnFolder.action || !isRoleName readOwnFolder.resourceType ||
        !isSmall mailNode readOwnFolder.attributes) = false := by decide
    have token : readOwnFolder.subjectToken = some mailToken := rfl
    have share : calm.shareIsFree = true := rfl
    have schemaFor : readSchemaFor calm ownState "mail" readOwnFolder.resourceType ⟨2, 5⟩ =
        .ok (.policies, ⟨2, 6⟩) := rfl
    have weighed : decideByPolicies mailNode calm ownState "mail" readOwnFolder mailSubject ⟨2, 6⟩ =
        .ok (.permit "policy" (some "own"), ⟨3, 7⟩) := by rfl
    rw [decide, AskM.bind_ok clocked, AskM.bind_ok located]
    dsimp only
    rw [AskM.bind_ok begun, AskM.bind_ok proven, token]
    dsimp only
    have issuer : nameIssuer mailNode "r" = "http://id/realms/r" := rfl
    rw [askable, share, if_neg (by decide), if_neg (by decide), issuer,
      AskM.bind_ok mailToken_subject]
    dsimp only
    rw [AskM.bind_ok schemaFor]
    exact weighed
  exact decide_permits_only_permitted answered rfl

end Saffui.Authz
