import Saffui.Authz.DecideSound
import Saffui.Authz.Relations.Loops

/-!
# What a client does not guard tells it nothing

Two realms may differ in the relations they keep, in their schema and in the
policies of other clients. Of a type it does not guard, a client is answered
in both alike: a schema that is read sends it to its own policies, whether or
not it defines the type.

The two runs are of one clock. Their reads may fail apart: a realm whose
compiled form is of another version reads its source too. So an answer of one
is an answer of the other, unless a read of the other failed.
-/

namespace Saffui.Authz
open Saffui.Authz.Relations Saffui.Login Saffui.Tokens

/-- A run ended with a read that failed. -/
def FailedRead {α : Type} (around : Around) (outcome : Except ErrorCode α) : Prop :=
  ∃ reading error, around.failures reading = some error ∧ outcome = .error (toCode error)

section Alike

/-- Two computations from one reading of the clock answer alike, and show the
clock alike, or both refuse alike, unless a read failed. -/
def Alike {α β : Type} (one other : Around) (same : α → β → Prop) (first : AskM α)
    (second : AskM β) : Prop :=
  ∀ before start : Readings, before.clock = start.clock →
    FailedRead one (first before) ∨ FailedRead other (second start) ∨
    (∃ code, first before = .error code ∧ second start = .error code) ∨
    ∃ value answer after ended, first before = .ok (value, after) ∧
      second start = .ok (answer, ended) ∧ after.clock = ended.clock ∧ same value answer

variable {α β γ δ : Type} {one other : Around} {same : α → β → Prop}

theorem alike_pure {value : α} {answer : β} (equal : same value answer) :
    Alike one other same (pure value) (pure answer) := fun before start clocks =>
  Or.inr (Or.inr (Or.inr ⟨value, answer, before, start, rfl, rfl, clocks, equal⟩))

theorem alike_fail (code : ErrorCode) : Alike one other same (AskM.fail code) (AskM.fail code) :=
  fun _ _ _ => Or.inr (Or.inr (Or.inl ⟨code, rfl, rfl⟩))

theorem AskM.bind_error {first : AskM α} {next : α → AskM γ} {before : Readings} {code : ErrorCode}
    (ran : first before = .error code) : (first >>= next) before = .error code := by
  change AskM.bind first next before = _
  rw [AskM.bind, ran]

theorem FailedRead.bind {around : Around} {first : AskM α} {next : α → AskM γ} {before : Readings}
    (failed : FailedRead around (first before)) : FailedRead around ((first >>= next) before) := by
  obtain ⟨reading, error, told, ran⟩ := failed
  exact ⟨reading, error, told, AskM.bind_error ran⟩

theorem Alike.bind {then_same : γ → δ → Prop} {first : AskM α} {second : AskM β}
    {next : α → AskM γ} {rest : β → AskM δ} (here : Alike one other same first second)
    (there : ∀ value answer, same value answer →
      Alike one other then_same (next value) (rest answer)) :
    Alike one other then_same (first >>= next) (second >>= rest) := by
  intro before start clocks
  rcases here before start clocks with failed | failed | ⟨code, refused, denied⟩ |
    ⟨value, answer, after, ended, ran, went, still, equal⟩
  · exact Or.inl failed.bind
  · exact Or.inr (Or.inl failed.bind)
  · exact Or.inr (Or.inr (Or.inl ⟨code, AskM.bind_error refused, AskM.bind_error denied⟩))
  · rw [AskM.bind_ok ran, AskM.bind_ok went]
    exact there value answer equal after ended still

theorem alike_readStorage {value : α} {answer : β} (equal : same value answer) :
    Alike one other same (readStorage one value) (readStorage other answer) := by
  intro before start clocks
  unfold readStorage
  cases told : one.failures before.storage with
  | some error => exact Or.inl ⟨before.storage, error, told, rfl⟩
  | none =>
    cases heard : other.failures start.storage with
    | some error => exact Or.inr (Or.inl ⟨start.storage, error, heard, rfl⟩)
    | none => exact Or.inr (Or.inr (Or.inr ⟨value, answer, _, _, rfl, rfl, clocks, equal⟩))

theorem alike_readClock (clock : one.now = other.now) :
    Alike one other Eq (readClock one) (readClock other) := by
  intro before start clocks
  refine Or.inr (Or.inr (Or.inr ⟨_, _, _, _, rfl, rfl, ?_, ?_⟩))
  · simp [clocks]
  · rw [clock, clocks]

end Alike

/-- Two realms that agree on all but the relations kept, the schema, the
policies of other clients, and what other clients guard. -/
structure AgreeFor (clientId : String) (one other : RealmState) : Prop where
  enabled : one.enabled = other.enabled
  clients : one.clients = other.clients
  keys : one.keys = other.keys
  sessions : one.sessions = other.sessions
  confirmedAuthenticators : one.confirmedAuthenticators = other.confirmedAuthenticators
  securityKeys : one.securityKeys = other.securityKeys
  persons : one.persons = other.persons
  guards : ∀ objectType, (objectType, clientId) ∈ one.guards ↔ (objectType, clientId) ∈ other.guards
  policies : one.policies.filter (fun policy => policy.clientId = clientId) =
    other.policies.filter fun policy => policy.clientId = clientId
  roles : one.roles = other.roles
  personRoles : one.personRoles = other.personRoles
  groupMembers : one.groupMembers = other.groupMembers
  groupRoles : one.groupRoles = other.groupRoles

/-- The schema of a realm can be read, where there is one. -/
def RealmState.SchemaReadable (state : RealmState) : Prop :=
  ∀ stored, state.schema = some stored → ∃ schema, stored.open = some schema

section Runs

variable {node : Node} {one other : Around} {left right : RealmState} {clientId : String}
  (clock : one.now = other.now) (agree : AgreeFor clientId left right)

include agree in
theorem AgreeFor.listApplicablePolicies (resourceType action : String) :
    left.listApplicablePolicies clientId resourceType action =
      right.listApplicablePolicies clientId resourceType action := by
  have own : ∀ state : RealmState, state.policies.filter (appliesTo clientId resourceType action) =
      (state.policies.filter fun policy => policy.clientId = clientId).filter
        (appliesTo clientId resourceType action) := by
    intro state
    rw [List.filter_filter]
    congr 1
    funext policy
    by_cases own : policy.clientId = clientId
    · simp [appliesTo, own]
    · simp [appliesTo, own]
  rw [RealmState.listApplicablePolicies, RealmState.listApplicablePolicies, own, own, agree.policies]

include agree in
theorem alike_readNamedClientOf (named : String) :
    Alike one other (fun found again => found = again ∧ ∀ client ∈ found, client.clientId = named)
      (readNamedClientOf one left named) (readNamedClientOf other right named) := by
  unfold readNamedClientOf
  cases checkClientIdentifier named with
  | error code => exact alike_pure ⟨rfl, by simp⟩
  | ok =>
    apply alike_readStorage
    rw [RealmState.readClient, RealmState.readClient, agree.clients]
    refine ⟨rfl, fun client found => ?_⟩
    simpa using List.find?_some found

include agree in
theorem alike_authenticateClient (named : String) (presented : Bytes) :
    Alike one other (fun client again => client = again ∧ client.clientId = named)
      (authenticateClient node one left named presented)
      (authenticateClient node other right named presented) := by
  apply (alike_readNamedClientOf agree named).bind
  rintro client _ ⟨rfl, known⟩
  cases client with
  | none => exact alike_fail _
  | some client =>
    dsimp only
    split
    · exact alike_pure ⟨rfl, known client rfl⟩
    · exact alike_fail _

include clock agree in
theorem alike_verifyAccessToken (issuer token : String) :
    Alike one other Eq (verifyAccessToken node one left issuer token)
      (verifyAccessToken node other right issuer token) := by
  apply (alike_readStorage agree.keys).bind
  rintro keys _ rfl
  cases verifyCompact node.packages token keys with
  | none => exact alike_pure rfl
  | some verified =>
    dsimp only
    split
    · exact alike_pure rfl
    · apply (alike_readClock clock).bind
      rintro now _ rfl
      exact alike_pure rfl

include clock agree in
theorem alike_readLiveSubject (session : Uuid) :
    Alike one other Eq (readLiveSubject one left session) (readLiveSubject other right session) := by
  apply (alike_readClock clock).bind
  rintro now _ rfl
  have sessions : left.readSession session = right.readSession session := by
    rw [RealmState.readSession, RealmState.readSession, agree.sessions,
      agree.confirmedAuthenticators, agree.securityKeys]
  apply (alike_readStorage sessions).bind
  rintro read _ rfl
  cases read.filter fun known => stands known now with
  | none => exact alike_pure rfl
  | some read =>
    have persons : left.readPerson read.session.person = right.readPerson read.session.person := by
      rw [RealmState.readPerson, RealmState.readPerson, agree.persons]
    apply (alike_readStorage persons).bind
    rintro person _ rfl
    exact alike_pure rfl

include clock agree in
theorem alike_readSubject (issuer token : String) :
    Alike one other Eq (readSubject node one left issuer token)
      (readSubject node other right issuer token) := by
  apply (alike_verifyAccessToken clock agree issuer token).bind
  rintro claims _ rfl
  cases claims with
  | none => exact alike_pure rfl
  | some claims =>
    dsimp only
    cases claims.session with
    | none =>
      apply (alike_readNamedClientOf agree claims.subject).bind
      rintro client _ ⟨rfl, -⟩
      exact alike_pure rfl
    | some session =>
      apply (alike_readLiveSubject clock agree session).bind
      rintro found _ rfl
      cases found with
      | none => exact alike_pure rfl
      | some found =>
        dsimp only
        split
        · exact alike_pure rfl
        · exact alike_pure rfl

/-- A schema that is read sends a client to its policies, for a type it does
not guard. -/
theorem readSchemaFor_unguarded (around : Around) {state : RealmState} {resourceType : String}
    (readable : state.SchemaReadable) (unguarded : (resourceType, clientId) ∉ state.guards)
    (before : Readings) :
    FailedRead around (readSchemaFor around state clientId resourceType before) ∨
      ∃ after, readSchemaFor around state clientId resourceType before = .ok (.policies, after) ∧
        after.clock = before.clock := by
  unfold readSchemaFor
  cases told : around.failures before.storage with
  | some error =>
    refine Or.inl ⟨before.storage, error, told, AskM.bind_error ?_⟩
    rw [readStorage, told]
  | none =>
    have read : readStorage around (state.readGuardedSchema resourceType clientId) before =
        .ok (state.readGuardedSchema resourceType clientId,
          { before with storage := before.storage + 1 }) := by
      rw [readStorage, told]
    rw [AskM.bind_ok read]
    cases kept : state.schema with
    | none =>
      rw [RealmState.readGuardedSchema, kept]
      exact Or.inr ⟨_, rfl, rfl⟩
    | some stored =>
      rw [RealmState.readGuardedSchema, kept]
      dsimp only [Option.map_some]
      obtain ⟨schema, opened⟩ := readable stored kept
      rw [StoredSchema.open] at opened
      cases formed : readCompiledSchema stored.compiled with
      | some found =>
        have open_now : openSchema around state stored.compiled
            { before with storage := before.storage + 1 } =
            .ok (some found, { before with storage := before.storage + 1 }) := by
          rw [openSchema, formed]
          rfl
        rw [AskM.bind_ok open_now]
        dsimp only
        rw [if_pos (by simp [unguarded])]
        exact Or.inr ⟨_, rfl, rfl⟩
      | none =>
        rw [formed] at opened
        cases heard : around.failures (before.storage + 1) with
        | some error =>
          refine Or.inl ⟨before.storage + 1, error, heard, AskM.bind_error ?_⟩
          rw [openSchema, formed]
          apply AskM.bind_error
          rw [readStorage, heard]
        | none =>
          have open_now : openSchema around state stored.compiled
              { before with storage := before.storage + 1 } =
              .ok (some schema, { before with storage := before.storage + 1 + 1 }) := by
            have again : readStorage around state.schema { before with storage := before.storage + 1 } =
                .ok (some stored, { before with storage := before.storage + 1 + 1 }) := by
              rw [readStorage, heard, kept]
            rw [openSchema, formed]
            dsimp only
            rw [AskM.bind_ok again, ← opened]
            rfl
          rw [AskM.bind_ok open_now]
          dsimp only
          rw [if_pos (by simp [unguarded])]
          exact Or.inr ⟨_, rfl, rfl⟩

include agree in
theorem alike_readSchemaFor {resourceType : String} (unguarded : (resourceType, clientId) ∉ left.guards)
    (readable : left.SchemaReadable) (legible : right.SchemaReadable) :
    Alike one other (fun first second => first = SchemaFor.policies ∧ second = SchemaFor.policies)
      (readSchemaFor one left clientId resourceType)
      (readSchemaFor other right clientId resourceType) := by
  intro before start clocks
  rcases readSchemaFor_unguarded one readable unguarded before with failed | ⟨after, ran, still⟩
  · exact Or.inl failed
  have outside : (resourceType, clientId) ∉ right.guards := fun guarded =>
    unguarded ((agree.guards resourceType).mpr guarded)
  rcases readSchemaFor_unguarded other legible outside start with failed | ⟨ended, went, same⟩
  · exact Or.inr (Or.inl failed)
  exact Or.inr (Or.inr (Or.inr ⟨_, _, after, ended, ran, went, by rw [still, same, clocks], rfl, rfl⟩))

include agree in
theorem alike_readFacts (subject : Subject) (now : Instant) :
    Alike one other Eq (readFacts one left clientId subject now)
      (readFacts other right clientId subject now) := by
  unfold readFacts
  cases subject.person with
  | none => exact alike_pure rfl
  | some person =>
    have roles : left.listHeldRoles person now (MAX_HELD + 1) =
        right.listHeldRoles person now (MAX_HELD + 1) := by
      simp only [RealmState.listHeldRoles, RealmState.heldRoles, RealmState.holdRole, agree.roles,
        agree.personRoles, agree.groupMembers, agree.groupRoles]
    have groups : left.listMemberGroups person now (MAX_HELD + 1) =
        right.listMemberGroups person now (MAX_HELD + 1) := by
      simp only [RealmState.listMemberGroups, RealmState.memberGroups, agree.groupMembers]
    have held : Alike one other Eq (readHeldRoles one left person now)
        (readHeldRoles other right person now) := by
      apply (alike_readStorage roles).bind
      rintro held _ rfl
      split
      · exact alike_fail _
      · exact alike_pure rfl
    have members : Alike one other Eq (readMemberGroups one left person now)
        (readMemberGroups other right person now) := by
      apply (alike_readStorage groups).bind
      rintro groups _ rfl
      split
      · exact alike_fail _
      · exact alike_pure rfl
    apply held.bind
    rintro held _ rfl
    apply members.bind
    rintro groups _ rfl
    exact alike_pure rfl

include clock agree in
theorem alike_decideByPolicies (request : DecisionRequest) (subject : Subject) :
    Alike one other Eq (decideByPolicies node one left clientId request subject)
      (decideByPolicies node other right clientId request subject) := by
  apply (alike_readStorage (agree.listApplicablePolicies request.resourceType request.action)).bind
  rintro policies _ rfl
  split
  · exact alike_pure rfl
  · apply (alike_readClock clock).bind
    rintro now _ rfl
    apply (alike_readFacts agree subject now).bind
    rintro facts _ rfl
    cases weighPolicies node.formats policies ⟨facts, request.attributes, now⟩ <;>
      exact alike_pure rfl

theorem alike_resolveRealm {realms elsewhere : String → Option RealmState} {realm : String}
    (here : realms realm = some left) (there : elsewhere realm = some right)
    (agree : AgreeFor clientId left right) :
    Alike one other (fun first second => first = left ∧ second = right)
      (resolveRealm one realms realm) (resolveRealm other elsewhere realm) := by
  unfold resolveRealm
  split
  · exact alike_fail _
  · have found : Alike one other (fun first second => first = some left ∧ second = some right)
        (readStorage one (realms realm)) (readStorage other (elsewhere realm)) :=
      alike_readStorage ⟨here, there⟩
    apply found.bind
    rintro _ _ ⟨rfl, rfl⟩
    dsimp only
    rw [agree.enabled]
    split
    · exact alike_pure ⟨rfl, rfl⟩
    · exact alike_fail _

end Runs

/-- A client asks of a type it does not guard in two realms that differ in
their relations, their schemas, and what is of other clients. Where no read
fails it is told the same in both, the policy that decided or the error
included. -/
theorem decide_unguarded_alike {node : Node} {one other : Around}
    {realms elsewhere : String → Option RealmState} {left right : RealmState} {realm clientId : String}
    {clientSecret : Option Bytes} {request : DecisionRequest} {before : Readings}
    (clock : one.now = other.now) (share : one.shareIsFree = other.shareIsFree)
    (here : realms realm = some left) (there : elsewhere realm = some right)
    (agree : AgreeFor clientId left right) (readable : left.SchemaReadable)
    (legible : right.SchemaReadable) (unguarded : (request.resourceType, clientId) ∉ left.guards) :
    (decide node one realms realm (some clientId) clientSecret request before).map Prod.fst =
        (decide node other elsewhere realm (some clientId) clientSecret request before).map Prod.fst ∨
      FailedRead one (decide node one realms realm (some clientId) clientSecret request before) ∨
      FailedRead other
        (decide node other elsewhere realm (some clientId) clientSecret request before) := by
  have alike : Alike one other Eq (decide node one realms realm (some clientId) clientSecret request)
      (decide node other elsewhere realm (some clientId) clientSecret request) := by
    apply (alike_readClock clock).bind
    rintro asked _ rfl
    apply (alike_resolveRealm here there agree).bind
    rintro _ _ ⟨rfl, rfl⟩
    cases clientSecret with
    | none => exact alike_fail _
    | some presented =>
      dsimp only
      apply (alike_readStorage (Eq.refl ())).bind
      rintro _ _ -
      apply (alike_authenticateClient agree clientId presented).bind
      rintro client _ ⟨rfl, rfl⟩
      cases request.subjectToken with
      | none => exact alike_fail _
      | some token =>
        dsimp only
        rw [share]
        split
        · exact alike_fail _
        split
        · exact alike_fail _
        apply (alike_readSubject clock agree _ token).bind
        rintro subject _ rfl
        cases subject with
        | none => exact alike_pure rfl
        | some subject =>
          dsimp only
          apply (alike_readSchemaFor agree unguarded readable legible).bind
          rintro _ _ ⟨rfl, rfl⟩
          exact alike_decideByPolicies clock agree request subject
  rcases alike before before rfl with failed | failed | ⟨code, refused, denied⟩ |
    ⟨value, answer, after, ended, ran, went, -, rfl⟩
  · exact Or.inr (Or.inl failed)
  · exact Or.inr (Or.inr failed)
  · exact Or.inl (by rw [refused, denied])
  · exact Or.inl (by rw [ran, went]; rfl)

/-- A realm with relations, and the policies of another client, beside what
`ownState` keeps. -/
def sharedState : RealmState := { ownState with
  schema := some ⟨folderText, Relations.folderSchema.toJson, 0⟩
  tuples := loopedFolders
  policies := ownState.policies ++ [{ ownPolicy with id := 2, clientId := "files", effect := .deny }] }

def sharedRealms (realm : String) : Option RealmState :=
  if realm = "r" then some sharedState else none

theorem sharedState_agrees : AgreeFor "mail" ownState sharedState where
  enabled := rfl
  clients := rfl
  keys := rfl
  sessions := rfl
  confirmedAuthenticators := rfl
  securityKeys := rfl
  persons := rfl
  guards _ := Iff.rfl
  policies := rfl
  roles := rfl
  personRoles := rfl
  groupMembers := rfl
  groupRoles := rfl

/-- `mail` asks of its own folders as if the realm had no relations of them. -/
theorem sharedState_alike :
    ("folder", "mail") ∉ ownState.guards ∧
    (decide mailNode calm ownRealms "r" (some "mail") (some (textBytes "s3cret")) readOwnFolder
        ⟨0, 0⟩).map Prod.fst =
      (decide mailNode calm sharedRealms "r" (some "mail") (some (textBytes "s3cret")) readOwnFolder
        ⟨0, 0⟩).map Prod.fst := by
  have unguarded : ("folder", "mail") ∉ ownState.guards := List.not_mem_nil
  have unkept : ownState.SchemaReadable := fun _ kept => nomatch kept
  have legible : sharedState.SchemaReadable := by
    rintro _ ⟨⟩
    refine ⟨Relations.folderSchema, ?_⟩
    rw [StoredSchema.open, readCompiledSchema_toJson rfl]
  have alike := @decide_unguarded_alike mailNode calm calm ownRealms sharedRealms ownState sharedState
    "r" "mail" (some (textBytes "s3cret")) readOwnFolder ⟨0, 0⟩ rfl rfl rfl rfl sharedState_agrees
    unkept legible unguarded
  refine ⟨unguarded, ?_⟩
  rcases alike with same | ⟨_, _, told, -⟩ | ⟨_, _, told, -⟩
  · exact same
  · cases told
  · cases told

end Saffui.Authz
