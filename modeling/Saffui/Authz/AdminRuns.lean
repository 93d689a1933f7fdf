import Saffui.Authz.Admin

/-!
# Who may hold a capability

A run of the administration plane of every realm: calls the guard lets
through, clients they create, tokens minted meanwhile, and rows an operator
writes to disable a client or to take capabilities away. A call is let through
in one unit of work and creates its client in another, with anything between
them; the keys of a realm are listed before its client is read, so the guard
may have listed them in an earlier state.

A capability descends by a chain of creators from a client that was registered
outside the plane.
-/

namespace Saffui.Authz.Admin

open Tokens
open Text (utf8)

/-- Where a call of the plane is. -/
inductive Call where
  | waiting
  | admitted (caller : AdminCaller)
  | ended

structure Plane where
  tokens : World
  clients : RealmScope → List RegisteredClient
  calls : Nat → Call

inductive Event where
  /-- A step of the tokens of the realms. -/
  | tokens
  /-- The guard lets a call through. It listed the keys in the state `listed`. -/
  | admission (call : Nat) (realm : String) (bearerToken : Option String) (required : Capability)
      (listed : Nat) (now : Instant) (caller : AdminCaller)
  /-- A call let through creates a client. -/
  | create (call : Nat) (wanted : NewClient) (draws : Draws) (created : RegisteredClient)
  /-- An operator writes a row: a client is disabled or enabled again, and may
  lose capabilities. -/
  | curtail (scope : RealmScope) (row left : RegisteredClient)
  /-- Nothing is written: a call refused, and whatever else is read. -/
  | rest

/-- A run: its states, what leads from each to the next, and where the realms
are found meanwhile. -/
structure Run where
  states : Nat → Plane
  events : Nat → Event
  locate : Nat → String → Option RealmScope

section Runs

variable (float : Rat → String) (packages : TokenPackages) (origin : String)
  (sha256 : Bytes → Bytes)

/-- What an event does to the state of its place. -/
def Run.Does (run : Run) (n : Nat) : Event → Prop
  | .tokens =>
    Step float (run.states n).tokens (run.states (n + 1)).tokens ∧
      run.states (n + 1) = { run.states n with tokens := (run.states (n + 1)).tokens }
  | .admission call realm bearerToken required listed now caller =>
    listed ≤ n ∧ (run.states n).calls call = .waiting ∧
      authorizeAdminCall packages origin (run.locate n) (run.states listed).tokens.keys now
        (run.states n).clients realm bearerToken required = .ok caller ∧
      run.states (n + 1) = { run.states n with
        calls := Function.update (run.states n).calls call (.admitted caller) }
  | .create call wanted draws created =>
    ∃ caller secret, (run.states n).calls call = .admitted caller ∧
      createClient sha256 draws ((run.states n).clients caller.scope) caller wanted =
        .ok (created, secret) ∧
      run.states (n + 1) = { run.states n with
        clients := Function.update (run.states n).clients caller.scope
          (created :: (run.states n).clients caller.scope)
        calls := Function.update (run.states n).calls call .ended }
  | .curtail scope row left =>
    left.clientId = row.clientId ∧ left.redirectUris = row.redirectUris ∧
      left.capabilities ⊆ row.capabilities ∧
      run.states (n + 1) = { run.states n with
        clients := Function.update (run.states n).clients scope
          (((run.states n).clients scope).map fun known => if known = row then left else known) }
  | .rest => run.states (n + 1) = run.states n

/-- Whether a client was registered, whoever asked. -/
def Registered (client : RegisteredClient) : Prop :=
  ∃ draws kept wanted secret, registerClient sha256 draws kept wanted = .ok (client, secret)

/-- Whether a run starts from clients registered outside the plane, with no
call yet, and each of its events does what it does. -/
structure Run.Valid (run : Run) : Prop where
  registered : ∀ scope, ∀ client ∈ (run.states 0).clients scope, Registered sha256 client
  calls : ∀ call, (run.states 0).calls call = .waiting
  tokens : Reachable float (run.states 0).tokens
  does : ∀ n, run.Does float packages origin sha256 n (run.events n)

/-- What is relied on for the tokens presented to the guard. -/
structure Run.Trusted (run : Run) : Prop where
  lawful : ∀ n, Lawful float packages (run.states n).tokens
  apart : ∀ n, KeysApart (run.states n).tokens
  unforged : ∀ n call realm token required listed now caller,
    run.events n = .admission call realm (some token) required listed now caller →
    Unforged packages (run.states listed).tokens token

end Runs

/-- How a client came to a capability: it was registered with it before the
run, or a call let through created it, and then the caller, read by the guard
among the enabled clients of the realm, held it. -/
inductive Descends (run : Run) (scope : RealmScope) (capability : Capability) :
    Nat → String → Prop
  | initial {n : Nat} {client : RegisteredClient}
      (registered : client ∈ (run.states 0).clients scope)
      (held : capability ∈ client.capabilities) : Descends run scope capability n client.clientId
  | created {n guarded made call listed : Nat} {realm : String} {bearerToken : Option String}
      {required : Capability} {now : Instant} {caller : AdminCaller} {wanted : NewClient}
      {draws : Draws} {client : RegisteredClient} (before : guarded < made) (past : made < n)
      (admitted : run.events guarded =
        .admission call realm bearerToken required listed now caller)
      (creates : run.events made = .create call wanted draws client)
      (home : caller.scope = scope)
      (known : caller.client ∈ (run.states guarded).clients scope)
      (enabled : caller.client.enabled = true)
      (held : capability ∈ caller.client.capabilities)
      (chain : Descends run scope capability guarded caller.client.clientId) :
      Descends run scope capability n client.clientId

section Containment

variable {float : Rat → String} {packages : TokenPackages} {origin : String}
  {sha256 : Bytes → Bytes}

theorem Descends.later {run : Run} {scope : RealmScope} {capability : Capability} {n : Nat}
    {clientId : String} (descends : Descends run scope capability n clientId) :
    Descends run scope capability (n + 1) clientId := by
  cases descends with
  | initial registered held => exact .initial registered held
  | created before past admitted creates home known enabled held chain =>
    exact .created before (by omega) admitted creates home known enabled held chain

theorem ok_of_bind {α β : Type} {first : Except ErrorCode α} {next : α → Except ErrorCode β}
    {result : β} (answered : first >>= next = .ok result) :
    ∃ value, first = .ok value ∧ next value = .ok result := by
  cases first with
  | error code => cases answered
  | ok value => exact ⟨value, rfl, answered⟩

theorem some_of_okOr {α : Type} {found : Option α} {code : ErrorCode} {value : α}
    (answered : okOr found code = .ok value) : found = some value := by
  cases found with
  | none => cases answered
  | some known =>
    cases answered
    rfl

theorem authenticateCall_ok {realm : String} {keys : List SigningKey} {now : Instant}
    {token : String} {claims : AccessTokenClaims}
    (passes : authenticateCall packages origin realm keys now token = .ok claims) :
    Tokens.verifyAccessToken packages (nameIssuer origin realm) token keys now = some claims ∧
      claims.session = none := by
  unfold authenticateCall at passes
  split at passes
  · cases passes
  · next read verified =>
    split at passes
    · cases passes
    · next may =>
      cases passes
      rw [not_or] at may
      exact ⟨verified, by simpa using may.1⟩

/-- What the guard lets through: a token of the realm that carries no session,
and a caller read among the enabled clients of the realm. -/
theorem authorizeAdminCall_ok {locate : String → Option RealmScope}
    {keys : RealmScope → List SigningKey} {now : Instant}
    {clients : RealmScope → List RegisteredClient} {realm : String} {bearerToken : Option String}
    {required : Capability} {caller : AdminCaller}
    (passes : authorizeAdminCall packages origin locate keys now clients realm bearerToken required =
      .ok caller) :
    caller.client ∈ clients caller.scope ∧ caller.client.enabled = true ∧
      ∃ token claims, bearerToken = some token ∧
        Tokens.verifyAccessToken packages (nameIssuer origin realm) token (keys caller.scope) now =
          some claims ∧
        claims.session = none := by
  unfold authorizeAdminCall at passes
  obtain ⟨token, presented, passes⟩ := ok_of_bind passes
  obtain ⟨scope, -, passes⟩ := ok_of_bind passes
  obtain ⟨claims, authenticated, passes⟩ := ok_of_bind passes
  obtain ⟨client, found, passes⟩ := ok_of_bind passes
  obtain ⟨-, -, passes⟩ := ok_of_bind passes
  cases passes
  obtain ⟨located, allowed⟩ := Option.filter_eq_some_iff.mp (some_of_okOr found)
  exact ⟨List.mem_of_find?_eq_some located, allowed, token, claims, some_of_okOr presented,
    authenticateCall_ok authenticated⟩

/-- A call of an enabled client that holds what is required is let through. -/
theorem authorizeAdminCall_of {locate : String → Option RealmScope}
    {keys : RealmScope → List SigningKey} {now : Instant}
    {clients : RealmScope → List RegisteredClient} {realm token : String} {scope : RealmScope}
    {required : Capability} {claims : AccessTokenClaims} {client : RegisteredClient}
    (located : (if isRealmName realm then locate realm else none) = some scope)
    (authenticated : authenticateCall packages origin realm (keys scope) now token = .ok claims)
    (found : ((clients scope).find? fun client => client.clientId = claims.clientId).filter
      (fun client => client.enabled) = some client)
    (holds : required ∈ client.capabilities) :
    authorizeAdminCall packages origin locate keys now clients realm (some token) required =
      .ok ⟨realm, scope, client⟩ := by
  unfold authorizeAdminCall
  rw [located]
  change (authenticateCall packages origin realm (keys scope) now token >>= _) = _
  rw [authenticated]
  change (okOr _ _ >>= _) = _
  rw [found]
  change (refuseIf _ _ >>= _) = _
  rw [refuseIf, if_neg (not_not.mpr holds)]
  rfl

/-- A client registered is the one wanted, and an application holds no
capability. -/
theorem registerClient_ok {draws : Draws} {kept : List RegisteredClient} {wanted : NewClient}
    {client : RegisteredClient} {secret : Option Bytes}
    (registers : registerClient sha256 draws kept wanted = .ok (client, secret)) :
    client.capabilities = wanted.capabilities ∧
      (client.redirectUris ≠ [] → client.capabilities = []) := by
  unfold registerClient at registers
  obtain ⟨_, checked, registers⟩ := ok_of_bind registers
  obtain ⟨drawn, -, registers⟩ := ok_of_bind registers
  obtain ⟨id, -, registers⟩ := ok_of_bind registers
  obtain ⟨-, -, registers⟩ := ok_of_bind registers
  cases registers
  refine ⟨rfl, ?_⟩
  intro application
  unfold checkNewClient at checked
  obtain ⟨-, -, checked⟩ := ok_of_bind checked
  obtain ⟨-, -, checked⟩ := ok_of_bind checked
  obtain ⟨-, -, checked⟩ := ok_of_bind checked
  obtain ⟨-, -, checked⟩ := ok_of_bind checked
  obtain ⟨-, -, checked⟩ := ok_of_bind checked
  obtain ⟨-, -, checked⟩ := ok_of_bind checked
  by_contra held
  have both : wanted.redirectUris ≠ [] ∧ wanted.capabilities ≠ [] := ⟨application, held⟩
  rw [refuseIf, if_pos both] at checked
  cases checked

/-- A client created holds nothing its creator did not. -/
theorem createClient_ok {draws : Draws} {kept : List RegisteredClient} {caller : AdminCaller}
    {wanted : NewClient} {created : RegisteredClient} {secret : Option Bytes}
    (creates : createClient sha256 draws kept caller wanted = .ok (created, secret)) :
    created.capabilities ⊆ caller.client.capabilities ∧ Registered sha256 created := by
  unfold createClient at creates
  split at creates
  · cases creates
  · next contained =>
    refine ⟨?_, draws, kept, _, secret, creates⟩
    intro capability inside
    rw [(registerClient_ok creates).1] at inside
    simp only [List.any_eq_true, decide_eq_true_eq, not_exists, not_and, not_not] at contained
    exact contained capability inside

variable {run : Run}

/-- A call let through was so by the guard, in an earlier state. -/
theorem admitted_before (valid : run.Valid float packages origin sha256) {n call : Nat}
    {caller : AdminCaller} (admitted : (run.states n).calls call = .admitted caller) :
    ∃ guarded, guarded < n ∧ ∃ realm bearerToken required listed now,
      run.events guarded = .admission call realm bearerToken required listed now caller := by
  induction n with
  | zero =>
    rw [valid.calls call] at admitted
    cases admitted
  | succ n ih =>
    have earlier (same : (run.states n).calls call = .admitted caller) :
        ∃ guarded, guarded < n + 1 ∧ ∃ realm bearerToken required listed now,
          run.events guarded = .admission call realm bearerToken required listed now caller := by
      obtain ⟨guarded, before, kept⟩ := ih same
      exact ⟨guarded, by omega, kept⟩
    have does := valid.does n
    cases happens : run.events n with
    | tokens =>
      rw [happens] at does
      rw [does.2] at admitted
      exact earlier admitted
    | admission other realm bearerToken required listed now let_through =>
      rw [happens] at does
      obtain ⟨-, -, -, next⟩ := does
      rw [next] at admitted
      by_cases same : call = other
      · subst same
        simp only [Function.update_self] at admitted
        cases admitted
        exact ⟨n, by omega, realm, bearerToken, required, listed, now, happens⟩
      · simp only [Function.update_of_ne same] at admitted
        exact earlier admitted
    | create other wanted draws created =>
      rw [happens] at does
      obtain ⟨_, _, -, -, next⟩ := does
      rw [next] at admitted
      by_cases same : call = other
      · subst same
        simp only [Function.update_self] at admitted
        cases admitted
      · simp only [Function.update_of_ne same] at admitted
        exact earlier admitted
    | curtail scope row left =>
      rw [happens] at does
      rw [does.2.2.2] at admitted
      exact earlier admitted
    | rest =>
      rw [happens] at does
      rw [show run.states (n + 1) = run.states n from does] at admitted
      exact earlier admitted

/-- Where a client of a state comes from: it stood there before, it lost some
of what a client of its name had, or it was just created. -/
theorem client_cases (valid : run.Valid float packages origin sha256) {n : Nat}
    {scope : RealmScope} {client : RegisteredClient}
    (inside : client ∈ (run.states (n + 1)).clients scope) :
    (∃ row ∈ (run.states n).clients scope, client.clientId = row.clientId ∧
      client.redirectUris = row.redirectUris ∧ client.capabilities ⊆ row.capabilities) ∨
    ∃ call wanted draws caller, run.events n = .create call wanted draws client ∧
      (run.states n).calls call = .admitted caller ∧ caller.scope = scope ∧
      client.capabilities ⊆ caller.client.capabilities ∧ Registered sha256 client := by
  have stood (same : client ∈ (run.states n).clients scope) :
      ∃ row ∈ (run.states n).clients scope, client.clientId = row.clientId ∧
        client.redirectUris = row.redirectUris ∧ client.capabilities ⊆ row.capabilities :=
    ⟨client, same, rfl, rfl, fun _ held => held⟩
  have does := valid.does n
  cases happens : run.events n with
  | tokens =>
    rw [happens] at does
    rw [does.2] at inside
    exact Or.inl (stood inside)
  | admission call realm bearerToken required listed now caller =>
    rw [happens] at does
    obtain ⟨-, -, -, next⟩ := does
    rw [next] at inside
    exact Or.inl (stood inside)
  | create call wanted draws created =>
    rw [happens] at does
    obtain ⟨caller, secret, admitted, creates, next⟩ := does
    rw [next] at inside
    by_cases home : scope = caller.scope
    · subst home
      simp only [Function.update_self] at inside
      rcases List.mem_cons.mp inside with rfl | earlier
      · obtain ⟨contained, registered⟩ := createClient_ok creates
        exact Or.inr ⟨call, wanted, draws, caller, rfl, admitted, rfl, contained, registered⟩
      · exact Or.inl (stood earlier)
    · simp only [Function.update_of_ne home] at inside
      exact Or.inl (stood inside)
  | curtail other row left =>
    rw [happens] at does
    obtain ⟨named, sent, contained, next⟩ := does
    rw [next] at inside
    by_cases home : scope = other
    · subst home
      simp only [Function.update_self] at inside
      obtain ⟨known, member, written⟩ := List.mem_map.mp inside
      split at written
      · next same =>
        subst written
        subst same
        exact Or.inl ⟨known, member, named, sent, contained⟩
      · subst written
        exact Or.inl (stood member)
    · simp only [Function.update_of_ne home] at inside
      exact Or.inl (stood inside)
  | rest =>
    rw [happens] at does
    rw [show run.states (n + 1) = run.states n from does] at inside
    exact Or.inl (stood inside)

/-- Every capability a client holds descends from a client of its realm. -/
theorem descends_of_held (valid : run.Valid float packages origin sha256) {scope : RealmScope}
    {capability : Capability} (n : Nat) :
    ∀ client ∈ (run.states n).clients scope, capability ∈ client.capabilities →
      Descends run scope capability n client.clientId := by
  induction n using Nat.strong_induction_on with
  | _ n ih =>
    intro client inside held
    cases n with
    | zero => exact .initial inside held
    | succ n =>
      rcases client_cases valid inside with ⟨row, member, named, -, contained⟩ |
        ⟨call, wanted, draws, caller, creates, admitted, home, contained, -⟩
      · rw [named]
        exact (ih n (by omega) row member (contained held)).later
      · obtain ⟨guarded, before, realm, bearerToken, required, listed, now, admits⟩ :=
          admitted_before valid admitted
        have does := valid.does guarded
        rw [admits] at does
        obtain ⟨known, enabled, -⟩ := authorizeAdminCall_ok does.2.2.1
        subst home
        exact .created before (by omega) admits creates rfl known enabled (contained held)
          (ih guarded (by omega) caller.client known (contained held))

/-- An application holds no capability. -/
theorem application_without_capability (valid : run.Valid float packages origin sha256)
    {scope : RealmScope} (n : Nat) :
    ∀ client ∈ (run.states n).clients scope, client.redirectUris ≠ [] →
      client.capabilities = [] := by
  have registered : ∀ client, Registered sha256 client → client.redirectUris ≠ [] →
      client.capabilities = [] := by
    intro client known
    obtain ⟨draws, kept, wanted, secret, registers⟩ := known
    exact (registerClient_ok registers).2
  induction n with
  | zero =>
    intro client inside
    exact registered client (valid.registered scope client inside)
  | succ n ih =>
    intro client inside application
    rcases client_cases valid inside with ⟨row, member, -, sent, contained⟩ |
      ⟨-, -, -, -, -, -, -, -, known⟩
    · rw [sent] at application
      rw [ih row member application] at contained
      exact List.subset_nil.mp contained
    · exact registered client known application

theorem tokens_reachable (valid : run.Valid float packages origin sha256) (n : Nat) :
    Reachable float (run.states n).tokens := by
  induction n with
  | zero => exact valid.tokens
  | succ n ih =>
    have does := valid.does n
    cases happens : run.events n with
    | tokens =>
      rw [happens] at does
      exact ih.tail does.1
    | admission call realm bearerToken required listed now caller =>
      rw [happens] at does
      rw [does.2.2.2]
      exact ih
    | create call wanted draws created =>
      rw [happens] at does
      obtain ⟨_, _, -, -, next⟩ := does
      rw [next]
      exact ih
    | curtail scope row left =>
      rw [happens] at does
      rw [does.2.2.2]
      exact ih
    | rest =>
      rw [happens] at does
      rw [show run.states (n + 1) = run.states n from does]
      exact ih

/-- In every run of the administration plane, every capability a client holds
descends by a chain of creators, each read by the guard among the enabled
clients of the realm while it held it, from a client registered before the run;
an application holds none; and what the guard lets through is a token its own
realm minted, of no session. -/
theorem capabilities_contained (valid : run.Valid float packages origin sha256)
    (trusted : run.Trusted float packages) :
    (∀ n scope, ∀ client ∈ (run.states n).clients scope, ∀ capability ∈ client.capabilities,
      Descends run scope capability n client.clientId) ∧
    (∀ n scope, ∀ client ∈ (run.states n).clients scope, client.redirectUris ≠ [] →
      client.capabilities = []) ∧
    (∀ n call realm bearerToken required listed now caller,
      run.events n = .admission call realm bearerToken required listed now caller →
      ∃ token, bearerToken = some token ∧ ∃ one ∈ (run.states listed).tokens.minted,
        one.realm = caller.scope ∧ IsToken packages (run.states listed).tokens token one ∧
        ∃ subject issued tokenId, one.minting = .access subject issued tokenId ∧
          subject.session = none) := by
  refine ⟨?_, ?_, ?_⟩
  · intro n scope client inside capability held
    exact descends_of_held valid n client inside held
  · intro n scope client inside
    exact application_without_capability valid n client inside
  · intro n call realm bearerToken required listed now caller admits
    have does := valid.does n
    rw [admits] at does
    obtain ⟨-, -, passes, -⟩ := does
    obtain ⟨-, -, token, claims, rfl, read, sessionless⟩ := authorizeAdminCall_ok passes
    have unforged := trusted.unforged n call realm token required listed now caller admits
    obtain ⟨one, minted, at_home, is_token, subject, issued, tokenId, minting, -, -, -, -, session,
      -⟩ := access_minted (tokens_reachable valid listed) (trusted.lawful listed) (trusted.apart listed)
        unforged read
    rw [sessionless] at session
    exact ⟨token, rfl, one, minted, at_home, is_token, subject, issued, tokenId, minting,
      session.symm⟩

end Containment

def billingWanted : NewClient where
  clientId := "billing"
  name := "Billing"
  scopes := ["read", "admin"]
  capabilities := [.clientWrite, .clientRead]
  redirectUris := []
  postLogoutRedirectUris := []
  isPublic := false
  requiresConsent := false
  createdBy := none

def ledgerWanted : NewClient :=
  { billingWanted with clientId := "ledger", name := "Ledger", capabilities := [.clientWrite] }

def someDraws : Draws := ⟨some [7], some 7, 0⟩

def someSecret : Bytes := utf8 (Foundation.Base64.encode [7])

def billingClient : RegisteredClient := makeClient id billingWanted (some someSecret) 7 0

def ledgerClient : RegisteredClient := makeClient id ledgerWanted (some someSecret) 7 0

def billingCaller : AdminCaller := ⟨"r", billingRealm, billingClient⟩

/-- The clients of the realm, none elsewhere. -/
def only (clients : List RegisteredClient) : RealmScope → List RegisteredClient :=
  Function.update (fun _ => []) billingRealm clients

def ledgerRun : Run where
  states
    | 0 => ⟨billingWorld, only [billingClient], fun _ => .waiting⟩
    | 1 => ⟨billingWorld, only [billingClient],
        Function.update (fun _ => .waiting) 0 (.admitted billingCaller)⟩
    | _ => ⟨billingWorld, only [ledgerClient, billingClient],
        Function.update (Function.update (fun _ => .waiting) 0 (.admitted billingCaller)) 0 .ended⟩
  events
    | 0 => .admission 0 "r" (some billingToken) .clientWrite 0 20000000 billingCaller
    | 1 => .create 0 ledgerWanted someDraws ledgerClient
    | _ => .rest
  locate _ realm := if realm = "r" then some billingRealm else none

theorem billingCaller_admitted :
    authorizeAdminCall billingPackages "http://id" (ledgerRun.locate 0) billingWorld.keys 20000000
      (only [billingClient]) "r" (some billingToken) .clientWrite = .ok billingCaller := by
  have authenticated : authenticateCall billingPackages "http://id" "r"
      (billingWorld.keys billingRealm) 20000000 billingToken =
      .ok ⟨"billing", "billing", ["read", "admin"], (7 : Uuid).text, 10, 310, none⟩ := by
    have issuer : nameIssuer "http://id" "r" = "http://id/realms/r" := by decide
    rw [authenticateCall, issuer, billingToken_read]
    rfl
  have located : (if isRealmName "r" then ledgerRun.locate 0 "r" else none) =
      some billingRealm := by
    decide
  exact authorizeAdminCall_of located authenticated (by decide) (by decide)

theorem ledgerRun_valid : ledgerRun.Valid writeNoFloat billingPackages "http://id" id := by
  constructor
  · intro scope client inside
    change client ∈ only [billingClient] scope at inside
    by_cases home : scope = billingRealm
    · rw [home, only, Function.update_self] at inside
      cases List.mem_singleton.mp inside
      exact ⟨someDraws, [], billingWanted, some someSecret, by decide⟩
    · rw [only, Function.update_of_ne home] at inside
      cases inside
  · intro call
    rfl
  · exact billingWorld_reached
  · intro n
    match n with
    | 0 => exact ⟨Nat.le_refl 0, rfl, billingCaller_admitted, rfl⟩
    | 1 =>
      refine ⟨billingCaller, some someSecret, rfl, by decide, ?_⟩
      have listed : Function.update (only [billingClient]) billingRealm
          (ledgerClient :: only [billingClient] billingRealm) =
          only [ledgerClient, billingClient] := by
        rw [only, Function.update_idem, Function.update_self, only]
      change Plane.mk billingWorld (only [ledgerClient, billingClient]) _ =
        Plane.mk billingWorld (Function.update (only [billingClient]) billingRealm
          (ledgerClient :: only [billingClient] billingRealm)) _
      rw [listed]
      rfl
    | n + 2 => rfl

theorem ledgerRun_trusted : ledgerRun.Trusted writeNoFloat billingPackages := by
  have tokens : ∀ n, (ledgerRun.states n).tokens = billingWorld := by
    intro n
    match n with
    | 0 | 1 | n + 2 => rfl
  constructor
  · intro n
    rw [tokens]
    exact billingWorld_lawful
  · intro n
    rw [tokens]
    exact billingWorld_keysApart
  · intro n call realm token required listed now caller _
    rw [tokens]
    exact billingToken_unforged token

theorem ledgerClient_descends :
    Descends ledgerRun billingRealm .clientWrite 2 ledgerClient.clientId :=
  (capabilities_contained ledgerRun_valid ledgerRun_trusted).1 2 billingRealm ledgerClient
    (by decide) .clientWrite (by decide)

end Saffui.Authz.Admin
