import Saffui.Oidc.Statements

/-!
# The families of refresh tokens

Every token of a family descends from the one its code was exchanged for, by
rotations that each spend the one before. So a family has one grant, and one
token of it at most is neither spent nor revoked. A statement that revokes
covers the tokens it saw; as one revoked token stops its whole family, what a
rotation in flight inserts meanwhile is stopped with it.

Source: `saffui-core/src/oidc/refresh.rs`, `store/src/stores/tokens.rs`.
-/

namespace Saffui.Oidc
open Saffui.Foundation Saffui.Foundation.Language Saffui.Login

/-- Two tokens of one grant. -/
structure SameGrant (first token : RefreshToken) : Prop where
  family : token.family = first.family
  clientId : token.clientId = first.clientId
  person : token.person = first.person
  session : token.session = first.session
  scopes : token.scopes = first.scopes

theorem SameGrant.refl (token : RefreshToken) : SameGrant token token :=
  ⟨rfl, rfl, rfl, rfl, rfl⟩

theorem SameGrant.trans {first second third : RefreshToken} (one : SameGrant first second)
    (other : SameGrant second third) : SameGrant first third :=
  ⟨other.family.trans one.family, other.clientId.trans one.clientId, other.person.trans one.person,
    other.session.trans one.session, other.scopes.trans one.scopes⟩

/-- A token its client may still spend, as far as its own row says. -/
def StoredRefreshToken.isLive (stored : StoredRefreshToken) : Bool :=
  stored.usedAt.isNone && stored.revokedAt.isNone

/-- The tokens a statement that revokes is for, of those it saw. -/
def covers (op : Op) (seen : Db) (token : RefreshToken) : Bool :=
  match op with
  | .revokeRefreshFamily family _ => token.family = family
  | .revokeRefreshFamiliesOfClient person clientId _ => token.person = person &&
    token.clientId = clientId &&
      (Db.session seen token.session).any fun session => session.person = person
  | .revokeRefreshTokensOfSession session _ => token.session = session
  | .revokeRefreshTokensOfSessions sessions _ => token.session ∈ sessions
  | _ => false

theorem covers_picked {op : Op} {seen : Db} {digest : Bytes} {stored : StoredRefreshToken}
    (covered : covers op seen stored.token = true) (unrevoked : stored.revokedAt = none) :
    picks op seen (.token digest) stored = true := by
  cases op with
  | revokeRefreshFamily | revokeRefreshFamiliesOfClient | revokeRefreshTokensOfSession
  | revokeRefreshTokensOfSessions => simp_all [covers, picks, ofToken]
  | _ => cases covered

theorem covers_sets {op : Op} {seen : Db} {digest : Bytes} {token : RefreshToken}
    (covered : covers op seen token = true) (stored : StoredRefreshToken) :
    ∃ instant, sets op (.token digest) stored = some { stored with revokedAt := some instant } := by
  cases op with
  | revokeRefreshFamily | revokeRefreshFamiliesOfClient | revokeRefreshTokensOfSession
  | revokeRefreshTokensOfSessions => exact ⟨_, rfl⟩
  | _ => cases covered

theorem covers_of_sameGrant {op : Op} {seen : Db} {first token : RefreshToken}
    (grant : SameGrant first token) : covers op seen token = covers op seen first := by
  cases op <;> simp [covers, grant.family, grant.person, grant.clientId, grant.session]

theorem hasRevokedKin_of_lookup {db : Db} {digest : Bytes} {stored : StoredRefreshToken}
    (found : Db.token db digest = some stored) (revoked : stored.revokedAt.isSome) :
    hasRevokedKin db stored.token.family = true := by
  have inside : Key.token digest ∈ keysWhere db (ofToken fun _ kin =>
      kin.token.family = stored.token.family && kin.revokedAt.isSome) :=
    mem_keysWhere_iff.mpr ⟨stored, found, by simp [ofToken, revoked]⟩
  unfold hasRevokedKin
  cases keys : keysWhere db (ofToken fun _ kin =>
      kin.token.family = stored.token.family && kin.revokedAt.isSome) with
  | nil => rw [keys] at inside; cases inside
  | cons => rfl

theorem addScope_subset {allowed given next : List String} {word : String}
    (added : addScope allowed given word = .ok next) (inside : given ⊆ allowed) :
    next ⊆ allowed ∧ next ⊆ given ++ [word] := by
  unfold addScope at added
  cases checked : checkScopeToken word with
  | error code => rw [checked] at added; cases added
  | ok _ =>
    rw [checked] at added
    simp only [bind, Except.bind] at added
    split at added
    · cases added
    · next known =>
      have among : word ∈ allowed := not_not.mp known
      obtain rfl := Except.ok.inj added
      split
      · exact ⟨inside, List.subset_append_left _ _⟩
      · refine ⟨List.append_subset.mpr ⟨inside, ?_⟩, List.Subset.refl _⟩
        simpa using among

/-- What is granted is of what may be, and of what was asked. -/
theorem narrowScopes_subset {asked : Option String} {allowed granted : List String}
    (narrowed : narrowScopes asked allowed = .ok granted) :
    granted ⊆ allowed ∧ ∀ text, asked = some text → granted ⊆ Text.words text := by
  cases asked with
  | none =>
    obtain rfl : allowed = granted := Except.ok.inj narrowed
    exact ⟨List.Subset.refl _, nofun⟩
  | some text =>
    have fold : ∀ words given : List String, given ⊆ allowed →
        words.foldlM (addScope allowed) given = Except.ok granted →
        granted ⊆ allowed ∧ granted ⊆ given ++ words := by
      intro words
      induction words with
      | nil =>
        intro given inside done
        obtain rfl : given = granted := Except.ok.inj done
        exact ⟨inside, by simp⟩
      | cons word words ih =>
        intro given inside read
        rw [List.foldlM_cons] at read
        cases added : addScope allowed given word with
        | error code => rw [added] at read; cases read
        | ok next =>
          rw [added] at read
          have one := addScope_subset added inside
          obtain ⟨within, ofWords⟩ := ih next one.1 read
          refine ⟨within, fun scope there => ?_⟩
          have either := ofWords there
          simp only [List.mem_append, List.mem_cons] at either ⊢
          rcases either with earlier | later
          · have given := one.2 earlier
            simp only [List.mem_append, List.mem_singleton] at given
            rcases given with before | here
            · exact Or.inl before
            · exact Or.inr (Or.inl here)
          · exact Or.inr (Or.inr later)
    obtain ⟨within, ofWords⟩ := fold (Text.words text) [] (by simp) narrowed
    refine ⟨within, fun same asked => ?_⟩
    rw [← Option.some.inj asked]
    exact ofWords

section Runs

variable {app : App} {mode : Mode} {start : Db} {ids : List Drawn} {world : World (calls app)}
  {place other units : Nat} {commit one : Commit (calls app)} {event : language.Event}
  {digest : Bytes} {stored : StoredRefreshToken}
  (reached : Reachable (calls app) mode start ids world)

include reached

/-- A token that was not there before a unit is one it inserted. -/
theorem inserted_token (here : CommittedAt world.past place commit)
    (absent : Db.token commit.before digest = none)
    (kept : Db.token commit.after digest = some stored) :
    stored.token.tokenDigest = digest ∧
      told (.insertRefreshToken stored.token) true ∈ commit.work.log.script := by
  obtain ⟨said, among, written, ⟨token, rfl, named, rfl⟩, first⟩ :=
    inserted_of_absent reached here absent (Option.ne_none_iff_exists'.mpr ⟨stored, kept⟩)
  obtain ⟨next, found, moved⟩ := first ⟨token, none, none⟩ rfl
  obtain rfl : next = stored := Option.some.inj (found.symm.trans kept)
  have same : next.token = token := moved.token
  exact ⟨same ▸ named, same ▸ among⟩

/-- A token kept came with the unit that inserted it. -/
theorem token_came (new : NewRealm start) (within : units ≤ world.past.length)
    (kept : Db.token (dbAt start world.past units) digest = some stored) :
    ∃ place < units, ∃ commit, CommittedAt world.past place commit ∧
      Db.token commit.before digest = none ∧ stored.token.tokenDigest = digest ∧
      told (.insertRefreshToken stored.token) true ∈ commit.work.log.script := by
  obtain ⟨place, before, commit, here, absent, present, later⟩ :=
    came_inserted reached (new.tokens digest) within kept
  obtain ⟨next, found⟩ := Option.ne_none_iff_exists'.mp present
  obtain ⟨last, isLast, moved⟩ := later next found
  obtain rfl := Option.some.inj isLast
  obtain ⟨named, inserted⟩ := inserted_token reached here absent found
  rw [← moved.token] at named inserted
  exact ⟨place, before, commit, here, absent, named, inserted⟩

/-- The statement of a unit that spent a token: it found it live, and holds it
until the unit commits. -/
theorem spend_event (here : CommittedAt world.past place commit) {clientId : String}
    {instant : Instant} {spent : RefreshToken}
    (said : told (.spendRefreshToken digest clientId instant) (some spent) ∈
      commit.work.log.script) :
    ∃ event ∈ commit.work.events,
      event.told = told (.spendRefreshToken digest clientId instant) (some spent) ∧
      event ∈ world.ran ∧ event.finished ≤ place ∧ event.Faithful mode start world.past ∧
      (Key.token digest, LockMode.exclusive) ∈ event.locks ∧
      (∃ stored, Db.token event.now digest = some stored ∧
        Db.token commit.before digest = some stored ∧ stored.token = spent ∧
        spent.clientId = clientId ∧ stored.isLive) ∧
      ∃ next, Db.token commit.after digest = some next ∧ next.usedAt.isSome := by
  have leads : Leading (told (.spendRefreshToken digest clientId instant) (some spent))
      commit.work.log.script := (committed_backed reached here _ said).1
  obtain ⟨event, among, same, finished, faithful, locked, answered, before, row, found, grown⟩ :=
    before_of_leading reached here leads fun seen now answered =>
      (spendRefreshToken_answer answered).1
  obtain ⟨-, stored, read, ofToken, ofClient, unused, unrevoked, -⟩ :=
    spendRefreshToken_answer answered
  obtain ⟨next, after, moved⟩ := grown { row with usedAt := some instant } rfl
  refine ⟨event, among, same, (reached.faithful here (Work.mem_told_of_mem among)).1, finished,
    faithful, locked, ⟨stored, read, before.trans read, ofToken, ofClient, ?_⟩, next, after, ?_⟩
  · simp [StoredRefreshToken.isLive, unused, unrevoked]
  · exact moved.used.isSome rfl

/-- A token a unit spent is unspent and unrevoked until it commits, and spent
from then on. -/
theorem spent_of_script (here : CommittedAt world.past place commit) {clientId : String}
    {instant : Instant} {spent : RefreshToken}
    (said : told (.spendRefreshToken digest clientId instant) (some spent) ∈
      commit.work.log.script) :
    (∃ stored, Db.token commit.before digest = some stored ∧ stored.token = spent ∧
        spent.clientId = clientId ∧ stored.isLive) ∧
      ∃ next, Db.token commit.after digest = some next ∧ next.usedAt.isSome := by
  obtain ⟨event, -, -, -, -, -, -, ⟨stored, -, kept⟩, used⟩ := spend_event reached here said
  exact ⟨⟨stored, kept⟩, used⟩

/-- The session of a token a unit inserts, as it is when the unit commits. -/
theorem session_of_token (new : NewRealm start) (here : CommittedAt world.past place commit)
    {token : RefreshToken} {family session person : Uuid} {clientId : String} {found : Session}
    {scopes : List String} (subject : Subject commit.work.log.script session person found)
    (issued : TokenOf token family clientId found scopes) :
    token.session = session ∧ token.person = person ∧
      ∃ row, Db.session (dbAt start world.past (place + 1)) token.session = some row ∧
        row.person = token.person ∧ token.expiresAt ≤ row.expiresAt := by
  obtain ⟨known, read, rfl, -⟩ := subject.standing.read
  obtain ⟨row, named, same⟩ := subject.person
  obtain ⟨id, next, kept, moved⟩ := session_of_read reached new here read
  have inSession : token.session = session := issued.inSession.trans id
  have ofPerson : token.person = person := by
    rw [issued.ofPerson, ← person_of_read reached new here named, same]
  refine ⟨inSession, ofPerson, next, inSession ▸ kept, ?_, ?_⟩
  · rw [moved.1]
    exact issued.ofPerson.symm
  · rw [moved.1]
    exact issued.expiresAt

/-- A unit that exchanged a code, and opened a family with its first token. -/
structure Opening (commit : Commit (calls app)) (first : RefreshToken) : Prop where
  inserted : told (.insertRefreshToken first) true ∈ commit.work.log.script
  drawn : Drawn.id first.family ∈ commit.work.drawn
  exchange : ∃ request client code, commit.call = .exchangeCode request ∧
    SpentCode commit.work.log request client code ∧
    told (.bindCodeFamily request.code first.family) true ∈ commit.work.log.script ∧
    (client.requiresConsent → ∃ allowed,
      told (.holdConsent code.person client.clientId) (some allowed) ∈ commit.work.log.script) ∧
    first.clientId = client.clientId ∧ first.person = code.person ∧ first.session = code.session ∧
    first.scopes = code.scopes

/-- A unit that rotated a token: it spent one, and inserted the next of the
same grant. -/
structure Rotation (commit : Commit (calls app)) (digest : Bytes) (spent next : RefreshToken) : Prop
    where
  spend : ∃ clientId instant, told (.spendRefreshToken digest clientId instant) (some spent) ∈
    commit.work.log.script
  inserted : told (.insertRefreshToken next) true ∈ commit.work.log.script
  grant : SameGrant spent next

/-- A token is inserted by an exchange or by a rotation, within its session. -/
theorem insertion_cases (new : NewRealm start) (here : CommittedAt world.past place commit)
    {token : RefreshToken}
    (inserted : told (.insertRefreshToken token) true ∈ commit.work.log.script) :
    (Opening commit token ∨ ∃ digest spent, Rotation commit digest spent token) ∧
      ∃ row, Db.session (dbAt start world.past (place + 1)) token.session = some row ∧
        row.person = token.person ∧ token.expiresAt ≤ row.expiresAt := by
  obtain ⟨backed, -⟩ := committed_backed reached here _ inserted
  cases backed with
  | rotated called spend subject issued =>
    rename_i request client spent session
    obtain ⟨instant, said⟩ := spend
    obtain ⟨inSession, ofPerson, kept⟩ := session_of_token reached new here subject issued
    obtain ⟨⟨stored, -, -, ofClient, -⟩, -⟩ := spent_of_script reached here said
    refine ⟨Or.inr ⟨request.refreshToken, spent, ⟨client.clientId, instant, said⟩, inserted, ?_⟩, kept⟩
    exact ⟨issued.family, issued.clientId.trans ofClient.symm, ofPerson, inSession, issued.granted⟩
  | exchanged called spent subject drawn bound consent issued =>
    rename_i request client code session
    obtain ⟨inSession, ofPerson, kept⟩ := session_of_token reached new here subject issued
    refine ⟨Or.inl ⟨inserted, drawn, request, client, code, called, spent, bound, ?_, ?_⟩, kept⟩
    · intro required
      obtain ⟨allowed, held⟩ := consent required
      exact ⟨allowed, held.mem⟩
    · exact ⟨issued.clientId, ofPerson, inSession, issued.granted⟩

/-- A token a unit inserted is kept once it commits. -/
theorem kept_of_inserted (here : CommittedAt world.past place commit) {token : RefreshToken}
    (inserted : told (.insertRefreshToken token) true ∈ commit.work.log.script) :
    ∃ stored, Db.token (dbAt start world.past (place + 1)) token.tokenDigest = some stored ∧
      stored.token = token := by
  obtain ⟨event, among, same, -, -, faithful⟩ := event_of_script reached here inserted
  obtain ⟨-, written⟩ := insertRefreshToken_answer (answer_of_told faithful same)
  rw [← writes_of_told same] at written
  obtain ⟨next, after, moved⟩ := reached.wrote movement here among written _ rfl
  rw [Reachable.after_eq here] at after
  exact ⟨next, after, moved.token⟩

/-- Every token kept descends from one a code was exchanged for. -/
theorem family_opened (new : NewRealm start) (within : units ≤ world.past.length)
    (kept : Db.token (dbAt start world.past units) digest = some stored) :
    ∃ place < units, ∃ commit first, CommittedAt world.past place commit ∧ Opening commit first ∧
      SameGrant first stored.token := by
  induction units using Nat.strongRecOn generalizing digest stored with
  | ind units ih =>
    obtain ⟨place, before, commit, here, -, -, inserted⟩ := token_came reached new within kept
    rcases (insertion_cases reached new here inserted).1 with opening | ⟨old, spent, rotation⟩
    · exact ⟨place, before, commit, stored.token, here, opening, .refl _⟩
    · obtain ⟨clientId, instant, said⟩ := rotation.spend
      obtain ⟨⟨last, there, same, -⟩, -⟩ := spent_of_script reached here said
      rw [reached.before_eq here] at there
      obtain ⟨first, earlier, opened, token, found, opening, grant⟩ :=
        ih place before (Nat.le_of_lt here.lt) there
      rw [same] at grant
      exact ⟨first, by omega, opened, token, found, opening, grant.trans rotation.grant⟩

/-- The family an exchange opens has no token before it. -/
theorem opening_new (new : NewRealm start) (here : CommittedAt world.past place commit)
    {first : RefreshToken} (opening : Opening commit first)
    (kept : Db.token commit.before digest = some stored) : stored.token.family ≠ first.family := by
  intro same
  rw [reached.before_eq here] at kept
  obtain ⟨earlier, before, opened, token, there, other, grant⟩ :=
    family_opened reached new (Nat.le_of_lt here.lt) kept
  have drawn := other.drawn
  rw [← grant.family, same] at drawn
  have again := reached.drawn_once there here drawn opening.drawn
  omega

/-- A token is spent by one unit. -/
theorem spent_once (here : CommittedAt world.past place commit)
    (there : CommittedAt world.past other one) {clientId clientId' : String}
    {instant instant' : Instant} {spent spent' : RefreshToken}
    (said : told (.spendRefreshToken digest clientId instant) (some spent) ∈ commit.work.log.script)
    (again : told (.spendRefreshToken digest clientId' instant') (some spent') ∈
      one.work.log.script) : place = other := by
  have later : ∀ {first last : Nat} {early late : Commit (calls app)} {client client' : String}
      {at_ at_' : Instant} {token token' : RefreshToken}, first < last →
      CommittedAt world.past first early → CommittedAt world.past last late →
      told (.spendRefreshToken digest client at_) (some token) ∈ early.work.log.script →
      told (.spendRefreshToken digest client' at_') (some token') ∉ late.work.log.script := by
    intro first last early late client client' at_ at_' token token' before isFirst isLast spends spendsToo
    obtain ⟨-, next, after, used⟩ := spent_of_script reached isFirst spends
    obtain ⟨⟨stored, kept, -, -, live⟩, -⟩ := spent_of_script reached isLast spendsToo
    have grown := reached.grows movement before (Nat.le_of_lt isLast.lt) (.token digest)
    rw [← Reachable.after_eq isFirst, ← reached.before_eq isLast] at grown
    obtain ⟨last, found, moved⟩ := grown next after
    obtain rfl : last = stored := Option.some.inj (found.symm.trans kept)
    have still := moved.used.isSome used
    simp [StoredRefreshToken.isLive, Option.isSome_iff_ne_none.mp still] at live
  rcases Nat.lt_trichotomy place other with less | same | more
  · exact absurd again (later less here there said)
  · exact same
  · exact absurd said (later more there here again)

/-- A token that is live after a unit is one that was before, or one the unit
inserted. -/
theorem live_cases (here : CommittedAt world.past place commit)
    (kept : Db.token commit.after digest = some stored) (live : stored.isLive) :
    (∃ before, Db.token commit.before digest = some before ∧ before.token = stored.token ∧
      before.isLive) ∨
      (Db.token commit.before digest = none ∧ stored.token.tokenDigest = digest ∧
        told (.insertRefreshToken stored.token) true ∈ commit.work.log.script) := by
  cases earlier : Db.token commit.before digest with
  | some before =>
    obtain ⟨next, found, moved⟩ := reached.grows_commit movement here (.token digest) before earlier
    obtain rfl : next = stored := Option.some.inj (found.symm.trans kept)
    refine Or.inl ⟨before, rfl, moved.token.symm, ?_⟩
    simp only [StoredRefreshToken.isLive, Bool.and_eq_true, Option.isNone_iff_eq_none] at live ⊢
    refine ⟨?_, ?_⟩
    · by_contra used
      have still := moved.used.isSome (Option.isSome_iff_ne_none.mpr used)
      simp [live.1] at still
    · by_contra revoked
      have still := moved.revoked.isSome (Option.isSome_iff_ne_none.mpr revoked)
      simp [live.2] at still
  | none =>
    obtain ⟨named, inserted⟩ := inserted_token reached here earlier kept
    exact Or.inr ⟨rfl, named, inserted⟩

/-- One token of a family at most is live, after any number of units. -/
theorem live_unique (new : NewRealm start) (within : units ≤ world.past.length)
    {digest' : Bytes} {stored' : StoredRefreshToken}
    (kept : Db.token (dbAt start world.past units) digest = some stored) (live : stored.isLive)
    (kept' : Db.token (dbAt start world.past units) digest' = some stored') (live' : stored'.isLive)
    (kin : stored.token.family = stored'.token.family) : digest = digest' := by
  induction units generalizing digest digest' stored stored' with
  | zero =>
    rw [dbAt_zero, new.tokens] at kept
    cases kept
  | succ units ih =>
    obtain ⟨commit, here⟩ := exists_committedAt_of_lt within
    rw [← Reachable.after_eq here] at kept kept'
    have before := reached.before_eq here
    have alone : ∀ {old : Bytes} {was now : StoredRefreshToken} {token : RefreshToken},
        told (.insertRefreshToken token) true ∈ commit.work.log.script →
        Db.token commit.before old = some was → was.isLive → was.token.family = token.family →
        Db.token commit.after old = some now → ¬now.isLive := by
      intro old was now token inserted there wasLive same after stillLive
      rcases (insertion_cases reached new here inserted).1 with opening | ⟨last, spent, rotation⟩
      · exact opening_new reached new here opening there same
      · obtain ⟨clientId, instant, said⟩ := rotation.spend
        obtain ⟨⟨row, found, ofToken, -, rowLive⟩, next, used, isUsed⟩ :=
          spent_of_script reached here said
        have family : row.token.family = was.token.family := by
          rw [ofToken, same, rotation.grant.family]
        obtain rfl : last = old :=
          ih (Nat.le_of_succ_le within) (before ▸ found) rowLive (before ▸ there) wasLive family
        obtain rfl : next = now := Option.some.inj (used.symm.trans after)
        simp [StoredRefreshToken.isLive, Option.isSome_iff_ne_none.mp isUsed] at stillLive
    rcases live_cases reached here kept live with ⟨was, there, same, wasLive⟩ | ⟨-, named, inserted⟩
    · rcases live_cases reached here kept' live' with ⟨was', there', same', wasLive'⟩ | ⟨-, -, inserted'⟩
      · exact ih (Nat.le_of_succ_le within) (before ▸ there) wasLive (before ▸ there') wasLive'
          (by rw [same, same', kin])
      · exact absurd live (alone inserted' there wasLive (by rw [same, kin]) kept)
    · rcases live_cases reached here kept' live' with ⟨was', there', same', wasLive'⟩ | ⟨-, named', inserted'⟩
      · exact absurd live' (alone inserted there' wasLive' (by rw [same', kin]) kept')
      · obtain ⟨-, only⟩ := committed_backed reached here _ inserted
        rw [← named, ← named', only _ inserted']

/-- A token a statement covers is revoked once its unit commits. -/
theorem revoked_of_covers (here : CommittedAt world.past place commit)
    (among : event ∈ commit.work.events) (saw : Db.token event.seen digest = some stored)
    (covered : covers event.op event.seen stored.token = true) :
    ∃ next, Db.token commit.after digest = some next ∧ next.token = stored.token ∧
      next.revokedAt.isSome := by
  obtain ⟨ran, -, -⟩ := reached.faithful here (Work.mem_told_of_mem among)
  obtain ⟨row, found, moved⟩ := reached.grows_seen_found movement ran (.token digest) stored saw
  obtain ⟨next, after, later⟩ := reached.grows_found_after movement here among (.token digest) row found
  have same : next.token = stored.token := later.token.trans moved.token
  refine ⟨next, after, same, ?_⟩
  cases revoked : row.revokedAt with
  | some instant => exact later.revoked.isSome (by simp [revoked])
  | none =>
    have unrevoked : stored.revokedAt = none := by
      by_contra set
      have still := moved.revoked.isSome (Option.isSome_iff_ne_none.mpr set)
      simp [revoked] at still
    rw [← moved.token] at covered
    have hit : Key.token digest ∈ hits event.op event.seen event.found :=
      mem_hits.mpr ⟨⟨stored, saw, covers_picked (moved.token ▸ covered) unrevoked⟩, row, found,
        covers_picked covered revoked⟩
    obtain ⟨last, there, -, written⟩ := written_of_hit hit
    obtain rfl : last = row := Option.some.inj (there.symm.trans found)
    obtain ⟨instant, set⟩ : ∃ instant, sets event.op (.token digest) last =
        some { last with revokedAt := some instant } := covers_sets covered last
    rw [set] at written
    obtain ⟨final, isFinal, grown⟩ := reached.wrote movement here among written _ rfl
    obtain rfl : final = next := Option.some.inj (isFinal.symm.trans after)
    exact grown.revoked.isSome rfl

/-- A revoked token stops its family: no statement that starts later spends
any token of it. -/
theorem unspendable_of_revoked
    (kept : Db.token (dbAt start world.past units) digest = some stored)
    (revoked : stored.revokedAt.isSome) (ran : event ∈ world.ran) (later : units ≤ event.started)
    {digest' : Bytes} {clientId : String} {instant : Instant} {spent : RefreshToken}
    (said : event.told = told (.spendRefreshToken digest' clientId instant) (some spent)) :
    spent.family ≠ stored.token.family := by
  have faithful := reached.history.ran event ran
  have upto := Nat.le_trans faithful.started faithful.finished
  obtain ⟨row, found, moved⟩ := reached.grows movement later upto (.token digest) stored kept
  rw [← faithful.snapshot] at found
  obtain ⟨seen, saw, again⟩ := reached.grows_seen movement ran (.token digest) row found
  have kin := hasRevokedKin_of_lookup saw (again.revoked.isSome (moved.revoked.isSome revoked))
  rw [again.token, moved.token] at kin
  obtain ⟨-, -, -, -, -, -, -, alone⟩ := spendRefreshToken_answer (answer_of_told faithful said)
  intro same
  rw [same, kin] at alone
  cases alone

/-- Two tokens of a family are of one grant. -/
theorem sameGrant_of_family (new : NewRealm start) {units units' : Nat}
    (within : units ≤ world.past.length) (within' : units' ≤ world.past.length) {digest' : Bytes}
    {stored' : StoredRefreshToken}
    (kept : Db.token (dbAt start world.past units) digest = some stored)
    (kept' : Db.token (dbAt start world.past units') digest' = some stored')
    (kin : stored'.token.family = stored.token.family) : SameGrant stored.token stored'.token := by
  obtain ⟨place, -, commit, first, here, opening, grant⟩ := family_opened reached new within kept
  obtain ⟨other, -, one, first', there, opening', grant'⟩ := family_opened reached new within' kept'
  have drawn := opening'.drawn
  rw [← grant'.family, kin, grant.family] at drawn
  obtain rfl := reached.drawn_once here there opening.drawn drawn
  obtain rfl := here.unique there
  obtain ⟨-, only⟩ := committed_backed reached here _ opening.inserted
  obtain rfl := only first' opening'.inserted
  exact ⟨kin, grant'.clientId.trans grant.clientId.symm, grant'.person.trans grant.person.symm,
    grant'.session.trans grant.session.symm, grant'.scopes.trans grant.scopes.symm⟩

/-- A token a statement covers was revoked before it, or is held by its unit. -/
theorem held_or_revoked (here : CommittedAt world.past place commit)
    (among : event ∈ commit.work.events) (saw : Db.token event.snapshot digest = some stored)
    (covered : covers event.op event.seen stored.token = true) :
    stored.revokedAt.isSome ∨ ∃ holder ∈ commit.work.events, holder.finished ≤ event.finished ∧
      (Key.token digest, LockMode.exclusive) ∈ holder.locks := by
  obtain ⟨ran, -, faithful⟩ := reached.faithful here (Work.mem_told_of_mem among)
  obtain ⟨row, seen, moved⟩ := reached.grows_seen movement ran (.token digest) stored saw
  rw [← moved.token] at covered
  cases revoked : row.revokedAt with
  | none =>
    exact Or.inr ⟨event, among, Nat.le_refl _, locked_of_picked seen (covers_picked covered revoked)⟩
  | some instant =>
    rcases lookup_overlay_cases (Key.token digest) event.wrote event.snapshot with same | written
    · have unmoved : row = stored := Option.some.inj (seen.symm.trans (same.trans saw))
      exact Or.inl (by simp [← unmoved, revoked])
    · obtain ⟨writer, inUnit, byWriter, before⟩ := reached.writer_before movement here among written
      refine Or.inr ⟨writer, inUnit, Nat.le_trans before faithful.started, ?_⟩
      exact run_locked writer.op writer.seen writer.found _ byWriter

/-- Each statement atomic: once a statement that revokes ran and saw a token
of a family, no unit that commits later inserts one of it. Those it saw it
holds, or finds revoked; one it did not see was inserted since. -/
theorem uninserted_of_covers (new : NewRealm start) (atomic : mode = .atomic)
    (here : CommittedAt world.past place commit) (among : event ∈ commit.work.events)
    (saw : Db.token event.snapshot digest = some stored)
    (covered : covers event.op event.seen stored.token = true)
    (silent : ∀ token, told (.insertRefreshToken token) true ∉ commit.work.log.script)
    (there : CommittedAt world.past other one) (later : event.finished ≤ other) {token : RefreshToken}
    (inserted : told (.insertRefreshToken token) true ∈ one.work.log.script) :
    token.family ≠ stored.token.family := by
  induction other using Nat.strongRecOn generalizing one token with
  | ind other ih =>
    intro kin
    obtain ⟨ran, finished, faithful⟩ := reached.faithful here (Work.mem_told_of_mem among)
    have sameTime := faithful.atomic atomic
    have upto := Nat.le_trans faithful.started faithful.finished
    have kept := saw
    rw [faithful.snapshot] at kept
    rcases (insertion_cases reached new there inserted).1 with opening | ⟨old, spent, rotation⟩
    · obtain ⟨row, found, moved⟩ := reached.grows movement (Nat.le_trans faithful.started later)
        (Nat.le_of_lt there.lt) (.token digest) stored kept
      rw [← reached.before_eq there] at found
      exact opening_new reached new there opening found (by rw [moved.token, kin])
    · obtain ⟨clientId, instant, said⟩ := rotation.spend
      obtain ⟨spend, inUnit, spends, wasRun, before, honest, locked,
        ⟨last, found, until_commit, ofToken, -, live⟩, -⟩ := spend_event reached there said
      have family : last.token.family = stored.token.family := by
        rw [ofToken, ← rotation.grant.family, kin]
      rw [honest.now] at found
      have grant := sameGrant_of_family reached new upto honest.finished kept found family
      have coversLast : covers event.op event.seen last.token = true := by
        rw [covers_of_sameGrant grant]
        exact covered
      cases early : Db.token event.snapshot old with
      | none =>
        obtain ⟨since, earlier, unit, inserts, -, named, wrote⟩ :=
          token_came reached new honest.finished found
        rw [faithful.snapshot] at early
        have notYet : event.finished ≤ since := by
          by_contra already
          obtain ⟨row, isKept, -⟩ := kept_of_inserted reached inserts wrote
          have stays := reached.grows movement (show since + 1 ≤ event.started by omega) upto
            (.token old)
          rw [named] at isKept
          obtain ⟨next, present, -⟩ := stays row isKept
          cases early.symm.trans present
        exact ih since (by omega) inserts notYet wrote family
      | some row =>
        have moved := reached.grows movement (Nat.le_trans faithful.started later)
          (Nat.le_of_lt there.lt) (.token old)
        rw [← reached.before_eq there] at moved
        have wasSeen := early
        rw [faithful.snapshot] at wasSeen
        obtain ⟨next, isNext, moves⟩ := moved row wasSeen
        obtain rfl : next = last := Option.some.inj (isNext.symm.trans until_commit)
        rw [moves.token] at coversLast
        rcases held_or_revoked reached here among early coversLast with
          revoked | ⟨holder, inside, soon, holds⟩
        · have still := moves.revoked.isSome revoked
          simp [StoredRefreshToken.isLive, Option.isSome_iff_ne_none.mp still] at live
        · rcases Nat.lt_trichotomy other place with less | rfl | more
          · have rival := reached.locks_subset movement there inUnit locked
            have shared := reached.held movement here inside holds there (by omega) less rival
            cases shared.1
          · obtain rfl := here.unique there
            exact silent token inserted
          · have rival := reached.locks_subset movement here inside holds
            rcases Nat.lt_or_ge place spend.finished with since | during
            · obtain ⟨seenRow, seen, same⟩ := reached.grows_seen movement ran (.token digest) stored saw
              rw [← same.token] at covered
              obtain ⟨gone, after, unchanged, revoked⟩ :=
                revoked_of_covers reached here among seen covered
              rw [Reachable.after_eq here] at after
              have apart := unspendable_of_revoked reached after revoked wasRun
                (by have := honest.atomic atomic; omega) spends
              rw [unchanged, same.token, ← ofToken] at apart
              exact apart family
            · have shared := reached.held movement there inUnit locked here during more rival
              cases shared.1

/-- A family one of whose tokens a statement covered is stopped once its unit
committed: no statement that starts later spends a token of it; a unit that
still inserts one spent the last before, and where each statement is atomic
none does. -/
theorem family_stopped (new : NewRealm start) (here : CommittedAt world.past place commit)
    (among : event ∈ commit.work.events) (saw : Db.token event.snapshot digest = some stored)
    (covered : covers event.op event.seen stored.token = true)
    (silent : ∀ token, told (.insertRefreshToken token) true ∉ commit.work.log.script) :
    (∀ spend ∈ world.ran, place < spend.started → ∀ digest' clientId instant token,
      spend.told = told (.spendRefreshToken digest' clientId instant) (some token) →
      token.family ≠ stored.token.family) ∧
    (∀ later one token, CommittedAt world.past later one → place < later →
      told (.insertRefreshToken token) true ∈ one.work.log.script →
      token.family = stored.token.family →
      mode ≠ .atomic ∧ ∃ spend ∈ one.work.events, spend.started ≤ place ∧
        ∃ digest' clientId instant last,
          spend.told = told (.spendRefreshToken digest' clientId instant) (some last)) := by
  obtain ⟨ran, finished, -⟩ := reached.faithful here (Work.mem_told_of_mem among)
  obtain ⟨asSeen, seen, moved⟩ := reached.grows_seen movement ran (.token digest) stored saw
  have stillCovered : covers event.op event.seen asSeen.token = true := by
    rw [moved.token]
    exact covered
  obtain ⟨gone, after, same, revoked⟩ := revoked_of_covers reached here among seen stillCovered
  rw [Reachable.after_eq here] at after
  have kin : gone.token.family = stored.token.family := by rw [same, moved.token]
  have unspendable : ∀ spend ∈ world.ran, place < spend.started → ∀ digest' clientId instant token,
      spend.told = told (.spendRefreshToken digest' clientId instant) (some token) →
      token.family ≠ stored.token.family := by
    intro spend wasRun later digest' clientId instant token said
    rw [← kin]
    exact unspendable_of_revoked reached after revoked wasRun later said
  refine ⟨unspendable, ?_⟩
  intro later one token there since inserted isKin
  refine ⟨?_, ?_⟩
  · intro atomic
    exact uninserted_of_covers reached new atomic here among saw covered silent there (by omega)
      inserted isKin
  · rcases (insertion_cases reached new there inserted).1 with opening | ⟨old, last, rotation⟩
    · obtain ⟨row, kept, moves⟩ := reached.grows movement since (Nat.le_of_lt there.lt)
        (.token digest) gone after
      rw [← reached.before_eq there] at kept
      exact absurd (by rw [moves.token, kin, isKin]) (opening_new reached new there opening kept)
    · obtain ⟨clientId, instant, said⟩ := rotation.spend
      obtain ⟨spend, inUnit, spends, wasRun, -⟩ := spend_event reached there said
      refine ⟨spend, inUnit, ?_, old, clientId, instant, last, spends⟩
      by_contra late
      apply unspendable spend wasRun (by omega) old clientId instant last spends
      rw [← rotation.grant.family, isKin]

/-- A unit spends one token. -/
theorem spends_one (here : CommittedAt world.past place commit) {first second : language.Event}
    (inside : first ∈ commit.work.events) (among : second ∈ commit.work.events)
    {clientId clientId' : String} {instant instant' : Instant} {spent spent' : RefreshToken}
    (said : first.told = told (.spendRefreshToken digest clientId instant) (some spent))
    (again : second.told = told (.spendRefreshToken digest clientId' instant') (some spent')) :
    first = second := by
  obtain ⟨-, once, -⟩ := committed_backed reached here _ (mem_script inside said)
  have counted : (commit.work.events.filter fun event => isRefreshSpend event.op).length = 1 := by
    rw [← List.countP_eq_length_filter]
    change (commit.work.events.map Event.told).countP _ = 1 at once
    rwa [List.countP_map] at once
  obtain ⟨only, isOnly⟩ := List.length_eq_one_iff.mp counted
  have same : ∀ event ∈ commit.work.events, isRefreshSpend event.op = true → event = only := by
    intro event there spends
    have kept : event ∈ commit.work.events.filter fun event => isRefreshSpend event.op :=
      List.mem_filter.mpr ⟨there, spends⟩
    rw [isOnly] at kept
    exact List.mem_singleton.mp kept
  have spending : ∀ event : language.Event, ∀ {client : String} {at_ : Instant} {token : RefreshToken},
      event.told = told (.spendRefreshToken digest client at_) (some token) →
      isRefreshSpend event.op = true := by
    intro event client at_ token told
    have op := congrArg Sigma.fst told
    change event.op = .spendRefreshToken digest client at_ at op
    rw [op]
    rfl
  rw [same first inside (spending first said), same second among (spending second again)]

/-- An answer with tokens is of a unit that kept the refresh token in it. -/
theorem tokens_answered {answered : Answered (calls app)} (inside : answered ∈ world.answered)
    {response : TokenResponse} (given : answered.answer = .tokens response) :
    ∃ token place commit, CommittedAt world.past place commit ∧ commit.pid = answered.pid ∧
      told (.insertRefreshToken token) true ∈ commit.work.log.script ∧ ResponseOf response token ∧
      response.accessToken.scopes ⊆ token.scopes ∧
      ∀ request asked, answered.call = .rotateRefreshToken request → request.scope = some asked →
        response.accessToken.scopes ⊆ Text.words asked := by
  have backed := (reached.logged (backedLogs app)).2 answered inside
  change AnswerBacked answered.call answered.answer answered.work.log at backed
  rw [given] at backed
  cases called : answered.call with
  | exchangeCode request =>
    rw [called] at backed
    obtain ⟨script, token, client, code, ended, inserted, -, ofToken, scopes⟩ := backed
    obtain ⟨place, commit, here, pid, -, rfl⟩ := commit_of_answered reached inside ended
    refine ⟨token, place, commit, here, pid, inserted, ofToken, ?_, nofun⟩
    rw [scopes]
    exact List.Subset.refl _
  | rotateRefreshToken request =>
    rw [called] at backed
    obtain ⟨script, token, ended, inserted, ofToken, narrowed⟩ := backed
    obtain ⟨place, commit, here, pid, -, rfl⟩ := commit_of_answered reached inside ended
    obtain ⟨within, ofAsked⟩ := narrowScopes_subset narrowed
    refine ⟨token, place, commit, here, pid, inserted, ofToken, within, ?_⟩
    rintro same asked ⟨⟩ asks
    exact ofAsked asked asks
  | _ =>
    rw [called] at backed
    cases backed

end Runs

/-- A unit that spent a token. -/
def Spends {app : App} (commit : Commit (calls app)) (digest : Bytes) (event : language.Event) : Prop :=
  event ∈ commit.work.events ∧ ∃ clientId instant spent,
    event.told = told (.spendRefreshToken digest clientId instant) (some spent)

/-- Over any interleaving of the calls: a token is spent by one statement; in
every state committed one token of a family at most is neither spent nor
revoked; and once a unit committed that revoked, of the tokens one of its
statements saw, one of a family, no statement that starts later spends any
token of that family. -/
theorem refresh_families_hold {app : App} {mode : Mode} {start : Db} {ids : List Drawn}
    {world : World (calls app)} (new : NewRealm start)
    (reached : Reachable (calls app) mode start ids world) :
    (∀ digest place other commit one first second, CommittedAt world.past place commit →
      CommittedAt world.past other one → Spends commit digest first → Spends one digest second →
      place = other ∧ first = second) ∧
    (∀ units ≤ world.past.length, ∀ digest digest' stored stored',
      Db.token (dbAt start world.past units) digest = some stored → stored.isLive →
      Db.token (dbAt start world.past units) digest' = some stored' → stored'.isLive →
      stored.token.family = stored'.token.family → digest = digest') ∧
    (∀ place commit, CommittedAt world.past place commit → ∀ revocation ∈ commit.work.events,
      ∀ digest stored, Db.token revocation.seen digest = some stored →
      covers revocation.op revocation.seen stored.token = true →
      ∀ spend ∈ world.ran, place < spend.started → ∀ digest' clientId instant spent,
      spend.told = told (.spendRefreshToken digest' clientId instant) (some spent) →
      spent.family ≠ stored.token.family) := by
  refine ⟨?_, ?_, ?_⟩
  · rintro digest place other commit one first second here there
      ⟨inside, clientId, instant, spent, said⟩ ⟨among, clientId', instant', spent', again⟩
    have same : place = other :=
      spent_once reached here there (mem_script inside said) (mem_script among again)
    subst same
    obtain rfl := here.unique there
    exact ⟨rfl, spends_one reached here inside among said again⟩
  · intro units within digest digest' stored stored' kept live kept' live' kin
    exact live_unique reached new within kept live kept' live' kin
  · intro place commit here revocation among digest stored saw covered spend ran later digest' clientId
      instant spent said
    obtain ⟨next, after, same, revoked⟩ := revoked_of_covers reached here among saw covered
    rw [Reachable.after_eq here] at after
    rw [← same]
    exact unspendable_of_revoked reached after revoked ran later said

/-- Along every chain of rotations: a refresh token keeps the grant of the one
its family was opened with, client, person, session and scopes, and ends with
its session at the latest; an access token says scopes of that grant only, and
of what its rotation asked. -/
theorem rotations_keep_their_grant {app : App} {mode : Mode} {start : Db} {ids : List Drawn}
    {world : World (calls app)} (new : NewRealm start)
    (reached : Reachable (calls app) mode start ids world) :
    (∀ units ≤ world.past.length, ∀ digest stored,
      Db.token (dbAt start world.past units) digest = some stored →
      (∃ place < units, ∃ commit first, CommittedAt world.past place commit ∧
        Opening commit first ∧ SameGrant first stored.token) ∧
      ∃ session, Db.session (dbAt start world.past units) stored.token.session = some session ∧
        stored.token.expiresAt ≤ session.expiresAt) ∧
    (∀ answered ∈ world.answered, ∀ response, answered.answer = .tokens response →
      ∃ place commit first token, CommittedAt world.past place commit ∧ commit.pid = answered.pid ∧
        told (.insertRefreshToken token) true ∈ commit.work.log.script ∧
        response.refreshToken = token.tokenDigest ∧ SameGrant first token ∧
        (∃ earlier ≤ place, ∃ opened, CommittedAt world.past earlier opened ∧ Opening opened first) ∧
        response.accessToken.clientId = first.clientId ∧
        response.accessToken.session = first.session ∧
        response.accessToken.scopes ⊆ first.scopes ∧
        ∀ request asked, answered.call = .rotateRefreshToken request → request.scope = some asked →
          response.accessToken.scopes ⊆ Text.words asked) := by
  refine ⟨?_, ?_⟩
  · intro units within digest stored kept
    refine ⟨family_opened reached new within kept, ?_⟩
    obtain ⟨place, before, commit, here, -, -, inserted⟩ := token_came reached new within kept
    obtain ⟨-, row, found, -, ends⟩ := insertion_cases reached new here inserted
    obtain ⟨next, there, moved⟩ := reached.grows movement before within (.session _) row found
    refine ⟨next, there, ?_⟩
    rw [moved.1]
    exact ends
  · intro answered inside response given
    obtain ⟨token, place, commit, here, pid, inserted, ofToken, scopes⟩ :=
      tokens_answered reached inside given
    obtain ⟨stored, kept, rfl⟩ := kept_of_inserted reached here inserted
    obtain ⟨earlier, before, opened, first, there, opening, grant⟩ :=
      family_opened reached new here.lt kept
    refine ⟨place, commit, first, stored.token, here, pid, inserted, ofToken.refreshToken, grant,
      ⟨earlier, by omega, opened, there, opening⟩, ofToken.clientId.trans grant.clientId,
      ofToken.session.trans grant.session, ?_, scopes.2⟩
    rw [← grant.scopes]
    exact scopes.1

/-- Keys that are served, and read nothing. -/
def homeKeys : KeyLibrary where
  served := true
  readsState _ := false
  readsProofAnswer _ := false
  finishAuthentication _ _ := .error .other
  readKey _ := none
  updateCredential _ _ := ⟨none, none⟩
  readsEnrollmentState _ := false
  readsEnrollmentAnswer _ := false
  finishRegistration _ _ := none

def homeApp : App where
  decode _ := some (List.replicate 32 0)
  readJson _ := none
  verify _ _ _ _ := false
  issuer := "https://home"
  challengeOf _ := "0000000000000000000000000000000000000000000"
  verifyPassword password hash := password = [1] && hash = "of ada"
  decoyHash := ""
  toLowercase := Text.toAsciiLowercase
  digestCounter kind _ := some [.ofNat kind]
  keyLibrary := homeKeys

def webClient : Client where
  clientId := "web"
  secretDigest := none
  allowsClientCredentials := false
  allowsAuthorizationCode := true
  redirectUris := ["https://web/back"]
  requiresConsent := true
  scopes := ["openid", "mail"]
  enabled := true

def ada : Person where
  id := 1
  username := "ada"
  email := none
  emailVerified := false
  enabled := true

def homeRealm : Db :=
  (((∅ : Db).insert (.client "web") webClient).insert (.person 1) ada).insert (.password 1) "of ada"

theorem homeRealm_new : NewRealm homeRealm where
  client clientId row found := by
    by_cases same : clientId = "web"
    · subst same
      obtain rfl : webClient = row := Option.some.inj found
      rfl
    · rw [homeRealm, Db.client, AList.lookup_insert_ne (by simp), AList.lookup_insert_ne (by simp),
        AList.lookup_insert_ne (by simpa using same)] at found
      cases found
  person id row found := by
    by_cases same : id = 1
    · subst same
      obtain rfl : ada = row := Option.some.inj found
      rfl
    · rw [homeRealm, Db.person, AList.lookup_insert_ne (by simp),
        AList.lookup_insert_ne (by simpa using same), AList.lookup_insert_ne (by simp)] at found
      cases found
  sessions _ := rfl
  pendings _ := rfl
  codes _ := rfl
  tokens _ := rfl
  consents _ _ := rfl
  totps _ := rfl
  codeAttempts _ := rfl
  securityKeys _ := rfl
  keyEnrollments _ := rfl
  loginFailures _ _ := rfl

def homeAnswers : (question : Ask) → Ans question
  | .now => 0
  | .hasFreeShare | .signs => true
  | .callerAddress => none
  | .knownBrowser _ | .keptBrowser => none
  | .startProof _ | .startEnrollment _ _ => none
  | .sealTotpSecret _ => none
  | .findTotpStep _ _ _ => .ok none

def homeParameters : AuthorizationParameters where
  responseType := some "code"
  clientId := some "web"
  redirectUri := some "https://web/back"
  scope := some "openid mail"
  state := none
  nonce := none
  codeChallenge := some "0000000000000000000000000000000000000000000"
  codeChallengeMethod := some "S256"
  prompt := none
  maxAge := none
  idTokenHint := none

def serves (call : Call) (drawn : List Drawn) : World.Served (calls homeApp) := ⟨call, homeAnswers, drawn⟩

def adaSignsIn : List (World.Served (calls homeApp)) :=
  [serves (.beginAuthorization homeParameters none) [.secret [10], .id 10],
    serves (.finishSignIn 10 [10] (.password "ada" [1])) [.secret [20], .id 20],
    serves (.answerConsent 10 [10] (some ⟨20, [20]⟩) .allow) [.secret [30]]]

def codeOfAda : CodeRequest where
  scope := none
  clientId := "web"
  clientSecretDigest := none
  code := [30]
  redirectUri := "https://web/back"
  codeVerifier := "0000000000000000000000000000000000000000000"

def tokenOfAda (digest : Bytes) : RefreshRequest where
  scope := some "openid"
  clientId := "web"
  clientSecretDigest := none
  refreshToken := digest

def adaRotates : List (World.Served (calls homeApp)) :=
  adaSignsIn ++ [serves (.exchangeCode codeOfAda) [.id 40, .secret [40]],
    serves (.rotateRefreshToken (tokenOfAda [40])) [.secret [50]]]

/-- What the rotation of a run answered: the scopes of the access token. -/
def scopesAnswered (world : World (calls homeApp)) : List (List String) :=
  world.answered.filterMap fun answered =>
    match answered.answer with
    | .tokens response => some response.accessToken.scopes
    | _ => none

theorem adaRotates_keeps : ∃ world, NewRealm homeRealm ∧
    Reachable (calls homeApp) .atomic homeRealm [] world ∧
    scopesAnswered world = [["openid"], ["openid", "mail"]] ∧
    ∃ stored, Db.token world.db [50] = some stored ∧
      ∃ place < world.past.length, ∃ commit first, CommittedAt world.past place commit ∧
        Opening commit first ∧ SameGrant first stored.token := by
  have ran : ((World.initial homeRealm []).serve .atomic 100 adaRotates).map
      (fun world => (scopesAnswered world, (Db.token world.db [50]).isSome)) =
        some ([["openid"], ["openid", "mail"]], true) := by
    decide +kernel
  obtain ⟨world, served, both⟩ := Option.map_eq_some_iff.mp ran
  obtain ⟨scopes, kept⟩ := Prod.mk.inj both
  obtain ⟨stored, found⟩ := Option.isSome_iff_exists.mp kept
  have reached := Reachable.initial.of_serve served
  refine ⟨world, homeRealm_new, reached, scopes, stored, found, ?_⟩
  rw [reached.db_eq] at found
  exact ((rotations_keep_their_grant homeRealm_new reached).1 _ (Nat.le_refl _) [50] stored found).1

theorem adaRotates_once : ∃ world, NewRealm homeRealm ∧
    Reachable (calls homeApp) .atomic homeRealm [] world ∧
    ∃ stored, Db.token world.db [50] = some stored ∧ stored.isLive ∧
      ∀ digest kin, Db.token world.db digest = some kin → kin.isLive →
        kin.token.family = stored.token.family → digest = [50] := by
  have ran : ((World.initial homeRealm []).serve .atomic 100 adaRotates).map
      (fun world => (Db.token world.db [50]).any StoredRefreshToken.isLive) = some true := by
    decide +kernel
  obtain ⟨world, served, kept⟩ := Option.map_eq_some_iff.mp ran
  obtain ⟨stored, found, live⟩ := (Option.any_eq_true _ _).mp kept
  have reached := Reachable.initial.of_serve served
  refine ⟨world, homeRealm_new, reached, stored, found, live, ?_⟩
  rw [reached.db_eq] at found ⊢
  intro digest kin there kinLive same
  exact (refresh_families_hold homeRealm_new reached).2.1 _ (Nat.le_refl _) digest [50] kin stored
    there kinLive found live same

end Saffui.Oidc
