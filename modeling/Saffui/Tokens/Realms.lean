import Mathlib.Logic.Relation
import Saffui.Tokens.Mint

/-!
# Tokens of many realms, minted and read back

The realms of a deployment share the binary, its clock and its signer, and
each has its own keys. A run makes keys, opens the newest key of a realm, and
mints tokens with a key so opened; the run keeps what was signed and what was
minted. Nothing takes a key out of a realm.

What a reading relies on is stated apart: the packages read back what they
write (`Lawful`), no key is of two realms (`KeysApart`), and a text presented
holds no signature but one that was made (`Unforged`).
-/

namespace Saffui.Tokens

open Foundation Json
open Text (utf8)

structure RealmScope where
  tenant : Uuid
  realm : Uuid
  deriving DecidableEq, Repr

/-- Verifies an access token against the keys of a realm, at an instant. -/
def verifyAccessToken (packages : TokenPackages) (issuer token : String) (keys : List SigningKey)
    (now : Instant) : Option AccessTokenClaims :=
  match verifyCompact packages token keys with
  | none => none
  | some verified =>
    if verified.tokenType ≠ some ACCESS_TOKEN_TYPE then none
    else readClaims verified.claims issuer now

/-- What was minted: for whom, at which instant. -/
inductive Minting where
  | access (subject : AccessTokenSubject) (now : Instant) (tokenId : Uuid)
  | identity (subject : IdentityTokenSubject) (now : Instant)

namespace Minting

def tokenType : Minting → String
  | .access _ _ _ => ACCESS_TOKEN_TYPE
  | .identity _ _ => IDENTITY_TOKEN_TYPE

def claims : Minting → SortedMap String Json
  | .access subject now tokenId => subject.claims (unixTimestamp now) tokenId
  | .identity subject now => subject.claims (unixTimestamp now)

end Minting

/-- Whether the second of an instant is an `i64`, as that of every instant the
`time` crate holds. -/
def Timed (instant : Instant) : Prop :=
  -2 ^ 63 ≤ unixTimestamp instant ∧ unixTimestamp instant < 2 ^ 63

def Minting.Timed : Minting → Prop
  | .access subject now _ =>
    Tokens.Timed now ∧ ∀ ends ∈ subject.roles.bind RoleClaims.ends, Tokens.Timed ends
  | .identity subject now => Tokens.Timed now ∧ Tokens.Timed subject.authenticatedAt

/-- A token of a realm, with the key that signed it. -/
structure Minted where
  realm : RealmScope
  key : SigningKey
  minting : Minting
  token : String

/-- A signature made: by which key, of which text. -/
structure Signature where
  publicJwk : Json
  input : String
  signature : Bytes

structure World where
  keys : RealmScope → List SigningKey
  opened : List (RealmScope × MintingKey)
  signed : List Signature
  minted : List Minted

def World.empty : World := ⟨fun _ => [], [], [], []⟩

section Run

variable (float : Rat → String)

/-- The signature of a minting under a key, added to what was signed. -/
def Minting.sign (minting : Minting) (key : SigningKey) (signature : Bytes) : Signature :=
  ⟨key.publicJwk, signingInput float key minting.tokenType minting.claims, signature⟩

inductive Step : World → World → Prop
  /-- A key is made for a realm. The list is in the order of the instants the
  nodes tell, so the new one may stand anywhere. -/
  | createKey (world : World) (realm : RealmScope) (key : SigningKey)
      (before after : List SigningKey) (kept : world.keys realm = before ++ after) :
      Step world { world with keys := Function.update world.keys realm (before ++ key :: after) }
  | openKey (world : World) (realm : RealmScope) (openSealed : SigningKey → Option Bytes)
      (key : MintingKey) (opens : openMintingKey openSealed (world.keys realm) = .ok key) :
      Step world { world with opened := (realm, key) :: world.opened }
  | mintAccess (world : World) (realm : RealmScope) (key : MintingKey)
      (sign : SignatureAlgorithm → Bytes → String → Option Bytes) (now : Instant) (tokenId : Uuid)
      (subject : AccessTokenSubject) (signature : Bytes) (issued : IssuedAccessToken)
      (held : (realm, key) ∈ world.opened)
      (timed : (Minting.access subject now tokenId).Timed)
      (signs : sign key.key.algorithm key.privateKey (signingInput float key.key ACCESS_TOKEN_TYPE
        (subject.claims (unixTimestamp now) tokenId)) = some signature)
      (mints : mintAccessToken float sign now (some tokenId) key subject = .ok issued) :
      Step world { world with
        signed := (Minting.access subject now tokenId).sign float key.key signature :: world.signed
        minted := ⟨realm, key.key, .access subject now tokenId, issued.token⟩ :: world.minted }
  | mintIdentity (world : World) (realm : RealmScope) (key : MintingKey)
      (sign : SignatureAlgorithm → Bytes → String → Option Bytes) (now : Instant)
      (subject : IdentityTokenSubject) (signature : Bytes) (token : String)
      (held : (realm, key) ∈ world.opened)
      (timed : (Minting.identity subject now).Timed)
      (signs : sign key.key.algorithm key.privateKey (signingInput float key.key
        IDENTITY_TOKEN_TYPE (subject.claims (unixTimestamp now))) = some signature)
      (mints : mintIdentityToken float sign now key subject = .ok token) :
      Step world { world with
        signed := (Minting.identity subject now).sign float key.key signature :: world.signed
        minted := ⟨realm, key.key, .identity subject now, token⟩ :: world.minted }

/-- The states a run comes to. -/
def Reachable (world : World) : Prop := Relation.ReflTransGen (Step float) World.empty world

/-- Whether no key is of two realms. -/
def KeysApart (world : World) : Prop :=
  ∀ one other, one ≠ other → ∀ key ∈ world.keys one, ∀ kept ∈ world.keys other,
    key.publicJwk ≠ kept.publicJwk

/-- The documents of a run: the header and the claims of each token minted. -/
def World.documents (world : World) : List (SortedMap String Json) :=
  world.minted.flatMap fun one => [header one.key one.minting.tokenType, one.minting.claims]

/-- What the packages are relied on for: the strict base64 of URLs, and a
document of the run that reads back from its text. -/
structure Lawful (packages : TokenPackages) (world : World) : Prop where
  decode : ∀ text, packages.decode text = Base64.decode text
  readJson : ∀ document ∈ world.documents, Kept (ofMap document id) →
    packages.readJson (utf8 ((ofMap document id).write float)) = some (ofMap document id)

/-- Whether a text presented holds no forged signature: what verifies under a
key of a realm is a text that key signed. -/
def Unforged (packages : TokenPackages) (world : World) (text : String) : Prop :=
  ∀ realm, ∀ key ∈ world.keys realm, ∀ input part signature, text = input ++ "." ++ part →
    packages.decode part = some signature →
    packages.verify key.algorithm key.publicJwk input signature = true →
    ∃ made ∈ world.signed, made.publicJwk = key.publicJwk ∧ made.input = input

/-- Whether not even another signature of a text that was signed verifies. -/
def StronglyUnforged (packages : TokenPackages) (world : World) (text : String) : Prop :=
  ∀ realm, ∀ key ∈ world.keys realm, ∀ input part signature, text = input ++ "." ++ part →
    packages.decode part = some signature →
    packages.verify key.algorithm key.publicJwk input signature = true →
    (⟨key.publicJwk, input, signature⟩ : Signature) ∈ world.signed

/-- What holds of every state of a run: a key opened is of its realm, and
every signature is that of a token minted. -/
structure Sound (world : World) : Prop where
  opened : ∀ entry ∈ world.opened, entry.2.key ∈ world.keys entry.1
  signed : ∀ made ∈ world.signed, ∃ one ∈ world.minted, one.key ∈ world.keys one.realm ∧
    one.minting.Timed ∧ made = one.minting.sign float one.key made.signature ∧
    one.token = made.input ++ "." ++ Base64.encode made.signature

variable {float}

theorem mem_update_keys {keys : RealmScope → List SigningKey} {realm other : RealmScope}
    {key kept : SigningKey} {before after : List SigningKey}
    (split : keys realm = before ++ after) (inside : kept ∈ keys other) :
    kept ∈ Function.update keys realm (before ++ key :: after) other := by
  by_cases same : other = realm
  · subst same
    rw [split] at inside
    rw [Function.update_self]
    rcases List.mem_append.mp inside with earlier | later
    · exact List.mem_append_left _ earlier
    · exact List.mem_append_right _ (List.mem_cons_of_mem _ later)
  · rw [Function.update_of_ne same]
    exact inside

theorem openMintingKey_mem {openSealed : SigningKey → Option Bytes} {keys : List SigningKey}
    {key : MintingKey} (opens : openMintingKey openSealed keys = .ok key) : key.key ∈ keys := by
  unfold openMintingKey openSigningKey at opens
  split at opens
  · cases opens
  · next found located =>
    split at opens
    · cases opens
    · cases opens
      exact List.mem_reverse.mp (List.mem_of_find?_eq_some located)

/-- A token minted with a key that was opened, and its signature kept. -/
theorem Sound.mint {world : World} {realm : RealmScope} {key : MintingKey} {minting : Minting}
    {token : String} {signature : Bytes} (sound : Sound float world)
    (held : (realm, key) ∈ world.opened) (timed : minting.Timed)
    (compact : token = signingInput float key.key minting.tokenType minting.claims ++ "." ++
      Base64.encode signature) :
    Sound float { world with
      signed := minting.sign float key.key signature :: world.signed
      minted := ⟨realm, key.key, minting, token⟩ :: world.minted } := by
  constructor
  · exact sound.opened
  · intro made inside
    rcases List.mem_cons.mp inside with rfl | earlier
    · exact ⟨_, List.mem_cons_self, sound.opened _ held, timed, rfl, compact⟩
    · obtain ⟨one, minted, kept⟩ := sound.signed made earlier
      exact ⟨one, List.mem_cons_of_mem _ minted, kept⟩

theorem Sound.step {world next : World} (sound : Sound float world) (step : Step float world next) :
    Sound float next := by
  cases step with
  | createKey realm key before after kept =>
    constructor
    · intro entry inside
      exact mem_update_keys kept (sound.opened entry inside)
    · intro made inside
      obtain ⟨one, minted, keyed, rest⟩ := sound.signed made inside
      exact ⟨one, minted, mem_update_keys kept keyed, rest⟩
  | openKey realm openSealed key opens =>
    constructor
    · intro entry inside
      rcases List.mem_cons.mp inside with rfl | earlier
      · exact openMintingKey_mem opens
      · exact sound.opened entry earlier
    · exact sound.signed
  | mintAccess realm key sign now tokenId subject signature issued held timed signs mints =>
    apply sound.mint held timed
    exact signClaims_token float sign signs (mintAccessToken_token float sign mints)
  | mintIdentity realm key sign now subject signature token held timed signs mints =>
    apply sound.mint held timed
    exact signClaims_token float sign signs mints

theorem Reachable.sound {world : World} (reached : Reachable float world) : Sound float world := by
  induction reached with
  | refl => exact ⟨by simp [World.empty], by simp [World.empty]⟩
  | tail _ step ih => exact ih.step step

/-- The parts of a text that are signed, where it has the shape of a token. -/
def signedParts (token : String) : Option (String × String) :=
  match Text.split '.' token with
  | [header, claims, _] => some (header, claims)
  | _ => none

theorem Minting.kept {minting : Minting} (timed : minting.Timed) : KeptMap minting.claims := by
  cases minting with
  | access subject now tokenId =>
    exact AccessTokenSubject.claims_kept tokenId timed.1.1 timed.1.2
      fun ends named => (timed.2 ends named).1
  | identity subject now => exact IdentityTokenSubject.claims_kept timed.1.1 timed.1.2 timed.2

theorem Lawful.readPart {packages : TokenPackages} {world : World}
    (lawful : Lawful float packages world) {document : SortedMap String Json}
    (written : document ∈ world.documents) (kept : KeptMap document) :
    readPart packages (Base64.encode (utf8 ((ofMap document id).write float))) =
      some (ofMap document id) := by
  rw [Tokens.readPart, lawful.decode, Base64.decode_encode]
  exact lawful.readJson document written kept.kept

/-- The three parts of a text that verifies, and the key that did. -/
theorem verifyCompact_some {packages : TokenPackages} {token : String} {keys : List SigningKey}
    {verified : VerifiedToken} (accepted : verifyCompact packages token keys = some verified) :
    ∃ header claims part read key signature,
      Text.split '.' token = [header, claims, part] ∧ readPart packages header = some read ∧
      key ∈ keys ∧ packages.decode part = some signature ∧
      packages.verify key.algorithm key.publicJwk (header ++ "." ++ claims) signature = true ∧
      readPart packages claims = some verified.claims ∧
      verified.tokenType = (read.index "typ").asStr := by
  unfold verifyCompact at accepted
  split at accepted
  · next header claims part split =>
    obtain ⟨read, header_read, accepted⟩ := Option.bind_eq_some_iff.mp accepted
    obtain ⟨key, found, accepted⟩ := Option.bind_eq_some_iff.mp accepted
    obtain ⟨algorithm, named, accepted⟩ := Option.bind_eq_some_iff.mp accepted
    split at accepted
    · cases accepted
    · obtain ⟨signature, decoded, accepted⟩ := Option.bind_eq_some_iff.mp accepted
      split at accepted
      · cases accepted
      · next verifies =>
        obtain ⟨body, claims_read, accepted⟩ := Option.bind_eq_some_iff.mp accepted
        cases accepted
        exact ⟨header, claims, part, read, key, signature, split, header_read,
          List.mem_of_find?_eq_some found, decoded, by simpa using verifies, claims_read, rfl⟩
  · cases accepted

theorem split_three {text header claims part : String}
    (split : Text.split '.' text = [header, claims, part]) :
    text = header ++ "." ++ claims ++ "." ++ part := by
  have joined := Text.intercalate_split '.' text
  rw [split] at joined
  apply String.toList_inj.mp
  rw [← joined]
  simp [List.intercalate]

/-- The parts of a token that was minted. -/
theorem split_token {input text : String} {first second : Bytes} (rest : String)
    (signed : input = Base64.encode first ++ "." ++ Base64.encode second)
    (joined : text = input ++ "." ++ rest) :
    Text.split '.' text = Base64.encode first :: Base64.encode second :: Text.split '.' rest := by
  have outside : Base64.read '.' = none := by decide
  have inner : (Base64.encode second ++ "." ++ rest).toList =
      (Base64.encode second).toList ++ '.' :: rest.toList := by
    simp
  have outer : text.toList =
      (Base64.encode first).toList ++ '.' :: (Base64.encode second ++ "." ++ rest).toList := by
    subst joined
    subst signed
    simp
  rw [Text.split_of_append (Base64.not_mem_encode outside first) outer,
    Text.split_of_append (Base64.not_mem_encode outside second) inner]

theorem split_encoded (signature : Bytes) :
    Text.split '.' (Base64.encode signature) = [Base64.encode signature] := by
  have outside : Base64.read '.' = none := by decide
  rw [Text.split, List.splitOn_eq_singleton (Base64.not_mem_encode outside signature)]
  simp

theorem index_header (key : SigningKey) (tokenType : String) (read : Json)
    (written : read = ofMap (header key tokenType) id) :
    (read.index "typ").asStr = some tokenType ∧ (read.index "kid").asStr = some key.keyId ∧
      (read.index "alg").asStr = some key.algorithm.name := by
  subst written
  simp only [index_ofMap]
  simp [header, gather, asStr]

/-- A token verifies under the key that signed it, where its realm lists no
other key of that name before it. -/
theorem verifyCompact_signed {packages : TokenPackages} {world : World} {key : SigningKey}
    {keys : List SigningKey} {tokenType : String} {claims : SortedMap String Json}
    {signature : Bytes} (lawful : Lawful float packages world)
    (headed : header key tokenType ∈ world.documents) (claimed : claims ∈ world.documents)
    (kept : KeptMap claims) (found : keys.find? (fun known => key.keyId = known.keyId) = some key)
    (verifies : packages.verify key.algorithm key.publicJwk
      (signingInput float key tokenType claims) signature = true) :
    verifyCompact packages (signingInput float key tokenType claims ++ "." ++
      Base64.encode signature) keys = some ⟨some tokenType, ofMap claims id⟩ := by
  obtain ⟨typ, kid, alg⟩ := index_header key tokenType _ rfl
  have algorithm : SignatureAlgorithm.parse key.algorithm.name = some key.algorithm := by
    cases key.algorithm
    rfl
  have decoded : packages.decode (Base64.encode signature) = some signature := by
    rw [lawful.decode, Base64.decode_encode]
  have signs := verifies
  unfold signingInput at signs
  have parts := split_token (Base64.encode signature)
    (rfl : signingInput float key tokenType claims = _) rfl
  rw [verifyCompact, parts, split_encoded]
  simp [lawful.readPart headed (header_kept key tokenType), lawful.readPart claimed kept, kid, alg,
    typ, found, algorithm, decoded, signs]

/-- The signature of a text presented, among those that were made. -/
theorem Unforged.made {packages : TokenPackages} {world : World} {text : String}
    (unforged : Unforged packages world text) {realm : RealmScope} {key : SigningKey}
    {input part : String} {signature : Bytes} (inside : key ∈ world.keys realm)
    (joined : text = input ++ "." ++ part) (decoded : packages.decode part = some signature)
    (verifies : packages.verify key.algorithm key.publicJwk input signature = true) :
    ∃ made ∈ world.signed, made.publicJwk = key.publicJwk ∧ made.input = input ∧
      (StronglyUnforged packages world text → made.signature = signature) := by
  by_cases strong : StronglyUnforged packages world text
  · exact ⟨_, strong realm key inside input part signature joined decoded verifies, rfl, rfl,
      fun _ => rfl⟩
  · obtain ⟨made, signed, named, same⟩ :=
      unforged realm key inside input part signature joined decoded verifies
    exact ⟨made, signed, named, same, fun impossible => absurd impossible strong⟩

/-- A text that verifies in a realm is a token the realm minted: its kind and
its claims are those that were minted. -/
theorem verified_minted {packages : TokenPackages} {world : World} {text : String}
    {realm : RealmScope} {verified : VerifiedToken} (lawful : Lawful float packages world)
    (reached : Reachable float world) (apart : KeysApart world)
    (unforged : Unforged packages world text)
    (accepted : verifyCompact packages text (world.keys realm) = some verified) :
    ∃ one ∈ world.minted, one.realm = realm ∧
      verified = ⟨some one.minting.tokenType, ofMap one.minting.claims id⟩ ∧
      (∃ parts, signedParts text = some parts ∧ signedParts one.token = some parts) ∧
      (StronglyUnforged packages world text → text = one.token) := by
  obtain ⟨first, second, part, read, key, signature, split, first_read, listed, decoded, verifies,
    second_read, kind⟩ := verifyCompact_some accepted
  have joined := split_three split
  obtain ⟨made, signed, named, same, strongly⟩ := unforged.made listed joined decoded verifies
  obtain ⟨one, minted, keyed, timed, sealed, token⟩ := reached.sound.signed made signed
  have at_home : one.realm = realm := by
    by_contra abroad
    have half : one.key.publicJwk = key.publicJwk := by
      rw [← named, sealed]
      rfl
    exact apart one.realm realm abroad one.key keyed key listed half
  have input : made.input = Base64.encode
      (utf8 ((ofMap (header one.key one.minting.tokenType) id).write float)) ++ "." ++
      Base64.encode (utf8 ((ofMap one.minting.claims id).write float)) := by
    rw [sealed]
    rfl
  have presented : text = made.input ++ "." ++ part := by
    rw [same]
    exact joined
  have parts := split_token part input presented
  rw [split] at parts
  obtain ⟨rfl, rest⟩ := List.cons.inj parts
  obtain ⟨rfl, -⟩ := List.cons.inj rest
  have header_read := lawful.readPart
    (List.mem_flatMap.mpr ⟨one, minted, List.mem_cons_self⟩)
    (header_kept one.key one.minting.tokenType)
  have claims_read := lawful.readPart
    (List.mem_flatMap.mpr ⟨one, minted, List.mem_cons_of_mem _ List.mem_cons_self⟩)
    (Minting.kept timed)
  have same_header : read = ofMap (header one.key one.minting.tokenType) id := by
    rw [first_read] at header_read
    exact Option.some.inj header_read
  have same_claims : verified.claims = ofMap one.minting.claims id := by
    rw [second_read] at claims_read
    exact Option.some.inj claims_read
  refine ⟨one, minted, at_home, ?_, ⟨_, by rw [signedParts, split], ?_⟩, ?_⟩
  · rw [(index_header _ _ read same_header).1] at kind
    cases verified
    simp only at kind same_claims
    rw [kind, same_claims]
  · rw [signedParts, split_token (Base64.encode made.signature) input token, split_encoded]
  · intro strong
    have written : Base64.encode made.signature = part := by
      rw [lawful.decode] at decoded
      rw [strongly strong]
      exact Base64.encode_decode decoded
    rw [token, written]
    exact presented

/-- What claims that read as those of an access token hold. -/
theorem readClaims_some {claims : Json} {issuer : String} {now : Instant}
    {read : AccessTokenClaims} (accepted : readClaims claims issuer now = some read) :
    (claims.index "iss").asStr = some issuer ∧ (claims.index "sub").asStr = some read.subject ∧
      (claims.index "client_id").asStr = some read.clientId ∧
      (∃ scope, (claims.index "scope").asStr = some scope ∧ read.scopes = Text.words scope) ∧
      (claims.index "exp").asI64 = some read.expiresAt ∧
      readSessionClaim claims = some read.session ∧ unixTimestamp now < read.expiresAt := by
  obtain ⟨expiresAt, expiry, accepted⟩ := Option.bind_eq_some_iff.mp accepted
  obtain ⟨issuedAt, issued, accepted⟩ := Option.bind_eq_some_iff.mp accepted
  split at accepted
  · cases accepted
  · next passes =>
    simp only [not_or, Decidable.not_not, not_le] at passes
    obtain ⟨subject, subject_read, accepted⟩ := Option.bind_eq_some_iff.mp accepted
    obtain ⟨clientId, client_read, accepted⟩ := Option.bind_eq_some_iff.mp accepted
    obtain ⟨scope, scope_read, accepted⟩ := Option.bind_eq_some_iff.mp accepted
    obtain ⟨tokenId, token_read, accepted⟩ := Option.bind_eq_some_iff.mp accepted
    obtain ⟨session, session_read, accepted⟩ := Option.bind_eq_some_iff.mp accepted
    cases accepted
    exact ⟨passes.1, subject_read, client_read, ⟨scope, scope_read, rfl⟩, expiry, session_read,
      passes.2.1⟩

/-- A scope that may be written is a word: it is not empty, and holds no blank. -/
theorem word_of_checkScopeToken {scope : String} (admitted : checkScopeToken scope = .ok ()) :
    scope ≠ "" ∧ ' ' ∉ scope.toList := by
  unfold checkScopeToken at admitted
  simp only at admitted
  split at admitted
  · next written =>
    obtain ⟨long, -, each⟩ := written
    constructor
    · intro empty
      subst empty
      exact absurd long (by decide)
    · intro inside
      have allowed := List.all_eq_true.mp each ' ' inside
      exact absurd allowed (by decide)
  · cases admitted

/-- What an access token says is what it was minted with. -/
theorem claims_of_access {subject : AccessTokenSubject} {issuedAt : Int} {tokenId : Uuid}
    {issuer : String} {now : Instant} {read : AccessTokenClaims}
    (accepted : readClaims (ofMap (subject.claims issuedAt tokenId) id) issuer now = some read) :
    subject.issuer = issuer ∧ read.subject = subject.subject ∧ read.clientId = subject.clientId ∧
      ((∀ scope ∈ subject.scopes, checkScopeToken scope = .ok ()) →
        read.scopes = subject.scopes) ∧
      read.session = subject.session ∧ read.expiresAt = subject.expiresAt issuedAt ∧
      now < read.expiresAt * 1000000 := by
  obtain ⟨issued, named, client, ⟨scope, joined, scopes⟩, expiry, session, live⟩ :=
    readClaims_some accepted
  obtain ⟨iss, sub, client_id, scope_claim, exp⟩ :=
    subject.index_claims issuedAt tokenId _ rfl
  rw [iss] at issued
  rw [sub] at named
  rw [client_id] at client
  rw [scope_claim] at joined
  rw [exp] at expiry
  rw [readSessionClaim_claims] at session
  refine ⟨Option.some.inj issued, (Option.some.inj named).symm, (Option.some.inj client).symm, ?_,
    (Option.some.inj session).symm, asI64_ofI64 expiry, ?_⟩
  · intro admitted
    rw [scopes, ← Option.some.inj joined]
    exact Text.words_intercalate fun scope inside => word_of_checkScopeToken (admitted scope inside)
  · have second : ∀ instant expiry : Int, instant / 1000000 < expiry → instant < expiry * 1000000 := by
      intro instant expiry
      omega
    exact second now read.expiresAt live

theorem kinds_apart : ACCESS_TOKEN_TYPE ≠ IDENTITY_TOKEN_TYPE := by decide

/-- Whether a text is a token a realm minted: the parts it signs are those of
the token, and where no second signature of a text verifies it is the text
itself. -/
def IsToken (packages : TokenPackages) (world : World) (text : String) (one : Minted) : Prop :=
  (∃ parts, signedParts text = some parts ∧ signedParts one.token = some parts) ∧
    (StronglyUnforged packages world text → text = one.token)

/-- A text a realm takes for an access token is one it minted, and reads as it
was minted. -/
theorem access_minted {packages : TokenPackages} {world : World} {text issuer : String}
    {realm : RealmScope} {now : Instant} {read : AccessTokenClaims}
    (reached : Reachable float world) (lawful : Lawful float packages world)
    (apart : KeysApart world) (unforged : Unforged packages world text)
    (accepted : verifyAccessToken packages issuer text (world.keys realm) now = some read) :
    ∃ one ∈ world.minted, one.realm = realm ∧ IsToken packages world text one ∧
      ∃ subject issued tokenId, one.minting = .access subject issued tokenId ∧
        subject.issuer = issuer ∧ read.subject = subject.subject ∧
        read.clientId = subject.clientId ∧
        ((∀ scope ∈ subject.scopes, checkScopeToken scope = .ok ()) →
          read.scopes = subject.scopes) ∧
        read.session = subject.session ∧
        read.expiresAt = subject.expiresAt (unixTimestamp issued) ∧
        now < read.expiresAt * 1000000 := by
  unfold verifyAccessToken at accepted
  split at accepted
  · cases accepted
  · next verified compact =>
    obtain ⟨one, minted, at_home, same, is_token⟩ :=
      verified_minted lawful reached apart unforged compact
    subst same
    split at accepted
    · cases accepted
    · next kind =>
      refine ⟨one, minted, at_home, is_token, ?_⟩
      cases named : one.minting with
      | access subject issued tokenId =>
        rw [named] at accepted
        exact ⟨subject, issued, tokenId, rfl, claims_of_access accepted⟩
      | identity subject issued =>
        rw [named] at kind
        exact (kind fun same => kinds_apart (Option.some.inj same).symm).elim

/-- Whatever a run over many realms did, what a realm takes for an access
token is one it minted under that issuer, still to expire, and reads as it was
minted; what it takes for a hint is an identity token it minted, of the client,
the session and the person it names. -/
theorem tokens_never_confused {packages : TokenPackages} {world : World} {text : String}
    (reached : Reachable float world) (lawful : Lawful float packages world)
    (apart : KeysApart world) (unforged : Unforged packages world text) (realm : RealmScope)
    (issuer : String) :
    (∀ now read, verifyAccessToken packages issuer text (world.keys realm) now = some read →
      ∃ one ∈ world.minted, one.realm = realm ∧ IsToken packages world text one ∧
        ∃ subject issued tokenId, one.minting = .access subject issued tokenId ∧
          subject.issuer = issuer ∧ read.subject = subject.subject ∧
          read.clientId = subject.clientId ∧
          ((∀ scope ∈ subject.scopes, checkScopeToken scope = .ok ()) →
            read.scopes = subject.scopes) ∧
          read.session = subject.session ∧
          read.expiresAt = subject.expiresAt (unixTimestamp issued) ∧
          now < read.expiresAt * 1000000) ∧
    (∀ hint, readIdentityHint packages issuer text (world.keys realm) = some hint →
      ∃ one ∈ world.minted, one.realm = realm ∧ IsToken packages world text one ∧
        ∃ subject issued, one.minting = .identity subject issued ∧ subject.issuer = issuer ∧
          hint.clientId = subject.clientId ∧ hint.session = subject.session ∧
          hint.subject = subject.person.id.text) := by
  constructor
  · intro now read accepted
    exact access_minted reached lawful apart unforged accepted
  · intro hint accepted
    obtain ⟨verified, compact, accepted⟩ := Option.bind_eq_some_iff.mp accepted
    obtain ⟨one, minted, at_home, same, is_token⟩ :=
      verified_minted lawful reached apart unforged compact
    subst same
    simp only at accepted
    split at accepted
    · cases accepted
    · next passes =>
      simp only [not_or, Decidable.not_not] at passes
      obtain ⟨kind, issued_by⟩ := passes
      refine ⟨one, minted, at_home, is_token, ?_⟩
      cases named : one.minting with
      | access subject issued tokenId =>
        rw [named] at kind
        exact (kinds_apart (Option.some.inj kind)).elim
      | identity subject issued =>
        rw [named] at accepted issued_by
        obtain ⟨iss, sub, aud, sid⟩ := subject.index_claims (unixTimestamp issued) _ rfl
        simp only [Minting.claims, aud, sid, sub] at accepted
        simp only [Minting.claims, iss] at issued_by
        simp only [asStr, Option.bind_some, Uuid.parse_text, Option.bind_eq_bind] at accepted
        cases accepted
        exact ⟨subject, issued, rfl, Option.some.inj issued_by, rfl, rfl, rfl⟩

end Run

def billingRealm : RealmScope := ⟨1, 2⟩

def billingKey : SigningKey := ⟨"k1", .es256, .object [("crv", .string "P-256")]⟩

def billingSubject : AccessTokenSubject where
  issuer := "http://id/realms/r"
  subject := "billing"
  clientId := "billing"
  scopes := ["read", "admin"]
  session := none
  roles := none

def billingSignature : Bytes := [1, 2, 3]

def writeNoFloat (_ : Rat) : String := "0.0"

def billingMinting : Minting := .access billingSubject 10000000 7

def billingInput : String :=
  signingInput writeNoFloat billingKey billingMinting.tokenType billingMinting.claims

def billingToken : String := billingInput ++ "." ++ Base64.encode billingSignature

def billingWorld : World where
  keys := Function.update (fun _ => []) billingRealm [billingKey]
  opened := [(billingRealm, ⟨billingKey, [0]⟩)]
  signed := [billingMinting.sign writeNoFloat billingKey billingSignature]
  minted := [⟨billingRealm, billingKey, billingMinting, billingToken⟩]

def billingDocuments : List Json :=
  [ofMap (header billingKey billingMinting.tokenType) id, ofMap billingMinting.claims id]

/-- Packages that read the two documents of that token, and know its signature. -/
def billingPackages : TokenPackages where
  decode := Base64.decode
  readJson := fun bytes => billingDocuments.find? fun json => utf8 (json.write writeNoFloat) = bytes
  verify := fun _ jwk input signature =>
    jwk = billingKey.publicJwk && input = billingInput && signature = billingSignature

theorem billingMinting_timed : billingMinting.Timed := by
  refine ⟨⟨by decide, by decide⟩, ?_⟩
  intro ends named
  cases named

theorem billingWorld_reached : Reachable writeNoFloat billingWorld := by
  have made : Reachable writeNoFloat
      ⟨Function.update (fun _ => []) billingRealm [billingKey], [], [], []⟩ :=
    .single (.createKey World.empty billingRealm billingKey [] [] rfl)
  have opened : Reachable writeNoFloat
      ⟨Function.update (fun _ => []) billingRealm [billingKey],
        [(billingRealm, ⟨billingKey, [0]⟩)], [], []⟩ :=
    made.tail (.openKey _ billingRealm (fun _ => some [0]) ⟨billingKey, [0]⟩ (by decide))
  exact opened.tail (.mintAccess _ billingRealm ⟨billingKey, [0]⟩
    (fun _ _ _ => some billingSignature) 10000000 7 billingSubject billingSignature
    ⟨billingToken, 300, "read admin"⟩ List.mem_cons_self billingMinting_timed rfl rfl)

theorem billingWorld_lawful : Lawful writeNoFloat billingPackages billingWorld := by
  constructor
  · intro text
    rfl
  · intro document written _
    have either : document = header billingKey billingMinting.tokenType ∨
        document = billingMinting.claims := by
      simpa [World.documents, billingWorld] using written
    rcases either with rfl | rfl
    · decide
    · decide +kernel

theorem billingToken_read : verifyAccessToken billingPackages "http://id/realms/r" billingToken
    (billingWorld.keys billingRealm) 20000000 =
    some ⟨"billing", "billing", ["read", "admin"], (7 : Uuid).text, 10, 310, none⟩ := by
  have verified : verifyCompact billingPackages billingToken (billingWorld.keys billingRealm) =
      some ⟨some ACCESS_TOKEN_TYPE, ofMap billingMinting.claims id⟩ := by
    apply verifyCompact_signed billingWorld_lawful
    · exact List.mem_cons_self
    · exact List.mem_cons_of_mem _ List.mem_cons_self
    · exact Minting.kept billingMinting_timed
    · rfl
    · simp [billingPackages, billingInput]
  rw [verifyAccessToken, verified]
  decide

theorem billingWorld_keysApart : KeysApart billingWorld := by
  intro one other different key inside kept also
  have home : ∀ realm kept, kept ∈ billingWorld.keys realm → realm = billingRealm := by
    intro realm kept inside
    by_contra abroad
    change kept ∈ Function.update (fun _ => []) billingRealm [billingKey] realm at inside
    rw [Function.update_of_ne abroad] at inside
    cases inside
  exact absurd ((home one key inside).trans (home other kept also).symm) different

theorem billingToken_unforged (text : String) : Unforged billingPackages billingWorld text := by
  intro realm key inside input part signature joined decoded verifies
  simp only [billingPackages, Bool.and_eq_true, decide_eq_true_eq] at verifies
  obtain ⟨⟨jwk, same⟩, -⟩ := verifies
  exact ⟨_, List.mem_singleton.mpr rfl, jwk.symm, same.symm⟩

theorem billingToken_minted :
    verifyAccessToken billingPackages "http://id/realms/r" billingToken
      (billingWorld.keys billingRealm) 20000000 =
      some ⟨"billing", "billing", ["read", "admin"], (7 : Uuid).text, 10, 310, none⟩ ∧
    ∃ one ∈ billingWorld.minted, one.realm = billingRealm ∧
      IsToken billingPackages billingWorld billingToken one := by
  have confused := tokens_never_confused billingWorld_reached billingWorld_lawful
    billingWorld_keysApart (billingToken_unforged billingToken) billingRealm "http://id/realms/r"
  obtain ⟨one, minted, at_home, is_token, -⟩ := confused.1 _ _ billingToken_read
  exact ⟨billingToken_read, one, minted, at_home, is_token⟩

end Saffui.Tokens
