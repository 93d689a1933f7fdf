import Mathlib.Data.List.TakeWhile
import Saffui.Foundation.Percent
import Saffui.Authz.Admin

/-!
# Where a browser is sent back

Source: `saffui-core/src/oidc/authorize.rs` (`write_query_value`,
`write_return_location`), `oidc/logout.rs` (`write_return_location`) and
`clients/mod.rs` (`check_redirect_uri`). The answer of an authorization is
written after an address that was registered; a form decoder reads from what
was written the parameters that were given, and nothing of them leaves the
query. An address of plain http is one of this machine.
-/

namespace Saffui.Redirects
open Foundation Authz.Admin

/-- The longest state that is sent back after a sign-out, in bytes. -/
def STATE_MAX_BYTES : Nat := 512

def isUnreserved (byte : UInt8) : Bool :=
  Text.isAsciiAlphanumeric (Char.ofNat byte.toNat) || Char.ofNat byte.toNat ∈ ['-', '.', '_', '~']

/-- A value percent-encoded for a query. -/
def writeQueryValue (value : String) : List Char := Percent.encode isUnreserved (Text.utf8 value)

/-- What joins parameters to an address. -/
def separator (address : List Char) : Char := if '?' ∈ address then '&' else '?'

/-- The redirection back to the client. -/
def writeReturnLocation (redirectUri issuer : String) (state : Option String)
    (answer : List (String × String)) : String :=
  let state := match state with
    | none => []
    | some state => "state=".toList ++ writeQueryValue state ++ ['&']
  String.ofList (redirectUri.toList ++ separator redirectUri.toList ::
    (answer.flatMap (fun pair => pair.1.toList ++ '=' :: writeQueryValue pair.2 ++ ['&']) ++
      state ++ "iss=".toList ++ writeQueryValue issuer))

/-- Where the browser goes after a sign-out. -/
def writeLogoutLocation (registered : String) (state : Option String) : String :=
  match state.filter fun state => state.utf8ByteSize ≤ STATE_MAX_BYTES with
  | none => registered
  | some state => String.ofList (registered.toList ++ separator registered.toList ::
    ("state=".toList ++ writeQueryValue state))

/-- What the authorization endpoint answers. -/
inductive Answer where
  | code (text : String)
  | error (name : String)
  deriving DecidableEq, Repr

/-- The one parameter the callers give. -/
def Answer.parameter : Answer → String × String
  | .code text => ("code", text)
  | .error name => ("error", name)

/-- The query of an address that has no fragment. -/
def queryOf (address : List Char) : List Char :=
  (address.dropWhile fun character => character ≠ '?').tail

/-- A parameter as the bytes a form decoder reads. -/
def readAs (pair : String × String) : List UInt8 × List UInt8 :=
  (Text.utf8 pair.1, Text.utf8 pair.2)

theorem isUnreserved_plain : Percent.Plain isUnreserved := by
  have each : ∀ value < 256, (Text.isAsciiAlphanumeric (Char.ofNat value) ||
      decide (Char.ofNat value ∈ ['-', '.', '_', '~'])) = true →
      value < 128 ∧ Char.ofNat value ∉ Percent.MARKS := by
    decide +kernel
  intro byte kept
  exact each byte.toNat byte.toNat_lt kept

/-- A parameter as it stands in a query. -/
def writeParameter (pair : String × String) : List Char :=
  pair.1.toList ++ '=' :: writeQueryValue pair.2

/-- The names the product gives. -/
def NAMES : List String := ["code", "error", "state", "iss"]

/-- A parameter under one of the names reads back. -/
theorem decodeForm_parameter {pair : String × String} (among : pair.1 ∈ NAMES) :
    Percent.decodeForm (writeParameter pair) = [readAs pair] := by
  have named : ∀ name ∈ NAMES, '&' ∉ name.toList ∧ '=' ∉ name.toList ∧
      Percent.decodeComponent name.toList = Text.utf8 name := by
    decide
  obtain ⟨joined, whole, bytes⟩ := named pair.1 among
  rw [writeParameter, writeQueryValue, Percent.decodeForm_pair isUnreserved_plain _ joined whole,
    bytes]
  rfl

theorem not_mem_parameter {pair : String × String} (among : pair.1 ∈ NAMES) {mark : Char}
    (marked : mark ∈ ['#', '?']) : mark ∉ writeParameter pair := by
  have named : ∀ name ∈ NAMES, '#' ∉ name.toList ∧ '?' ∉ name.toList := by
    decide
  obtain ⟨plain, bare⟩ := named pair.1 among
  have unnamed : mark ∉ pair.1.toList ∧ mark ∈ Percent.MARKS ∧ mark ≠ '%' ∧ mark ≠ '=' := by
    rcases List.mem_pair.mp marked with rfl | rfl
    · exact ⟨plain, by decide, by decide, by decide⟩
    · exact ⟨bare, by decide, by decide, by decide⟩
  obtain ⟨apart, kind, other, sign⟩ := unnamed
  have absent := Percent.not_mem_encode isUnreserved_plain (Text.utf8 pair.2) kind other
  simp [writeParameter, writeQueryValue, apart, absent, sign]

/-- What is written after an address and its separator. -/
def added (issuer : String) (state : Option String) (answer : Answer) : List Char :=
  let last := match state with
    | none => writeParameter ("iss", issuer)
    | some state => writeParameter ("state", state) ++ '&' :: writeParameter ("iss", issuer)
  writeParameter answer.parameter ++ '&' :: last

/-- The parameters that are given back. -/
def given (issuer : String) (state : Option String) (answer : Answer) : List (String × String) :=
  answer.parameter :: (state.toList.map fun state => ("state", state)) ++ [("iss", issuer)]

theorem writeReturnLocation_eq (redirectUri issuer : String) (state : Option String)
    (answer : Answer) :
    (writeReturnLocation redirectUri issuer state [answer.parameter]).toList =
      redirectUri.toList ++ separator redirectUri.toList :: added issuer state answer := by
  cases state <;> simp [writeReturnLocation, added, writeParameter]

theorem Answer.parameter_named (answer : Answer) : answer.parameter.1 ∈ NAMES := by
  cases answer <;> simp [Answer.parameter, NAMES]

/-- What was added is read as what was given. -/
theorem decodeForm_added (issuer : String) (state : Option String) (answer : Answer) :
    Percent.decodeForm (added issuer state answer) = (given issuer state answer).map readAs := by
  have first := decodeForm_parameter answer.parameter_named
  have last : Percent.decodeForm (writeParameter ("iss", issuer)) = [readAs ("iss", issuer)] :=
    decodeForm_parameter (by simp [NAMES])
  cases state with
  | none =>
    rw [added, Percent.decodeForm_append, first, last]
    rfl
  | some state =>
    have second : Percent.decodeForm (writeParameter ("state", state)) =
        [readAs ("state", state)] := decodeForm_parameter (by simp [NAMES])
    rw [added, Percent.decodeForm_append, first]
    simp only [Percent.decodeForm_append, second, last]
    rfl

theorem not_mem_added (issuer : String) (state : Option String) (answer : Answer) {mark : Char}
    (marked : mark ∈ ['#', '?']) : mark ∉ added issuer state answer := by
  have first := not_mem_parameter answer.parameter_named marked
  have last : mark ∉ writeParameter ("iss", issuer) := not_mem_parameter (by simp [NAMES]) marked
  have joined : mark ≠ '&' := by
    rintro rfl
    exact absurd marked (by decide)
  cases state with
  | none => simp [added, first, last, joined]
  | some state =>
    have second : mark ∉ writeParameter ("state", state) := not_mem_parameter (by simp [NAMES]) marked
    simp [added, first, second, last, joined]

/-- A text is passed over up to a mark it does not hold. -/
theorem passes {mark : Char} {text : List Char} (absent : mark ∉ text) :
    ∀ character ∈ text, decide (character ≠ mark) = true := by
  intro character inside
  simp only [decide_eq_true_eq]
  exact fun same => absent (same ▸ inside)

theorem queryOf_append {before : List Char} (absent : '?' ∉ before) (after : List Char) :
    queryOf (before ++ '?' :: after) = after := by
  rw [queryOf, List.dropWhile_append_of_pos (passes absent)]
  simp

/-- The query of an address that was added to: what it had, and what was
added. -/
theorem decodeForm_query (address more : List Char) :
    Percent.decodeForm (queryOf (address ++ separator address :: more)) =
      Percent.decodeForm (queryOf address) ++ Percent.decodeForm more := by
  by_cases asked : '?' ∈ address
  · obtain ⟨before, after, whole, absent⟩ := List.eq_append_cons_of_mem asked
    rw [separator, if_pos asked, whole, List.append_assoc, List.cons_append,
      queryOf_append absent, queryOf_append absent, Percent.decodeForm_append]
  · have none : queryOf address = [] := by
      rw [queryOf, ← List.append_nil address, List.dropWhile_append_of_pos (passes asked)]
      rfl
    rw [separator, if_neg asked, queryOf_append asked, none]
    rfl

/-- What stands before the path and the query of an address. -/
def authorityOf (rest : List Char) : List Char :=
  rest.takeWhile fun character => character ≠ '/' && character ≠ '?'

def LOOPBACK : List String := ["localhost", "127.0.0.1", "::1"]

/-- What `check_redirect_uri` admits. -/
structure Admitted (address : String) (secure : Bool) (rest : List Char) : Prop where
  scheme : address.toList = (if secure then "https://" else "http://").toList ++ rest
  fragment : '#' ∉ address.toList
  credentials : '@' ∉ authorityOf rest
  host : readHost (authorityOf rest) ≠ []
  isLocal : secure = false → String.ofList (readHost (authorityOf rest)) ∈ LOOPBACK

theorem strip_eq_some {start text rest : List Char} (stripped : strip start text = some rest) :
    text = start ++ rest := by
  unfold strip at stripped
  split at stripped
  · next starts =>
    obtain ⟨more, rfl⟩ := List.isPrefixOf_iff_prefix.mp starts
    cases stripped
    simp
  · cases stripped

theorem admitted_of_accepted {address : String} (accepted : checkRedirectUri address = .ok ()) :
    ∃ secure rest, Admitted address secure rest := by
  unfold checkRedirectUri at accepted
  simp only at accepted
  split at accepted
  · cases accepted
  · next secure rest read =>
    split at accepted
    · next admitted =>
      obtain ⟨⟨-, fragment, -⟩, host, credentials, either⟩ := admitted
      refine ⟨secure, rest, ?_, fragment, credentials, host, ?_⟩
      · split at read
        · next stripped =>
          cases read
          simpa using strip_eq_some stripped
        · obtain ⟨found, stripped, same⟩ := Option.map_eq_some_iff.mp read
          cases same
          simpa using strip_eq_some stripped
      · intro plain
        rcases either with secured | near
        · rw [plain] at secured
          cases secured
        · exact near
    · cases accepted

/-- The location a client is answered at starts with its address, has no
fragment, and its query is read as that of the address followed by the
parameters of the answer, the state and the issuer; so is the location after a
sign-out, of its state alone. -/
theorem locations_read_back (address : String)
    (accepted : checkRedirectUri address = .ok ()) (issuer : String)
    (state : Option String) (answer : Answer) :
    (∃ more, (writeReturnLocation address issuer state [answer.parameter]).toList =
        address.toList ++ separator address.toList :: more ∧
      Percent.decodeForm more = (given issuer state answer).map readAs ∧
      '#' ∉ address.toList ++ separator address.toList :: more ∧
      Percent.decodeForm (queryOf (address.toList ++ separator address.toList :: more)) =
        Percent.decodeForm (queryOf address.toList) ++ (given issuer state answer).map readAs) ∧
    (address.toList <+: (writeLogoutLocation address state).toList ∧
      '#' ∉ (writeLogoutLocation address state).toList ∧
      Percent.decodeForm (queryOf (writeLogoutLocation address state).toList) =
        Percent.decodeForm (queryOf address.toList) ++
          ((state.filter fun state => state.utf8ByteSize ≤ STATE_MAX_BYTES).toList.map
            fun state => readAs ("state", state))) := by
  obtain ⟨secure, rest, admitted⟩ := admitted_of_accepted accepted
  have plain := admitted.fragment
  have joined : '#' ≠ separator address.toList := by
    unfold separator
    split <;> decide
  constructor
  · refine ⟨added issuer state answer, writeReturnLocation_eq address issuer state answer,
      decodeForm_added issuer state answer, ?_, ?_⟩
    · simp [plain, joined, not_mem_added issuer state answer (by decide : '#' ∈ ['#', '?'])]
    · rw [decodeForm_query, decodeForm_added]
  · unfold writeLogoutLocation
    cases state.filter fun state => state.utf8ByteSize ≤ STATE_MAX_BYTES with
    | none => simp [plain]
    | some state =>
      have named : ("state", state).1 ∈ NAMES := by simp [NAMES]
      have written : "state=".toList ++ writeQueryValue state = writeParameter ("state", state) := by
        simp [writeParameter]
      simp only [written, String.toList_ofList]
      refine ⟨List.prefix_append _ _, ?_, ?_⟩
      · simp [plain, joined, not_mem_parameter named (by decide : '#' ∈ ['#', '?'])]
      · rw [decodeForm_query, decodeForm_parameter named]
        rfl

/-- A state of separators, of a fragment and of a letter past ASCII comes back
as it was. -/
theorem separatorsState_reads_back :
    checkRedirectUri "https://app.example.org/cb?tenant=one" = .ok () ∧
    ∃ more, (writeReturnLocation "https://app.example.org/cb?tenant=one" "https://id.example.org"
        (some "a&code=x#é") [("code", "s3")]).toList =
        "https://app.example.org/cb?tenant=one".toList ++ '&' :: more ∧
      Percent.decodeForm more = [readAs ("code", "s3"), readAs ("state", "a&code=x#é"),
        readAs ("iss", "https://id.example.org")] := by
  have accepted : checkRedirectUri "https://app.example.org/cb?tenant=one" = .ok () := by
    decide
  obtain ⟨more, written, read, -⟩ := (locations_read_back _ accepted "https://id.example.org"
    (some "a&code=x#é") (.code "s3")).1
  exact ⟨accepted, more, written, read⟩

def isPort (text : List Char) : Bool :=
  match text with
  | [] => true
  | ':' :: digits => digits.all Text.isAsciiDigit
  | _ => false

/-- What an address literal may be, between its brackets: the characters of an
IPv6 address with two colons at least, or a version. -/
def mayBeLiteral (text : List Char) : Bool :=
  (text.all (fun character => (Uuid.readHexDigit character).isSome || character = ':' ||
    character = '.') && 2 ≤ text.count ':') || text.head? = some 'v'

/-- The characters of a registered name: unreserved, encoded or delimiters. -/
def isNameCharacter (character : Char) : Bool :=
  Text.isAsciiAlphanumeric character || character ∈ "-._~%!$&'()*+,;=".toList

/-- The host of a place, before its port; nothing where it is not one. -/
def readPlace (place : List Char) : Option (List Char) :=
  match place with
  | '[' :: inside =>
    match inside.dropWhile fun character => character ≠ ']' with
    | ']' :: port =>
      let literal := inside.takeWhile fun character => character ≠ ']'
      if mayBeLiteral literal && isPort port then some ('[' :: literal ++ [']']) else none
    | _ => none
  | place =>
    let name := place.takeWhile fun character => character ≠ ':'
    let port := place.dropWhile fun character => character ≠ ':'
    if name ≠ [] && name.all isNameCharacter && isPort port then some name else none

/-- The host a reader of URLs takes from an address of plain http, with the
grammar of RFC 3986: nothing where the address is not a URL. -/
def readUrlHost (address : List Char) : Option (List Char) := do
  let rest ← strip "http://".toList address
  let authority := rest.takeWhile fun character =>
    character ≠ '/' && character ≠ '?' && character ≠ '#'
  readPlace (authority.reverse.takeWhile fun character => character ≠ '@').reverse

/-- The hosts of this machine, as a reader of URLs names them. -/
def isLoopback (host : List Char) : Bool :=
  host ∈ ["localhost".toList, "127.0.0.1".toList, "[::1]".toList]

/-- Nothing but a port follows the host of an authority, and brackets stand
around an IPv6 address alone. -/
def endsWithPort (authority : List Char) : Bool :=
  if ']' ∈ authority then
    match strip "[::1]".toList authority with
    | some port => isPort port
    | none => false
  else isPort (authority.dropWhile fun character => character ≠ ':')

example : readUrlHost "http://[::1]:8080/cb".toList = some "[::1]".toList ∧
    readUrlHost "http://localhost:abc/".toList = none := by
  decide

theorem takeWhile_congr {α : Type} {one other : α → Bool} {list : List α}
    (same : ∀ value ∈ list, one value = other value) : list.takeWhile one = list.takeWhile other := by
  induction list with
  | nil => rfl
  | cons head tail ih =>
    obtain ⟨here, rest⟩ := List.forall_mem_cons.mp same
    rw [List.takeWhile_cons, List.takeWhile_cons, here, ih rest]

/-- The place a reader of URLs looks for the host in is the whole authority. -/
theorem readUrlHost_eq {address : String} {rest : List Char}
    (admitted : Admitted address false rest) :
    readUrlHost address.toList = readPlace (authorityOf rest) := by
  have scheme : address.toList = "http://".toList ++ rest := admitted.scheme
  have stripped : strip "http://".toList address.toList = some rest := by
    rw [strip, scheme, if_pos (List.isPrefixOf_iff_prefix.mpr (List.prefix_append _ _)),
      List.drop_left]
  have plain : '#' ∉ rest := by
    intro inside
    apply admitted.fragment
    rw [scheme]
    exact List.mem_append_right _ inside
  have same : (rest.takeWhile fun character =>
      character ≠ '/' && character ≠ '?' && character ≠ '#') = authorityOf rest := by
    apply takeWhile_congr
    intro character inside
    have other : character ≠ '#' := fun equal => plain (equal ▸ inside)
    simp [other]
  have whole : (authorityOf rest).reverse.takeWhile (fun character => character ≠ '@') =
      (authorityOf rest).reverse := by
    have absent : '@' ∉ (authorityOf rest).reverse := by simpa using admitted.credentials
    rw [← List.append_nil (authorityOf rest).reverse, List.takeWhile_append_of_pos (passes absent)]
    rfl
  rw [readUrlHost, stripped]
  simp only [Option.bind_eq_bind, Option.bind_some, same, whole, List.reverse_reverse]

/-- The name and the port of a place that no bracket opens. -/
theorem readPlace_plain {first : Char} {tail : List Char} (other : first ≠ '[') :
    readPlace (first :: tail) =
      let name := (first :: tail).takeWhile fun character => character ≠ ':'
      let port := (first :: tail).dropWhile fun character => character ≠ ':'
      if name ≠ [] && name.all isNameCharacter && isPort port then some name else none := by
  rw [readPlace]
  intro inside same
  exact absurd (List.cons.inj same).1 other

/-- A host without brackets: the reader takes it where a port alone follows. -/
theorem readPlace_bare {authority : List Char} (bare : ']' ∉ authority)
    (near : String.ofList (readHost authority) ∈ LOOPBACK) :
    isLoopback (readHost authority) ∧
      readPlace authority = (if endsWithPort authority then some (readHost authority) else none) := by
  have host : readHost authority = authority.takeWhile fun character => character ≠ ':' := by
    rw [readHost, if_neg bare]
  have port : endsWithPort authority =
      isPort (authority.dropWhile fun character => character ≠ ':') := by
    rw [endsWithPort, if_neg bare]
  have uncolon : ':' ∉ readHost authority := by
    rw [host]
    intro inside
    have passed := List.mem_takeWhile_imp inside
    simp at passed
  have named : readHost authority = "localhost".toList ∨ readHost authority = "127.0.0.1".toList := by
    simp only [LOOPBACK, List.mem_cons, List.not_mem_nil, or_false] at near
    rcases near with same | same | same
    · exact Or.inl (by rw [← same, String.toList_ofList])
    · exact Or.inr (by rw [← same, String.toList_ofList])
    · have equal : readHost authority = "::1".toList := by rw [← same, String.toList_ofList]
      rw [equal] at uncolon
      exact absurd (by decide : ':' ∈ "::1".toList) uncolon
  have whole : authority =
      readHost authority ++ authority.dropWhile fun character => character ≠ ':' := by
    rw [host, List.takeWhile_append_dropWhile]
  constructor
  · rcases named with same | same <;> rw [same] <;> decide
  · have opens : ∃ first tail, authority = first :: tail ∧ first ≠ '[' := by
      rcases named with same | same <;> rw [same] at whole <;>
        exact ⟨_, _, whole, by decide⟩
    obtain ⟨first, tail, split, other⟩ := opens
    have letters : (readHost authority).all isNameCharacter ∧ readHost authority ≠ [] := by
      rcases named with same | same <;> rw [same] <;> decide
    rw [port, split, readPlace_plain other, ← split, ← host]
    simp [letters.1, letters.2]

/-- The last closing bracket of an authority splits it. -/
theorem split_last {authority : List Char} (closed : ']' ∈ authority) :
    ∃ before after, authority = before ++ ']' :: after ∧ ']' ∉ after ∧
      readHost authority = before.dropWhile fun character => character = '[' := by
  obtain ⟨after, before, split, absent⟩ := List.eq_append_cons_of_mem (List.mem_reverse.mpr closed)
  have whole : authority = before.reverse ++ ']' :: after.reverse := by
    rw [← List.reverse_reverse authority, split]
    simp
  refine ⟨before.reverse, after.reverse, whole, by simpa using absent, ?_⟩
  rw [readHost, if_pos closed, split, List.dropWhile_append_of_pos (passes absent)]
  simp

/-- A place that a bracket opens. -/
theorem readPlace_bracket {inside : List Char} (absent : ']' ∉ inside) (port : List Char) :
    readPlace ('[' :: (inside ++ ']' :: port)) =
      if mayBeLiteral inside && isPort port then some ('[' :: inside ++ [']']) else none := by
  rw [readPlace, List.dropWhile_append_of_pos (passes absent),
    List.takeWhile_append_of_pos (passes absent)]
  simp

/-- A bracket that closes and does not open: no reader takes a host there. -/
theorem readPlace_unopened {inner after : List Char}
    (named : inner ∈ ["localhost".toList, "127.0.0.1".toList, "::1".toList]) :
    readPlace (List.replicate 0 '[' ++ inner ++ ']' :: after) =
      if (match strip "[::1]".toList (List.replicate 0 '[' ++ inner ++ ']' :: after) with
        | some port => isPort port
        | none => false) = true then some "[::1]".toList else none := by
  simp only [List.mem_cons, List.not_mem_nil, or_false] at named
  rcases named with rfl | rfl | rfl <;> rfl

/-- A host within brackets: the reader takes it where it is the IPv6 address
and a port alone follows. -/
theorem readPlace_closed {authority : List Char} (closed : ']' ∈ authority)
    (near : String.ofList (readHost authority) ∈ LOOPBACK) :
    readPlace authority = (if endsWithPort authority then some "[::1]".toList else none) := by
  obtain ⟨before, after, whole, absent, host⟩ := split_last closed
  have opened : ∃ count, before = List.replicate count '[' ++ readHost authority := by
    refine ⟨(before.takeWhile fun character => character = '[').length, ?_⟩
    rw [host]
    have brackets : before.takeWhile (fun character => character = '[') =
        List.replicate (before.takeWhile fun character => character = '[').length '[' := by
      rw [List.eq_replicate_iff]
      refine ⟨rfl, fun character inside => ?_⟩
      simpa using List.mem_takeWhile_imp inside
    rw [← brackets, List.takeWhile_append_dropWhile]
  obtain ⟨count, opened⟩ := opened
  rw [endsWithPort, if_pos closed]
  have named : readHost authority ∈ ["localhost".toList, "127.0.0.1".toList, "::1".toList] := by
    simp only [LOOPBACK, List.mem_cons, List.not_mem_nil, or_false] at near ⊢
    rcases near with same | same | same
    · exact Or.inl (by rw [← same, String.toList_ofList])
    · exact Or.inr (Or.inl (by rw [← same, String.toList_ofList]))
    · exact Or.inr (Or.inr (by rw [← same, String.toList_ofList]))
  generalize readHost authority = inner at opened named
  subst opened
  subst whole
  have unclosed : ']' ∉ inner := by
    simp only [List.mem_cons, List.not_mem_nil, or_false] at named
    rcases named with rfl | rfl | rfl <;> decide
  rcases count with _ | _ | count
  · exact readPlace_unopened named
  · have bracket := readPlace_bracket unclosed after
    simp only [Nat.zero_add, List.replicate_one, List.cons_append, List.nil_append] at bracket ⊢
    rw [bracket]
    simp only [List.mem_cons, List.not_mem_nil, or_false] at named
    rcases named with rfl | rfl | rfl <;> rfl
  · have absent : ']' ∉ '[' :: (List.replicate count '[' ++ inner) := by
      simp [List.mem_replicate, unclosed]
    have bracket := readPlace_bracket absent after
    have loose : mayBeLiteral ('[' :: (List.replicate count '[' ++ inner)) = false := by
      have other : Uuid.readHexDigit '[' = none := by decide
      simp [mayBeLiteral, other]
    simp only [List.replicate_succ, List.cons_append] at bracket ⊢
    rw [bracket, loose]
    rfl

/-- An address of plain http that was admitted. -/
theorem admitted_plain {address : String} {rest : List Char}
    (accepted : checkRedirectUri address = .ok ())
    (scheme : address.toList = "http://".toList ++ rest) : Admitted address false rest := by
  obtain ⟨secure, found, admitted⟩ := admitted_of_accepted accepted
  have whole := admitted.scheme
  rw [scheme] at whole
  cases secure with
  | true => exact absurd whole (by simp)
  | false =>
    have same : rest = found := by simpa using whole
    rw [same]
    exact admitted

/-- Whatever host a reader of URLs takes from an address of plain http that was
admitted, it is one of this machine; it takes one exactly where a port alone
follows the host, and brackets stand around the IPv6 address alone. -/
theorem plain_addresses_are_local_iff (address : String) (rest : List Char)
    (accepted : checkRedirectUri address = .ok ())
    (scheme : address.toList = "http://".toList ++ rest) :
    ((∃ host, readUrlHost address.toList = some host ∧ isLoopback host) ↔
      endsWithPort (authorityOf rest)) ∧
    ∀ host, readUrlHost address.toList = some host → isLoopback host := by
  have admitted := admitted_plain accepted scheme
  have near := admitted.isLocal rfl
  have read : ∃ host, isLoopback host ∧ readUrlHost address.toList =
      if endsWithPort (authorityOf rest) then some host else none := by
    rw [readUrlHost_eq admitted]
    by_cases closed : ']' ∈ authorityOf rest
    · exact ⟨_, by decide, readPlace_closed closed near⟩
    · obtain ⟨loopback, taken⟩ := readPlace_bare closed near
      exact ⟨_, loopback, taken⟩
  obtain ⟨host, loopback, taken⟩ := read
  rw [taken]
  cases endsWithPort (authorityOf rest) with
  | true => simp [loopback]
  | false => simp

/-- Admitted, and no URL: something else than a port follows the host. -/
theorem strayPort_admitted : checkRedirectUri "http://[::1]evil.example/cb" = .ok () ∧
    readUrlHost "http://[::1]evil.example/cb".toList = none ∧
    checkRedirectUri "http://localhost:evil.example/cb" = .ok () ∧
    readUrlHost "http://localhost:evil.example/cb".toList = none := by
  decide

theorem loopbackPort_local : ∃ host,
    readUrlHost "http://127.0.0.1:8080/cb".toList = some host ∧ isLoopback host := by
  have accepted : checkRedirectUri "http://127.0.0.1:8080/cb" = .ok () := by decide
  exact (plain_addresses_are_local_iff _ "127.0.0.1:8080/cb".toList accepted rfl).1.mpr
    (by decide)

end Saffui.Redirects
