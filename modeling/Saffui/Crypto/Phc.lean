import Saffui.Crypto.Provider
import Saffui.Foundation.Framing
import Saffui.Foundation.PaddedBase64
import Saffui.Utf8

/-!
# The strings Argon2 hashes are stored as

Source: `crypto/src/password/phc.rs`: `PhcArgon2::parse` and what it reads with.
The reader takes a text of five or six fields between dollars, with the costs in
any order, and bounds the memory from below by eight times the lanes and the
salt by eight bytes. Both bounds are computed where they can be passed: the
first saturates, and the second counts characters no base64 has.
-/

namespace Saffui.Crypto.Phc

/-- The longest string the parser looks at, in bytes. -/
def PHC_MAX_LEN : Nat := 512

/-- The shortest salt accepted, in bytes. -/
def MIN_SALT_LEN : Nat := 8

inductive Argon2Variant where
  | argon2d | argon2i | argon2id
  deriving DecidableEq, Repr

structure PhcArgon2 where
  variant : Argon2Variant
  version : UInt32
  mCost : UInt32
  tCost : UInt32
  pCost : UInt32
  saltB64 : String
  hashB64 : String
  deriving DecidableEq, Repr

abbrev Parsed (α : Type) := Except CryptoError α

def bad {α : Type} : Parsed α := .error .invalidParams

/-- The next field, and those after it. -/
def next : List String → Parsed (String × List String)
  | [] => bad
  | field :: rest => .ok (field, rest)

/-- A strict `u32`: ASCII digits only, no sign. -/
def parseU32 (text : String) : Parsed UInt32 :=
  if text = "" ∨ text.toList.all Text.isAsciiDigit = false then bad
  else if Text.decimal text.toList < 2 ^ 32 then .ok (UInt32.ofNat (Text.decimal text.toList))
  else bad

/-- The PHC base64 alphabet: standard, and without padding. -/
def isPhcB64 (text : String) : Bool :=
  text ≠ "" && text.toList.all fun held =>
    Text.isAsciiAlphanumeric held || held = '+' || held = '/'

def readVariant : String → Parsed Argon2Variant
  | "argon2d" => .ok .argon2d
  | "argon2i" => .ok .argon2i
  | "argon2id" => .ok .argon2id
  | _ => bad

/-- The three costs, by their keys. -/
inductive CostKey where
  | m | t | p
  deriving DecidableEq, Repr

def CostKey.name : CostKey → String
  | .m => "m"
  | .t => "t"
  | .p => "p"

def readKey : String → Parsed CostKey
  | "m" => .ok .m
  | "t" => .ok .t
  | "p" => .ok .p
  | _ => bad

/-- The costs read so far. -/
abbrev Slots := CostKey → Option UInt32

/-- One pair of the cost field. A key that comes again is refused. -/
def readCost (slots : Slots) (pair : String) : Parsed Slots :=
  match Text.splitOnce '=' pair with
  | none => bad
  | some (key, value) => do
    let value ← parseU32 value
    let key ← readKey key
    if (slots key).isSome then bad
    else .ok (Function.update slots key (some value))

def required : Option UInt32 → Parsed UInt32
  | some value => .ok value
  | none => bad

/-- The version field is optional: its absence names an obsolete version. -/
def readVersion (field : String) (fields : List String) :
    Parsed (UInt32 × String × List String) :=
  if "v=".toList.isPrefixOf field.toList then do
    let (costs, fields) ← next fields
    let version ← parseU32 (String.ofList (field.toList.drop 2))
    .ok (version, costs, fields)
  else .ok (0x10, field, fields)

/-- `u32::saturating_mul` -/
def saturatingMul (one other : UInt32) : Nat := min (one.toNat * other.toNat) (2 ^ 32 - 1)

/-- What is left once the costs are known: their bounds, the salt and the hash. -/
def readFields (variant : Argon2Variant) (version mCost tCost pCost : UInt32)
    (fields : List String) : Parsed PhcArgon2 := do
  if tCost = 0 ∨ pCost = 0 ∨ mCost.toNat < saturatingMul pCost 8 then bad
  else
    let (saltB64, fields) ← next fields
    let (hashB64, fields) ← next fields
    if fields ≠ [] then bad
    else if !isPhcB64 saltB64 || !isPhcB64 hashB64 then bad
    else if saltB64.utf8ByteSize * 3 / 4 < MIN_SALT_LEN then bad
    else .ok ⟨variant, version, mCost, tCost, pCost, saltB64, hashB64⟩

def parse (encoded : String) : Parsed PhcArgon2 := do
  if encoded.utf8ByteSize > PHC_MAX_LEN ∨ encoded.toList.head? ≠ some '$' then bad
  else
    let (first, fields) ← next (Text.split '$' encoded)
    if first ≠ "" then bad
    else
      let (name, fields) ← next fields
      let variant ← readVariant name
      let (field, fields) ← next fields
      let (version, costs, fields) ← readVersion field fields
      let slots ← (Text.split ',' costs).foldlM readCost fun _ => none
      let mCost ← required (slots .m)
      let tCost ← required (slots .t)
      let pCost ← required (slots .p)
      readFields variant version mCost tCost pCost fields

/-- A number in ASCII digits. -/
def Digits (text : String) (value : UInt32) : Prop :=
  text ≠ "" ∧ (∀ digit ∈ text.toList, Text.isAsciiDigit digit = true) ∧
    Text.decimal text.toList = value.toNat

/-- No version field, for an obsolete version, or one that gives it. -/
def VersionPart (fields : List String) (version : UInt32) : Prop :=
  fields = [] ∧ version = 0x10 ∨
    ∃ digits, fields = ["v=" ++ digits] ∧ Digits digits version

def PhcArgon2.cost (phc : PhcArgon2) : CostKey → UInt32
  | .m => phc.mCost
  | .t => phc.tCost
  | .p => phc.pCost

/-- The three costs with commas between them, each named once, in some order. -/
def CostsPart (field : String) (cost : CostKey → UInt32) : Prop :=
  ∃ (order : List CostKey) (digits : CostKey → String), order.Perm [.m, .t, .p] ∧
    (∀ key, Digits (digits key) (cost key)) ∧
    field = ",".intercalate (order.map fun key => key.name ++ "=" ++ digits key)

def Argon2Variant.name : Argon2Variant → String
  | .argon2d => "argon2d"
  | .argon2i => "argon2i"
  | .argon2id => "argon2id"

/-- A text of at most the longest length, of the form `$variant[$v=N]$costs$salt$hash`. -/
def Form (text : String) (phc : PhcArgon2) : Prop :=
  text.utf8ByteSize ≤ PHC_MAX_LEN ∧ ∃ version costs, VersionPart version phc.version ∧
    CostsPart costs phc.cost ∧
    text = "$".intercalate
      (["", phc.variant.name] ++ version ++ [costs, phc.saltB64, phc.hashB64])

/-- A text in the standard alphabet, without padding. -/
def Alphabet (text : String) : Prop :=
  ∀ held ∈ text.toList, Text.isAsciiAlphanumeric held = true ∨ held = '+' ∨ held = '/'

/-- A text of the alphabet and the length of the base64 of as many bytes. -/
def OfBytes (text : String) (least : Nat) : Prop :=
  Alphabet text ∧ ∃ bytes : Bytes, least ≤ bytes.length ∧
    text.toList.length = (Foundation.Base64.encodeChars bytes).length

/-- The rules of RFC 9106, over the integers, and of the format. -/
structure PhcArgon2.Rules (phc : PhcArgon2) : Prop where
  passes : 1 ≤ phc.tCost.toNat
  lanes : 1 ≤ phc.pCost.toNat
  memory : 8 * phc.pCost.toNat ≤ phc.mCost.toNat
  salt : OfBytes phc.saltB64 MIN_SALT_LEN
  hash : OfBytes phc.hashB64 0

/-- What the reader bounds, as it computes it. -/
structure PhcArgon2.Bounded (phc : PhcArgon2) : Prop where
  passes : 1 ≤ phc.tCost.toNat
  lanes : 1 ≤ phc.pCost.toNat
  memory : 8 * phc.pCost.toNat ≤ phc.mCost.toNat ∨ phc.mCost.toNat = 2 ^ 32 - 1
  saltAlphabet : Alphabet phc.saltB64
  saltLength : 11 ≤ phc.saltB64.toList.length
  hashAlphabet : Alphabet phc.hashB64
  hashLength : 1 ≤ phc.hashB64.toList.length

theorem parseU32_eq {text : String} {value : UInt32} :
    parseU32 text = .ok value ↔ Digits text value := by
  unfold parseU32 Digits
  constructor
  · intro read
    split at read
    · cases read
    · next shaped =>
      obtain ⟨filled, digits⟩ := not_or.mp shaped
      have each : ∀ digit ∈ text.toList, Text.isAsciiDigit digit = true := by
        simpa using digits
      split at read
      · next fits =>
        have same := congrArg UInt32.toNat (Except.ok.inj read)
        rw [UInt32.toNat_ofNat', Nat.mod_eq_of_lt fits] at same
        exact ⟨filled, each, same⟩
      · cases read
  · rintro ⟨filled, each, same⟩
    have shaped : ¬(text = "" ∨ text.toList.all Text.isAsciiDigit = false) := by
      rintro (empty | other)
      · exact filled empty
      · rw [List.all_eq_true.mpr each] at other
        cases other
    have fits : Text.decimal text.toList < 2 ^ 32 := by
      rw [same]
      exact value.toNat_lt
    rw [if_neg shaped, if_pos fits, same, UInt32.ofNat_toNat]

theorem readKey_eq {name : String} {key : CostKey} : readKey name = .ok key ↔ name = key.name := by
  constructor
  · intro read
    unfold readKey at read
    split at read <;> cases read <;> rfl
  · rintro rfl
    cases key <;> rfl

theorem readVariant_eq {name : String} {variant : Argon2Variant} :
    readVariant name = .ok variant ↔ name = variant.name := by
  constructor
  · intro read
    unfold readVariant at read
    split at read <;> cases read <;> rfl
  · rintro rfl
    cases variant <;> rfl

theorem bind_eq_ok {α β : Type} {first : Parsed α} {rest : α → Parsed β} {result : β} :
    first >>= rest = .ok result ↔ ∃ value, first = .ok value ∧ rest value = .ok result := by
  cases first with
  | error error => exact ⟨nofun, nofun⟩
  | ok value =>
    exact ⟨fun whole => ⟨value, rfl, whole⟩, fun ⟨_, same, whole⟩ => by cases same; exact whole⟩

/-- A pair of the cost field: a key that was not named, and the digits of its cost. -/
theorem readCost_eq {slots after : Slots} {pair : String} :
    readCost slots pair = .ok after ↔ ∃ key digits value, pair = key.name ++ "=" ++ digits ∧
      Digits digits value ∧ slots key = none ∧ after = Function.update slots key (some value) := by
  constructor
  · intro read
    unfold readCost at read
    split at read
    · cases read
    · next name digits parted =>
      obtain ⟨value, number, read⟩ := bind_eq_ok.mp read
      obtain ⟨key, named, read⟩ := bind_eq_ok.mp read
      split at read
      · cases read
      · next vacant =>
        refine ⟨key, digits, value, ?_, parseU32_eq.mp number, ?_, (Except.ok.inj read).symm⟩
        · apply String.toList_injective
          rw [Text.toList_of_splitOnce parted, readKey_eq.mp named]
          simp
        · simpa using vacant
  · rintro ⟨key, digits, value, rfl, number, vacant, rfl⟩
    have absent : '=' ∉ key.name.toList := by cases key <;> decide
    have parted : Text.splitOnce '=' (key.name ++ "=" ++ digits) = some (key.name, digits) := by
      have opened := Text.splitOnce_append absent digits.toList
      have same : String.ofList (key.name.toList ++ '=' :: digits.toList) =
          key.name ++ "=" ++ digits := by
        apply String.toList_injective
        simp
      rwa [same, String.ofList_toList, String.ofList_toList] at opened
    rw [readCost, parted]
    simp only [parseU32_eq.mpr number, readKey_eq.mpr rfl, bind, Except.bind, vacant,
      Option.isSome_none, Bool.false_eq_true, if_false]

theorem next_eq {fields rest : List String} {first : String} :
    next fields = .ok (first, rest) ↔ fields = first :: rest := by
  cases fields with
  | nil => exact ⟨nofun, nofun⟩
  | cons field others =>
    constructor
    · intro read
      cases read
      rfl
    · intro same
      cases same
      rfl

/-- The loop over the pairs: the keys they name, none twice, each with the digits of its cost. -/
theorem readCosts_eq {pairs : List String} {slots after : Slots} :
    pairs.foldlM readCost slots = .ok after ↔
      ∃ (order : List CostKey) (digits : CostKey → String), order.Nodup ∧
        pairs = order.map (fun key => key.name ++ "=" ++ digits key) ∧
        (∀ key ∈ order, slots key = none ∧
          ∃ value, Digits (digits key) value ∧ after key = some value) ∧
        ∀ key ∉ order, after key = slots key := by
  induction pairs generalizing slots with
  | nil =>
    constructor
    · intro read
      cases read
      exact ⟨[], fun _ => "", List.nodup_nil, rfl, nofun, fun _ _ => rfl⟩
    · rintro ⟨order, digits, -, pairs, -, kept⟩
      have empty : order = [] := List.map_eq_nil_iff.mp pairs.symm
      subst empty
      have same : after = slots := funext fun key => kept key List.not_mem_nil
      rw [same]
      rfl
  | cons pair rest ih =>
    rw [List.foldlM_cons, bind_eq_ok]
    constructor
    · rintro ⟨between, one, others⟩
      obtain ⟨key, written, value, rfl, number, vacant, rfl⟩ := readCost_eq.mp one
      obtain ⟨order, digits, once, rfl, named, kept⟩ := ih.mp others
      have fresh : key ∉ order := by
        intro again
        have filled := (named key again).1
        rw [Function.update_self] at filled
        cases filled
      have elsewhere : ∀ other ∈ order, other ≠ key := fun other inside same =>
        fresh (same ▸ inside)
      refine ⟨key :: order, Function.update digits key written, List.nodup_cons.mpr ⟨fresh, once⟩,
        ?_, ?_, ?_⟩
      · rw [List.map_cons, Function.update_self]
        congr 1
        apply List.map_congr_left
        intro other inside
        rw [Function.update_of_ne (elsewhere other inside)]
      · intro other inside
        rcases List.mem_cons.mp inside with rfl | later
        · have stays := kept other fresh
          rw [Function.update_self] at stays ⊢
          exact ⟨vacant, value, number, stays⟩
        · obtain ⟨before, cost, digit, set⟩ := named other later
          rw [Function.update_of_ne (elsewhere other later)] at before ⊢
          exact ⟨before, cost, digit, set⟩
      · intro other outside
        have apart : other ≠ key := fun same => outside (same ▸ List.mem_cons_self)
        have stays := kept other fun inside => outside (List.mem_cons_of_mem _ inside)
        rwa [Function.update_of_ne apart] at stays
    · rintro ⟨order, digits, once, pairs, named, kept⟩
      cases order with
      | nil => cases pairs
      | cons key order =>
        obtain ⟨rfl, rfl⟩ := List.cons.inj pairs
        obtain ⟨fresh, apart⟩ := List.nodup_cons.mp once
        obtain ⟨vacant, value, number, set⟩ := named key List.mem_cons_self
        refine ⟨Function.update slots key (some value),
          readCost_eq.mpr ⟨key, digits key, value, rfl, number, vacant, rfl⟩,
          ih.mpr ⟨order, digits, apart, rfl, ?_, ?_⟩⟩
        · intro other inside
          have elsewhere : other ≠ key := fun same => fresh (same ▸ inside)
          rw [Function.update_of_ne elsewhere]
          exact named other (List.mem_cons_of_mem _ inside)
        · intro other outside
          by_cases same : other = key
          · rw [same, Function.update_self, set]
          · rw [Function.update_of_ne same]
            apply kept
            intro inside
            rcases List.mem_cons.mp inside with here | later
            · exact same here
            · exact outside later

theorem all_keys (key : CostKey) : key ∈ [CostKey.m, .t, .p] := by
  cases key <;> decide

theorem digit_comma {text : String} {value : UInt32} (digits : Digits text value) (mark : Char)
    (other : Text.isAsciiDigit mark = false) : mark ∉ text.toList := by
  intro inside
  rw [digits.2.1 mark inside] at other
  cases other

theorem not_mem_pair {mark : Char} {key : CostKey} {text : String} {value : UInt32}
    (digits : Digits text value) (other : Text.isAsciiDigit mark = false)
    (apart : mark ∉ ['m', 't', 'p', '=']) : mark ∉ (key.name ++ "=" ++ text).toList := by
  have absent := digit_comma digits mark other
  rw [String.toList_append, String.toList_append]
  cases key <;> simp_all [CostKey.name]

/-- The cost field, once all three costs are there. -/
theorem readCosts_all {field : String} {slots : Slots} {cost : CostKey → UInt32}
    (all : ∀ key, slots key = some (cost key)) :
    ((Text.split ',' field).foldlM readCost fun _ => none) = .ok slots ↔ CostsPart field cost := by
  have comma : String.singleton ',' = "," := rfl
  rw [readCosts_eq]
  constructor
  · rintro ⟨order, digits, once, pairs, named, kept⟩
    have present : ∀ key, key ∈ order := by
      intro key
      by_contra outside
      have empty := kept key outside
      rw [all key] at empty
      cases empty
    have perm : order.Perm [.m, .t, .p] := by
      rw [List.perm_ext_iff_of_nodup once (by decide)]
      exact fun key => ⟨fun _ => all_keys key, fun _ => present key⟩
    refine ⟨order, digits, perm, ?_, ?_⟩
    · intro key
      obtain ⟨-, value, number, set⟩ := named key (present key)
      rw [all key] at set
      rwa [Option.some.inj set]
    · rw [← pairs, ← comma, Text.intercalate_of_split]
  · rintro ⟨order, digits, perm, numbers, rfl⟩
    have some_pair : order.map (fun key => key.name ++ "=" ++ digits key) ≠ [] := by
      intro empty
      have none : order = [] := List.map_eq_nil_iff.mp empty
      rw [none] at perm
      cases perm.length_eq
    have apart : ∀ part ∈ order.map (fun key => key.name ++ "=" ++ digits key),
        ',' ∉ part.toList := by
      intro part inside
      obtain ⟨key, -, rfl⟩ := List.mem_map.mp inside
      exact not_mem_pair (numbers key) (by decide) (by decide)
    refine ⟨order, digits, perm.nodup_iff.mpr (by decide), ?_, ?_, ?_⟩
    · rw [← comma, Text.split_intercalate some_pair apart]
    · exact fun key _ => ⟨rfl, cost key, numbers key, all key⟩
    · exact fun key outside => absurd (perm.mem_iff.mpr (all_keys key)) outside

theorem readVersion_eq {field costs : String} {fields rest : List String} {version : UInt32} :
    readVersion field fields = .ok (version, costs, rest) ↔
      ("v=".toList.isPrefixOf field.toList = false ∧ version = 0x10 ∧ costs = field ∧
          rest = fields) ∨
        ∃ digits, field = "v=" ++ digits ∧ Digits digits version ∧ fields = costs :: rest := by
  unfold readVersion
  split
  · next opened =>
    obtain ⟨written, same⟩ := List.isPrefixOf_iff_prefix.mp opened
    have shown : field = "v=" ++ String.ofList (field.toList.drop 2) := by
      apply String.toList_injective
      have dropped : field.toList.drop 2 = written := by
        rw [← same]
        rfl
      rw [dropped, String.toList_append, @String.toList_ofList written, same]
    rw [bind_eq_ok]
    constructor
    · rintro ⟨⟨found, others⟩, one, more⟩
      obtain ⟨value, number, result⟩ := bind_eq_ok.mp more
      cases result
      exact .inr ⟨_, shown, parseU32_eq.mp number, next_eq.mp one⟩
    · rintro (⟨closed, -⟩ | ⟨digits, told, number, rfl⟩)
      · rw [opened] at closed
        cases closed
      · have dropped : String.ofList (field.toList.drop 2) = digits :=
          (String.append_right_inj "v=").mp (shown.symm.trans told)
        refine ⟨(costs, rest), rfl, bind_eq_ok.mpr ⟨version, ?_, rfl⟩⟩
        rw [dropped]
        exact parseU32_eq.mpr number
  · next closed =>
    constructor
    · intro read
      cases read
      exact .inl ⟨Bool.eq_false_iff.mpr closed, rfl, rfl, rfl⟩
    · rintro (⟨-, rfl, rfl, rfl⟩ | ⟨digits, rfl, -⟩)
      · rfl
      · apply absurd _ closed
        rw [String.toList_append, List.isPrefixOf_iff_prefix]
        exact List.prefix_append _ _

theorem isPhcB64_eq {text : String} :
    isPhcB64 text = true ↔ 1 ≤ text.toList.length ∧ Alphabet text := by
  have filled : text ≠ "" ↔ 1 ≤ text.toList.length := by
    rw [Nat.one_le_iff_ne_zero, Ne, Ne, List.length_eq_zero_iff, ← String.toList_eq_nil_iff]
  simp only [isPhcB64, Alphabet, Bool.and_eq_true, List.all_eq_true, Bool.or_eq_true,
    decide_eq_true_eq, or_assoc, ← filled]

theorem Alphabet.ascii {text : String} (alphabet : Alphabet text) :
    ∀ held ∈ text.toList, Text.IsAscii held := by
  intro held inside
  rcases alphabet held inside with plain | rfl | rfl
  · exact Text.ascii_of_alphanumeric plain
  · decide
  · decide

/-- The salt is bounded by the bytes of its text, which are its characters. -/
theorem saltLength_eq {text : String} (alphabet : Alphabet text) :
    text.utf8ByteSize * 3 / 4 < MIN_SALT_LEN ↔ text.toList.length < 11 := by
  rw [Text.utf8ByteSize_of_ascii alphabet.ascii, MIN_SALT_LEN]
  omega

theorem costs_eq {mCost tCost pCost : UInt32} :
    (tCost = 0 ∨ pCost = 0 ∨ mCost.toNat < saturatingMul pCost 8) ↔
      ¬(1 ≤ tCost.toNat ∧ 1 ≤ pCost.toNat ∧
        (8 * pCost.toNat ≤ mCost.toNat ∨ mCost.toNat = 2 ^ 32 - 1)) := by
  have passes : tCost = 0 ↔ tCost.toNat = 0 := UInt32.toNat_inj.symm
  have lanes : pCost = 0 ↔ pCost.toNat = 0 := UInt32.toNat_inj.symm
  have most := mCost.toNat_lt
  have eight : (8 : UInt32).toNat = 8 := rfl
  rw [passes, lanes, saturatingMul, eight]
  omega

theorem readFields_eq {variant : Argon2Variant} {version mCost tCost pCost : UInt32}
    {fields : List String} {phc : PhcArgon2} :
    readFields variant version mCost tCost pCost fields = .ok phc ↔
      fields = [phc.saltB64, phc.hashB64] ∧
        phc = ⟨variant, version, mCost, tCost, pCost, phc.saltB64, phc.hashB64⟩ ∧
        phc.Bounded := by
  unfold readFields
  constructor
  · intro read
    split at read
    · cases read
    · next costs =>
      obtain ⟨passes, lanes, memory⟩ := not_not.mp (mt costs_eq.mpr costs)
      obtain ⟨⟨salt, others⟩, one, fromHash⟩ := bind_eq_ok.mp read
      obtain ⟨⟨hash, extra⟩, two, bounds⟩ := bind_eq_ok.mp fromHash
      have first : fields = salt :: others := next_eq.mp one
      have second : others = hash :: extra := next_eq.mp two
      dsimp only at bounds
      split at bounds
      · cases bounds
      · next none_left =>
        split at bounds
        · cases bounds
        · next alphabets =>
          split at bounds
          · cases bounds
          · next long =>
            cases bounds
            simp only [Bool.or_eq_true, Bool.not_eq_true', not_or, Bool.not_eq_false] at alphabets
            obtain ⟨_, saltAlphabet⟩ := isPhcB64_eq.mp alphabets.1
            obtain ⟨hashLength, hashAlphabet⟩ := isPhcB64_eq.mp alphabets.2
            rw [saltLength_eq saltAlphabet, Nat.not_lt] at long
            rw [first, second, not_not.mp none_left]
            exact ⟨rfl, rfl, passes, lanes, memory, saltAlphabet, long, hashAlphabet, hashLength⟩
  · rintro ⟨rfl, built, bounded⟩
    have costs : 1 ≤ tCost.toNat ∧ 1 ≤ pCost.toNat ∧
        (8 * pCost.toNat ≤ mCost.toNat ∨ mCost.toNat = 2 ^ 32 - 1) := by
      have all : 1 ≤ phc.tCost.toNat ∧ 1 ≤ phc.pCost.toNat ∧
          (8 * phc.pCost.toNat ≤ phc.mCost.toNat ∨ phc.mCost.toNat = 2 ^ 32 - 1) :=
        ⟨bounded.passes, bounded.lanes, bounded.memory⟩
      rw [built] at all
      exact all
    have long := bounded.saltLength
    have salt : isPhcB64 phc.saltB64 = true :=
      isPhcB64_eq.mpr ⟨by omega, bounded.saltAlphabet⟩
    have hash : isPhcB64 phc.hashB64 = true :=
      isPhcB64_eq.mpr ⟨bounded.hashLength, bounded.hashAlphabet⟩
    have enough : ¬phc.saltB64.utf8ByteSize * 3 / 4 < MIN_SALT_LEN := by
      rw [saltLength_eq bounded.saltAlphabet]
      omega
    rw [if_neg (mt costs_eq.mp (not_not.mpr costs))]
    simp only [next, bind, Except.bind, ne_eq, not_true_eq_false, if_false, salt, hash,
      Bool.not_true, Bool.or_self, Bool.false_eq_true, enough, ← built]

theorem required_eq {slot : Option UInt32} {value : UInt32} :
    required slot = .ok value ↔ slot = some value := by
  cases slot with
  | none => exact ⟨nofun, nofun⟩
  | some held =>
    constructor
    · intro read
      cases read
      rfl
    · intro same
      cases same
      rfl

/-- A cost field starts with a key. -/
theorem CostsPart.starts {field : String} {cost : CostKey → UInt32}
    (costs : CostsPart field cost) : ∃ (key : CostKey) (rest : List Char),
      field.toList = key.name.toList ++ '=' :: rest := by
  obtain ⟨order, digits, perm, -, rfl⟩ := costs
  rw [String.toList_intercalate]
  cases order with
  | nil => cases perm.length_eq
  | cons key others =>
    refine ⟨key, ?_⟩
    cases others with
    | nil => cases perm.length_eq
    | cons other others =>
      rw [List.map_cons, List.map_cons, List.map_cons, List.map_cons, List.intercalate_cons_cons,
        String.toList_append, String.toList_append, List.append_assoc, List.append_assoc,
        List.append_assoc]
      exact ⟨_, rfl⟩

/-- So it is not read as a version. -/
theorem CostsPart.not_version {field : String} {cost : CostKey → UInt32}
    (costs : CostsPart field cost) : "v=".toList.isPrefixOf field.toList = false := by
  obtain ⟨key, rest, starts⟩ := costs.starts
  rw [starts]
  cases key <;> rfl

theorem VersionPart.clear {fields : List String} {version : UInt32}
    (part : VersionPart fields version) : ∀ field ∈ fields, '$' ∉ field.toList := by
  intro field inside
  rcases part with ⟨rfl, -⟩ | ⟨digits, rfl, number⟩
  · cases inside
  · have absent := digit_comma number '$' (by decide)
    rw [List.mem_singleton.mp inside, String.toList_append]
    simpa using absent

theorem CostsPart.clear {field : String} {cost : CostKey → UInt32} (costs : CostsPart field cost) :
    '$' ∉ field.toList := by
  obtain ⟨order, digits, -, numbers, rfl⟩ := costs
  rw [String.toList_intercalate]
  intro inside
  rcases Foundation.Framing.mem_intercalate inside with comma | ⟨part, among, found⟩
  · revert comma
    decide
  · obtain ⟨pair, listed, rfl⟩ := List.mem_map.mp among
    obtain ⟨key, -, rfl⟩ := List.mem_map.mp listed
    exact not_mem_pair (numbers key) (by decide) (by decide) found

theorem Alphabet.clear {text : String} (alphabet : Alphabet text) : '$' ∉ text.toList := by
  intro inside
  have other := alphabet '$' inside
  revert other
  decide

/-- The fields of a text of the form whose salt and hash are in the alphabet. -/
theorem split_of_form {version : List String} {costs : String} {phc : PhcArgon2}
    (told : VersionPart version phc.version) (held : CostsPart costs phc.cost)
    (salt : Alphabet phc.saltB64) (hash : Alphabet phc.hashB64) :
    Text.split '$' ("$".intercalate
        (["", phc.variant.name] ++ version ++ [costs, phc.saltB64, phc.hashB64])) =
      "" :: phc.variant.name :: (version ++ [costs, phc.saltB64, phc.hashB64]) := by
  have dollar : String.singleton '$' = "$" := rfl
  rw [← dollar]
  apply Text.split_intercalate
  · exact List.cons_ne_nil _ _
  · intro part inside
    have cases : part = "" ∨ part = phc.variant.name ∨ part ∈ version ∨ part = costs ∨
        part = phc.saltB64 ∨ part = phc.hashB64 := by
      simpa using inside
    rcases cases with rfl | rfl | among | rfl | rfl | rfl
    · decide
    · cases phc.variant <;> decide
    · exact told.clear part among
    · exact held.clear
    · exact salt.clear
    · exact hash.clear

/-- What is accepted: a text of the form, with the costs and the lengths that are bounded. -/
theorem parse_eq {text : String} {phc : PhcArgon2} :
    parse text = .ok phc ↔ Form text phc ∧ phc.Bounded := by
  unfold parse
  constructor
  · intro read
    split at read
    · cases read
    · next entry =>
      obtain ⟨short, -⟩ := not_or.mp entry
      obtain ⟨⟨first, named⟩, opening, read₁⟩ := bind_eq_ok.mp read
      dsimp only at read₁
      split at read₁
      · cases read₁
      · next empty =>
        obtain ⟨⟨name, fields⟩, naming, read₂⟩ := bind_eq_ok.mp read₁
        obtain ⟨variant, known, read₃⟩ := bind_eq_ok.mp read₂
        obtain ⟨⟨field, others⟩, taken, read₄⟩ := bind_eq_ok.mp read₃
        obtain ⟨⟨version, costs, last⟩, versioned, read₅⟩ := bind_eq_ok.mp read₄
        obtain ⟨slots, filled, read₆⟩ := bind_eq_ok.mp read₅
        obtain ⟨mCost, memory, read₇⟩ := bind_eq_ok.mp read₆
        obtain ⟨tCost, passes, read₈⟩ := bind_eq_ok.mp read₇
        obtain ⟨pCost, lanes, read₉⟩ := bind_eq_ok.mp read₈
        obtain ⟨ended, built, bounded⟩ := readFields_eq.mp read₉
        have all : ∀ key, slots key = some (phc.cost key) := by
          rw [built]
          intro key
          cases key with
          | m => exact required_eq.mp memory
          | t => exact required_eq.mp passes
          | p => exact required_eq.mp lanes
        have first_field : Text.split '$' text = first :: named := next_eq.mp opening
        have second_field : named = name :: fields := next_eq.mp naming
        have third_field : fields = field :: others := next_eq.mp taken
        have written : name = variant.name := readVariant_eq.mp known
        have whole := Text.intercalate_of_split '$' text
        rw [first_field, not_not.mp empty, second_field, third_field, written] at whole
        have same : phc.variant = variant ∧ phc.version = version := by
          rw [built]
          exact ⟨rfl, rfl⟩
        have closing : last = [phc.saltB64, phc.hashB64] := ended
        refine ⟨⟨Nat.not_lt.mp short, ?_⟩, bounded⟩
        rw [same.1, same.2]
        rcases readVersion_eq.mp versioned with ⟨-, old, rfl, rfl⟩ | ⟨digits, rfl, number, rfl⟩
        · refine ⟨[], costs, .inl ⟨rfl, old⟩, (readCosts_all all).mp filled, ?_⟩
          rw [closing] at whole
          exact whole.symm
        · refine ⟨["v=" ++ digits], costs, .inr ⟨digits, rfl, number⟩,
            (readCosts_all all).mp filled, ?_⟩
          rw [closing] at whole
          exact whole.symm
  · rintro ⟨⟨short, version, costs, told, held, rfl⟩, bounded⟩
    have fields := split_of_form told held bounded.saltAlphabet bounded.hashAlphabet
    have opened : ("$".intercalate (["", phc.variant.name] ++ version ++
        [costs, phc.saltB64, phc.hashB64])).toList.head? = some '$' := by
      rw [String.toList_intercalate]
      rfl
    have entry : ¬(("$".intercalate (["", phc.variant.name] ++ version ++
          [costs, phc.saltB64, phc.hashB64])).utf8ByteSize > PHC_MAX_LEN ∨
        ("$".intercalate (["", phc.variant.name] ++ version ++
          [costs, phc.saltB64, phc.hashB64])).toList.head? ≠ some '$') :=
      not_or.mpr ⟨Nat.not_lt.mpr short, not_not.mpr opened⟩
    have filled := (readCosts_all fun key => rfl).mpr held
    have last : readFields phc.variant phc.version phc.mCost phc.tCost phc.pCost
        [phc.saltB64, phc.hashB64] = .ok phc := readFields_eq.mpr ⟨rfl, rfl, bounded⟩
    have versioned : ∃ field rest, version ++ [costs, phc.saltB64, phc.hashB64] = field :: rest ∧
        readVersion field rest = .ok (phc.version, costs, [phc.saltB64, phc.hashB64]) := by
      rcases told with ⟨rfl, old⟩ | ⟨digits, rfl, number⟩
      · exact ⟨_, _, rfl, readVersion_eq.mpr (.inl ⟨held.not_version, old, rfl, rfl⟩)⟩
      · exact ⟨_, _, rfl, readVersion_eq.mpr (.inr ⟨digits, rfl, number, rfl⟩)⟩
    obtain ⟨field, rest, joined, versioned⟩ := versioned
    rw [if_neg entry, fields, joined]
    simp only [next, bind, Except.bind, ne_eq, not_true_eq_false, if_false,
      readVariant_eq.mpr rfl, versioned, filled, PhcArgon2.cost, required, last]

theorem ofBytes_eq {text : String} {least : Nat} :
    OfBytes text least ↔ Alphabet text ∧ (4 * least + 2) / 3 ≤ text.toList.length ∧
      text.toList.length % 4 ≠ 1 := by
  refine and_congr_right fun _ => ?_
  constructor
  · rintro ⟨bytes, enough, same⟩
    have count := Foundation.Base64.length_encodeChars bytes
    omega
  · rintro ⟨enough, whole⟩
    have count := Foundation.Base64.length_encodeChars
      (List.replicate (text.toList.length * 3 / 4) (0 : UInt8))
    refine ⟨List.replicate (text.toList.length * 3 / 4) 0, ?_, ?_⟩
    · rw [List.length_replicate]
      omega
    · rw [List.length_replicate] at count
      have group : text.toList.length % 4 = 0 ∨ text.toList.length % 4 = 2 ∨
          text.toList.length % 4 = 3 := by
        omega
      rcases group with none | two | three <;> omega

/-- What the bounds let pass: memory compared with a product that was cut to the largest
number, and a salt or a hash with one character more than the base64 of some bytes. -/
def PhcArgon2.Slips (phc : PhcArgon2) : Prop :=
  phc.mCost.toNat < 8 * phc.pCost.toNat ∨ phc.saltB64.toList.length % 4 = 1 ∨
    phc.hashB64.toList.length % 4 = 1

theorem rules_eq {phc : PhcArgon2} :
    phc.Rules ∧ phc.hashB64 ≠ "" ↔ phc.Bounded ∧ ¬phc.Slips := by
  have filled : phc.hashB64 ≠ "" ↔ 1 ≤ phc.hashB64.toList.length := by
    rw [Nat.one_le_iff_ne_zero, Ne, Ne, List.length_eq_zero_iff, ← String.toList_eq_nil_iff]
  rw [filled, PhcArgon2.Slips]
  constructor
  · rintro ⟨⟨passes, lanes, memory, salt, hash⟩, some_hash⟩
    obtain ⟨saltAlphabet, saltLength, saltWhole⟩ := ofBytes_eq.mp salt
    obtain ⟨hashAlphabet, -, hashWhole⟩ := ofBytes_eq.mp hash
    have eleven : 11 ≤ phc.saltB64.toList.length := saltLength
    exact ⟨⟨passes, lanes, .inl memory, saltAlphabet, eleven, hashAlphabet, some_hash⟩, by omega⟩
  · rintro ⟨bounded, clean⟩
    obtain ⟨memory, saltWhole, hashWhole⟩ : 8 * phc.pCost.toNat ≤ phc.mCost.toNat ∧
        phc.saltB64.toList.length % 4 ≠ 1 ∧ phc.hashB64.toList.length % 4 ≠ 1 := by
      omega
    exact ⟨⟨bounded.passes, bounded.lanes, memory,
      ofBytes_eq.mpr ⟨bounded.saltAlphabet, bounded.saltLength, saltWhole⟩,
      ofBytes_eq.mpr ⟨bounded.hashAlphabet, Nat.zero_le _, hashWhole⟩⟩, bounded.hashLength⟩

/-- A text is read by the rules: what is read keeps them, and what keeps them is read. -/
def ByTheRules (text : String) : Prop :=
  (∀ phc, parse text = .ok phc → phc.Rules) ∧
    ∀ phc, Form text phc → phc.Rules → parse text = .ok phc

/-- Every text is read by the rules, unless what it holds slips between the bounds, or its hash is
empty, which the reader refuses though it is the base64 of no bytes. -/
theorem read_by_the_rules (text : String) :
    ByTheRules text ↔ ¬∃ phc, Form text phc ∧
      (phc.Bounded ∧ phc.Slips ∨ phc.Rules ∧ phc.hashB64 = "") := by
  constructor
  · rintro ⟨sound, complete⟩ ⟨phc, form, ⟨bounded, slips⟩ | ⟨rules, empty⟩⟩
    · have rules := sound phc (parse_eq.mpr ⟨form, bounded⟩)
      have filled : phc.hashB64 ≠ "" := by
        intro empty
        have long := bounded.hashLength
        rw [empty] at long
        exact absurd long (by decide)
      exact (rules_eq.mp ⟨rules, filled⟩).2 slips
    · have long := (parse_eq.mp (complete phc form rules)).2.hashLength
      rw [empty] at long
      exact absurd long (by decide)
  · intro none_slips
    constructor
    · intro phc read
      obtain ⟨form, bounded⟩ := parse_eq.mp read
      have clean : ¬phc.Slips := fun slips => none_slips ⟨phc, form, .inl ⟨bounded, slips⟩⟩
      exact (rules_eq.mpr ⟨bounded, clean⟩).1
    · intro phc form rules
      have filled : phc.hashB64 ≠ "" := fun empty => none_slips ⟨phc, form, .inr ⟨rules, empty⟩⟩
      exact parse_eq.mpr ⟨form, (rules_eq.mp ⟨rules, filled⟩).1⟩

/-- More than half a billion lanes share the memory of four billion blocks, and a salt of one
character past eight bytes and more: both are read. -/
theorem slips_are_read :
    ¬ByTheRules "$argon2id$v=19$m=4294967295,t=1,p=536870912$c29tZXNhbHQ$aGFzaA" ∧
      ¬ByTheRules "$argon2id$v=19$m=8,t=1,p=1$c29tZXNhbHRzb$aGFzaA" := by
  have lanes : parse "$argon2id$v=19$m=4294967295,t=1,p=536870912$c29tZXNhbHQ$aGFzaA" =
      .ok ⟨.argon2id, 19, 4294967295, 1, 536870912, "c29tZXNhbHQ", "aGFzaA"⟩ := by
    rfl
  have salt : parse "$argon2id$v=19$m=8,t=1,p=1$c29tZXNhbHRzb$aGFzaA" =
      .ok ⟨.argon2id, 19, 8, 1, 1, "c29tZXNhbHRzb", "aGFzaA"⟩ := by
    rfl
  constructor
  · intro rules
    have memory := (rules.1 _ lanes).memory
    revert memory
    decide
  · intro rules
    have whole := (ofBytes_eq.mp (rules.1 _ salt).salt).2.2
    revert whole
    decide

end Saffui.Crypto.Phc
