import Mathlib.Data.Rat.Defs
import Saffui.Foundation.SortedMap
import Saffui.Text

/-!
# JSON documents

The values of `serde_json`, and their compact text. An object is the list of
its members; a `Map` of the source is a `BTreeMap`, so a value the product
builds has its keys in increasing order. A number that is not an integer is a
finite `f64`, given by what it is worth.
-/

namespace Saffui

/-- A number as `serde_json` keeps it. -/
inductive Number where
  | posInt (value : Nat)
  /-- The negative integer `-(value + 1)`. -/
  | negInt (value : Nat)
  | float (worth : Rat)
  deriving DecidableEq, Repr

inductive Json where
  | null
  | bool (value : Bool)
  | number (value : Number)
  | string (text : String)
  | array (items : List Json)
  | object (members : List (String × Json))

namespace Json

/-- What holds of a value when it does of each value right within it. -/
@[elab_as_elim]
theorem inductionOn {motive : Json → Prop} (value : Json) (null : motive .null)
    (bool : ∀ value, motive (.bool value)) (number : ∀ value, motive (.number value))
    (string : ∀ text, motive (.string text))
    (array : ∀ items : List Json, (∀ item ∈ items, motive item) → motive (.array items))
    (object : ∀ members : List (String × Json), (∀ member ∈ members, motive member.2) →
      motive (.object members)) : motive value :=
  match value with
  | .null => null
  | .bool value => bool value
  | .number value => number value
  | .string text => string text
  | .array items => array items fun item _ =>
    inductionOn item null bool number string array object
  | .object members => object members fun member _ =>
    inductionOn member.2 null bool number string array object
termination_by sizeOf value
decreasing_by
  · next inside =>
    have smaller := List.sizeOf_lt_of_mem inside
    simp only [Json.array.sizeOf_spec]
    omega
  · next inside =>
    have smaller := List.sizeOf_lt_of_mem inside
    have within : sizeOf member = 1 + sizeOf member.1 + sizeOf member.2 := by
      cases member
      rfl
    simp only [Json.object.sizeOf_spec]
    omega

mutual

def decEq : (left right : Json) → Decidable (left = right)
  | .null, .null => isTrue rfl
  | .bool left, .bool right => decidable_of_iff (left = right) (by simp)
  | .number left, .number right => decidable_of_iff (left = right) (by simp)
  | .string left, .string right => decidable_of_iff (left = right) (by simp)
  | .array left, .array right =>
    match decEqItems left right with
    | isTrue same => isTrue (by rw [same])
    | isFalse different => isFalse (by simpa using different)
  | .object left, .object right =>
    match decEqMembers left right with
    | isTrue same => isTrue (by rw [same])
    | isFalse different => isFalse (by simpa using different)
  | .null, .bool _ | .null, .number _ | .null, .string _ | .null, .array _ | .null, .object _
  | .bool _, .null | .bool _, .number _ | .bool _, .string _ | .bool _, .array _
  | .bool _, .object _ | .number _, .null | .number _, .bool _ | .number _, .string _
  | .number _, .array _ | .number _, .object _ | .string _, .null | .string _, .bool _
  | .string _, .number _ | .string _, .array _ | .string _, .object _ | .array _, .null
  | .array _, .bool _ | .array _, .number _ | .array _, .string _ | .array _, .object _
  | .object _, .null | .object _, .bool _ | .object _, .number _ | .object _, .string _
  | .object _, .array _ => isFalse (by simp)

def decEqItems : (left right : List Json) → Decidable (left = right)
  | [], [] => isTrue rfl
  | [], _ :: _ => isFalse (by simp)
  | _ :: _, [] => isFalse (by simp)
  | left :: lefts, right :: rights =>
    match decEq left right, decEqItems lefts rights with
    | isTrue head, isTrue tail => isTrue (by rw [head, tail])
    | isFalse different, _ => isFalse (by simp [different])
    | _, isFalse different => isFalse (by simp [different])

def decEqMembers : (left right : List (String × Json)) → Decidable (left = right)
  | [], [] => isTrue rfl
  | [], _ :: _ => isFalse (by simp)
  | _ :: _, [] => isFalse (by simp)
  | (key, left) :: lefts, (other, right) :: rights =>
    if named : key = other then
      match decEq left right, decEqMembers lefts rights with
      | isTrue head, isTrue tail => isTrue (by rw [named, head, tail])
      | isFalse different, _ => isFalse (by simp [different])
      | _, isFalse different => isFalse (by simp [different])
    else isFalse (by simp [named])

end

instance : DecidableEq Json := decEq

def asStr : Json → Option String
  | .string text => some text
  | _ => none

def asArray : Json → Option (List Json)
  | .array items => some items
  | _ => none

/-- The member of a name, of the first that has it. -/
def field (members : List (String × Json)) (name : String) : Option Json := members.lookup name

/-- What a value holds under a name, `null` where it holds nothing. -/
def index (value : Json) (name : String) : Json :=
  match value with
  | .object members => (field members name).getD .null
  | _ => .null

/-- A number that is an `i64`. -/
def asI64 : Json → Option Int
  | .number (.posInt value) => if value < 2 ^ 63 then some value else none
  | .number (.negInt value) => some (-(value + 1 : Int))
  | _ => none

/-- An object of the entries of an ordered map. -/
def ofMap {α : Type} (map : Foundation.SortedMap String α) (write : α → Json) : Json :=
  .object (map.entries.map fun entry => (entry.1, write entry.2))

/-- A character within the quotes of a text. -/
def escape (character : Char) : List Char :=
  if character = '"' then ['\\', '"']
  else if character = '\\' then ['\\', '\\']
  else if character.toNat = 0x8 then ['\\', 'b']
  else if character.toNat = 0x9 then ['\\', 't']
  else if character.toNat = 0xa then ['\\', 'n']
  else if character.toNat = 0xc then ['\\', 'f']
  else if character.toNat = 0xd then ['\\', 'r']
  else if character.toNat < 0x20 then
    ['\\', 'u', '0', '0', (Text.upperHexDigit (character.toNat / 16)).toLower,
      (Text.upperHexDigit (character.toNat % 16)).toLower]
  else [character]

def writeText (text : String) : String :=
  String.ofList ('"' :: text.toList.flatMap escape ++ ['"'])

mutual

/-- The compact text of a document. How a float is written is given. -/
def write (float : Rat → String) : Json → String
  | .null => "null"
  | .bool true => "true"
  | .bool false => "false"
  | .number (.posInt value) => toString value
  | .number (.negInt value) => "-" ++ toString (value + 1)
  | .number (.float worth) => float worth
  | .string text => writeText text
  | .array items => "[" ++ ",".intercalate (writeItems float items) ++ "]"
  | .object members => "\x7b" ++ ",".intercalate (writeMembers float members) ++ "\x7d"

def writeItems (float : Rat → String) : List Json → List String
  | [] => []
  | item :: items => write float item :: writeItems float items

def writeMembers (float : Rat → String) : List (String × Json) → List String
  | [] => []
  | (key, item) :: members =>
    (writeText key ++ ":" ++ write float item) :: writeMembers float members

end

/-- The fields of a structure as `serde` reads them: an object's by their names,
an array's by their places. -/
def readFields (names : List String) : Json → Option (List (Option Json))
  | .object members => some (names.map (Json.field members))
  | .array items =>
    if items.length ≤ names.length then
      some (items.map some ++ List.replicate (names.length - items.length) none)
    else none
  | _ => none

def readU32 : Json → Option Nat
  | .number (.posInt value) => if value < 2 ^ 32 then some value else none
  | _ => none

def readList {α : Type} (read : Json → Option α) : Json → Option (List α)
  | .array items => items.mapM read
  | _ => none

def readMap {α : Type} (read : Json → Option α) : Json → Option (Foundation.SortedMap String α)
  | .object members =>
    members.foldlM (fun map member => return map.insert member.1 (← read member.2)) .empty
  | _ => none

/-- An optional text: absent, `null`, or a text. -/
def readOptionalText : Option Json → Option (Option String)
  | none | some .null => some none
  | some (.string text) => some (some text)
  | some _ => none

/-- The variant of an enumeration, and what it holds. -/
def readVariant : Json → Option (String × Option Json)
  | .string tag => some (tag, none)
  | .object [(tag, content)] => some (tag, some content)
  | _ => none

/-- The name of a variant that holds nothing. -/
def readUnitVariant (document : Json) : Option String :=
  match readVariant document with
  | some (tag, none) | some (tag, some .null) => some tag
  | _ => none

/-- Whether an object holds no member but those named. -/
def holdsOnly (names : List String) (members : List (String × Json)) : Bool :=
  members.all fun member => member.1 ∈ names

/-- A map written and read back, where each of its values is. -/
theorem readMap_ofMap {α : Type} {read : Json → Option α} {write : α → Json}
    {map : Foundation.SortedMap String α}
    (each : ∀ entry ∈ map.entries, read (write entry.2) = some entry.2) :
    readMap read (ofMap map write) = some map := by
  have fold : ∀ (entries : List (String × α)) (map : Foundation.SortedMap String α),
      (∀ entry ∈ entries, read (write entry.2) = some entry.2) →
      (entries.map fun entry => (entry.1, write entry.2)).foldlM
        (fun map member => return map.insert member.1 (← read member.2)) map =
        some (entries.foldl (fun map entry => map.insert entry.1 entry.2) map) := by
    intro entries
    induction entries with
    | nil => simp
    | cons entry entries ih =>
      intro map each
      obtain ⟨here, rest⟩ := List.forall_mem_cons.mp each
      rw [List.map_cons, List.foldlM_cons, List.foldl_cons, ← ih _ rest]
      simp [here]
  rw [ofMap, readMap, fold map.entries .empty each, Foundation.SortedMap.foldl_insert_entries]

theorem readList_map {α : Type} {read : Json → Option α} {write : α → Json} {list : List α}
    (each : ∀ value ∈ list, read (write value) = some value) :
    readList read (.array (list.map write)) = some list := by
  rw [readList]
  induction list with
  | nil => rfl
  | cons value list ih =>
    obtain ⟨here, rest⟩ := List.forall_mem_cons.mp each
    simp [here, ih rest]

theorem field_entries (entries : List (String × Json)) (name : String) :
    field entries name = Foundation.SortedMap.lookup name entries := by
  induction entries with
  | nil => rfl
  | cons entry rest ih =>
    rw [field, List.lookup_cons, Foundation.SortedMap.lookup]
    by_cases same : entry.1 = name
    · simp [same]
    · have apart : (name == entry.1) = false := beq_false_of_ne (Ne.symm same)
      rw [if_neg same, apart, ← ih, field]

theorem ofMap_id (map : Foundation.SortedMap String Json) : ofMap map id = .object map.entries := by
  simp [ofMap]

/-- What an object made of a map holds under a name is what the map does. -/
theorem index_ofMap (map : Foundation.SortedMap String Json) (name : String) :
    (ofMap map id).index name = (map.get? name).getD .null := by
  rw [ofMap_id, index, field_entries, Foundation.SortedMap.get?]

/-- A value as `serde_json` keeps one that no float stands in: the keys of an
object in increasing order, and the integers of 64 bits. -/
inductive Kept : Json → Prop
  | null : Kept .null
  | bool (value : Bool) : Kept (.bool value)
  | posInt {value : Nat} (within : value < 2 ^ 64) : Kept (.number (.posInt value))
  | negInt {value : Nat} (within : value < 2 ^ 63) : Kept (.number (.negInt value))
  | string (text : String) : Kept (.string text)
  | array {items : List Json} (each : ∀ item ∈ items, Kept item) : Kept (.array items)
  | object {members : List (String × Json)}
      (sorted : members.Pairwise fun left right => left.1 < right.1)
      (each : ∀ member ∈ members, Kept member.2) : Kept (.object members)

end Json

end Saffui
