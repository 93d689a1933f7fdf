import Mathlib.Data.List.Lex
import Mathlib.Data.List.Sort
import Saffui.JsonText
import Saffui.Audit.Chain

/-!
# The canonical form of an event

Source: `saffui-core/src/audit/canonical.rs`, and the envelope of
`audit/append.rs`. The keys of an object are written in the order of their
UTF-16 code units, a number only where every reader agrees on it. The members
of a `Map` are looked up by their names, so that they are distinct; in which
order they are held is left open here.
-/

namespace Saffui.Audit
open Json

/-- The largest integer every JSON reader agrees on. -/
def MAX_SAFE_INTEGER : Nat := 2 ^ 53 - 1

inductive CanonicalError where
  | notAnInteger
  | integerTooLarge
  deriving DecidableEq, Repr

/-- How far a number is from nothing, where it is an integer. -/
def magnitude : Number → Option Nat
  | .posInt value => some value
  | .negInt value => some (value + 1)
  | .float _ => none

/-- An integer as it is displayed. -/
def displayNumber (number : Number) : String := (Json.number number).write fun _ => ""

def writeNumber (number : Number) : Except CanonicalError String :=
  match magnitude number with
  | none => .error .notAnInteger
  | some magnitude =>
    if magnitude > MAX_SAFE_INTEGER then .error .integerTooLarge else .ok (displayNumber number)

/-- The order of names by their UTF-16 code units. -/
def ByUnits {α : Type} (left right : String × α) : Prop :=
  Text.encodeUtf16 left.1 ≤ Text.encodeUtf16 right.1

instance {α : Type} : DecidableRel (@ByUnits α) := fun left right =>
  inferInstanceAs (Decidable (Text.encodeUtf16 left.1 ≤ Text.encodeUtf16 right.1))

/-- The members of an object in the order they are written in. -/
def sortByUnits {α : Type} (members : List (String × α)) : List (String × α) :=
  members.insertionSort ByUnits

def writeMember (member : String × Except CanonicalError String) : Except CanonicalError String :=
  member.2.map fun text => writeText member.1 ++ ":" ++ text

mutual

def writeValue : Json → Except CanonicalError String
  | .null => .ok "null"
  | .bool true => .ok "true"
  | .bool false => .ok "false"
  | .number kept => writeNumber kept
  | .string text => .ok (writeText text)
  | .array items => (writeItems items).map fun texts => "[" ++ ",".intercalate texts ++ "]"
  | .object members =>
    ((sortByUnits (writeMembers members)).mapM writeMember).map fun texts =>
      "\x7b" ++ ",".intercalate texts ++ "\x7d"

/-- Items one after the other, up to the first that has no form. -/
def writeItems : List Json → Except CanonicalError (List String)
  | [] => .ok []
  | item :: items => do
    let text ← writeValue item
    let texts ← writeItems items
    return text :: texts

/-- The text of each member, under its name. -/
def writeMembers : List (String × Json) → List (String × Except CanonicalError String)
  | [] => []
  | (name, item) :: members => (name, writeValue item) :: writeMembers members

end

def canonicalize (value : Json) : Except CanonicalError Bytes :=
  (writeValue value).map Text.utf8

/-- What `record_event` writes down of an event. -/
def envelope (id tenant realm : Uuid) (kind instant : String) (payload : Json) : Json :=
  .object [("id", .string id.text), ("kind", .string kind), ("payload", payload),
    ("realm_id", .string realm.text), ("tenant_id", .string tenant.text), ("ts", .string instant)]

/-- No name twice in an object, as a map keeps them. -/
inductive DistinctNames : Json → Prop
  | null : DistinctNames .null
  | bool (value : Bool) : DistinctNames (.bool value)
  | number (value : Number) : DistinctNames (.number value)
  | string (text : String) : DistinctNames (.string text)
  | array {items : List Json} (each : ∀ item ∈ items, DistinctNames item) :
      DistinctNames (.array items)
  | object {members : List (String × Json)} (names : (members.map Prod.fst).Nodup)
      (each : ∀ member ∈ members, DistinctNames member.2) : DistinctNames (.object members)

/-- Equal as JSON values: under the same names, the same values, in whatever
order the members are held. -/
inductive Same : Json → Json → Prop
  | null : Same .null .null
  | bool (value : Bool) : Same (.bool value) (.bool value)
  | number (value : Number) : Same (.number value) (.number value)
  | string (text : String) : Same (.string text) (.string text)
  | array {items others : List Json} (lengths : items.length = others.length)
      (each : ∀ pair ∈ items.zip others, Same pair.1 pair.2) : Same (.array items) (.array others)
  | object {members others : List (String × Json)}
      (names : ∀ name, (field members name).isSome = (field others name).isSome)
      (each : ∀ name item other, field members name = some item →
        field others name = some other → Same item other) : Same (.object members) (.object others)

mutual

/-- A value with the members of each object in the order they are written
in. -/
def arrange : Json → Json
  | .array items => .array (arrangeItems items)
  | .object members => .object (sortByUnits (arrangeMembers members))
  | .null => .null
  | .bool value => .bool value
  | .number kept => .number kept
  | .string text => .string text

def arrangeItems : List Json → List Json
  | [] => []
  | item :: items => arrange item :: arrangeItems items

def arrangeMembers : List (String × Json) → List (String × Json)
  | [] => []
  | (name, item) :: members => (name, arrange item) :: arrangeMembers members

end

theorem arrangeItems_eq (items : List Json) : arrangeItems items = items.map arrange := by
  induction items with
  | nil => rfl
  | cons item items ih => rw [arrangeItems, ih, List.map_cons]

theorem arrangeMembers_eq (members : List (String × Json)) :
    arrangeMembers members = members.map fun member => (member.1, arrange member.2) := by
  induction members with
  | nil => rfl
  | cons member members ih => rw [arrangeMembers, ih, List.map_cons]

theorem writeItems_eq (items : List Json) : writeItems items = items.mapM writeValue := by
  induction items with
  | nil => rfl
  | cons item items ih => rw [writeItems, ih, List.mapM_cons]

theorem writeMembers_eq (members : List (String × Json)) :
    writeMembers members = members.map fun member => (member.1, writeValue member.2) := by
  induction members with
  | nil => rfl
  | cons member members ih => rw [writeMembers, ih, List.map_cons]

variable {α β : Type}

theorem sortByUnits_perm (members : List (String × α)) : (sortByUnits members).Perm members :=
  List.perm_insertionSort _ members

/-- What stands beside the names is carried along. -/
theorem sortByUnits_map (change : α → β) (members : List (String × α)) :
    sortByUnits (members.map fun member => (member.1, change member.2)) =
      (sortByUnits members).map fun member => (member.1, change member.2) := by
  apply (List.map_insertionSort ByUnits ByUnits _ members _).symm
  intro left _ right _
  exact Iff.rfl

instance : Std.Total (@ByUnits α) := ⟨fun left right =>
  le_total (Text.encodeUtf16 left.1) (Text.encodeUtf16 right.1)⟩

instance : IsTrans (String × α) ByUnits := ⟨fun _ _ _ first second =>
  le_trans (α := List Nat) first second⟩

theorem sortByUnits_sorted (members : List (String × α)) :
    (sortByUnits members).Pairwise ByUnits :=
  List.pairwise_insertionSort ByUnits members

theorem mem_sortByUnits {members : List (String × α)} {member : String × α} :
    member ∈ sortByUnits members ↔ member ∈ members :=
  List.mem_insertionSort ByUnits

theorem nodup_sorted {members : List (String × α)} (names : (members.map Prod.fst).Nodup) :
    ((sortByUnits members).map Prod.fst).Nodup :=
  ((sortByUnits_perm members).map Prod.fst).nodup_iff.mpr names

/-- Members of distinct names that are the same in some order are the same
once sorted. -/
theorem sortByUnits_eq {members others : List (String × α)} (perm : members.Perm others)
    (names : (members.map Prod.fst).Nodup) : sortByUnits members = sortByUnits others := by
  apply List.Perm.eq_of_pairwise _ (sortByUnits_sorted members) (sortByUnits_sorted others)
    ((sortByUnits_perm members).trans (perm.trans (sortByUnits_perm others).symm))
  intro one other here there first second
  have same : one.1 = other.1 := Text.encodeUtf16_injective (le_antisymm first second)
  exact List.inj_on_of_nodup_map names (mem_sortByUnits.mp here)
    (perm.mem_iff.mpr (mem_sortByUnits.mp there)) same

theorem field_eq_some {members : List (String × Json)} {name : String} {item : Json}
    (names : (members.map Prod.fst).Nodup) :
    field members name = some item ↔ (name, item) ∈ members := by
  induction members with
  | nil => simp [field]
  | cons member members ih =>
    rw [List.map_cons, List.nodup_cons] at names
    rw [field, List.lookup_cons]
    by_cases same : name = member.1
    · subst same
      rw [beq_self_eq_true, List.mem_cons]
      constructor
      · intro found
        exact Or.inl (Prod.ext rfl (Option.some.inj found).symm)
      · rintro (here | later)
        · rw [← here]
        · exact absurd (List.mem_map_of_mem later) names.1
    · rw [beq_false_of_ne same, List.mem_cons]
      have apart : (name, item) ≠ member := fun equal => same (congrArg Prod.fst equal)
      simpa [apart, field] using ih names.2

/-- A member of one object with its value changed is one of the other, where
the objects hold under each name values changed alike. -/
theorem mem_of_alike {members others : List (String × Json)} {change : Json → Json}
    (left : (members.map Prod.fst).Nodup) (right : (others.map Prod.fst).Nodup)
    (names : ∀ name, (field members name).isSome = (field others name).isSome)
    (alike : ∀ name item other, field members name = some item →
      field others name = some other → change item = change other) {member : String × Json}
    (inside : member ∈ members.map fun member => (member.1, change member.2)) :
    member ∈ others.map fun member => (member.1, change member.2) := by
  obtain ⟨⟨name, item⟩, here, rfl⟩ := List.mem_map.mp inside
  have found := (field_eq_some left).mpr here
  have some : (field others name).isSome := by rw [← names name, found]; rfl
  obtain ⟨other, there⟩ := Option.isSome_iff_exists.mp some
  rw [alike name item other found there]
  exact List.mem_map.mpr ⟨(name, other), (field_eq_some right).mp there, rfl⟩

theorem sorted_of_alike {members others : List (String × Json)} {change : Json → Json}
    (left : (members.map Prod.fst).Nodup) (right : (others.map Prod.fst).Nodup)
    (names : ∀ name, (field members name).isSome = (field others name).isSome)
    (alike : ∀ name item other, field members name = some item →
      field others name = some other → change item = change other) :
    sortByUnits (members.map fun member => (member.1, change member.2)) =
      sortByUnits (others.map fun member => (member.1, change member.2)) := by
  have kept (list : List (String × Json)) :
      (list.map fun member => (member.1, change member.2)).map Prod.fst = list.map Prod.fst := by
    simp
  apply sortByUnits_eq _ (by rwa [kept])
  apply (List.perm_ext_iff_of_nodup (.of_map Prod.fst (by rwa [kept]))
    (.of_map Prod.fst (by rwa [kept]))).mpr
  intro member
  constructor
  · exact mem_of_alike left right names alike
  · exact mem_of_alike right left (fun name => (names name).symm)
      (fun name item other here there => (alike name other item there here).symm)

/-- Values equal but for the order of members are arranged alike. -/
theorem arrange_eq_of_same {value other : Json} (same : Same value other)
    (distinct : DistinctNames value) (distinctOther : DistinctNames other) :
    arrange value = arrange other := by
  induction same with
  | null => rfl
  | bool value => rfl
  | number value => rfl
  | string text => rfl
  | @array items others lengths _ ih =>
    cases distinct with
    | array left =>
      cases distinctOther with
      | array right =>
        rw [arrange, arrange, arrangeItems_eq, arrangeItems_eq]
        congr 1
        apply List.ext_getElem (by simpa using lengths)
        intro place here there
        simp only [List.length_map] at here there
        simp only [List.getElem_map]
        have inside : (items[place], others[place]) ∈ items.zip others := by
          rw [← List.getElem_zip (h := by simpa using ⟨here, there⟩)]
          exact List.getElem_mem _
        exact ih _ inside (left _ (List.getElem_mem _)) (right _ (List.getElem_mem _))
  | @object members others names _ ih =>
    cases distinct with
    | object left leftEach =>
      cases distinctOther with
      | object right rightEach =>
        rw [arrange, arrange, arrangeMembers_eq, arrangeMembers_eq]
        congr 1
        apply sorted_of_alike left right names
        intro name item other here there
        exact ih name item other here there
          (leftEach _ ((field_eq_some left).mp here)) (rightEach _ ((field_eq_some right).mp there))

/-- A name stands in an object as it does in the object sorted. -/
theorem field_sorted {members : List (String × Json)} {name : String} {item : Json}
    (names : (members.map Prod.fst).Nodup) :
    field (sortByUnits (arrangeMembers members)) name = some item ↔
      ∃ held, field members name = some held ∧ arrange held = item := by
  have kept : (arrangeMembers members).map Prod.fst = members.map Prod.fst := by
    simp [arrangeMembers_eq]
  rw [field_eq_some (nodup_sorted (by rwa [kept])), mem_sortByUnits, arrangeMembers_eq,
    List.mem_map]
  constructor
  · rintro ⟨⟨found, held⟩, inside, same⟩
    obtain ⟨rfl, rfl⟩ := Prod.mk.inj same
    exact ⟨held, (field_eq_some names).mpr inside, rfl⟩
  · rintro ⟨held, found, rfl⟩
    exact ⟨(name, held), (field_eq_some names).mp found, rfl⟩

/-- Values arranged alike are equal but for the order of members. -/
theorem same_of_arrange_eq {value other : Json} (distinct : DistinctNames value)
    (distinctOther : DistinctNames other) (arranged : arrange value = arrange other) :
    Same value other := by
  induction value using Json.inductionOn generalizing other with
  | null =>
    cases other <;> simp [arrange] at arranged
    exact .null
  | bool value =>
    cases other <;> simp [arrange] at arranged
    subst arranged
    exact .bool value
  | number value =>
    cases other <;> simp [arrange] at arranged
    subst arranged
    exact .number value
  | string text =>
    cases other <;> simp [arrange] at arranged
    subst arranged
    exact .string text
  | array items ih =>
    cases other <;> simp only [arrange, reduceCtorEq, Json.array.injEq] at arranged
    next others =>
    cases distinct with
    | array left =>
      cases distinctOther with
      | array right =>
        rw [arrangeItems_eq, arrangeItems_eq] at arranged
        have lengths : items.length = others.length := by
          simpa using congrArg List.length arranged
        apply Same.array lengths
        rintro ⟨item, other⟩ inside
        have alike : arrange item = arrange other := by
          obtain ⟨place, within, found⟩ := List.mem_iff_getElem.mp inside
          rw [List.getElem_zip] at found
          obtain ⟨rfl, rfl⟩ := Prod.mk.inj found
          rw [List.length_zip] at within
          have first : place < items.length := by omega
          have second : place < others.length := by omega
          have there := congrArg (fun list => list[place]?) arranged
          simpa [first, second] using there
        exact ih item (List.of_mem_zip inside).1 (left _ (List.of_mem_zip inside).1)
          (right _ (List.of_mem_zip inside).2) alike
  | object members ih =>
    cases other <;> simp only [arrange, reduceCtorEq, Json.object.injEq] at arranged
    next others =>
    cases distinct with
    | object left leftEach =>
      cases distinctOther with
      | object right rightEach =>
        have held (name : String) (item : Json) :
            (∃ kept, field members name = some kept ∧ arrange kept = item) ↔
              ∃ kept, field others name = some kept ∧ arrange kept = item := by
          rw [← field_sorted left, ← field_sorted right, arranged]
        apply Same.object
        · intro name
          rw [Bool.eq_iff_iff, Option.isSome_iff_exists, Option.isSome_iff_exists]
          constructor
          · rintro ⟨item, found⟩
            obtain ⟨kept, there, -⟩ := (held name _).mp ⟨item, found, rfl⟩
            exact ⟨kept, there⟩
          · rintro ⟨item, found⟩
            obtain ⟨kept, there, -⟩ := (held name _).mpr ⟨item, found, rfl⟩
            exact ⟨kept, there⟩
        · intro name item other here there
          obtain ⟨kept, again, alike⟩ := (held name _).mp ⟨item, here, rfl⟩
          rw [there] at again
          cases again
          have inside := (field_eq_some left).mp here
          exact ih (name, item) inside (leftEach _ inside)
            (rightEach _ ((field_eq_some right).mp there)) alike.symm

/-- An integer every reader keeps exact. -/
def IsSafe (number : Number) : Prop := ∃ size ∈ magnitude number, size ≤ MAX_SAFE_INTEGER

theorem writeNumber_safe {number : Number} (safe : IsSafe number) (float : Rat → String) :
    writeNumber number = .ok ((Json.number number).write float) := by
  obtain ⟨size, known, within⟩ := safe
  rw [Option.mem_def] at known
  rw [writeNumber, known]
  simp only [if_neg (Nat.not_lt.mpr within), displayNumber]
  cases number with
  | posInt value => simp [write]
  | negInt value => simp [write]
  | float worth => cases known

theorem writeNumber_unsafe {number : Number} (loose : ¬ IsSafe number) :
    ∃ error, writeNumber number = .error error := by
  rw [writeNumber]
  split
  · exact ⟨_, rfl⟩
  · next size known =>
    rw [if_pos]
    · exact ⟨_, rfl⟩
    · by_contra within
      exact loose ⟨size, known, Nat.not_lt.mp within⟩

theorem mapM_ok {γ δ ε : Type} {list : List γ} {act : γ → Except ε δ} {value : γ → δ}
    (each : ∀ one ∈ list, act one = .ok (value one)) : list.mapM act = .ok (list.map value) := by
  induction list with
  | nil => rfl
  | cons one list ih =>
    obtain ⟨here, rest⟩ := List.forall_mem_cons.mp each
    rw [List.mapM_cons, here, ih rest]
    rfl

theorem mapM_error {γ δ ε : Type} {list : List γ} {act : γ → Except ε δ} {one : γ}
    (inside : one ∈ list) (fails : ∃ error, act one = .error error) :
    ∃ error, list.mapM act = .error error := by
  induction list with
  | nil => cases inside
  | cons head list ih =>
    rw [List.mapM_cons]
    cases here : act head with
    | error error => exact ⟨error, rfl⟩
    | ok value =>
      rcases List.mem_cons.mp inside with rfl | later
      · obtain ⟨error, fails⟩ := fails
        rw [here] at fails
        cases fails
      · obtain ⟨error, rest⟩ := ih later
        rw [rest]
        exact ⟨error, rfl⟩

theorem numbersOfItems_eq (items : List Json) : numbersOfItems items = items.flatMap numbers := by
  induction items with
  | nil => rfl
  | cons item items ih => rw [numbersOfItems, ih, List.flatMap_cons]

theorem numbersOfMembers_eq (members : List (String × Json)) :
    numbersOfMembers members = members.flatMap fun member => numbers member.2 := by
  induction members with
  | nil => rfl
  | cons member members ih => rw [numbersOfMembers, ih, List.flatMap_cons]

theorem write_items_eq (float : Rat → String) (items : List Json) :
    Json.writeItems float items = items.map (Json.write float) := by
  induction items with
  | nil => rfl
  | cons item items ih => rw [Json.writeItems, ih, List.map_cons]

theorem write_members_eq (float : Rat → String) (members : List (String × Json)) :
    Json.writeMembers float members =
      members.map fun member => writeText member.1 ++ ":" ++ member.2.write float := by
  induction members with
  | nil => rfl
  | cons member members ih => rw [Json.writeMembers, ih, List.map_cons]

/-- A member written, its value included. -/
def writeHeld (member : String × Json) : Except CanonicalError String :=
  writeMember (member.1, writeValue member.2)

theorem writeValue_array (items : List Json) : writeValue (.array items) =
    (items.mapM writeValue).map fun texts => "[" ++ ",".intercalate texts ++ "]" := by
  rw [writeValue, writeItems_eq]

theorem writeValue_object (members : List (String × Json)) : writeValue (.object members) =
    ((sortByUnits members).mapM writeHeld).map fun texts =>
      "\x7b" ++ ",".intercalate texts ++ "\x7d" := by
  rw [writeValue, writeMembers_eq, sortByUnits_map, List.mapM_map]
  rfl

/-- The names of every object in the order of their UTF-16 code units. -/
inductive SortedNames : Json → Prop
  | null : SortedNames .null
  | bool (value : Bool) : SortedNames (.bool value)
  | number (value : Number) : SortedNames (.number value)
  | string (text : String) : SortedNames (.string text)
  | array {items : List Json} (each : ∀ item ∈ items, SortedNames item) :
      SortedNames (.array items)
  | object {members : List (String × Json)}
      (sorted : members.Pairwise fun left right =>
        Text.encodeUtf16 left.1 < Text.encodeUtf16 right.1)
      (each : ∀ member ∈ members, SortedNames member.2) : SortedNames (.object members)

/-- A value of safe integers is written as the compact text of the value
arranged. -/
theorem writeValue_safe (float : Rat → String) {value : Json}
    (safe : ∀ number ∈ numbers value, IsSafe number) :
    writeValue value = .ok ((arrange value).write float) := by
  induction value using Json.inductionOn with
  | null => simp [writeValue, arrange, write]
  | bool value => cases value <;> simp [writeValue, arrange, write]
  | number value =>
    rw [writeValue, arrange]
    exact writeNumber_safe (safe value (by simp [numbers])) float
  | string text => simp [writeValue, arrange, write]
  | array items ih =>
    have each : ∀ item ∈ items, writeValue item = .ok ((arrange item).write float) := by
      intro item inside
      apply ih item inside
      intro number within
      apply safe number
      rw [numbers, numbersOfItems_eq]
      exact List.mem_flatMap.mpr ⟨item, inside, within⟩
    rw [writeValue_array, mapM_ok each, arrange, write, write_items_eq, arrangeItems_eq,
      List.map_map]
    rfl
  | object members ih =>
    have each : ∀ member ∈ members, writeValue member.2 = .ok ((arrange member.2).write float) := by
      intro member inside
      apply ih member inside
      intro number within
      apply safe number
      rw [numbers, numbersOfMembers_eq]
      exact List.mem_flatMap.mpr ⟨member, inside, within⟩
    have texts : ∀ member ∈ sortByUnits members,
        writeHeld member = .ok (writeText member.1 ++ ":" ++ (arrange member.2).write float) := by
      intro member inside
      rw [writeHeld, writeMember, each member (mem_sortByUnits.mp inside)]
      rfl
    rw [writeValue_object, mapM_ok texts, arrange, write, write_members_eq, arrangeMembers_eq,
      sortByUnits_map, List.map_map]
    rfl

/-- A value that holds a number without a canonical form is refused. -/
theorem writeValue_unsafe {value : Json} {number : Number} (inside : number ∈ numbers value)
    (loose : ¬ IsSafe number) : ∃ error, writeValue value = .error error := by
  induction value using Json.inductionOn with
  | null => simp [numbers] at inside
  | bool value => simp [numbers] at inside
  | string text => simp [numbers] at inside
  | number value =>
    rw [numbers, List.mem_singleton] at inside
    subst inside
    rw [writeValue]
    exact writeNumber_unsafe loose
  | array items ih =>
    rw [numbers, numbersOfItems_eq] at inside
    obtain ⟨item, here, within⟩ := List.mem_flatMap.mp inside
    obtain ⟨error, fails⟩ := mapM_error here (ih item here within)
    rw [writeValue_array, fails]
    exact ⟨error, rfl⟩
  | object members ih =>
    rw [numbers, numbersOfMembers_eq] at inside
    obtain ⟨member, here, within⟩ := List.mem_flatMap.mp inside
    obtain ⟨error, fails⟩ := ih member here within
    have refused : ∃ error, writeHeld member = .error error :=
      ⟨error, by rw [writeHeld, writeMember, fails]; rfl⟩
    obtain ⟨error, stops⟩ := mapM_error (mem_sortByUnits.mpr here) refused
    rw [writeValue_object, stops]
    exact ⟨error, rfl⟩

theorem mapM_congr {γ δ ε : Type} {list : List γ} {act other : γ → Except ε δ}
    (each : ∀ one ∈ list, act one = other one) : list.mapM act = list.mapM other := by
  induction list with
  | nil => rfl
  | cons one list ih =>
    obtain ⟨here, rest⟩ := List.forall_mem_cons.mp each
    rw [List.mapM_cons, List.mapM_cons, here, ih rest]

theorem sortByUnits_twice (members : List (String × α)) :
    sortByUnits (sortByUnits members) = sortByUnits members :=
  (sortByUnits_sorted members).insertionSort_eq

/-- What is written depends on the value arranged alone. -/
theorem writeValue_arrange (value : Json) : writeValue (arrange value) = writeValue value := by
  induction value using Json.inductionOn with
  | null => rfl
  | bool value => rfl
  | number value => rfl
  | string text => rfl
  | array items ih =>
    rw [arrange, writeValue_array, writeValue_array, arrangeItems_eq, List.mapM_map]
    congr 1
    exact mapM_congr ih
  | object members ih =>
    rw [arrange, writeValue_object, writeValue_object, sortByUnits_twice, arrangeMembers_eq,
      sortByUnits_map, List.mapM_map]
    congr 1
    apply mapM_congr
    intro member inside
    simp only [Function.comp_apply, writeHeld, ih member (mem_sortByUnits.mp inside)]

theorem arrange_distinct {value : Json} (distinct : DistinctNames value) :
    DistinctNames (arrange value) := by
  induction distinct with
  | null => exact .null
  | bool value => exact .bool value
  | number value => exact .number value
  | string text => exact .string text
  | array _ ih =>
    rw [arrange, arrangeItems_eq]
    apply DistinctNames.array
    intro item inside
    obtain ⟨held, here, rfl⟩ := List.mem_map.mp inside
    exact ih held here
  | @object members names _ ih =>
    have kept : (arrangeMembers members).map Prod.fst = members.map Prod.fst := by
      simp [arrangeMembers_eq]
    rw [arrange]
    apply DistinctNames.object (nodup_sorted (by rwa [kept]))
    intro member inside
    rw [mem_sortByUnits, arrangeMembers_eq] at inside
    obtain ⟨held, here, rfl⟩ := List.mem_map.mp inside
    exact ih held here

theorem arrange_sorted {value : Json} (distinct : DistinctNames value) :
    SortedNames (arrange value) := by
  induction distinct with
  | null => exact .null
  | bool value => exact .bool value
  | number value => exact .number value
  | string text => exact .string text
  | array _ ih =>
    rw [arrange, arrangeItems_eq]
    apply SortedNames.array
    intro item inside
    obtain ⟨held, here, rfl⟩ := List.mem_map.mp inside
    exact ih held here
  | @object members names _ ih =>
    have kept : (arrangeMembers members).map Prod.fst = members.map Prod.fst := by
      simp [arrangeMembers_eq]
    have distinct : ((sortByUnits (arrangeMembers members)).map Prod.fst).Nodup :=
      nodup_sorted (by rwa [kept])
    rw [arrange]
    apply SortedNames.object
    · rw [List.nodup_iff_pairwise_ne, List.pairwise_map] at distinct
      exact distinct.imp₂ (fun left right apart ordered =>
        lt_of_le_of_ne ordered fun same => apart (Text.encodeUtf16_injective same))
        (sortByUnits_sorted _)
    · intro member inside
      rw [mem_sortByUnits, arrangeMembers_eq] at inside
      obtain ⟨held, here, rfl⟩ := List.mem_map.mp inside
      exact ih held here

theorem arrange_arrange (value : Json) : arrange (arrange value) = arrange value := by
  induction value using Json.inductionOn with
  | null => rfl
  | bool value => rfl
  | number value => rfl
  | string text => rfl
  | array items ih =>
    rw [arrange, arrange, arrangeItems_eq, arrangeItems_eq, List.map_map]
    congr 1
    exact List.map_congr_left ih
  | object members ih =>
    rw [arrange, arrange, arrangeMembers_eq, arrangeMembers_eq, sortByUnits_map, sortByUnits_map,
      sortByUnits_map, sortByUnits_twice, List.map_map]
    congr 1
    apply List.map_congr_left
    intro member inside
    exact congrArg (Prod.mk member.1) (ih member (mem_sortByUnits.mp inside))

theorem same_arrange {value : Json} (distinct : DistinctNames value) :
    Same value (arrange value) :=
  same_of_arrange_eq distinct (arrange_distinct distinct) (arrange_arrange value).symm

theorem mem_numbers_arrange {value : Json} {number : Number}
    (inside : number ∈ numbers (arrange value)) : number ∈ numbers value := by
  induction value using Json.inductionOn with
  | null => exact inside
  | bool value => exact inside
  | number value => exact inside
  | string text => exact inside
  | array items ih =>
    rw [arrange, numbers, numbersOfItems_eq, arrangeItems_eq] at inside
    obtain ⟨item, here, within⟩ := List.mem_flatMap.mp inside
    obtain ⟨held, held_mem, rfl⟩ := List.mem_map.mp here
    rw [numbers, numbersOfItems_eq]
    exact List.mem_flatMap.mpr ⟨held, held_mem, ih held held_mem within⟩
  | object members ih =>
    rw [arrange, numbers, numbersOfMembers_eq] at inside
    obtain ⟨member, here, within⟩ := List.mem_flatMap.mp inside
    rw [mem_sortByUnits, arrangeMembers_eq] at here
    obtain ⟨held, held_mem, rfl⟩ := List.mem_map.mp here
    rw [numbers, numbersOfMembers_eq]
    exact List.mem_flatMap.mpr ⟨held, held_mem, ih held held_mem within⟩

theorem IsSafe.isInteger64 {number : Number} (safe : IsSafe number) : IsInteger64 number := by
  obtain ⟨size, known, within⟩ := safe
  have bound : MAX_SAFE_INTEGER < 2 ^ 63 := by decide
  cases number with
  | posInt value =>
    cases known
    exact lt_trans (Nat.lt_of_le_of_lt within bound) (by decide)
  | negInt value =>
    cases known
    exact Nat.lt_of_le_of_lt (Nat.le_of_succ_le within) bound
  | float worth => cases known

theorem canonicalize_refuses (value : Json) :
    (∃ error, canonicalize value = .error error) ↔ ∃ number ∈ numbers value, ¬ IsSafe number := by
  constructor
  · rintro ⟨error, refused⟩
    by_contra none
    push Not at none
    rw [canonicalize, writeValue_safe (fun _ => "") none] at refused
    cases refused
  · rintro ⟨number, inside, loose⟩
    obtain ⟨error, refused⟩ := writeValue_unsafe inside loose
    exact ⟨error, by rw [canonicalize, refused]; rfl⟩

theorem canonicalize_accepts {value : Json} {bytes : Bytes} (accepted : canonicalize value = .ok bytes)
    (float : Rat → String) :
    (∀ number ∈ numbers value, IsSafe number) ∧
      bytes = Text.utf8 ((arrange value).write float) := by
  have safe : ∀ number ∈ numbers value, IsSafe number := by
    by_contra none
    push Not at none
    obtain ⟨error, refused⟩ := (canonicalize_refuses value).mpr none
    rw [refused] at accepted
    cases accepted
  rw [canonicalize, writeValue_safe float safe] at accepted
  exact ⟨safe, (Except.ok.inj accepted).symm⟩

/-- Reads the bytes of a document. -/
def parse (readFloat : List Char → Option Number) (bytes : Bytes) : Option Json :=
  (Text.readUtf8 bytes).bind (Json.read readFloat)

/-- The bytes of a value read back as the value arranged. -/
theorem parse_canonical (readFloat : List Char → Option Number) {value : Json} {bytes : Bytes}
    (accepted : canonicalize value = .ok bytes) : parse readFloat bytes = some (arrange value) := by
  obtain ⟨safe, written⟩ := canonicalize_accepts accepted fun _ => ""
  rw [parse, written, Text.readUtf8_utf8]
  exact read_write readFloat _ fun number inside => (safe number (mem_numbers_arrange inside)).isInteger64

theorem canonicalize_of_same {value other : Json} (distinct : DistinctNames value)
    (distinctOther : DistinctNames other) (same : Same value other) :
    canonicalize value = canonicalize other := by
  rw [canonicalize, canonicalize, ← writeValue_arrange value, ← writeValue_arrange other,
    arrange_eq_of_same same distinct distinctOther]

theorem bytes_eq_iff_same {value other : Json} {bytes written : Bytes}
    (distinct : DistinctNames value) (distinctOther : DistinctNames other)
    (accepted : canonicalize value = .ok bytes) (acceptedOther : canonicalize other = .ok written) :
    bytes = written ↔ Same value other := by
  constructor
  · rintro rfl
    have one := parse_canonical (fun _ => none) accepted
    have two := parse_canonical (fun _ => none) acceptedOther
    rw [one] at two
    exact same_of_arrange_eq distinct distinctOther (Option.some.inj two)
  · intro same
    rw [canonicalize_of_same distinct distinctOther same, acceptedOther] at accepted
    exact (Except.ok.inj accepted).symm

/-- Events whose hashes are equal are the same, unless two different texts
have one hash. -/
theorem same_of_hashLink (sha256 : Bytes → Bytes) {value other : Json}
    {bytes written previous before : Bytes} {seq number : Int} (distinct : DistinctNames value)
    (distinctOther : DistinctNames other) (accepted : canonicalize value = .ok bytes)
    (acceptedOther : canonicalize other = .ok written) (lengths : previous.length = before.length)
    (apart : sha256 (previous ++ toBeBytes seq ++ bytes) =
        sha256 (before ++ toBeBytes number ++ written) →
      previous ++ toBeBytes seq ++ bytes = before ++ toBeBytes number ++ written)
    (hashed : hashLink sha256 previous seq bytes = hashLink sha256 before number written) :
    Same value other := by
  have whole := apart hashed
  have sizes : (previous ++ toBeBytes seq).length = (before ++ toBeBytes number).length := by
    simp [lengths, toBeBytes]
  have same := (List.append_inj whole sizes).2
  exact (bytes_eq_iff_same distinct distinctOther accepted acceptedOther).mp same

/-- The canonical form is one: it reads back as the value it was written from
with its names sorted at every depth, it is the same for two values exactly
when they are equal whatever the order of their members, and only numbers that
readers do not agree on have none. So what is hashed of two events tells them
apart. -/
theorem canonicalize_is_canonical :
    (∀ (readFloat : List Char → Option Number) {value : Json} {bytes : Bytes},
      DistinctNames value → canonicalize value = .ok bytes →
      ∃ parsed, parse readFloat bytes = some parsed ∧ Same value parsed ∧ SortedNames parsed) ∧
    (∀ {value other : Json} {bytes written : Bytes}, DistinctNames value → DistinctNames other →
      canonicalize value = .ok bytes → canonicalize other = .ok written →
      (bytes = written ↔ Same value other)) ∧
    (∀ {value other : Json}, DistinctNames value → DistinctNames other → Same value other →
      canonicalize value = canonicalize other) ∧
    (∀ value : Json, (∃ error, canonicalize value = .error error) ↔
      ∃ number ∈ numbers value, ¬ IsSafe number) ∧
    ∀ (sha256 : Bytes → Bytes) {value other : Json} {bytes written previous before : Bytes}
      {seq number : Int}, DistinctNames value → DistinctNames other →
      canonicalize value = .ok bytes → canonicalize other = .ok written →
      previous.length = before.length →
      (sha256 (previous ++ toBeBytes seq ++ bytes) =
          sha256 (before ++ toBeBytes number ++ written) →
        previous ++ toBeBytes seq ++ bytes = before ++ toBeBytes number ++ written) →
      hashLink sha256 previous seq bytes = hashLink sha256 before number written →
      Same value other := by
  refine ⟨?_, bytes_eq_iff_same, canonicalize_of_same, canonicalize_refuses,
    same_of_hashLink⟩
  intro readFloat value bytes distinct accepted
  exact ⟨arrange value, parse_canonical readFloat accepted, same_arrange distinct,
    arrange_sorted distinct⟩

/-- A name above the basic plane comes before one at its end: the order of the
code units is not that of the code points. -/
def planesDocument : Json :=
  .object [("\ufb33", .number (.posInt 1)), (String.ofList [Char.ofNat 0x1f600], .array [.null])]

theorem planesDocument_reads :
    canonicalize planesDocument = .ok (Text.utf8 "\x7b\"😀\":[null],\"\ufb33\":1\x7d") ∧
      ∃ parsed, parse (fun _ => none)
        (Text.utf8 "\x7b\"😀\":[null],\"\ufb33\":1\x7d") = some parsed ∧
        Same planesDocument parsed ∧ SortedNames parsed := by
  have distinct : DistinctNames planesDocument := by
    apply DistinctNames.object (by decide)
    intro member inside
    simp only [List.mem_cons, List.not_mem_nil, or_false] at inside
    rcases inside with rfl | rfl
    · exact .number _
    · exact .array fun item inside => by
        rw [List.mem_singleton.mp inside]
        exact .null
  have accepted : canonicalize planesDocument =
      .ok (Text.utf8 "\x7b\"😀\":[null],\"\ufb33\":1\x7d") := by
    decide +kernel
  exact ⟨accepted, canonicalize_is_canonical.1 (fun _ => none) distinct accepted⟩

end Saffui.Audit
