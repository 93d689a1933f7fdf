import Saffui.Ports
import Saffui.Authz.Relations.Schema

/-!
# The schema a realm keeps

Source: `StoredSchema` and `read_compiled_schema` of
`saffui-core/src/authz/relations/mod.rs`, over what `serde` derives to read
the types of `schema.rs`. A rule reads from an object or an array with its
tag. The form this version writes reads back as it was.
-/

namespace Saffui.Authz.Relations
open Saffui.Foundation Json

def AllowedSubject.ofJson (document : Json) : Option AllowedSubject := do
  match ← readFields ["object_type", "member"] document with
  | [some (.string objectType), member] => return ⟨objectType, ← readOptionalText member⟩
  | _ => none

mutual

def Rule.ofJson : Json → Option Rule
  | .object members =>
    match Json.field members "kind" with
    | some (.string "computed") =>
      (Json.field members "member").bind fun member => member.asStr.map .computed
    | some (.string "arrow") => do
      return .arrow (← (← Json.field members "relation").asStr)
        (← (← Json.field members "member").asStr)
    | some (.string "union") => (Rule.memberOfJson members).map .union
    | some (.string "intersection") => (Rule.memberOfJson members).map .intersection
    | _ => none
  | .array [.string "computed", .string member] => some (.computed member)
  | .array [.string "arrow", .string relation, .string member] => some (.arrow relation member)
  | .array [.string "union", rules] => (Rule.listOfJson rules).map .union
  | .array [.string "intersection", rules] => (Rule.listOfJson rules).map .intersection
  | _ => none

/-- The rules under the name `rules`. -/
def Rule.memberOfJson : List (String × Json) → Option (List Rule)
  | [] => none
  | (key, rules) :: members =>
    if key = "rules" then Rule.listOfJson rules else Rule.memberOfJson members

def Rule.listOfJson : Json → Option (List Rule)
  | .array items => Rule.itemsOfJson items
  | _ => none

def Rule.itemsOfJson : List Json → Option (List Rule)
  | [] => some []
  | item :: items =>
    match Rule.ofJson item, Rule.itemsOfJson items with
    | some rule, some rules => some (rule :: rules)
    | _, _ => none

end

def ObjectType.ofJson (document : Json) : Option ObjectType := do
  match ← readFields ["relations", "permissions"] document with
  | [some relations, some permissions] =>
    return ⟨← readMap (readList AllowedSubject.ofJson) relations,
      ← readMap Rule.ofJson permissions⟩
  | _ => none

def CompiledSchema.ofJson (document : Json) : Option CompiledSchema := do
  match ← readFields ["version", "types"] document with
  | [some version, some types] =>
    return ⟨← readU32 version, ← readMap ObjectType.ofJson types⟩
  | _ => none

/-- Reads a compiled form as this version writes it. A form of another
version, or one that does not read, is none. -/
def readCompiledSchema (compiled : Json) : Option CompiledSchema :=
  (CompiledSchema.ofJson compiled).filter fun schema => schema.version = COMPILED_VERSION

/-- A schema as a realm keeps it: what was written, and what it compiled to. -/
structure StoredSchema where
  source : String
  compiled : Json
  writtenAt : Instant

/-- The compiled form. A form another version wrote is compiled again from
its source, never read as it is. -/
def StoredSchema.open (stored : StoredSchema) : Option CompiledSchema :=
  match readCompiledSchema stored.compiled with
  | some schema => some schema
  | none => (compileSchema stored.source).toOption

theorem AllowedSubject.ofJson_toJson (subject : AllowedSubject) :
    AllowedSubject.ofJson subject.toJson = some subject := by
  obtain ⟨objectType, member⟩ := subject
  cases member <;>
    simp [AllowedSubject.toJson, AllowedSubject.ofJson, readFields, Json.field, readOptionalText,
      List.lookup_cons]

mutual

theorem Rule.ofJson_toJson : ∀ rule : Rule, Rule.ofJson rule.toJson = some rule
  | .computed member => by simp [Rule.toJson, Rule.ofJson, Json.field, List.lookup_cons, Json.asStr]
  | .arrow relation member => by
    simp [Rule.toJson, Rule.ofJson, Json.field, List.lookup_cons, Json.asStr]
  | .union rules => by
    simp [Rule.toJson, Rule.ofJson, Json.field, Rule.memberOfJson, Rule.listOfJson,
      Rule.itemsOfJson_toJsons rules]
  | .intersection rules => by
    simp [Rule.toJson, Rule.ofJson, Json.field, Rule.memberOfJson, Rule.listOfJson,
      Rule.itemsOfJson_toJsons rules]

theorem Rule.itemsOfJson_toJsons :
    ∀ rules : List Rule, Rule.itemsOfJson (Rule.toJsons rules) = some rules
  | [] => rfl
  | rule :: rules => by
    simp [Rule.toJsons, Rule.itemsOfJson, Rule.ofJson_toJson rule,
      Rule.itemsOfJson_toJsons rules]

end

theorem ObjectType.ofJson_toJson (found : ObjectType) :
    ObjectType.ofJson found.toJson = some found := by
  have relations : readMap (readList AllowedSubject.ofJson)
      (Json.ofMap found.relations fun allowed => .array (allowed.map AllowedSubject.toJson)) =
      some found.relations :=
    readMap_ofMap fun _ _ => readList_map fun subject _ => subject.ofJson_toJson
  have permissions : readMap Rule.ofJson (Json.ofMap found.permissions Rule.toJson) =
      some found.permissions := readMap_ofMap fun entry _ => Rule.ofJson_toJson entry.2
  simp [ObjectType.toJson, ObjectType.ofJson, readFields, Json.field, List.lookup_cons, relations,
    permissions]

/-- The form of a schema of this version reads back. -/
theorem readCompiledSchema_toJson {schema : CompiledSchema}
    (current : schema.version = COMPILED_VERSION) :
    readCompiledSchema schema.toJson = some schema := by
  have types : readMap ObjectType.ofJson (Json.ofMap schema.types ObjectType.toJson) =
      some schema.types := readMap_ofMap fun entry _ => entry.2.ofJson_toJson
  have version : readU32 (.number (.posInt schema.version)) = some schema.version := by
    simp [readU32, current, COMPILED_VERSION]
  have read : CompiledSchema.ofJson schema.toJson = some schema := by
    simp [CompiledSchema.toJson, CompiledSchema.ofJson, readFields, Json.field, List.lookup_cons, types,
      version]
  simp [readCompiledSchema, read, current]

end Saffui.Authz.Relations
