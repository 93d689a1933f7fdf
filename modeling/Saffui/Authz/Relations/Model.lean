import Mathlib.Data.String.Basic
import Saffui.Foundation.SortedMap

/-!
# Objects, relations kept and compiled schemas

Source: `saffui-core/src/authz/relations/mod.rs` and the compiled form of
`schema.rs`. The `BTreeMap`s of the source are sorted maps here: Rust orders
strings byte by byte, which is the order of their code points.
-/

namespace Saffui.Authz.Relations
open Saffui.Foundation

/-- An object: its type, and its identifier within the type. -/
structure ObjectRef where
  objectType : String
  objectId : String
  deriving DecidableEq, Repr

instance ObjectRef.lawfulBEq : LawfulBEq (ObjectRef × String) := inferInstance

/-- What a relation names: an object, or the members of a member of an object. -/
structure SubjectRef where
  object : ObjectRef
  member : Option String
  deriving DecidableEq, Repr

structure RelationTuple where
  object : ObjectRef
  relation : String
  subject : SubjectRef
  deriving DecidableEq, Repr

/-- A subject a relation admits: an object of a type, or the members of a
member of an object of a type. -/
structure AllowedSubject where
  objectType : String
  member : Option String
  deriving DecidableEq, Repr

inductive Rule where
  /-- Another member of the same object. -/
  | computed (member : String)
  /-- A member of each object that a relation of this one names. -/
  | arrow (relation member : String)
  | union (rules : List Rule)
  | intersection (rules : List Rule)
  deriving Repr

mutual

/-- Rules are compared as the derived `Eq` of the source compares them. -/
def Rule.decEq : (left right : Rule) → Decidable (left = right)
  | .computed left, .computed right =>
    decidable_of_iff (left = right) (by simp)
  | .arrow leftRelation leftMember, .arrow rightRelation rightMember =>
    decidable_of_iff (leftRelation = rightRelation ∧ leftMember = rightMember) (by simp)
  | .union left, .union right =>
    match Rule.decEqList left right with
    | isTrue same => isTrue (by rw [same])
    | isFalse different => isFalse (by simpa using different)
  | .intersection left, .intersection right =>
    match Rule.decEqList left right with
    | isTrue same => isTrue (by rw [same])
    | isFalse different => isFalse (by simpa using different)
  | .computed _, .arrow _ _ | .computed _, .union _ | .computed _, .intersection _
  | .arrow _ _, .computed _ | .arrow _ _, .union _ | .arrow _ _, .intersection _
  | .union _, .computed _ | .union _, .arrow _ _ | .union _, .intersection _
  | .intersection _, .computed _ | .intersection _, .arrow _ _ | .intersection _, .union _ =>
    isFalse (by simp)

def Rule.decEqList : (left right : List Rule) → Decidable (left = right)
  | [], [] => isTrue rfl
  | [], _ :: _ => isFalse (by simp)
  | _ :: _, [] => isFalse (by simp)
  | left :: lefts, right :: rights =>
    match Rule.decEq left right, Rule.decEqList lefts rights with
    | isTrue head, isTrue tail => isTrue (by rw [head, tail])
    | isFalse different, _ => isFalse (by simp [different])
    | _, isFalse different => isFalse (by simp [different])

end

instance : DecidableEq Rule := Rule.decEq

structure ObjectType where
  /-- Each relation, and the subjects it admits: nothing else is walked. -/
  relations : SortedMap String (List AllowedSubject)
  permissions : SortedMap String Rule
  deriving DecidableEq

def ObjectType.default : ObjectType := ⟨.empty, .empty⟩

/-- The version of the compiled form. A form of another version is compiled
again from its source, never read. -/
def COMPILED_VERSION : Nat := 1

structure CompiledSchema where
  version : Nat
  types : SortedMap String ObjectType
  deriving DecidableEq

/-- What a name means on a type. -/
inductive MemberKind where
  | relation (allowed : List AllowedSubject)
  | permission (rule : Rule)
  deriving DecidableEq

/-- A relation of a name hides a permission of it. -/
def CompiledSchema.findMember (schema : CompiledSchema) (objectType member : String) :
    Option MemberKind := do
  let found ← schema.types.get? objectType
  match found.relations.get? member with
  | some allowed => some (.relation allowed)
  | none => (found.permissions.get? member).map .permission

/-- What a schema admits of a relation: a type of object, one of its
relations, and a subject the relation names. -/
structure AdmittedRelation where
  objectType : String
  relation : String
  subject : AllowedSubject
  deriving DecidableEq, Repr

/-- The kind of a relation kept: what a schema admits or does not. -/
def RelationTuple.kind (tuple : RelationTuple) : AdmittedRelation where
  objectType := tuple.object.objectType
  relation := tuple.relation
  subject := ⟨tuple.subject.object.objectType, tuple.subject.member⟩

/-- Every relation a schema admits, type by type. -/
def listAdmittedRelations (schema : CompiledSchema) : List AdmittedRelation :=
  schema.types.entries.flatMap fun (objectType, found) =>
    found.relations.entries.flatMap fun (relation, allowed) =>
      allowed.map fun subject => { objectType, relation, subject }

def isAdmittedBy (one : AdmittedRelation) (schema : CompiledSchema) : Bool :=
  match (schema.types.get? one.objectType).bind fun found => found.relations.get? one.relation with
  | some allowed => allowed.contains one.subject
  | none => false

/-- What changes when a schema replaces another: every relation one of them
admits and the other does not. -/
def listChangedRelations (before after : CompiledSchema) : List AdmittedRelation :=
  (listAdmittedRelations before).filter (fun one => !isAdmittedBy one after) ++
    (listAdmittedRelations after).filter (fun one => !isAdmittedBy one before)

/-- Whether a relation admits a subject, of its type and member exactly. -/
def admits (allowed : List AllowedSubject) (named : SubjectRef) : Bool :=
  allowed.any fun subject =>
    subject.objectType == named.object.objectType && subject.member == named.member

theorem admits_iff (allowed : List AllowedSubject) (named : SubjectRef) :
    admits allowed named = true ↔ ⟨named.object.objectType, named.member⟩ ∈ allowed := by
  simp only [admits, List.any_eq_true, Bool.and_eq_true, beq_iff_eq]
  constructor
  · rintro ⟨⟨type, member⟩, inside, rfl, rfl⟩
    exact inside
  · intro inside
    exact ⟨_, inside, rfl, rfl⟩

theorem mem_listAdmittedRelations_iff (schema : CompiledSchema) (one : AdmittedRelation) :
    one ∈ listAdmittedRelations schema ↔ ∃ found allowed,
      schema.types.get? one.objectType = some found ∧
      found.relations.get? one.relation = some allowed ∧ one.subject ∈ allowed := by
  simp only [listAdmittedRelations, List.mem_flatMap, List.mem_map, Prod.exists]
  constructor
  · rintro ⟨type, found, typed, relation, allowed, related, subject, inside, rfl⟩
    exact ⟨found, allowed, (SortedMap.mem_entries_iff _ _ _).mp typed,
      (SortedMap.mem_entries_iff _ _ _).mp related, inside⟩
  · rintro ⟨found, allowed, typed, related, inside⟩
    exact ⟨_, found, (SortedMap.mem_entries_iff _ _ _).mpr typed, _, allowed,
      (SortedMap.mem_entries_iff _ _ _).mpr related, _, inside, rfl⟩

/-- The lookup of a kind and the list of kinds agree. -/
theorem isAdmittedBy_iff (one : AdmittedRelation) (schema : CompiledSchema) :
    isAdmittedBy one schema = true ↔ one ∈ listAdmittedRelations schema := by
  rw [mem_listAdmittedRelations_iff]
  unfold isAdmittedBy
  cases typed : schema.types.get? one.objectType with
  | none => simp
  | some found =>
    cases related : found.relations.get? one.relation with
    | none => simp [related]
    | some allowed => simp [related]

/-- A kind that changed is admitted by exactly one of the two schemas. -/
theorem mem_listChangedRelations_iff (before after : CompiledSchema) (one : AdmittedRelation) :
    one ∈ listChangedRelations before after ↔
      ¬ (one ∈ listAdmittedRelations before ↔ one ∈ listAdmittedRelations after) := by
  simp only [listChangedRelations, List.mem_append, List.mem_filter, Bool.not_eq_true',
    ← Bool.not_eq_true, isAdmittedBy_iff]
  tauto

end Saffui.Authz.Relations
