import Saffui.Authz.Relations.SchemaCompile

/-!
# Schemas accepted, and what they mean

A text is accepted exactly when it is a text of a schema that keeps its rules,
and a text of such a schema compiles to a form that means what the schema
means: a term dropped because it came before changes neither a sum nor an
intersection, and the order of subjects changes no relation.
-/

namespace Saffui.Authz.Relations
open Saffui.Foundation

def Clause.asRelation : Clause → Option (String × List AllowedSubject)
  | .relation name subjects => some (name, subjects)
  | .permission .. => none

def Clause.asPermission : Clause → Option (String × Formula)
  | .relation .. => none
  | .permission name formula => some (name, formula)

section Form

variable (clauses : List Clause) (compiled : ObjectType)

theorem foldl_add_relations : (clauses.foldl Clause.add compiled).relations =
    (clauses.filterMap Clause.asRelation).foldl
      (fun map one => map.insert one.1 (sortSubjects one.2)) compiled.relations := by
  induction clauses generalizing compiled with
  | nil => rfl
  | cons clause clauses ih =>
    cases clause <;> simp [ih, Clause.add, Clause.asRelation, List.filterMap_cons]

theorem foldl_add_permissions : (clauses.foldl Clause.add compiled).permissions =
    (clauses.filterMap Clause.asPermission).foldl
      (fun map one => map.insert one.1 one.2.rule) compiled.permissions := by
  induction clauses generalizing compiled with
  | nil => rfl
  | cons clause clauses ih =>
    cases clause <;> simp [ih, Clause.add, Clause.asPermission, List.filterMap_cons]

theorem map_asRelation_sublist :
    ((clauses.filterMap Clause.asRelation).map Prod.fst).Sublist (clauses.map Clause.name) := by
  induction clauses with
  | nil => simp
  | cons clause clauses ih =>
    cases clause with
    | relation => exact ih.cons_cons _
    | permission => exact ih.cons _

theorem map_asPermission_sublist :
    ((clauses.filterMap Clause.asPermission).map Prod.fst).Sublist (clauses.map Clause.name) := by
  induction clauses with
  | nil => simp
  | cons clause clauses ih =>
    cases clause with
    | relation => exact ih.cons _
    | permission => exact ih.cons_cons _

theorem mem_asRelation {name : String} {subjects : List AllowedSubject} :
    (name, subjects) ∈ clauses.filterMap Clause.asRelation ↔ .relation name subjects ∈ clauses := by
  rw [List.mem_filterMap]
  constructor
  · rintro ⟨_ | _, inside, same⟩ <;> cases same
    exact inside
  · exact fun inside => ⟨_, inside, rfl⟩

theorem mem_asPermission {name : String} {formula : Formula} :
    (name, formula) ∈ clauses.filterMap Clause.asPermission ↔
      .permission name formula ∈ clauses := by
  rw [List.mem_filterMap]
  constructor
  · rintro ⟨_ | _, inside, same⟩ <;> cases same
    exact inside
  · exact fun inside => ⟨_, inside, rfl⟩

end Form

section Members

variable {type : TypeClauses} (once : (type.clauses.map Clause.name).Nodup)
include once

/-- The relations of a form are those of its type. -/
theorem form_relations_get? (name : String) (allowed : List AllowedSubject) :
    type.form.relations.get? name = some allowed ↔
      ∃ subjects, .relation name subjects ∈ type.clauses ∧ sortSubjects subjects = allowed := by
  rw [TypeClauses.form, foldl_add_relations,
    SortedMap.get?_foldl_insert _ _ _ (once.sublist (map_asRelation_sublist type.clauses))]
  simp only [Prod.exists, mem_asRelation, ObjectType.default, SortedMap.get?_empty, reduceCtorEq,
    and_false, or_false]
  constructor
  · rintro ⟨_, subjects, inside, rfl, rfl⟩
    exact ⟨subjects, inside, rfl⟩
  · rintro ⟨subjects, inside, rfl⟩
    exact ⟨name, subjects, inside, rfl, rfl⟩

/-- The permissions of a form are those of its type. -/
theorem form_permissions_get? (name : String) (rule : Rule) :
    type.form.permissions.get? name = some rule ↔
      ∃ formula, .permission name formula ∈ type.clauses ∧ formula.rule = rule := by
  rw [TypeClauses.form, foldl_add_permissions,
    SortedMap.get?_foldl_insert _ _ _ (once.sublist (map_asPermission_sublist type.clauses))]
  simp only [Prod.exists, mem_asPermission, ObjectType.default, SortedMap.get?_empty, reduceCtorEq,
    and_false, or_false]
  constructor
  · rintro ⟨_, formula, inside, rfl, rfl⟩
    exact ⟨formula, inside, rfl⟩
  · rintro ⟨formula, inside, rfl⟩
    exact ⟨name, formula, inside, rfl, rfl⟩

/-- A name is declared once: as a relation or as a permission. -/
theorem clause_unique {first second : Clause} (here : first ∈ type.clauses)
    (there : second ∈ type.clauses) (same : first.name = second.name) : first = second :=
  List.inj_on_of_nodup_map once here there same

end Members

theorem mem_sortSubjects (subjects : List AllowedSubject) (subject : AllowedSubject) :
    subject ∈ sortSubjects subjects ↔ subject ∈ subjects := by
  have read : ∀ (list : List AllowedSubject) (map : SortedMap AllowedSubject Unit),
      ((list.foldl (fun allowed one => allowed.insert one ()) map).get? subject).isSome ↔
        subject ∈ list ∨ (map.get? subject).isSome := by
    intro list
    induction list with
    | nil => simp
    | cons head tail ih =>
      intro map
      rw [List.foldl_cons, ih, SortedMap.get?_insert]
      by_cases same : subject = head
      · simp [same]
      · simp [same]
  simp [sortSubjects, SortedMap.mem_keys_iff, read]

/-- The rules of terms are those of each of them, whichever were dropped. -/
theorem mem_rules (terms : List Formula) (rules : List Rule) (rule : Rule) :
    rule ∈ Formula.rules terms rules ↔ rule ∈ rules ∨ ∃ term ∈ terms, term.rule = rule := by
  induction terms generalizing rules with
  | nil => simp [Formula.rules]
  | cons term terms ih =>
    rw [Formula.rules, ih]
    by_cases there : term.rule ∈ rules
    · simp only [there, if_true, List.mem_cons, exists_eq_or_imp]
      constructor
      · rintro (inside | later)
        · exact Or.inl inside
        · exact Or.inr (Or.inr later)
      · rintro (inside | rfl | later)
        · exact Or.inl inside
        · exact Or.inl there
        · exact Or.inr later
    · simp only [there, if_false, List.mem_append, List.mem_cons, List.not_mem_nil, or_false,
        exists_eq_or_imp, or_assoc, @eq_comm _ rule]

theorem mem_collectAll (rules : List Rule) (member : String) :
    member ∈ Rule.collectAll rules ↔ ∃ rule ∈ rules, member ∈ rule.collect := by
  induction rules with
  | nil => simp [Rule.collectAll]
  | cons rule rules ih => simp [Rule.collectAll, ih]

mutual

/-- A rule is computed from what its formula names. -/
theorem mem_collect_rule (member : String) :
    ∀ formula : Formula, member ∈ formula.rule.collect ↔ member ∈ formula.members
  | .member _ => by simp [Formula.rule, Rule.collect, Formula.members]
  | .arrow _ _ => by simp [Formula.rule, Rule.collect, Formula.members]
  | .any terms => by
    simp only [Formula.rule, Rule.collect, Formula.members]
    exact mem_collectAll_rules member terms
  | .all terms => by
    simp only [Formula.rule, Rule.collect, Formula.members]
    exact mem_collectAll_rules member terms

theorem mem_collectAll_rules (member : String) (terms : List Formula) :
    member ∈ Rule.collectAll (Formula.rules terms []) ↔ member ∈ Formula.membersAll terms := by
  have each := mem_collect_terms member terms
  simpa [mem_collectAll, mem_rules] using each

theorem mem_collect_terms (member : String) : ∀ terms : List Formula,
    (∃ term ∈ terms, member ∈ term.rule.collect) ↔ member ∈ Formula.membersAll terms
  | [] => by simp [Formula.membersAll]
  | term :: terms => by
    simp only [List.mem_cons, exists_eq_or_imp, Formula.membersAll, List.mem_append]
    rw [mem_collect_rule member term, mem_collect_terms member terms]

end

theorem computedFrom_form {type : TypeClauses} (once : (type.clauses.map Clause.name).Nodup) :
    ComputedFrom type.form.permissions = type.computes := by
  funext permission member
  refine propext ⟨?_, ?_⟩
  · rintro ⟨rule, found, computed⟩
    obtain ⟨formula, inside, rfl⟩ := (form_permissions_get? once _ _).mp found
    exact ⟨formula, inside, (mem_collect_rule _ _).mp computed⟩
  · rintro ⟨formula, inside, computed⟩
    exact ⟨_, (form_permissions_get? once _ _).mpr ⟨formula, inside, rfl⟩,
      (mem_collect_rule _ _).mpr computed⟩

section Lookups

variable {definitions : List Definition} {definition : Definition}

theorem hasMember_iff (member : String) :
    hasMember definition member = true ↔ definition.typeClauses.has member := by
  simp [hasMember, TypeClauses.has, Definition.typeClauses, Declaration.clause_name]

theorem mem_abstractOf {type : TypeClauses} :
    type ∈ abstractOf definitions ↔ ∃ one ∈ definitions, one.typeClauses = type := by
  simp [abstractOf]

theorem findRelation_iff (once : (definition.typeClauses.clauses.map Clause.name).Nodup)
    (relation : String) (subjects : List AllowedSubject) :
    (findRelation definition relation).map (List.map WrittenSubject.allowed) = some subjects ↔
      .relation relation subjects ∈ definition.typeClauses.clauses := by
  have first : ∀ found, findRelation definition relation = some found →
      .relation relation (found.map WrittenSubject.allowed) ∈ definition.typeClauses.clauses := by
    intro found read
    obtain ⟨declaration, inside, same⟩ := List.exists_of_findSome?_eq_some read
    refine List.mem_map.mpr ⟨declaration, inside, ?_⟩
    cases declaration with
    | permission => cases same
    | relation name line written =>
      simp only [beq_iff_eq, Option.ite_none_right_eq_some, Option.some.injEq] at same
      obtain ⟨rfl, rfl⟩ := same
      rfl
  constructor
  · intro read
    obtain ⟨found, located, rfl⟩ := Option.map_eq_some_iff.mp read
    exact first found located
  · intro inside
    cases read : findRelation definition relation with
    | some found =>
      have same := clause_unique once (first found read) inside rfl
      injection same with _ same
      rw [Option.map_some, same]
    | none =>
      obtain ⟨declaration, member, same⟩ := List.mem_map.mp inside
      have passed := List.findSome?_eq_none_iff.mp read declaration member
      cases declaration with
      | permission => cases same
      | relation name line written =>
        cases same
        simp at passed

theorem findDefinition_iff (once : ((abstractOf definitions).map (·.name)).Nodup)
    (objectType : String) (type : TypeClauses) :
    (findDefinition definitions objectType).map Definition.typeClauses = some type ↔
      type ∈ abstractOf definitions ∧ type.name = objectType := by
  have first : ∀ found, findDefinition definitions objectType = some found →
      found.typeClauses ∈ abstractOf definitions ∧ found.typeClauses.name = objectType := by
    intro found read
    exact ⟨mem_abstractOf.mpr ⟨found, List.mem_of_find?_eq_some read, rfl⟩,
      by simpa [Definition.typeClauses] using List.find?_some read⟩
  constructor
  · intro read
    obtain ⟨found, located, rfl⟩ := Option.map_eq_some_iff.mp read
    exact first found located
  · rintro ⟨inside, named⟩
    cases read : findDefinition definitions objectType with
    | some found =>
      have same := (first found read).2
      rw [Option.map_some,
        List.inj_on_of_nodup_map once (first found read).1 inside (same.trans named.symm)]
    | none =>
      obtain ⟨one, member, rfl⟩ := mem_abstractOf.mp inside
      have passed := List.find?_eq_none.mp read one member
      exact absurd named (by simpa [Definition.typeClauses] using passed)

theorem subjectFine_iff (once : ((abstractOf definitions).map (·.name)).Nodup)
    (subject : AllowedSubject) :
    SubjectFine definitions subject ↔ ∃ target ∈ abstractOf definitions,
      target.name = subject.objectType ∧ ∀ member ∈ subject.member, target.has member := by
  constructor
  · rintro ⟨target, found, has⟩
    obtain ⟨inside, named⟩ := (findDefinition_iff once _ _).mp (congrArg (Option.map _) found)
    exact ⟨_, inside, named, fun member asked => (hasMember_iff member).mp (has member asked)⟩
  · rintro ⟨target, inside, named, has⟩
    obtain ⟨found, read, rfl⟩ :=
      Option.map_eq_some_iff.mp ((findDefinition_iff once _ _).mpr ⟨inside, named⟩)
    exact ⟨found, read, fun member asked => (hasMember_iff member).mpr (has member asked)⟩

theorem mem_listObjectTypes (subjects : List WrittenSubject) (objectType : String) :
    objectType ∈ listObjectTypes subjects ↔
      ∃ subject ∈ subjects.map WrittenSubject.allowed,
        subject.member = none ∧ subject.objectType = objectType := by
  simp [listObjectTypes, WrittenSubject.allowed, and_assoc]

theorem arrowFine_iff (typesOnce : ((abstractOf definitions).map (·.name)).Nodup)
    (membersOnce : (definition.typeClauses.clauses.map Clause.name).Nodup)
    (member relation : String) :
    ArrowFine definitions definition member relation ↔
      (abstractOf definitions).walks definition.typeClauses member relation := by
  constructor
  · rintro ⟨subjects, found, some_object, fine⟩
    obtain ⟨first, inside⟩ := List.exists_mem_of_ne_nil _ some_object
    obtain ⟨subject, written, object, -⟩ := (mem_listObjectTypes _ _).mp inside
    refine ⟨_, (findRelation_iff membersOnce _ _).mp (congrArg (Option.map _) found),
      ⟨subject, written, object⟩, fun subject written object target inside named => ?_⟩
    obtain ⟨one, read, rfl⟩ :=
      Option.map_eq_some_iff.mp ((findDefinition_iff typesOnce _ _).mpr ⟨inside, named⟩)
    exact (hasMember_iff member).mp
      (fine _ ((mem_listObjectTypes _ _).mpr ⟨subject, written, object, rfl⟩) one read)
  · rintro ⟨allowed, inside, ⟨subject, written, object⟩, fine⟩
    obtain ⟨subjects, found, rfl⟩ :=
      Option.map_eq_some_iff.mp ((findRelation_iff membersOnce _ _).mpr inside)
    refine ⟨subjects, found, List.ne_nil_of_mem
      ((mem_listObjectTypes _ _).mpr ⟨subject, written, object, rfl⟩), ?_⟩
    intro objectType listed target read
    obtain ⟨one, written, object, rfl⟩ := (mem_listObjectTypes _ _).mp listed
    obtain ⟨inside, named⟩ := (findDefinition_iff typesOnce _ _).mp (congrArg (Option.map _) read)
    exact (hasMember_iff member).mpr (fine one written object _ inside named)

end Lookups

/-- Faults of definitions, the types before them given. -/
theorem compileDefinitions_faults (definitions rest : List Definition)
    (types : SortedMap String ObjectType) :
    (compileDefinitions definitions rest types).2 = [] ↔
      (∀ definition ∈ rest, isSchemaName definition.name = true) ∧
      (rest.map Definition.name).Nodup ∧
      (∀ definition ∈ rest, types.get? definition.name = none) ∧
      ∀ definition ∈ rest, (compileType definitions definition).2 = [] ∧
        findCycles definition (compileType definitions definition).1 = [] := by
  induction rest generalizing types with
  | nil => simp [compileDefinitions]
  | cons definition rest ih =>
    simp only [compileDefinitions, List.append_eq_nil_iff, ih, List.forall_mem_cons, List.map_cons,
      List.nodup_cons, List.mem_map, ite_eq_left_iff, ite_eq_right_iff, reduceCtorEq, imp_false,
      not_not, Option.not_isSome_iff_eq_none, SortedMap.get?_insert]
    constructor
    · rintro ⟨⟨⟨⟨named, fine⟩, acyclic⟩, new⟩, allNamed, once, apart, allFine⟩
      refine ⟨⟨named, allNamed⟩, ⟨?_, once⟩, ⟨new, fun one inside => ?_⟩, ⟨fine, acyclic⟩, allFine⟩
      · rintro ⟨one, inside, same⟩
        simpa [same] using apart one inside
      · have unread := apart one inside
        split at unread
        · cases unread
        · exact unread
    · rintro ⟨⟨named, allNamed⟩, ⟨apart, once⟩, ⟨new, allNew⟩, ⟨fine, acyclic⟩, allFine⟩
      refine ⟨⟨⟨⟨named, fine⟩, acyclic⟩, new⟩, allNamed, once, fun one inside => ?_, allFine⟩
      rw [if_neg fun same => apart ⟨one, inside, same⟩]
      exact allNew one inside

/-- The compiler notes nothing exactly of definitions that keep the rules. -/
theorem compileDefinitions_wellFormed (definitions : List Definition) :
    (compileDefinitions definitions definitions .empty).2 = [] ↔
      (abstractOf definitions).WellFormed := by
  have names : (abstractOf definitions).map (·.name) = definitions.map Definition.name := by
    simp [abstractOf, Definition.typeClauses]
  rw [compileDefinitions_faults, ← names]
  simp only [compileType_faults, compileType_form, findCycles_eq_nil_iff, SortedMap.get?_empty,
    implies_true, true_and]
  constructor
  · rintro ⟨typeNames, typesOnce, fine⟩
    refine ⟨?_, typesOnce, ?_, ?_, ?_, ?_, ?_, ?_⟩ <;> intro type inside <;>
      obtain ⟨definition, member, rfl⟩ := mem_abstractOf.mp inside
    · exact typeNames definition member
    · exact (fine definition member).1.1
    · exact (fine definition member).1.2.1
    · intro name subjects declared subject named
      exact (subjectFine_iff typesOnce subject).mp
        ((fine definition member).1.2.2 _ declared subject named)
    · intro name formula declared one named
      exact (hasMember_iff one).mp (((fine definition member).1.2.2 _ declared).1 one named)
    · intro name formula declared arrow walked
      exact (arrowFine_iff typesOnce (fine definition member).1.2.1 _ _).mp
        (((fine definition member).1.2.2 _ declared).2 arrow walked)
    · intro name around
      rw [← computedFrom_form (fine definition member).1.2.1] at around
      obtain ⟨next, ⟨rule, found, -⟩, -⟩ := Relation.TransGen.head'_iff.mp around
      obtain ⟨formula, declared, -⟩ :=
        (form_permissions_get? (fine definition member).1.2.1 _ _).mp found
      exact (fine definition member).2 name formula declared around
  · intro formed
    refine ⟨fun definition member => ?_, formed.typesOnce, fun definition member => ?_⟩
    · exact formed.typeNames _ (mem_abstractOf.mpr ⟨definition, member, rfl⟩)
    have inside := mem_abstractOf.mpr ⟨definition, member, rfl⟩
    have once := formed.membersOnce _ inside
    refine ⟨⟨formed.memberNames _ inside, once, fun clause declared => ?_⟩,
      fun name formula _ around => ?_⟩
    · cases clause with
      | relation name subjects =>
        exact fun subject named => (subjectFine_iff formed.typesOnce subject).mpr
          (formed.subjects _ inside name subjects declared subject named)
      | permission name formula =>
        refine ⟨fun one named => (hasMember_iff one).mpr
          (formed.members _ inside name formula declared one named), fun arrow walked => ?_⟩
        exact (arrowFine_iff formed.typesOnce once _ _).mpr
          (formed.arrows _ inside name formula declared arrow walked)
    · rw [computedFrom_form once] at around
      exact formed.acyclic _ inside name around

mutual

/-- No intersection of a formula is of nothing. -/
def Formula.Joined : Formula → Prop
  | .member _ => True
  | .arrow _ _ => True
  | .any terms => Formula.JoinedAll terms
  | .all terms => terms ≠ [] ∧ Formula.JoinedAll terms

def Formula.JoinedAll : List Formula → Prop
  | [] => True
  | term :: terms => term.Joined ∧ Formula.JoinedAll terms

end

theorem joined_of_derivesExpression {one : List Token → Formula → List Token → Prop}
    (each : ∀ tokens formula rest, one tokens formula rest → formula.Joined)
    {tokens rest : List Token} {formula : Formula}
    (derived : DerivesExpression one tokens formula rest) : formula.Joined := by
  have joined : ∀ mark tokens formulas rest, DerivesJoined mark one tokens formulas rest →
      Formula.JoinedAll formulas := by
    intro mark tokens formulas rest all
    induction all with
    | nil => trivial
    | cons first _ ih => exact ⟨each _ _ _ first, ih⟩
  cases derived with
  | term alone => exact each _ _ _ alone
  | sum first more => exact ⟨each _ _ _ first, joined _ _ _ _ more⟩
  | intersection first more => exact ⟨by simp, each _ _ _ first, joined _ _ _ _ more⟩

theorem joined_of_derivesTerm {inner : List Token → Formula → List Token → Prop}
    (each : ∀ tokens formula rest, inner tokens formula rest → formula.Joined)
    {tokens rest : List Token} {formula : Formula}
    (derived : DerivesTerm inner tokens formula rest) : formula.Joined := by
  cases derived with
  | member => trivial
  | arrow => trivial
  | parentheses within => exact each _ _ _ within

theorem joined_of_derivesFormula : ∀ (depth : Nat) (tokens : List Token) (formula : Formula)
    (rest : List Token), DerivesFormula depth tokens formula rest → formula.Joined
  | 0, _, _, _, derived =>
    joined_of_derivesExpression
      (fun _ _ _ term => joined_of_derivesTerm (fun _ _ _ never => never.elim) term) derived
  | depth + 1, _, _, _, derived =>
    joined_of_derivesExpression
      (fun _ _ _ term => joined_of_derivesTerm (joined_of_derivesFormula depth) term) derived

theorem joined_of_derives {tokens : List Token} {schema : AbstractSchema}
    (derived : Derives tokens schema) : ∀ type ∈ schema, ∀ name formula,
      .permission name formula ∈ type.clauses → formula.Joined := by
  have clauses : ∀ tokens clauses rest, DerivesClauses tokens clauses rest → ∀ name formula,
      .permission name formula ∈ clauses → formula.Joined := by
    intro tokens clauses rest all
    induction all with
    | nil => simp
    | cons first _ ih =>
      intro name formula inside
      rcases List.mem_cons.mp inside with rfl | inside
      · cases first with
        | permission expression => exact joined_of_derivesFormula _ _ _ _ expression
      · exact ih name formula inside
  induction derived with
  | nil => simp
  | cons body _ ih => exact List.forall_mem_cons.mpr ⟨clauses _ _ _ body, ih⟩

section Meaning

variable {leads : ObjectRef → String → ObjectRef → Prop} {stands : Set Place} {object : ObjectRef}

theorem rules_ne_nil {terms : List Formula} (some_term : terms ≠ []) :
    Formula.rules terms [] ≠ [] := by
  obtain ⟨term, inside⟩ := List.exists_mem_of_ne_nil _ some_term
  exact List.ne_nil_of_mem ((mem_rules _ _ _).mpr (Or.inr ⟨term, inside, rfl⟩))

mutual

/-- A rule holds where its formula does. -/
theorem holds_rule : ∀ formula : Formula, formula.Joined →
    (formula.rule.holds leads stands object ↔ formula.holds leads stands object)
  | .member _, _ => by simp only [Formula.rule, Rule.holds, Formula.holds]
  | .arrow _ _, _ => by simp only [Formula.rule, Rule.holds, Formula.holds]
  | .any terms, joined => by
    rw [Formula.rule, Rule.holds, Formula.holds, Rule.holdsSome_iff, ← holdsSome_terms terms joined]
    simp [mem_rules]
  | .all terms, joined => by
    rw [Formula.rule, Rule.holds, Formula.holds, Rule.holdsEvery_iff,
      ← holdsEvery_terms terms joined.2]
    simp [mem_rules, rules_ne_nil joined.1]

theorem holdsSome_terms : ∀ terms : List Formula, Formula.JoinedAll terms →
    ((∃ term ∈ terms, term.rule.holds leads stands object) ↔
      Formula.holdsSome leads stands object terms)
  | [], _ => by simp [Formula.holdsSome]
  | term :: terms, joined => by
    simp only [List.mem_cons, exists_eq_or_imp, Formula.holdsSome]
    rw [holds_rule term joined.1, holdsSome_terms terms joined.2]

theorem holdsEvery_terms : ∀ terms : List Formula, Formula.JoinedAll terms →
    ((∀ term ∈ terms, term.rule.holds leads stands object) ↔
      Formula.holdsEvery leads stands object terms)
  | [], _ => by simp [Formula.holdsEvery]
  | term :: terms, joined => by
    rw [List.forall_mem_cons, Formula.holdsEvery, holds_rule term joined.1,
      holdsEvery_terms terms joined.2]

end

theorem relatesTo_sortSubjects (kept : Set RelationTuple) (subjects : List AllowedSubject)
    (relation : String) (target : ObjectRef) :
    relatesTo kept (sortSubjects subjects) object relation target ↔
      relatesTo kept subjects object relation target := by
  simp only [relatesTo, mem_sortSubjects]

theorem namedBy_sortSubjects (kept : Set RelationTuple) (subject : ObjectRef)
    (subjects : List AllowedSubject) (relation : String) :
    namedBy kept subject stands (sortSubjects subjects) object relation ↔
      namedBy kept subject stands subjects object relation := by
  simp only [namedBy, relatesTo_sortSubjects, mem_sortSubjects]

end Meaning

namespace AbstractSchema

variable {schema : AbstractSchema} (formed : schema.WellFormed)
include formed

theorem form_types_get? (objectType : String) (found : ObjectType) :
    schema.form.types.get? objectType = some found ↔
      ∃ type ∈ schema, type.name = objectType ∧ type.form = found := by
  rw [AbstractSchema.form, SortedMap.get?_foldl_insert _ _ _ formed.typesOnce]
  simp

theorem WellFormed.type_unique {first second : TypeClauses} (here : first ∈ schema)
    (there : second ∈ schema) (same : first.name = second.name) : first = second :=
  List.inj_on_of_nodup_map formed.typesOnce here there same

/-- A name of the form is a relation where the schema declares it one. -/
theorem findMember_relation_iff (objectType member : String) (allowed : List AllowedSubject) :
    schema.form.findMember objectType member = some (.relation allowed) ↔
      ∃ subjects, schema.declares objectType (.relation member subjects) ∧
        sortSubjects subjects = allowed := by
  constructor
  · intro found
    simp only [CompiledSchema.findMember, Option.bind_eq_bind, Option.bind_eq_some_iff] at found
    obtain ⟨_, typed, found⟩ := found
    obtain ⟨type, inside, named, rfl⟩ := (form_types_get? formed _ _).mp typed
    have once := formed.membersOnce type inside
    split at found
    · next read =>
      cases found
      obtain ⟨subjects, declared, same⟩ := (form_relations_get? once _ _).mp read
      exact ⟨subjects, ⟨type, inside, named, declared⟩, same⟩
    · obtain ⟨_, -, same⟩ := Option.map_eq_some_iff.mp found
      cases same
  · rintro ⟨subjects, ⟨type, inside, named, declared⟩, same⟩
    have once := formed.membersOnce type inside
    have typed := (form_types_get? formed objectType type.form).mpr ⟨type, inside, named, rfl⟩
    have read := (form_relations_get? once member allowed).mpr ⟨subjects, declared, same⟩
    simp [CompiledSchema.findMember, typed, read]

theorem findMember_permission_iff (objectType member : String) (rule : Rule) :
    schema.form.findMember objectType member = some (.permission rule) ↔
      ∃ formula, schema.declares objectType (.permission member formula) ∧
        formula.rule = rule := by
  constructor
  · intro found
    simp only [CompiledSchema.findMember, Option.bind_eq_bind, Option.bind_eq_some_iff] at found
    obtain ⟨_, typed, found⟩ := found
    obtain ⟨type, inside, named, rfl⟩ := (form_types_get? formed _ _).mp typed
    have once := formed.membersOnce type inside
    split at found
    · cases found
    · obtain ⟨_, read, same⟩ := Option.map_eq_some_iff.mp found
      cases same
      obtain ⟨formula, declared, same⟩ := (form_permissions_get? once _ _).mp read
      exact ⟨formula, ⟨type, inside, named, declared⟩, same⟩
  · rintro ⟨formula, ⟨type, inside, named, declared⟩, same⟩
    have once := formed.membersOnce type inside
    have typed := (form_types_get? formed objectType type.form).mpr ⟨type, inside, named, rfl⟩
    have read := (form_permissions_get? once member rule).mpr ⟨formula, declared, same⟩
    have unrelated : type.form.relations.get? member = none := by
      rw [Option.eq_none_iff_forall_ne_some]
      intro allowed related
      obtain ⟨subjects, twice, -⟩ := (form_relations_get? once _ _).mp related
      cases clause_unique once declared twice rfl
    simp [CompiledSchema.findMember, typed, read, unrelated]

theorem leadsTo_form (kept : Set RelationTuple) :
    schema.form.leadsTo kept = schema.leadsTo kept := by
  funext object relation target
  refine propext ⟨?_, ?_⟩
  · rintro ⟨_, found, related⟩
    obtain ⟨subjects, declared, rfl⟩ := (findMember_relation_iff formed _ _ _).mp found
    exact ⟨subjects, declared, (relatesTo_sortSubjects ..).mp related⟩
  · rintro ⟨subjects, declared, related⟩
    exact ⟨_, (findMember_relation_iff formed _ _ _).mpr ⟨subjects, declared, rfl⟩,
      (relatesTo_sortSubjects ..).mpr related⟩

variable (joined : ∀ type ∈ schema, ∀ name formula,
  .permission name formula ∈ type.clauses → formula.Joined)
include joined

theorem derives_form (kept : Set RelationTuple) (subject : ObjectRef) (stands : Set Place)
    (object : ObjectRef) (member : String) :
    schema.form.derives kept subject stands object member ↔
      schema.derives kept subject stands object member := by
  have meant : ∀ {formula}, schema.declares object.objectType (.permission member formula) →
      formula.Joined := by
    rintro formula ⟨type, inside, -, clause⟩
    exact joined type inside member formula clause
  unfold CompiledSchema.derives AbstractSchema.derives
  constructor
  · intro derived
    split at derived
    · exact derived.elim
    · next found =>
      obtain ⟨subjects, declared, rfl⟩ := (findMember_relation_iff formed _ _ _).mp found
      exact Or.inl ⟨subjects, declared, (namedBy_sortSubjects ..).mp derived⟩
    · next found =>
      obtain ⟨formula, declared, rfl⟩ := (findMember_permission_iff formed _ _ _).mp found
      rw [leadsTo_form formed, holds_rule formula (meant declared)] at derived
      exact Or.inr ⟨formula, declared, derived⟩
  · rintro (⟨subjects, declared, named⟩ | ⟨formula, declared, held⟩)
    · rw [(findMember_relation_iff formed _ _ _).mpr ⟨subjects, declared, rfl⟩]
      exact (namedBy_sortSubjects ..).mpr named
    · rw [(findMember_permission_iff formed _ _ _).mpr ⟨formula, declared, rfl⟩]
      simp only [leadsTo_form formed, holds_rule formula (meant declared)]
      exact held

/-- The form of a schema means what the schema means. -/
theorem stands_form (kept : Set RelationTuple) (subject : ObjectRef) :
    schema.form.stands kept subject = schema.stands kept subject := by
  have same : schema.form.meaning kept subject = schema.meaning kept subject := by
    ext stands place
    exact derives_form formed joined kept subject stands place.1 place.2
  rw [CompiledSchema.stands, AbstractSchema.stands, same]

end AbstractSchema

/-- No line of a text holds what cannot be shown. -/
def Showable (source : String) : Prop :=
  ∀ line ∈ Text.lines source.toList, ∀ character ∈ line, Text.isUnshowable character = false

theorem showable_of_lexed {source : String} {tokens : List Token}
    (lexed : Lexed source.toList tokens) : Showable source := by
  unfold Lexed at lexed
  unfold Showable
  generalize Text.lines source.toList = lines at lexed ⊢
  induction lexed with
  | nil => simp
  | line showable _ _ ih => exact List.forall_mem_cons.mpr ⟨showable, ih⟩

theorem noteAll_shown (faults : SchemaFaults) (more : List SchemaFault) :
    (faults.noteAll more).shown = [] ↔ faults.shown = [] ∧ more = [] := by
  have stays : ∀ (more : List SchemaFault) (faults : SchemaFaults), faults.shown ≠ [] →
      (faults.noteAll more).shown ≠ [] := by
    intro more
    induction more with
    | nil => exact fun _ told => told
    | cons fault more ih => exact fun faults _ => ih _ (faults.note_shown fault)
  cases more with
  | nil => simp [SchemaFaults.noteAll]
  | cons fault more =>
    have told : (faults.noteAll (fault :: more)).shown ≠ [] :=
      stays more _ (faults.note_shown fault)
    simp [told]

/-- What `compileSchema` checks of the lexemes of a text within its bound. -/
theorem compileSchema_of_lexemes {source : String} {lexemes : List Lexeme}
    (bounded : source.utf8ByteSize ≤ SCHEMA_MAX_BYTES) (read : readLexemes source = .ok lexemes)
    {definitions : List Definition} {unread : SchemaFaults}
    (parsed : readDefinitions lexemes.length (.start lexemes) .default = (definitions, unread))
    (compiled : CompiledSchema) :
    compileSchema source = .ok compiled ↔ unread.shown = [] ∧
      (abstractOf definitions).WellFormed ∧ (abstractOf definitions).form = compiled ∧
      compiled.writtenLength ≤ SCHEMA_COMPILED_MAX_BYTES := by
  have form : (⟨COMPILED_VERSION, (compileDefinitions definitions definitions .empty).1⟩ :
      CompiledSchema) = (abstractOf definitions).form := by
    rw [compileDefinitions_form]
    rfl
  have fine := (noteAll_shown unread (compileDefinitions definitions definitions .empty).2).trans
    (and_congr_right fun _ => compileDefinitions_wellFormed definitions)
  rw [← and_assoc, ← fine, ← form]
  unfold compileSchema
  simp only [read, Except.mapError, parsed, bind, Except.bind, pure, Except.pure,
    Nat.not_lt.mpr bounded, if_false, gt_iff_lt, Bool.not_eq_true', List.isEmpty_eq_false_iff]
  generalize unread.noteAll _ = faults
  by_cases told : faults.shown = []
  · simp only [told, ne_eq, not_true_eq_false, if_false, true_and]
    split
    · next long => simpa [throw, throwThe, MonadExceptOf.throw] using fun same => same ▸ long
    · next short =>
      simp only [Except.ok.injEq, iff_self_and]
      exact fun same => same ▸ Nat.not_lt.mp short
  · simp [told, throw, throwThe, MonadExceptOf.throw]

/-- What the compiler makes of a text: the form of the schema its tokens
derive, where that keeps the rules and all is within its bounds. -/
theorem compileSchema_eq_ok_iff (source : String) (compiled : CompiledSchema) :
    compileSchema source = .ok compiled ↔ source.utf8ByteSize ≤ SCHEMA_MAX_BYTES ∧
      ∃ tokens schema, Lexed source.toList tokens ∧ Derives tokens schema ∧
        schema.WellFormed ∧ schema.form = compiled ∧
        compiled.writtenLength ≤ SCHEMA_COMPILED_MAX_BYTES := by
  by_cases bounded : source.utf8ByteSize ≤ SCHEMA_MAX_BYTES
  swap
  · refine iff_of_false (fun accepted => ?_) fun held => bounded held.1
    rw [compileSchema, if_pos (Nat.not_le.mp bounded)] at accepted
    cases accepted
  cases read : readLexemes source with
  | error fault =>
    refine iff_of_false (fun accepted => ?_) ?_
    · rw [compileSchema, if_neg (Nat.not_lt.mpr bounded), read] at accepted
      cases accepted
    · rintro ⟨-, tokens, -, lexed, -⟩
      obtain ⟨lexemes, reads, -⟩ := (lexed_iff_readLexemes source tokens).mp lexed
      cases read.symm.trans reads
  | ok lexemes =>
    have lexed := (lexed_iff_readLexemes source _).mpr ⟨lexemes, read, rfl⟩
    obtain ⟨definitions, unread, parsed⟩ :
        ∃ definitions unread, readDefinitions lexemes.length (.start lexemes) .default =
          (definitions, unread) := ⟨_, _, rfl⟩
    rw [compileSchema_of_lexemes bounded read parsed]
    constructor
    · rintro ⟨none_told, formed, same, short⟩
      have derived := derives_of_readDefinitions lexemes.length (.start lexemes) .default (le_refl _)
        (by rw [parsed]; exact none_told)
      rw [parsed] at derived
      exact ⟨bounded, _, _, lexed, derived, formed, same, short⟩
    · rintro ⟨-, tokens, schema, tokened, derived, formed, same, short⟩
      obtain ⟨again, reads, rfl⟩ := (lexed_iff_readLexemes source tokens).mp tokened
      obtain rfl : lexemes = again := Except.ok.inj (read.symm.trans reads)
      obtain ⟨found, reparsed, rfl⟩ := readDefinitions_of_derives lexemes.length
        (.start lexemes) .default derived rfl (le_refl _) (le_refl _)
      cases parsed.symm.trans reparsed
      exact ⟨rfl, formed, same, short⟩

/-- A text is accepted exactly when it is a text of a schema that keeps the
rules, within the bounds; and however such a schema is laid out, its text
compiles to a form of which every member means what it means in the schema. -/
theorem compileSchema_accepts_and_preserves :
    (∀ source : String, (∃ compiled, compileSchema source = .ok compiled) ↔
      source.utf8ByteSize ≤ SCHEMA_MAX_BYTES ∧ Showable source ∧
        ∃ tokens schema, Lexed source.toList tokens ∧ Derives tokens schema ∧
          schema.WellFormed ∧ schema.form.writtenLength ≤ SCHEMA_COMPILED_MAX_BYTES) ∧
    ∀ (tokens : List Token) (schema : AbstractSchema) (source : String),
      Derives tokens schema → schema.WellFormed → Layout tokens source.toList →
      source.utf8ByteSize ≤ SCHEMA_MAX_BYTES →
      schema.form.writtenLength ≤ SCHEMA_COMPILED_MAX_BYTES →
      ∃ compiled, compileSchema source = .ok compiled ∧
        ∀ kept subject, compiled.stands kept subject = schema.stands kept subject := by
  refine ⟨fun source => ⟨?_, ?_⟩, ?_⟩
  · rintro ⟨compiled, accepted⟩
    obtain ⟨bounded, tokens, schema, lexed, derived, formed, rfl, short⟩ :=
      (compileSchema_eq_ok_iff source compiled).mp accepted
    exact ⟨bounded, showable_of_lexed lexed, tokens, schema, lexed, derived, formed, short⟩
  · rintro ⟨bounded, -, tokens, schema, lexed, derived, formed, short⟩
    exact ⟨schema.form, (compileSchema_eq_ok_iff source _).mpr
      ⟨bounded, tokens, schema, lexed, derived, formed, rfl, short⟩⟩
  · intro tokens schema source derived formed laid bounded short
    refine ⟨schema.form, (compileSchema_eq_ok_iff source _).mpr
      ⟨bounded, tokens, schema, lexed_of_layout laid, derived, formed, rfl, short⟩, ?_⟩
    exact fun kept subject =>
      AbstractSchema.stands_form formed (joined_of_derives derived) kept subject

/-- A schema with a term written twice and a comment. -/
def peopleText : String :=
  "definition user \x7b // people\n relation self: user\n permission me = self + self\n\x7d"

def peopleTokens : List Token :=
  [.name "definition", .name "user", .mark '{', .name "relation", .name "self", .mark ':',
    .name "user", .name "permission", .name "me", .mark '=', .name "self", .mark '+',
    .name "self", .mark '}']

def peopleSchema : AbstractSchema :=
  [⟨"user", [.relation "self" [⟨"user", none⟩],
    .permission "me" (.any [.member "self", .member "self"])]⟩]

theorem peopleSchema_derives : Derives peopleTokens peopleSchema := by
  refine .cons (.cons (.relation .object .nil) (.cons (.permission ?_) .nil)) .nil
  exact .sum .member (.cons .member .nil)

theorem peopleSchema_wellFormed : peopleSchema.WellFormed := by
  have computes : ∀ {type}, type ∈ peopleSchema → ∀ {permission member},
      type.computes permission member → permission = "me" ∧ member = "self" := by
    rintro type inside permission member ⟨formula, declared, computed⟩
    obtain rfl := List.mem_singleton.mp inside
    simp only [List.mem_cons, List.not_mem_nil, or_false, reduceCtorEq, false_or,
      Clause.permission.injEq] at declared
    obtain ⟨rfl, rfl⟩ := declared
    simpa [Formula.members, Formula.membersAll] using computed
  refine ⟨by decide, by decide, by decide, by decide, ?_, ?_, ?_, ?_⟩
  · simp [peopleSchema, TypeClauses.has]
  · simp [peopleSchema, TypeClauses.has, Formula.members, Formula.membersAll, Clause.name]
  · simp [peopleSchema, Formula.arrows, Formula.arrowsAll]
  · intro type inside name around
    obtain ⟨_, first, -⟩ := Relation.TransGen.head'_iff.mp around
    obtain ⟨_, -, last⟩ := Relation.TransGen.tail'_iff.mp around
    exact absurd ((computes inside first).1.symm.trans (computes inside last).2) (by decide)

/-- A name in a text, its characters asked one by one. -/
theorem layout_name (name : String) {tokens : List Token} {gap rest : List Char} (before : Gap gap)
    (some : name.toList ≠ []) (named : name.toList.all isNameCharacter = true)
    (apart : rest.head?.all (fun character => !isNameCharacter character) = true)
    (more : Layout tokens rest) : Layout (.name name :: tokens) (gap ++ (name.toList ++ rest)) := by
  have ends : EndsName rest := by
    intro character first
    simpa [Option.mem_def.mp first] using apart
  exact .name before some (List.all_eq_true.mp named) ends more

theorem gap_space : Gap [' '] := .blank (by decide) (by decide) .nil

theorem peopleText_laid : Layout peopleTokens peopleText.toList := by
  have showable : " people".toList.all (fun character => !Text.isUnshowable character) = true := by
    decide
  have people : Gap " // people\n ".toList :=
    .blank (by decide) (by decide) (@Gap.comment " people".toList _ _
      (fun character inside => by simpa using List.all_eq_true.mp showable character inside) .feed
      gap_space)
  have broken : Gap "\n ".toList := .line .feed gap_space
  refine @layout_name "definition" _ [] _ .nil (by decide) (by decide) (by decide) ?_
  refine @layout_name "user" _ [' '] _ gap_space (by decide) (by decide) (by decide) ?_
  refine @Layout.mark '{' _ [' '] _ gap_space (by decide) ?_
  refine @layout_name "relation" _ _ _ people (by decide) (by decide) (by decide) ?_
  refine @layout_name "self" _ [' '] _ gap_space (by decide) (by decide) (by decide) ?_
  refine @Layout.mark ':' _ [] _ .nil (by decide) ?_
  refine @layout_name "user" _ [' '] _ gap_space (by decide) (by decide) (by decide) ?_
  refine @layout_name "permission" _ _ _ broken (by decide) (by decide) (by decide) ?_
  refine @layout_name "me" _ [' '] _ gap_space (by decide) (by decide) (by decide) ?_
  refine @Layout.mark '=' _ [' '] _ gap_space (by decide) ?_
  refine @layout_name "self" _ [' '] _ gap_space (by decide) (by decide) (by decide) ?_
  refine @Layout.mark '+' _ [' '] _ gap_space (by decide) ?_
  refine @layout_name "self" _ [' '] _ gap_space (by decide) (by decide) (by decide) ?_
  exact @Layout.mark '}' _ ['\n'] _ (.line .feed .nil) (by decide) (.done (.gap .nil))

/-- The text is accepted, and its form means what the schema means. -/
theorem peopleText_means : ∃ compiled, compileSchema peopleText = .ok compiled ∧
    ∀ kept subject, compiled.stands kept subject = peopleSchema.stands kept subject :=
  compileSchema_accepts_and_preserves.2 peopleTokens peopleSchema peopleText
    peopleSchema_derives peopleSchema_wellFormed peopleText_laid (by decide) (by decide +kernel)

end Saffui.Authz.Relations
