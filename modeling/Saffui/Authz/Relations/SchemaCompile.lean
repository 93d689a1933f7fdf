import Saffui.Authz.Relations.SchemaParse

/-!
# Compilation, the rules of a schema and its meaning

What the compiler makes of definitions is the form of the schema they mean,
and it notes no fault exactly when that schema keeps its rules. The form means
what the schema means: a term dropped because it came before changes neither
a sum nor an intersection, and the order of subjects changes no relation.
-/

namespace Saffui.Authz.Relations
open Saffui.Foundation

section Compiled

variable (definitions : List Definition) (definition : Definition)

mutual

theorem compileExpression_rule :
    ∀ expression, (compileExpression definitions definition expression).1 = expression.formula.rule
  | .member _ _ => by simp [compileExpression, Expression.formula, Formula.rule]
  | .arrow _ _ _ => by simp [compileExpression, Expression.formula, Formula.rule]
  | .union terms => by
    simp [compileExpression, Expression.formula, Formula.rule, compileTerms_rules terms []]
  | .intersection terms => by
    simp [compileExpression, Expression.formula, Formula.rule, compileTerms_rules terms []]

theorem compileTerms_rules :
    ∀ terms rules, (compileTerms definitions definition terms rules).1 =
      Formula.rules (Expression.formulas terms) rules
  | [], rules => by simp [compileTerms, Expression.formulas, Formula.rules]
  | term :: terms, rules => by
    simp only [compileTerms, Expression.formulas, Formula.rules]
    rw [compileTerms_rules terms, compileExpression_rule term]

end

theorem compileDeclaration_add (compiled : ObjectType) (declaration : Declaration) :
    (compileDeclaration definitions definition compiled declaration).1 =
      Clause.add compiled declaration.clause := by
  cases declaration with
  | relation name line subjects => rfl
  | permission name line expression =>
    simp [compileDeclaration, Declaration.clause, Clause.add, compileExpression_rule]

theorem compileDeclarations_form (declarations : List Declaration) (compiled : ObjectType)
    (seen : List String) :
    (compileDeclarations definitions definition declarations compiled seen).1 =
      (declarations.map Declaration.clause).foldl Clause.add compiled := by
  induction declarations generalizing compiled seen with
  | nil => rfl
  | cons declaration rest ih =>
    simp only [compileDeclarations, ih, compileDeclaration_add, List.map_cons, List.foldl_cons]

theorem compileType_form : (compileType definitions definition).1 = definition.typeClauses.form :=
  compileDeclarations_form definitions definition _ _ _

theorem compileDefinitions_form (rest : List Definition) (types : SortedMap String ObjectType) :
    (compileDefinitions definitions rest types).1 =
      (abstractOf rest).foldl (fun types type => types.insert type.name type.form) types := by
  induction rest generalizing types with
  | nil => rfl
  | cons head tail ih =>
    simp only [compileDefinitions, ih, compileType_form, abstractOf, List.map_cons,
      List.foldl_cons]
    rfl

end Compiled

section Faults

variable (definitions : List Definition) (definition : Definition)

/-- What an arrow is checked for, as the compiler looks it up. -/
def ArrowFine (member relation : String) : Prop :=
  ∃ subjects, findRelation definition relation = some subjects ∧ listObjectTypes subjects ≠ [] ∧
    ∀ objectType ∈ listObjectTypes subjects, ∀ target,
      findDefinition definitions objectType = some target → hasMember target member = true

theorem checkArrow_eq_nil_iff (member relation : String) (line : Nat) :
    checkArrow definitions definition member relation line = [] ↔
      ArrowFine definitions definition member relation := by
  unfold checkArrow ArrowFine
  cases findRelation definition relation with
  | none => simp
  | some subjects =>
    simp only [List.append_eq_nil_iff, List.flatMap_eq_nil_iff, Option.some.injEq,
      exists_eq_left', ite_eq_right_iff, List.isEmpty_iff, reduceCtorEq, imp_false]
    refine and_congr_right fun _ => forall₂_congr fun objectType _ => ?_
    cases findDefinition definitions objectType with
    | none => simp
    | some target => simp

mutual

theorem compileExpression_faults :
    ∀ expression, (compileExpression definitions definition expression).2 = [] ↔
      (∀ member ∈ expression.formula.members, hasMember definition member = true) ∧
      ∀ arrow ∈ expression.formula.arrows, ArrowFine definitions definition arrow.1 arrow.2
  | .member name line => by
    simp [compileExpression, Expression.formula, Formula.members, Formula.arrows]
  | .arrow member relation line => by
    simp [compileExpression, Expression.formula, Formula.members, Formula.arrows,
      checkArrow_eq_nil_iff]
  | .union terms => by
    simpa [compileExpression, Expression.formula, Formula.members, Formula.arrows] using
      compileTerms_faults terms []
  | .intersection terms => by
    simpa [compileExpression, Expression.formula, Formula.members, Formula.arrows] using
      compileTerms_faults terms []

theorem compileTerms_faults :
    ∀ terms rules, (compileTerms definitions definition terms rules).2 = [] ↔
      (∀ member ∈ Formula.membersAll (Expression.formulas terms),
        hasMember definition member = true) ∧
      ∀ arrow ∈ Formula.arrowsAll (Expression.formulas terms),
        ArrowFine definitions definition arrow.1 arrow.2
  | [], rules => by
    simp [compileTerms, Expression.formulas, Formula.membersAll, Formula.arrowsAll]
  | term :: terms, rules => by
    simp only [compileTerms, Expression.formulas, Formula.membersAll, Formula.arrowsAll,
      List.append_eq_nil_iff, List.forall_mem_append]
    rw [compileExpression_faults term, compileTerms_faults terms]
    tauto

end

/-- What a subject is checked for, as the compiler looks it up. -/
def SubjectFine (subject : AllowedSubject) : Prop :=
  ∃ target, findDefinition definitions subject.objectType = some target ∧
    ∀ member ∈ subject.member, hasMember target member = true

theorem checkSubject_eq_nil_iff (subject : WrittenSubject) :
    checkSubject definitions subject = [] ↔ SubjectFine definitions subject.allowed := by
  unfold checkSubject SubjectFine WrittenSubject.allowed
  cases found : findDefinition definitions subject.objectType with
  | none => simp
  | some target =>
    cases subject.member with
    | none => simp
    | some member => simp

/-- What a declaration is checked for beyond its name. -/
def ClauseFine : Clause → Prop
  | .relation _ subjects => ∀ subject ∈ subjects, SubjectFine definitions subject
  | .permission _ formula =>
    (∀ member ∈ formula.members, hasMember definition member = true) ∧
      ∀ arrow ∈ formula.arrows, ArrowFine definitions definition arrow.1 arrow.2

theorem compileDeclaration_faults (compiled : ObjectType) (declaration : Declaration) :
    (compileDeclaration definitions definition compiled declaration).2 = [] ↔
      ClauseFine definitions definition declaration.clause := by
  cases declaration with
  | relation name line subjects =>
    simp [compileDeclaration, Declaration.clause, ClauseFine, List.flatMap_eq_nil_iff,
      checkSubject_eq_nil_iff]
  | permission name line expression =>
    simpa [compileDeclaration, Declaration.clause, ClauseFine] using
      compileExpression_faults definitions definition expression

theorem Declaration.clause_name (declaration : Declaration) :
    declaration.clause.name = declaration.name := by
  cases declaration <;> rfl

theorem compileDeclarations_faults (declarations : List Declaration) (compiled : ObjectType)
    (seen : List String) :
    (compileDeclarations definitions definition declarations compiled seen).2 = [] ↔
      (∀ declaration ∈ declarations, isSchemaName declaration.name = true) ∧
      (declarations.map Declaration.name).Nodup ∧
      (∀ declaration ∈ declarations, declaration.name ∉ seen) ∧
      ∀ declaration ∈ declarations, ClauseFine definitions definition declaration.clause := by
  induction declarations generalizing compiled seen with
  | nil => simp [compileDeclarations]
  | cons declaration rest ih =>
    simp only [compileDeclarations, List.append_eq_nil_iff, compileDeclaration_faults, ih,
      List.forall_mem_cons, List.map_cons, List.nodup_cons, List.mem_map, ite_eq_left_iff,
      ite_eq_right_iff, reduceCtorEq, imp_false, not_not]
    constructor
    · rintro ⟨⟨⟨named, unseen⟩, fine⟩, allNamed, once, apart, allFine⟩
      refine ⟨⟨named, allNamed⟩, ⟨?_, once⟩, ⟨unseen, ?_⟩, fine, allFine⟩
      · rintro ⟨one, inside, same⟩
        exact apart one inside (same ▸ List.mem_cons_self)
      · exact fun one inside met => apart one inside (List.mem_cons_of_mem _ met)
    · rintro ⟨⟨named, allNamed⟩, ⟨new, once⟩, ⟨unseen, apart⟩, fine, allFine⟩
      refine ⟨⟨⟨named, unseen⟩, fine⟩, allNamed, once, fun one inside met => ?_, allFine⟩
      rcases List.mem_cons.mp met with same | met
      · exact new ⟨one, inside, same⟩
      · exact apart one inside met

theorem compileType_faults :
    (compileType definitions definition).2 = [] ↔
      (∀ clause ∈ definition.typeClauses.clauses, isSchemaName clause.name = true) ∧
      (definition.typeClauses.clauses.map Clause.name).Nodup ∧
      ∀ clause ∈ definition.typeClauses.clauses, ClauseFine definitions definition clause := by
  rw [compileType, compileDeclarations_faults]
  simp [Definition.typeClauses, Declaration.clause_name, Function.comp_def]

end Faults

section Cycles

variable {permissions : SortedMap String Rule} {start : String}

/-- A permission of a compiled type is computed from a member. -/
def ComputedFrom (permissions : SortedMap String Rule) (permission member : String) : Prop :=
  ∃ rule, permissions.get? permission = some rule ∧ member ∈ rule.collect

/-- Every member a permission is computed from, as often as it is. -/
def allCollected (permissions : SortedMap String Rule) : List String :=
  permissions.entries.flatMap fun entry => entry.2.collect

theorem countTurns_eq : countTurns permissions = (allCollected permissions).length + 1 := by
  simp [countTurns, allCollected, List.length_flatMap]

theorem mem_allCollected {permission : String} {rule : Rule}
    (found : permissions.get? permission = some rule) {member : String}
    (computed : member ∈ rule.collect) : member ∈ allCollected permissions :=
  List.mem_flatMap.mpr ⟨_, (SortedMap.mem_entries_iff _ _ _).mpr found, computed⟩

/-- What is pushed is what was not seen, each once. -/
theorem pushUnseen_spec (next stack seen : List String) : ∃ fresh,
    pushUnseen next stack seen = (fresh ++ stack, fresh ++ seen) ∧ fresh.Nodup ∧
      (∀ member ∈ fresh, member ∈ next ∧ member ∉ seen) ∧
      ∀ member ∈ next, member ∈ fresh ++ seen := by
  induction next generalizing stack seen with
  | nil => exact ⟨[], rfl, by simp, by simp, by simp⟩
  | cons member next ih =>
    unfold pushUnseen
    split
    · next known =>
      obtain ⟨fresh, same, once, new, all⟩ := ih stack seen
      refine ⟨fresh, same, once, fun one inside => ?_, ?_⟩
      · exact ⟨List.mem_cons_of_mem _ (new one inside).1, (new one inside).2⟩
      · exact List.forall_mem_cons.mpr ⟨List.mem_append_right _ known, all⟩
    · next unknown =>
      obtain ⟨fresh, same, once, new, all⟩ := ih (member :: stack) (member :: seen)
      refine ⟨fresh ++ [member], by simp [same], ?_, ?_, by simpa using all⟩
      · refine once.append (List.nodup_singleton _) ?_
        rintro one inside (_ | ⟨_, ⟨⟩⟩)
        exact (new _ inside).2 List.mem_cons_self
      · intro one inside
        rcases List.mem_append.mp inside with inside | inside
        · exact ⟨List.mem_cons_of_mem _ (new one inside).1,
            fun known => (new one inside).2 (List.mem_cons_of_mem _ known)⟩
        · obtain rfl := List.mem_singleton.mp inside
          exact ⟨List.mem_cons_self, unknown⟩

/-- A walk that comes back went around. -/
theorem transGen_of_comesBack {turns : Nat} {stack seen : List String}
    (reached : ∀ member ∈ stack, Relation.ReflTransGen (ComputedFrom permissions) start member)
    (back : comesBack permissions start turns stack seen = true) :
    Relation.TransGen (ComputedFrom permissions) start start := by
  induction turns generalizing stack seen with
  | zero => simp [comesBack] at back
  | succ turns ih =>
    cases stack with
    | nil => simp [comesBack] at back
    | cons member stack =>
      obtain ⟨here, rest⟩ := List.forall_mem_cons.mp reached
      unfold comesBack at back
      split at back
      · exact ih rest back
      · next rule found =>
        split at back
        · next closed => exact Relation.TransGen.tail' here ⟨rule, found, closed⟩
        · obtain ⟨fresh, same, -, new, -⟩ := pushUnseen_spec rule.collect stack seen
          rw [same] at back
          refine ih (List.forall_mem_append.mpr ⟨fun one inside => ?_, rest⟩) back
          exact here.tail ⟨rule, found, (new one inside).1⟩

/-- Where a walk stands: what was seen and is off the stack leads only to what
was seen, and not to the start. -/
structure WalkedFrom (permissions : SortedMap String Rule) (start : String)
    (stack seen : List String) : Prop where
  once : seen.Nodup
  known : seen ⊆ allCollected permissions
  closed : ∀ member ∈ start :: seen, member ∈ stack ∨
    ∀ next, ComputedFrom permissions member next → next ∈ seen ∧ next ≠ start

theorem WalkedFrom.seen_of_transGen {seen : List String}
    (walked : WalkedFrom permissions start [] seen) {member : String}
    (reached : Relation.TransGen (ComputedFrom permissions) start member) :
    member ∈ seen ∧ member ≠ start := by
  induction reached with
  | single first =>
    exact ((walked.closed start List.mem_cons_self).resolve_left (by simp)) _ first
  | tail _ last ih =>
    exact ((walked.closed _ (List.mem_cons_of_mem _ ih.1)).resolve_left (by simp)) _ last

theorem WalkedFrom.pop {member : String} {stack seen : List String}
    (walked : WalkedFrom permissions start (member :: stack) seen)
    (relation : permissions.get? member = none) : WalkedFrom permissions start stack seen where
  once := walked.once
  known := walked.known
  closed one inside := by
    rcases walked.closed one inside with stacked | closed
    · rcases List.mem_cons.mp stacked with rfl | stacked
      · right
        rintro next ⟨rule, found, -⟩
        rw [relation] at found
        cases found
      · exact Or.inl stacked
    · exact Or.inr closed

theorem WalkedFrom.push {member : String} {stack seen fresh : List String} {rule : Rule}
    (walked : WalkedFrom permissions start (member :: stack) seen)
    (found : permissions.get? member = some rule) (apart : start ∉ rule.collect)
    (once : fresh.Nodup) (new : ∀ one ∈ fresh, one ∈ rule.collect ∧ one ∉ seen)
    (all : ∀ one ∈ rule.collect, one ∈ fresh ++ seen) :
    WalkedFrom permissions start (fresh ++ stack) (fresh ++ seen) where
  once := once.append walked.once fun one inside met => (new one inside).2 met
  known := List.append_subset.mpr
    ⟨fun _ inside => mem_allCollected found (new _ inside).1, walked.known⟩
  closed one inside := by
    by_cases pushed : one ∈ fresh
    · exact Or.inl (List.mem_append_left _ pushed)
    have before : one ∈ start :: seen := by
      rcases List.mem_cons.mp inside with rfl | inside
      · exact List.mem_cons_self
      · exact List.mem_cons_of_mem _ ((List.mem_append.mp inside).resolve_left pushed)
    rcases walked.closed one before with stacked | closed
    · rcases List.mem_cons.mp stacked with rfl | stacked
      · right
        rintro next ⟨other, again, computed⟩
        obtain rfl : rule = other := Option.some.inj (found.symm.trans again)
        exact ⟨all next computed, fun same => apart (same ▸ computed)⟩
      · exact Or.inl (List.mem_append_right _ stacked)
    · exact Or.inr fun next computed =>
        ⟨List.mem_append_right _ (closed next computed).1, (closed next computed).2⟩

/-- A walk long enough that does not come back has nowhere to come back from. -/
theorem not_transGen_of_comesBack (turns : Nat) (stack seen : List String)
    (walked : WalkedFrom permissions start stack seen)
    (enough : stack.length + (allCollected permissions).length ≤ turns + seen.length)
    (never : comesBack permissions start turns stack seen = false) :
    ¬ Relation.TransGen (ComputedFrom permissions) start start := by
  have few : seen.length ≤ (allCollected permissions).length :=
    (List.subperm_of_subset walked.once walked.known).length_le
  induction turns generalizing stack seen with
  | zero =>
    obtain rfl : stack = [] := List.eq_nil_of_length_eq_zero (by omega)
    exact fun around => (walked.seen_of_transGen around).2 rfl
  | succ turns ih =>
    cases stack with
    | nil => exact fun around => (walked.seen_of_transGen around).2 rfl
    | cons member stack =>
      rw [List.length_cons] at enough
      unfold comesBack at never
      split at never
      · next relation => exact ih stack seen (walked.pop relation) (by omega) never few
      · next rule found =>
        split at never
        · cases never
        · next apart =>
          obtain ⟨fresh, same, once, new, all⟩ := pushUnseen_spec rule.collect stack seen
          rw [same] at never
          have pushed := walked.push found apart once new all
          refine ih _ _ pushed ?_ never (List.subperm_of_subset pushed.once pushed.known).length_le
          simp only [List.length_append]
          omega

/-- The search finds exactly what is computed from itself. -/
theorem comesBack_iff :
    comesBack permissions start (countTurns permissions) [start] [] = true ↔
      Relation.TransGen (ComputedFrom permissions) start start := by
  constructor
  · refine transGen_of_comesBack fun member inside => ?_
    obtain rfl := List.mem_singleton.mp inside
    exact .refl
  · intro around
    by_contra never
    refine not_transGen_of_comesBack _ [start] [] ⟨by simp, by simp, ?_⟩ ?_
      (Bool.not_eq_true _ ▸ never) around
    · exact fun member inside => Or.inl inside
    · simp [countTurns_eq, Nat.add_comm]

theorem findCycles_eq_nil_iff (definition : Definition) (compiled : ObjectType) :
    findCycles definition compiled = [] ↔ ∀ name formula,
      .permission name formula ∈ definition.typeClauses.clauses →
        ¬ Relation.TransGen (ComputedFrom compiled.permissions) name name := by
  simp only [findCycles, List.flatMap_eq_nil_iff, Definition.typeClauses, List.mem_map]
  constructor
  · rintro none_noted name formula ⟨declaration, inside, same⟩ around
    cases declaration with
    | relation => cases same
    | permission start line expression =>
      cases same
      have noted := none_noted _ inside
      simp [comesBack_iff.mpr around] at noted
  · intro none_around declaration inside
    cases declaration with
    | relation => rfl
    | permission start line expression =>
      have never := none_around start expression.formula ⟨_, inside, rfl⟩
      rw [← comesBack_iff] at never
      simp [never]

end Cycles

end Saffui.Authz.Relations
