import Mathlib.Order.FixedPoints
import Mathlib.Data.Set.Lattice
import Mathlib.Order.CompletePartialOrder
import Saffui.Authz.Relations.Model

/-!
# What the members of a schema mean

A member of an object stands for a set of subjects: the least one the rules
of the schema derive from the relations kept, of those the schema admits. The
sets are given for one subject at a time, as the pairs of an object and a
member it stands in, so that the rules are a monotone operator on sets of
pairs and the meaning is its least fixed point.

`Meaning` is shared by the two levels of a schema: the text as it was
written, and the compiled form the walk reads.
-/

namespace Saffui.Authz.Relations

/-- A member of an object. -/
abbrev Place := ObjectRef × String

/-- The pairs one round of rules derives from pairs already derived. -/
abbrev Meaning := Set Place →o Set Place

/-- A relation of an object names the object `target` itself, among the
subjects the relation admits. -/
def relatesTo (kept : Set RelationTuple) (allowed : List AllowedSubject) (object : ObjectRef)
    (relation : String) (target : ObjectRef) : Prop :=
  (⟨object, relation, ⟨target, none⟩⟩ : RelationTuple) ∈ kept ∧
    (⟨target.objectType, none⟩ : AllowedSubject) ∈ allowed

/-- A relation of an object names the subject: itself, or through a member it
stands in, of the subjects the relation admits. -/
def namedBy (kept : Set RelationTuple) (subject : ObjectRef) (stands : Set Place)
    (allowed : List AllowedSubject) (object : ObjectRef) (relation : String) : Prop :=
  relatesTo kept allowed object relation subject ∨
    ∃ (target : ObjectRef) (member : String),
      (⟨object, relation, ⟨target, some member⟩⟩ : RelationTuple) ∈ kept ∧
      (⟨target.objectType, some member⟩ : AllowedSubject) ∈ allowed ∧ (target, member) ∈ stands

theorem namedBy_mono {kept : Set RelationTuple} {subject : ObjectRef} {less more : Set Place}
    (wider : less ⊆ more) {allowed : List AllowedSubject} {object : ObjectRef} {relation : String}
    (named : namedBy kept subject less allowed object relation) :
    namedBy kept subject more allowed object relation := by
  rcases named with direct | ⟨target, member, tuple, admitted, inside⟩
  · exact Or.inl direct
  · exact Or.inr ⟨target, member, tuple, admitted, wider inside⟩

/-- The objects a relation of a compiled schema leads an arrow to. -/
def CompiledSchema.leadsTo (schema : CompiledSchema) (kept : Set RelationTuple)
    (object : ObjectRef) (relation : String) (target : ObjectRef) : Prop :=
  ∃ allowed, schema.findMember object.objectType relation = some (.relation allowed) ∧
    relatesTo kept allowed object relation target

mutual

/-- Whether a rule holds of an object, given what stands and where arrows
lead. An intersection of nothing holds of nothing, as the walk has it. -/
def Rule.holds (leads : ObjectRef → String → ObjectRef → Prop) (stands : Set Place)
    (object : ObjectRef) : Rule → Prop
  | .computed member => (object, member) ∈ stands
  | .arrow relation member => ∃ target, leads object relation target ∧ (target, member) ∈ stands
  | .union rules => Rule.holdsSome leads stands object rules
  | .intersection rules => rules ≠ [] ∧ Rule.holdsEvery leads stands object rules

def Rule.holdsSome (leads : ObjectRef → String → ObjectRef → Prop) (stands : Set Place)
    (object : ObjectRef) : List Rule → Prop
  | [] => False
  | rule :: rules => rule.holds leads stands object ∨ Rule.holdsSome leads stands object rules

def Rule.holdsEvery (leads : ObjectRef → String → ObjectRef → Prop) (stands : Set Place)
    (object : ObjectRef) : List Rule → Prop
  | [] => True
  | rule :: rules => rule.holds leads stands object ∧ Rule.holdsEvery leads stands object rules

end

theorem Rule.holdsSome_iff (leads : ObjectRef → String → ObjectRef → Prop) (stands : Set Place)
    (object : ObjectRef) (rules : List Rule) :
    Rule.holdsSome leads stands object rules ↔ ∃ rule ∈ rules, rule.holds leads stands object := by
  induction rules with
  | nil => simp [Rule.holdsSome]
  | cons rule rules ih => simp [Rule.holdsSome, ih]

theorem Rule.holdsEvery_iff (leads : ObjectRef → String → ObjectRef → Prop) (stands : Set Place)
    (object : ObjectRef) (rules : List Rule) :
    Rule.holdsEvery leads stands object rules ↔
      ∀ rule ∈ rules, rule.holds leads stands object := by
  induction rules with
  | nil => simp [Rule.holdsEvery]
  | cons rule rules ih => simp [Rule.holdsEvery, ih]

mutual

/-- Rules have no negation: what stands more lets every rule hold that held. -/
theorem Rule.holds_mono {leads : ObjectRef → String → ObjectRef → Prop} {less more : Set Place}
    (wider : less ⊆ more) (object : ObjectRef) :
    ∀ rule : Rule, rule.holds leads less object → rule.holds leads more object
  | .computed _, held => wider held
  | .arrow _ _, held => by
    obtain ⟨target, led, inside⟩ := held
    exact ⟨target, led, wider inside⟩
  | .union rules, held => Rule.holdsSome_mono wider object rules held
  | .intersection rules, held => ⟨held.1, Rule.holdsEvery_mono wider object rules held.2⟩

theorem Rule.holdsSome_mono {leads : ObjectRef → String → ObjectRef → Prop}
    {less more : Set Place} (wider : less ⊆ more) (object : ObjectRef) :
    ∀ rules : List Rule, Rule.holdsSome leads less object rules →
      Rule.holdsSome leads more object rules
  | rule :: rules, held => by
    rcases held with here | there
    · exact Or.inl (Rule.holds_mono wider object rule here)
    · exact Or.inr (Rule.holdsSome_mono wider object rules there)

theorem Rule.holdsEvery_mono {leads : ObjectRef → String → ObjectRef → Prop}
    {less more : Set Place} (wider : less ⊆ more) (object : ObjectRef) :
    ∀ rules : List Rule, Rule.holdsEvery leads less object rules →
      Rule.holdsEvery leads more object rules
  | [], _ => trivial
  | rule :: rules, held =>
    ⟨Rule.holds_mono wider object rule held.1, Rule.holdsEvery_mono wider object rules held.2⟩

end

/-- What one member of a compiled schema derives. -/
def CompiledSchema.derives (schema : CompiledSchema) (kept : Set RelationTuple)
    (subject : ObjectRef) (stands : Set Place) (object : ObjectRef) (member : String) : Prop :=
  match schema.findMember object.objectType member with
  | none => False
  | some (.relation allowed) => namedBy kept subject stands allowed object member
  | some (.permission rule) => rule.holds (schema.leadsTo kept) stands object

/-- One round of the rules of a compiled schema. -/
def CompiledSchema.meaning (schema : CompiledSchema) (kept : Set RelationTuple)
    (subject : ObjectRef) : Meaning where
  toFun stands := {place | schema.derives kept subject stands place.1 place.2}
  monotone' := by
    intro less more wider place derived
    simp only [Set.mem_ofPred_eq, CompiledSchema.derives] at derived ⊢
    split at derived
    · exact derived
    · exact namedBy_mono wider derived
    · exact Rule.holds_mono wider _ _ derived

/-- The members of objects a subject stands in: the least fixed point of the
rules of the schema over the relations kept. -/
def CompiledSchema.stands (schema : CompiledSchema) (kept : Set RelationTuple)
    (subject : ObjectRef) : Set Place :=
  (schema.meaning kept subject).lfp

/-- A place stands exactly when its member derives it from what stands. -/
theorem CompiledSchema.mem_stands_iff (schema : CompiledSchema) (kept : Set RelationTuple)
    (subject object : ObjectRef) (member : String) :
    (object, member) ∈ schema.stands kept subject ↔
      schema.derives kept subject (schema.stands kept subject) object member := by
  conv_lhs => rw [CompiledSchema.stands, ← OrderHom.map_lfp]
  rfl

/-- The relations kept that a schema admits. -/
def CompiledSchema.admitted (schema : CompiledSchema) (kept : Set RelationTuple) :
    Set RelationTuple :=
  {tuple | tuple ∈ kept ∧ tuple.kind ∈ listAdmittedRelations schema}

theorem CompiledSchema.mem_admitted_iff {schema : CompiledSchema} {kept : Set RelationTuple}
    {tuple : RelationTuple} {allowed : List AllowedSubject}
    (found : schema.findMember tuple.object.objectType tuple.relation = some (.relation allowed))
    (inside : ⟨tuple.subject.object.objectType, tuple.subject.member⟩ ∈ allowed) :
    tuple ∈ schema.admitted kept ↔ tuple ∈ kept := by
  have kind : tuple.kind ∈ listAdmittedRelations schema := by
    rw [mem_listAdmittedRelations_iff]
    simp only [CompiledSchema.findMember, Option.bind_eq_bind, Option.bind_eq_some_iff] at found
    obtain ⟨type, typed, found⟩ := found
    split at found
    · next allowed_ related =>
      obtain rfl : allowed_ = allowed := by simpa using found
      exact ⟨type, allowed_, typed, related, inside⟩
    · simp at found
  exact and_iff_left kind

theorem CompiledSchema.relatesTo_admitted_iff {schema : CompiledSchema}
    {kept : Set RelationTuple} {object target : ObjectRef} {relation : String}
    {allowed : List AllowedSubject}
    (found : schema.findMember object.objectType relation = some (.relation allowed)) :
    relatesTo (schema.admitted kept) allowed object relation target ↔
      relatesTo kept allowed object relation target :=
  and_congr_left fun inside => CompiledSchema.mem_admitted_iff (by exact found) inside

theorem CompiledSchema.leadsTo_admitted (schema : CompiledSchema) (kept : Set RelationTuple) :
    schema.leadsTo (schema.admitted kept) = schema.leadsTo kept := by
  funext object relation target
  simp only [CompiledSchema.leadsTo, eq_iff_iff]
  exact exists_congr fun allowed =>
    and_congr_right fun found => CompiledSchema.relatesTo_admitted_iff found

/-- What a schema does not admit gives nothing: the relations kept and those
of them the schema admits mean the same. -/
theorem CompiledSchema.stands_admitted (schema : CompiledSchema) (kept : Set RelationTuple)
    (subject : ObjectRef) :
    schema.stands (schema.admitted kept) subject = schema.stands kept subject := by
  unfold CompiledSchema.stands
  congr 1
  ext stands ⟨object, member⟩
  simp only [CompiledSchema.meaning, OrderHom.coe_mk, Set.mem_ofPred_eq, CompiledSchema.derives,
    CompiledSchema.leadsTo_admitted]
  cases found : schema.findMember object.objectType member with
  | none => rfl
  | some kind =>
    cases kind with
    | permission rule => rfl
    | relation allowed =>
      refine or_congr (CompiledSchema.relatesTo_admitted_iff found) ?_
      refine exists_congr fun target => exists_congr fun named => ?_
      constructor
      · rintro ⟨tuple, inside, stood⟩
        exact ⟨(CompiledSchema.mem_admitted_iff (by exact found) inside).mp tuple, inside, stood⟩
      · rintro ⟨tuple, inside, stood⟩
        exact ⟨(CompiledSchema.mem_admitted_iff (by exact found) inside).mpr tuple, inside, stood⟩

end Saffui.Authz.Relations
