import Saffui.Authz.Relations.Limits

/-!
# A walk of sums hides no way

Where no rule of a schema is an intersection, a member found anywhere in a
walk is found by the whole walk. So in a walk that finds nothing, and meets
no bound, every member it met was walked to its end or is being walked
further up; none of them is derived from members it never met. At the end
nothing is being walked any more, and what was not met contains all that
stands.
-/

namespace Saffui.Authz.Relations
open Saffui.Foundation

mutual

/-- A rule without an intersection. -/
def Rule.isSum : Rule → Bool
  | .computed _ => true
  | .arrow _ _ => true
  | .union rules => Rule.areSums rules
  | .intersection _ => false

def Rule.areSums : List Rule → Bool
  | [] => true
  | rule :: rules => rule.isSum && Rule.areSums rules

end

/-- No rule of the schema holds an intersection. -/
def CompiledSchema.HoldsNoIntersection (schema : CompiledSchema) : Prop :=
  ∀ objectType found, schema.types.get? objectType = some found →
    ∀ permission rule, found.permissions.get? permission = some rule → rule.isSum = true

theorem CompiledSchema.HoldsNoIntersection.isSum {schema : CompiledSchema}
    (sums : schema.HoldsNoIntersection) {objectType member : String} {rule : Rule}
    (found : schema.findMember objectType member = some (.permission rule)) :
    rule.isSum = true := by
  simp only [CompiledSchema.findMember, Option.bind_eq_bind, Option.bind_eq_some_iff] at found
  obtain ⟨type, typed, found⟩ := found
  split at found
  · cases found
  · obtain ⟨_, read, same⟩ := Option.map_eq_some_iff.mp found
    cases same
    exact sums objectType type typed member _ read

/-- The bounds of a walk: every limit but a loop. -/
def isBound (limit : WalkLimit) : Bool := limit ≠ .cycle

theorem watchLimit_isBound {limit : WalkLimit} {before after : Walker} {walk : Walk}
    (ran : watchLimit isBound limit before = .ok (walk, after)) :
    limit = .cycle ∧ after = before := by
  unfold watchLimit at ran
  split at ran
  · cases ran
  · next apart =>
    constructor
    · simpa [isBound] using apart
    · exact (WalkM.pure_eq_ok ran).2

section Completeness

variable (asked : Question) (kept : List RelationTuple)

/-- The members a walk met: those it knows, and those it is walking. -/
def Walker.met (walker : Walker) : Set Place :=
  {place | (walker.find place).isSome ∨ place ∈ walker.walking}

/-- What a walker knows found nothing, and is not derived from members the
walk did not meet. -/
def Walker.Closed (walker : Walker) : Prop :=
  ∀ place walk, walker.find place = some walk → walk ≠ .found ∧
    ¬ asked.schema.derives {tuple | tuple ∈ kept} asked.subject walker.metᶜ place.1 place.2

/-- A computation that finds nothing leaves a claim to fail of all that was
not met by then. -/
def Misses (computation : WalkM Walk) (claim : Set Place → Prop) : Prop :=
  ∀ before after walk, before.Closed asked kept → computation before = .ok (walk, after) →
    walk ≠ .found →
    after.Closed asked kept ∧ before.met ⊆ after.met ∧ after.walking = before.walking ∧
      ¬ claim after.metᶜ

variable {asked kept}

theorem Walker.met_eq {before after : Walker} (known : after.known = before.known)
    (walking : after.walking = before.walking) : after.met = before.met := by
  simp only [Walker.met, Walker.find, known, walking]

theorem Walker.Closed.congr {before after : Walker} (closed : before.Closed asked kept)
    (known : after.known = before.known) (walking : after.walking = before.walking) :
    after.Closed asked kept := by
  intro place walk found
  rw [Walker.met_eq known walking]
  rw [Walker.find, known] at found
  exact closed place walk found

theorem derives_mono {less more : Set Place} (wider : less ⊆ more) {place : Place}
    (derived : asked.schema.derives {tuple | tuple ∈ kept} asked.subject less place.1 place.2) :
    asked.schema.derives {tuple | tuple ∈ kept} asked.subject more place.1 place.2 :=
  (asked.schema.meaning {tuple | tuple ∈ kept} asked.subject).monotone wider derived

theorem misses_pure {walk : Walk} {claim : Set Place → Prop}
    (refused : walk ≠ .found → ∀ unmet, ¬ claim unmet) : Misses asked kept (pure walk) claim := by
  intro before after answer closed ran missed
  obtain ⟨rfl, rfl⟩ := WalkM.pure_eq_ok ran
  exact ⟨closed, subset_rfl, rfl, refused missed _⟩

theorem Misses.congr {computation : WalkM Walk} {claim other : Set Place → Prop}
    (misses : Misses asked kept computation claim) (same : ∀ unmet, other unmet → claim unmet) :
    Misses asked kept computation other := by
  intro before after walk closed ran missed
  obtain ⟨still, more, walking, refused⟩ := misses before after walk closed ran missed
  exact ⟨still, more, walking, fun held => refused (same _ held)⟩

/-- What was refused stays refused as the walk meets more. -/
theorem Misses.then {first : WalkM Walk} {next : Walk → WalkM Walk}
    {claim other : Set Place → Prop} (here : Misses asked kept first claim)
    (mono : ∀ less more, less ⊆ more → claim less → claim more)
    (found : ∀ walker, next .found walker = .ok (.found, walker))
    (there : ∀ walk, walk ≠ .found → Misses asked kept (next walk) other) :
    Misses asked kept (first >>= next) (fun unmet => claim unmet ∨ other unmet) := by
  intro before after walk closed ran missed
  obtain ⟨answer, between, started, ran⟩ := WalkM.bind_eq_ok ran
  have unfound : answer ≠ .found := by
    rintro rfl
    rw [found] at ran
    exact missed (Prod.ext_iff.mp (Except.ok.inj ran)).1.symm
  obtain ⟨still, more, walking, refused⟩ := here before between answer closed started unfound
  obtain ⟨last, further, unchanged, refuted⟩ :=
    there answer unfound between after walk still ran missed
  refine ⟨last, more.trans further, unchanged.trans walking, ?_⟩
  rintro (held | held)
  · exact refused (mono _ _ (Set.compl_subset_compl.mpr further) held)
  · exact refuted held

theorem misses_walkEach {α : Type} {enter : α → WalkM Walk} {claim : α → Set Place → Prop}
    (mono : ∀ next less more, less ⊆ more → claim next less → claim next more) :
    ∀ list : List α, (∀ next ∈ list, Misses asked kept (enter next) (claim next)) →
      ∀ walks, Misses asked kept (walkEach enter list walks)
        (fun unmet => ∃ next ∈ list, claim next unmet)
  | [], _, walks => by
    unfold walkEach
    exact misses_pure (by simp)
  | next :: rest, each, walks => by
    have tail := fun walks => misses_walkEach mono rest
      (fun other inside => each other (List.mem_cons_of_mem _ inside)) walks
    have both : Misses asked kept (walkEach enter (next :: rest) walks)
        (fun unmet => claim next unmet ∨ ∃ other ∈ rest, claim other unmet) := by
      unfold walkEach
      apply (each next (by simp)).then (mono next)
      · exact fun walker => rfl
      · intro walk unfound
        rw [if_neg unfound]
        exact tail _
    apply both.congr
    intro unmet held
    simpa using held

theorem misses_of_readSubjects (reads : asked.ReadsFrom kept) {object : ObjectRef}
    {relation : String} {next : Subjects → WalkM Walk} {claim : Set Place → Prop}
    (bounded : ∀ limit, next (.bound limit) = watchLimit isBound limit)
    (read : Misses asked kept (next (.read (listKept kept object relation))) claim) :
    Misses asked kept (readSubjects asked object relation >>= next) claim := by
  intro before after walk closed ran missed
  obtain ⟨subjects, between, listed, ran⟩ := WalkM.bind_eq_ok ran
  obtain ⟨known, all⟩ := readSubjects_ok reads listed
  obtain ⟨walking, straight⟩ := readSubjects_walking listed
  cases subjects with
  | bound limit =>
    rw [bounded] at ran
    exact absurd (congrArg Subjects.bound (watchLimit_isBound ran).1) straight
  | read subjects =>
    rw [all subjects rfl] at ran
    obtain ⟨still, more, unchanged, refused⟩ :=
      read between after walk (closed.congr known walking) ran missed
    rw [Walker.met_eq known walking] at more
    exact ⟨still, more, unchanged.trans walking, refused⟩

theorem Walker.met_subset_enter (walker : Walker) (place : Place) :
    walker.met ⊆ Walker.met { walker with walking := place :: walker.walking } := by
  rintro other (known | walked)
  · exact Or.inl known
  · exact Or.inr (List.mem_cons_of_mem _ walked)

theorem Walker.Closed.enter {walker : Walker} (closed : walker.Closed asked kept) {place : Place} :
    Walker.Closed asked kept { walker with walking := place :: walker.walking } := by
  intro other walk told
  obtain ⟨unfound, refused⟩ := closed other walk told
  exact ⟨unfound, fun derived => refused
    (derives_mono (Set.compl_subset_compl.mpr (walker.met_subset_enter place)) derived)⟩

/-- A member left with its kind refused is as closed as what was known. -/
theorem Walker.Closed.leave {walker : Walker} {place : Place} {walk : Walk} {above : List Place}
    (closed : walker.Closed asked kept) (missed : walk ≠ .found)
    (refused : ¬ asked.schema.derives {tuple | tuple ∈ kept} asked.subject walker.metᶜ place.1 place.2)
    (walking : walker.walking = place :: above) :
    let left : Walker := { walker with
      walking := walker.walking.erase place, known := (place, walk) :: walker.known }
    left.met = walker.met ∧ left.Closed asked kept := by
  intro left
  have same : left.met = walker.met := by
    ext other
    simp only [Walker.met, Walker.find, Set.mem_ofPred_eq, left, walking, List.erase_cons_head,
      List.lookup_cons, List.mem_cons]
    by_cases equal : other = place
    · simp [equal]
    · simp only [beq_eq_false_iff_ne.mpr equal, equal, false_or]
  refine ⟨same, ?_⟩
  intro other told found
  rw [same]
  rw [Walker.find, List.lookup_cons] at found
  split at found
  · next equal =>
    obtain rfl := Option.some.inj found
    rw [beq_iff_eq.mp equal]
    exact ⟨missed, refused⟩
  · exact closed other told found

variable {enter : ObjectRef → String → Nat → WalkM Walk}
  (reads : asked.ReadsFrom kept)
  (enters : ∀ object member depth,
    Misses asked kept (enter object member depth) (fun unmet => (object, member) ∈ unmet))

include reads enters

theorem misses_watchRelation {object : ObjectRef} {relation : String}
    {allowed : List AllowedSubject}
    (found : asked.schema.findMember object.objectType relation = some (.relation allowed))
    (depth : Nat) :
    Misses asked kept (watchRelation isBound enter asked object relation depth)
      (fun unmet => namedBy {tuple | tuple ∈ kept} asked.subject unmet allowed object
        relation) := by
  unfold watchRelation
  rw [found]
  apply misses_of_readSubjects reads (fun _ => rfl)
  simp only
  split
  · exact misses_pure (by simp)
  · next indirect =>
    have each := misses_walkEach
      (fun (named : ObjectRef × String) (less more : Set Place) wider
        (inside : (named.1, named.2) ∈ less) => wider inside)
      (listMembers ((listKept kept object relation).filter (admits allowed)))
      (fun named _ => enters named.1 named.2 (depth + 1)) []
    apply each.congr
    rintro unmet (⟨tuple, admitted⟩ | ⟨target, member, tuple, admitted, inside⟩)
    · refine absurd (List.any_eq_true.mpr ⟨⟨asked.subject, none⟩, ?_, by simp⟩) indirect
      rw [List.mem_filter, mem_listKept_iff, admits_iff]
      exact ⟨tuple, admitted⟩
    · refine ⟨(target, member), ?_, inside⟩
      rw [mem_listMembers_iff, List.mem_filter, mem_listKept_iff, admits_iff]
      exact ⟨tuple, admitted⟩

theorem misses_watchArrow (object : ObjectRef) (relation member : String) (depth : Nat) :
    Misses asked kept (watchArrow isBound enter asked object relation member depth)
      (fun unmet => ∃ target, asked.schema.leadsTo {tuple | tuple ∈ kept} object relation target ∧
        (target, member) ∈ unmet) := by
  unfold watchArrow
  split
  · next allowed found =>
    apply misses_of_readSubjects reads (fun _ => rfl)
    have each := misses_walkEach
      (fun (target : ObjectRef) (less more : Set Place) wider
        (inside : (target, member) ∈ less) => wider inside)
      (listObjects allowed (listKept kept object relation))
      (fun target _ => enters target member (depth + 1)) []
    apply each.congr
    rintro unmet ⟨target, ⟨_, same, related⟩, inside⟩
    obtain rfl : allowed = _ := by simpa using found.symm.trans same
    exact ⟨target, (mem_listObjects_iff ..).mpr related, inside⟩
  · next unrelated =>
    apply misses_pure
    rintro - unmet ⟨target, ⟨allowed, found, _⟩, _⟩
    exact unrelated allowed found

set_option linter.unusedSectionVars false

mutual

theorem misses_watchRule (object : ObjectRef) :
    ∀ rule : Rule, rule.isSum = true → ∀ depth,
      Misses asked kept (watchRule isBound enter asked object rule depth)
        (fun unmet => rule.holds (asked.schema.leadsTo {tuple | tuple ∈ kept}) unmet object)
  | .computed member, _, depth => by
    simpa only [watchRule, Rule.holds] using enters object member (depth + 1)
  | .arrow relation member, _, depth => by
    simpa only [watchRule, Rule.holds] using misses_watchArrow reads enters object relation member depth
  | .union rules, sums, depth => by
    simpa only [watchRule, Rule.holds] using misses_watchSum object rules sums (depth + 1) []
  | .intersection _, sums, _ => by cases sums

theorem misses_watchSum (object : ObjectRef) :
    ∀ rules : List Rule, Rule.areSums rules = true → ∀ depth walks,
      Misses asked kept (watchSum isBound enter asked object rules depth walks)
        (fun unmet => Rule.holdsSome (asked.schema.leadsTo {tuple | tuple ∈ kept}) unmet object rules)
  | [], _, depth, walks => by
    rw [watchSum]
    exact misses_pure fun _ _ => id
  | rule :: rules, sums, depth, walks => by
    obtain ⟨sum, others⟩ := (Bool.and_eq_true _ _).mp sums
    rw [watchSum]
    apply (misses_watchRule object rule sum depth).then
      (fun less more wider => Rule.holds_mono wider object rule)
    · exact fun walker => rfl
    · intro walk unfound
      rw [if_neg unfound]
      exact misses_watchSum object rules others depth _

end

theorem misses_watchKind (sums : asked.schema.HoldsNoIntersection) (object : ObjectRef)
    (member : String) (depth : Nat) :
    Misses asked kept (watchKind isBound enter asked object member depth)
      (fun unmet => asked.schema.derives {tuple | tuple ∈ kept} asked.subject unmet object member) := by
  unfold watchKind CompiledSchema.derives
  cases found : asked.schema.findMember object.objectType member with
  | none => exact misses_pure fun _ _ => id
  | some kind =>
    cases kind with
    | relation allowed => exact misses_watchRelation reads enters found depth
    | permission rule => exact misses_watchRule reads enters object rule (sums.isSum found) depth

omit enters

/-- Entering a member adds it to what was met, and leaving it changes nothing
of that: it is known then, closed as its kind is. -/
theorem misses_watchMember (sums : asked.schema.HoldsNoIntersection) :
    ∀ fuel object member depth, Misses asked kept (watchMember isBound asked fuel object member depth)
      (fun unmet => (object, member) ∈ unmet)
  | 0, _, _, _ => by
    intro before after walk _ ran
    cases ran
  | fuel + 1, object, member, depth => by
    intro before after walk closed ran missed
    unfold watchMember at ran
    rw [WalkM.modify_bind, WalkM.read_bind] at ran
    split at ran
    · cases (watchLimit_isBound ran).1
    obtain ⟨late, timed, checked, ran⟩ := WalkM.bind_eq_ok ran
    have known := checkTime_known checked
    have walking := checkTime_walking checked
    cases late with
    | some limit => cases (walking.2 limit rfl).symm.trans (watchLimit_isBound ran).1
    | none =>
      have now : timed.Closed asked kept := closed.congr known walking.1
      have same : timed.met = before.met := Walker.met_eq known walking.1
      simp only at ran
      split at ran
      · cases (watchLimit_isBound ran).1
      rw [WalkM.read_bind] at ran
      cases told : timed.find (object, member) with
      | some known =>
        rw [told] at ran
        obtain ⟨rfl, rfl⟩ := WalkM.pure_eq_ok ran
        exact ⟨now, same.ge, walking.1, fun unmet => unmet (Or.inl (by simp [told]))⟩
      | none =>
        rw [told] at ran
        simp only at ran
        rw [enter_bind] at ran
        by_cases looped : (object, member) ∈ timed.walking
        · rw [if_pos looped] at ran
          change watchLimit isBound .cycle timed = _ at ran
          obtain ⟨-, rfl⟩ := watchLimit_isBound ran
          exact ⟨now, same.ge, walking.1, fun unmet => unmet (Or.inr looped)⟩
        · rw [if_neg looped] at ran
          obtain ⟨answer, walked, kind, ran⟩ := WalkM.bind_eq_ok ran
          rw [leave_bind] at ran
          obtain ⟨rfl, rfl⟩ := WalkM.pure_eq_ok ran
          obtain ⟨ended, more, unchanged, refused⟩ := misses_watchKind reads
            (misses_watchMember sums fuel) sums object member depth _ _ _ now.enter kind missed
          obtain ⟨left, last⟩ := ended.leave missed refused unchanged
          refine ⟨last, ?_, ?_, ?_⟩
          · rw [left]
            exact (same.ge.trans (Walker.met_subset_enter timed _)).trans more
          · simp [unchanged, walking.1]
          · exact fun unmet => unmet (Or.inl (by simp [Walker.find]))

/-- In a walk that meets no bound, over a schema of sums, what is not found
does not stand. -/
theorem walkRelations_complete (sums : asked.schema.HoldsNoIntersection) {object : ObjectRef}
    {member : String} {walk : Walk} (answered : walkRelations asked object member = .ok walk)
    (met : ¬ asked.Meets isBound object member) (missed : walk ≠ .found) :
    (object, member) ∉ asked.stands kept := by
  obtain ⟨after, watched⟩ := watched_of_not_meets answered met
  have start : Walker.start.Closed asked kept := by
    intro place walk told
    simp [Walker.find, Walker.start] at told
  obtain ⟨closed, -, walking, refused⟩ :=
    misses_watchMember reads sums _ object member 0 _ after walk start watched missed
  have outside : asked.stands kept ⊆ after.metᶜ := by
    apply OrderHom.lfp_le
    intro place derived known
    rcases known with known | walked
    · obtain ⟨told, found⟩ := Option.isSome_iff_exists.mp known
      exact (closed place told found).2 derived
    · rw [walking] at walked
      cases walked
  exact fun stands => refused (outside stands)

end Completeness

/-- Over a schema of sums, whatever loops the relations kept form, a walk
that meets no bound finds exactly what stands. -/
theorem walkRelations_found_iff_stands (schema : CompiledSchema) (kept : List RelationTuple)
    (subject object : ObjectRef) (member : String) (deadline : Instant) (bounds : Bounds)
    (now : Nat → Instant) (failures : Nat → Option StorageError) (walk : Walk)
    (sums : schema.HoldsNoIntersection)
    (answered : walkRelations ⟨schema, subject, deadline, bounds, .ofKept kept now failures⟩
      object member = .ok walk)
    (unbounded : ¬ Question.Meets ⟨schema, subject, deadline, bounds, .ofKept kept now failures⟩
      isBound object member) :
    walk = .found ↔
      (object, member) ∈ schema.stands (schema.admitted {tuple | tuple ∈ kept}) subject := by
  rw [CompiledSchema.stands_admitted]
  have reads := @readsFrom_ofKept kept schema subject deadline bounds now failures
  constructor
  · exact (walkRelations_right reads answered).1
  · intro stands
    by_contra missed
    exact walkRelations_complete reads sums answered unbounded missed stands

theorem folderSchema_holds_no_intersection : folderSchema.HoldsNoIntersection := by
  intro objectType found typed permission rule read
  have inside := (SortedMap.mem_entries_iff _ _ _).mpr typed
  have kinds : ∀ entry ∈ folderSchema.types.entries, entry.2.permissions = .empty := by decide
  rw [kinds _ inside] at read
  cases read

/-- The folders of the loop: the one nobody is a viewer of but through the
loop is not found, though the walk of it is cut. -/
theorem looped_folders_found_iff :
    (¬ Question.Meets ⟨folderSchema, ⟨"user", "w"⟩, MAX_DURATION, .ofSource,
      .ofKept loopedFolders (fun _ => 0) (fun _ => none)⟩ isBound ⟨"folder", "a"⟩ "viewer") ∧
    (Walk.undecided .cycle = .found ↔ ((⟨"folder", "a"⟩, "viewer") : Place) ∈ folderSchema.stands
      (folderSchema.admitted {tuple | tuple ∈ loopedFolders}) ⟨"user", "w"⟩) := by
  have unbounded : ¬ Question.Meets ⟨folderSchema, ⟨"user", "w"⟩, MAX_DURATION, .ofSource,
      .ofKept loopedFolders (fun _ => 0) (fun _ => none)⟩ isBound ⟨"folder", "a"⟩ "viewer" := by
    decide +kernel
  exact ⟨unbounded, walkRelations_found_iff_stands _ _ _ _ _ _ _ _ _ _
    folderSchema_holds_no_intersection (by decide +kernel) unbounded⟩

end Saffui.Authz.Relations
