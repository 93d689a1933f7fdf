import Mathlib.Data.List.Sort
import Saffui.Text

/-!
# What is left to apply

The applied history must be a prefix of what the binary embeds, byte for byte:
anything else is refused, never repaired.

Source: `pgcore/src/migrate/plan.rs`.
-/

namespace Saffui.Migrate

abbrev Bytes := List UInt8

/-- A migration as the plan sees it: its version and the digest of its text. -/
structure Fingerprint where
  version : Int32
  checksum : Bytes
  deriving DecidableEq, Repr

inductive PlanError where
  | embeddedOutOfOrder
  | drift (version : Int32)
  | ahead (version : Int32)
  | gap (version : Int32)
  deriving DecidableEq, Repr

/-- `i32::try_from`, of a count. -/
def tryFrom (count : Nat) : Option Int32 := if count < 2 ^ 31 then some (.ofNat count) else none

def checkNumbered : Nat → List Fingerprint → Except PlanError Unit
  | _, [] => .ok ()
  | position, migration :: rest =>
    if tryFrom (position + 1) ≠ some migration.version then .error .embeddedOutOfOrder
    else checkNumbered (position + 1) rest

def checkApplied (embedded : List Fingerprint) : Nat → List Fingerprint → Except PlanError Unit
  | _, [] => .ok ()
  | position, done :: rest =>
    match embedded[position]? with
    | none => .error (.ahead done.version)
    | some known =>
      if done.version ≠ known.version then .error (.gap known.version)
      else if done.checksum ≠ known.checksum then .error (.drift done.version)
      else checkApplied embedded (position + 1) rest

/-- The versions still to apply, in order. -/
def planPending (embedded applied : List Fingerprint) : Except PlanError (List Int32) := do
  checkNumbered 0 embedded
  checkApplied embedded 0 applied
  return (embedded.drop applied.length).map Fingerprint.version

/-- Migrations numbered 1, 2, 3 and so on. -/
def Numbered {α : Type} (version : α → Int32) (migrations : List α) : Prop :=
  ∀ (position : Nat) one, migrations[position]? = some one → (version one).toInt = position + 1

theorem tryFrom_eq_some {count : Nat} {version : Int32} :
    tryFrom count = some version ↔ version.toInt = count := by
  constructor
  · intro fits
    simp only [tryFrom, Option.ite_none_right_eq_some, Option.some.injEq] at fits
    obtain ⟨small, rfl⟩ := fits
    exact Int32.toInt_ofNat_of_lt small
  · intro same
    have small : count < 2 ^ 31 := by
      have bound := version.toInt_lt
      omega
    rw [tryFrom, if_pos small, Option.some.injEq, ← Int32.toInt_inj, Int32.toInt_ofNat_of_lt small, same]

theorem checkNumbered_ok {position : Nat} {embedded : List Fingerprint} :
    checkNumbered position embedded = .ok () ↔
      ∀ (index : Nat) one, embedded[index]? = some one → one.version.toInt = position + index + 1 := by
  induction embedded generalizing position with
  | nil => simp [checkNumbered]
  | cons migration rest ih =>
    simp only [checkNumbered, ne_eq, ite_not]
    constructor
    · intro numbered index one found
      split at numbered
      · next first =>
        cases index with
        | zero =>
          obtain rfl : migration = one := Option.some.inj found
          have same := tryFrom_eq_some.mp first
          omega
        | succ index =>
          have same := ih.mp numbered index one found
          omega
      · cases numbered
    · intro numbered
      have first := numbered 0 migration rfl
      rw [if_pos (tryFrom_eq_some.mpr (by omega))]
      apply ih.mpr
      intro index one found
      have same := numbered (index + 1) one found
      omega

theorem checkApplied_ok {embedded applied : List Fingerprint} {position : Nat} :
    checkApplied embedded position applied = .ok () ↔ applied <+: embedded.drop position := by
  induction applied generalizing position with
  | nil => simp [checkApplied]
  | cons done rest ih =>
    simp only [checkApplied]
    constructor
    · intro checked
      split at checked
      · cases checked
      · next known found =>
        split at checked
        · cases checked
        split at checked
        · cases checked
        next sameVersion sameChecksum =>
        obtain ⟨inside, rfl⟩ := List.getElem?_eq_some_iff.mp found
        have isDone : done = embedded[position] := by
          cases isKnown : embedded[position]
          cases done
          simp_all
        rw [List.drop_eq_getElem_cons inside, isDone, List.prefix_cons_inj]
        exact ih.mp checked
    · intro leads
      have inside : position < embedded.length := by
        have fits := leads.length_le
        simp only [List.length_cons, List.length_drop] at fits
        omega
      rw [List.drop_eq_getElem_cons inside] at leads
      obtain ⟨isDone, later⟩ := List.cons_prefix_cons.mp leads
      rw [List.getElem?_eq_getElem inside, ← isDone]
      simp only [ne_eq, not_true_eq_false, if_false]
      exact ih.mpr later

/-- A plan is made exactly of a history that leads the embedded list, numbered
from one: it is the rest. -/
theorem planPending_ok {embedded applied : List Fingerprint} {versions : List Int32} :
    planPending embedded applied = .ok versions ↔
      Numbered Fingerprint.version embedded ∧ applied <+: embedded ∧
        versions = (embedded.drop applied.length).map Fingerprint.version := by
  have numbered : checkNumbered 0 embedded = .ok () ↔ Numbered Fingerprint.version embedded := by
    rw [checkNumbered_ok, Numbered]
    simp
  have leads : checkApplied embedded 0 applied = .ok () ↔ applied <+: embedded := by
    rw [checkApplied_ok, List.drop_zero]
  rw [← numbered, ← leads, planPending]
  cases checkNumbered 0 embedded with
  | error refusal => simp [bind, Except.bind]
  | ok _ =>
    cases checkApplied embedded 0 applied with
    | error refusal => simp [bind, Except.bind]
    | ok _ => simp [bind, Except.bind, pure, Except.pure, eq_comm]

/-- The versions of migrations numbered from one, past the first ones. -/
theorem Numbered.versions {α : Type} {version : α → Int32} {migrations : List α}
    (numbered : Numbered version migrations) (applied : Nat) :
    ((migrations.drop applied).map fun one => (version one).toInt) =
      (List.range' (applied + 1) (migrations.length - applied)).map Int.ofNat := by
  apply List.ext_getElem?
  intro index
  simp only [List.getElem?_map, List.getElem?_drop]
  cases found : migrations[applied + index]? with
  | none =>
    rw [List.getElem?_eq_none_iff] at found
    rw [List.getElem?_eq_none (by simp; omega)]
    rfl
  | some one =>
    obtain ⟨inside, -⟩ := List.getElem?_eq_some_iff.mp found
    rw [List.getElem?_range' (by omega)]
    simp only [Option.map_some, Option.some.injEq, numbered _ one found]
    simp only [Int.ofNat_eq_natCast]
    omega

example : planPending [⟨1, [1]⟩, ⟨2, [2]⟩, ⟨3, [3]⟩] [⟨1, [1]⟩] = .ok [2, 3] := by decide

end Saffui.Migrate
