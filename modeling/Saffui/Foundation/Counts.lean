import Mathlib.Data.Multiset.Filter
import Mathlib.Logic.Function.Basic

/-!
# Counts of what is held, given back when dropped

Counts under keys, in 32 bits, where a key that counts nothing is not kept. A
pool lends shares out and takes them back in any order; an invariant of what is
lent holds in every state of a pool when taking and dropping keep it.
-/

namespace Saffui.Foundation

/-- `u32::saturating_sub` -/
def saturatingSub (count less : UInt32) : UInt32 := if count < less then 0 else count - less

theorem toNat_succ_of_lt {count bound : UInt32} (room : count < bound) :
    (count + 1).toNat = count.toNat + 1 := by
  have below : count.toNat < bound.toNat := UInt32.lt_iff_toNat_lt.mp room
  have most := bound.toNat_lt
  rw [UInt32.toNat_add, UInt32.toNat_one]
  omega

theorem toNat_saturatingSub_one {count : UInt32} (some_held : count ≠ 0) :
    (saturatingSub count 1).toNat = count.toNat - 1 := by
  have one : UInt32.toNat 1 = 1 := rfl
  have positive : count.toNat ≠ 0 := fun none => some_held (UInt32.toNat_inj.mp none)
  have enough : ¬ count < 1 := by
    rw [UInt32.lt_iff_toNat_lt]
    omega
  rw [saturatingSub, if_neg enough, UInt32.toNat_sub_of_le _ _ (UInt32.not_lt.mp enough), one]

abbrev Counts (Key : Type*) := Key → Option UInt32

namespace Counts

variable {Key : Type*} [DecidableEq Key]

/-- What is counted under a key, nothing where it is not kept. -/
def held (counts : Counts Key) (key : Key) : UInt32 := (counts key).getD 0

/-- One more under a key. -/
def countOne (counts : Counts Key) (key : Key) : Counts Key :=
  Function.update counts key (some (counts.held key + 1))

/-- One less under a key, which is removed where nothing is left. -/
def giveBack (counts : Counts Key) (key : Key) : Counts Key :=
  match counts key with
  | none => counts
  | some count =>
    let left := saturatingSub count 1
    Function.update counts key (if left = 0 then none else some left)

/-- Each key counts what is held under it, and is kept when something is. -/
structure Of (counts : Counts Key) (alive : Key → Nat) : Prop where
  number : ∀ key, (counts.held key).toNat = alive key
  kept : ∀ key, counts key ≠ some 0

namespace Of

variable {counts : Counts Key} {before after : Key → Nat} {key : Key}

omit [DecidableEq Key] in
theorem nothing : Of (fun _ : Key => none) fun _ => 0 :=
  ⟨fun _ => rfl, fun _ => nofun⟩

omit [DecidableEq Key] in
/-- A key something is held under is kept, with what a return leaves of it. -/
theorem some_of_pos (of : counts.Of before) (positive : 0 < before key) :
    ∃ count, counts key = some count ∧ count ≠ 0 ∧ count.toNat = before key := by
  have number := of.number key
  unfold held at number
  cases found : counts key with
  | none =>
    rw [found, Option.getD_none, UInt32.toNat_zero] at number
    omega
  | some count =>
    rw [found, Option.getD_some] at number
    exact ⟨count, rfl, fun zero => of.kept key (zero ▸ found), number⟩

/-- A share taken under a key whose count is below some bound. -/
theorem countOne {bound : UInt32} (of : counts.Of before) (room : counts.held key < bound)
    (more : ∀ other, after other = before other + if other = key then 1 else 0) :
    (counts.countOne key).Of after := by
  have added := toNat_succ_of_lt room
  constructor
  · intro other
    have number := of.number other
    rw [more other, ← number]
    by_cases same : other = key
    · subst same
      simp [Counts.countOne, Counts.held] at added ⊢
      exact added
    · simp [Counts.countOne, Counts.held, same]
  · intro other
    by_cases same : other = key
    · subst same
      intro zero
      simp only [Counts.countOne, Function.update_self, Option.some.injEq] at zero
      rw [zero, UInt32.toNat_zero] at added
      omega
    · simpa [Counts.countOne, same] using of.kept other

/-- A share given back, of those held under a key. -/
theorem giveBack (of : counts.Of before)
    (less : ∀ other, before other = after other + if other = key then 1 else 0) :
    (counts.giveBack key).Of after := by
  have positive : 0 < before key := by
    rw [less key, if_pos rfl]
    omega
  obtain ⟨count, found, filled, counted⟩ := of.some_of_pos positive
  have left := toNat_saturatingSub_one filled
  have back : counts.giveBack key = Function.update counts key
      (if saturatingSub count 1 = 0 then none else some (saturatingSub count 1)) := by
    rw [Counts.giveBack, found]
  rw [back]
  constructor
  · intro other
    by_cases same : other = key
    · subst same
      have one := less other
      rw [if_pos rfl] at one
      rw [Counts.held, Function.update_self]
      by_cases spent : saturatingSub count 1 = 0
      · rw [spent, UInt32.toNat_zero] at left
        rw [if_pos spent, Option.getD_none, UInt32.toNat_zero]
        omega
      · rw [if_neg spent, Option.getD_some, left]
        omega
    · have number := of.number other
      have one := less other
      rw [if_neg same, Nat.add_zero] at one
      rw [Counts.held, Function.update_of_ne same, ← one, ← number, Counts.held]
  · intro other
    by_cases same : other = key
    · subst same
      rw [Function.update_self]
      split
      · exact nofun
      · next some_left => simpa using some_left
    · rw [Function.update_of_ne same]
      exact of.kept other

end Of
end Counts

section Pool

variable {Held Request Share : Type*}

/-- The states of a pool after any order of takes and drops, with the shares now
alive. A take that is refused changes nothing, and a share is dropped once. -/
inductive Pool (take : Held → Request → Option (Held × Share)) (drop : Held → Share → Held)
    (start : Held) : Held → Multiset Share → Prop
  | start : Pool take drop start start 0
  | taken {held left : Held} {alive : Multiset Share} {share : Share} (request : Request)
      (before : Pool take drop start held alive) (lent : take held request = some (left, share)) :
      Pool take drop start left (share ::ₘ alive)
  | refused {held : Held} {alive : Multiset Share} (request : Request)
      (before : Pool take drop start held alive) (none : take held request = none) :
      Pool take drop start held alive
  | dropped {held : Held} {alive : Multiset Share} {share : Share}
      (before : Pool take drop start held (share ::ₘ alive)) :
      Pool take drop start (drop held share) alive

/-- What a take and a drop keep holds after any order of them. -/
theorem Pool.keeps {take : Held → Request → Option (Held × Share)} {drop : Held → Share → Held}
    {start held : Held} {alive : Multiset Share} {kept : Held → Multiset Share → Prop}
    (pool : Pool take drop start held alive) (first : kept start 0)
    (takes : ∀ {held left alive share request}, kept held alive →
      take held request = some (left, share) → kept left (share ::ₘ alive))
    (drops : ∀ {held alive share}, kept held (share ::ₘ alive) → kept (drop held share) alive) :
    kept held alive := by
  induction pool with
  | start => exact first
  | taken request _ lent ih => exact takes ih lent
  | refused _ _ _ ih => exact ih
  | dropped _ ih => exact drops ih

end Pool

end Saffui.Foundation
