import Mathlib.Data.List.Forall2
import Mathlib.Data.List.Perm.Basic

/-!
# Truths that may be unknown

Strong Kleene logic over lists. A truth is `some` answer, or `none` where it
is not known; `join answer` is the disjunction of a list for `true` and its
conjunction for `false`: one truth of the decisive answer settles the whole,
and without one an unknown leaves it unknown. A truth that is known does not
change when what was unknown is told.
-/

namespace Saffui.Foundation.Kleene

/-- What truths say together, where `decisive` ends it. -/
def join (decisive : Bool) (truths : List (Option Bool)) : Option Bool :=
  if some decisive ∈ truths then some decisive
  else if none ∈ truths then none
  else some (!decisive)

/-- The second truth tells what the first left unknown, and keeps what it
knew. -/
def Settles (known told : Option Bool) : Prop := ∀ answer, known = some answer → told = some answer

variable {decisive : Bool} {truths told : List (Option Bool)}

theorem join_eq_decisive : join decisive truths = some decisive ↔ some decisive ∈ truths := by
  unfold join
  split
  · next inside => simp [inside]
  · next absent => split <;> simp [absent]

theorem join_eq_not_decisive :
    join decisive truths = some (!decisive) ↔ ∀ truth ∈ truths, truth = some (!decisive) := by
  unfold join
  constructor
  · intro joined
    split at joined
    · simp at joined
    · next absent =>
      split at joined
      · cases joined
      · next known =>
        intro truth inside
        cases truth with
        | none => exact absurd inside known
        | some answer =>
          have other : answer ≠ decisive := fun same => absent (same ▸ inside)
          cases answer <;> cases decisive <;> simp_all
  · intro each
    have absent : some decisive ∉ truths := by
      intro inside
      have same := each _ inside
      simp at same
    have known : none ∉ truths := by
      intro inside
      have same := each _ inside
      cases same
    rw [if_neg absent, if_neg known]

/-- The order of truths does not matter. -/
theorem join_perm {others : List (Option Bool)} (perm : truths.Perm others) :
    join decisive truths = join decisive others := by
  unfold join
  simp only [perm.mem_iff]

/-- What is known of truths together stays when the unknown ones are told. -/
theorem join_settles (settled : List.Forall₂ Settles truths told) :
    Settles (join decisive truths) (join decisive told) := by
  intro answer joined
  by_cases same : answer = decisive
  · subst same
    rw [join_eq_decisive] at joined ⊢
    induction settled with
    | nil => cases joined
    | cons here _ ih =>
      rcases List.mem_cons.mp joined with same | later
      · exact List.mem_cons.mpr (Or.inl (here _ same.symm).symm)
      · exact List.mem_cons_of_mem _ (ih later)
  · have other : answer = !decisive := by
      cases answer <;> cases decisive <;> simp_all
    subst other
    rw [join_eq_not_decisive] at joined ⊢
    induction settled with
    | nil => simp
    | cons here _ ih =>
      obtain ⟨first, rest⟩ := List.forall_mem_cons.mp joined
      exact List.forall_mem_cons.mpr ⟨here _ first, ih rest⟩

end Saffui.Foundation.Kleene
