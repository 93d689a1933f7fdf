import Mathlib.Data.List.Basic
import Mathlib.Data.List.Induction
import Mathlib.Algebra.Group.Nat.Defs

/-!
# Bytes of numbers, and computations that may panic

Numbers written with the highest byte first and read back, and what a
computation over bytes ends with: a result, an error, or a panic where it
reads past the end of what it holds or a number leaves its type.
-/

namespace Saffui.Foundation

namespace Bytes

/-- The bytes of a number, the highest first. -/
def bigEndian : Nat → Nat → List UInt8
  | 0, _ => []
  | width + 1, value => bigEndian width (value / 256) ++ [UInt8.ofNat value]

/-- The number bytes write, the highest first. -/
def ofBigEndian (bytes : List UInt8) : Nat :=
  bytes.foldl (fun number byte => number * 256 + byte.toNat) 0

theorem bigEndian_length (width value : Nat) : (bigEndian width value).length = width := by
  induction width generalizing value with
  | zero => rfl
  | succ width ih => simp [bigEndian, ih]

theorem ofBigEndian_concat (bytes : List UInt8) (byte : UInt8) :
    ofBigEndian (bytes ++ [byte]) = ofBigEndian bytes * 256 + byte.toNat := by
  simp [ofBigEndian, List.foldl_append]

/-- A number that fits is read back from its bytes. -/
theorem ofBigEndian_bigEndian {width value : Nat} (small : value < 256 ^ width) :
    ofBigEndian (bigEndian width value) = value := by
  induction width generalizing value with
  | zero =>
    rw [pow_zero] at small
    rw [bigEndian, Nat.lt_one_iff.mp small]
    rfl
  | succ width ih =>
    rw [pow_succ] at small
    have part : value / 256 < 256 ^ width := Nat.div_lt_of_lt_mul (by omega)
    have high := ih part
    rw [bigEndian, ofBigEndian_concat, high, UInt8.toNat_ofNat']
    omega

theorem bigEndian_injective {width one other : Nat} (small : one < 256 ^ width)
    (least : other < 256 ^ width) (same : bigEndian width one = bigEndian width other) :
    one = other := by
  have read := congrArg ofBigEndian same
  rwa [ofBigEndian_bigEndian small, ofBigEndian_bigEndian least] at read

theorem ofBigEndian_lt (bytes : List UInt8) : ofBigEndian bytes < 256 ^ bytes.length := by
  induction bytes using List.reverseRecOn with
  | nil => decide
  | append_singleton bytes byte ih =>
    have small := byte.toNat_lt
    rw [ofBigEndian_concat, List.length_append, List.length_singleton, pow_succ]
    omega

/-- As many bytes as a number is written in are those of the number they write. -/
theorem bigEndian_ofBigEndian (bytes : List UInt8) :
    bigEndian bytes.length (ofBigEndian bytes) = bytes := by
  induction bytes using List.reverseRecOn with
  | nil => rfl
  | append_singleton bytes byte ih =>
    have small := byte.toNat_lt
    have high : (ofBigEndian bytes * 256 + byte.toNat) / 256 = ofBigEndian bytes := by omega
    have low : UInt8.ofNat (ofBigEndian bytes * 256 + byte.toNat) = byte := by
      rw [← UInt8.toNat_inj, UInt8.toNat_ofNat']
      omega
    rw [List.length_append, List.length_singleton, bigEndian, ofBigEndian_concat, high, low, ih]

/-- The bytes from one place up to another, where both are within. -/
def slice (bytes : List UInt8) (first last : Nat) : Option (List UInt8) :=
  if first ≤ last ∧ last ≤ bytes.length then some ((bytes.take last).drop first) else none

theorem slice_middle (before middle after : List UInt8) :
    slice (before ++ (middle ++ after)) before.length (before.length + middle.length) =
      some middle := by
  have inside : before.length ≤ before.length + middle.length ∧
      before.length + middle.length ≤ (before ++ (middle ++ after)).length := by
    simp only [List.length_append]
    omega
  rw [slice, if_pos inside, List.take_length_add_append, List.drop_left, List.take_left]

end Bytes

/-- What a computation ends with: nothing where it panics. -/
abbrev Outcome (ε α : Type) := ExceptT ε Option α

namespace Outcome

variable {ε α : Type}

def panics : Outcome ε α := ExceptT.mk none

theorem pure_inj {one other : α} : (pure one : Outcome ε α) = pure other ↔ one = other :=
  ⟨fun same => Except.ok.inj (Option.some.inj same), congrArg _⟩

/-- A result or an error, without a panic. -/
def settled (outcome : Except ε α) : Outcome ε α := ExceptT.mk (some outcome)

/-- What an index or a slice gives, which panics out of bounds. -/
def within : Option α → Outcome ε α
  | some value => pure value
  | none => panics

/-- An early return of an error. -/
def refuseIf (condition : Prop) [Decidable condition] (error : ε) : Outcome ε Unit :=
  if condition then throw error else pure ()

/-- A number of a type, which an overflow leaves. -/
def checked (bound value : Nat) : Outcome ε Nat := if value < bound then pure value else panics

/-- A difference of unsigned numbers. -/
def minus (one other : Nat) : Outcome ε Nat := if other ≤ one then pure (one - other) else panics

@[simp] theorem settled_ok (value : α) : (settled (.ok value) : Outcome ε α) = pure value := rfl

@[simp] theorem within_some (value : α) : (within (some value) : Outcome ε α) = pure value := rfl

theorem refuseIf_neg {condition : Prop} [Decidable condition] (holds : ¬condition) (error : ε) :
    refuseIf condition error = pure () := if_neg holds

theorem refuseIf_pos {condition : Prop} [Decidable condition] (holds : condition) (error : ε) :
    refuseIf condition error = throw error := if_pos holds

theorem checked_of_lt {bound value : Nat} (small : value < bound) :
    (checked bound value : Outcome ε Nat) = pure value := if_pos small

theorem minus_of_le {one other : Nat} (least : other ≤ one) :
    (minus one other : Outcome ε Nat) = pure (one - other) := if_pos least

/-- What was returned was returned by both parts of a sequence. -/
theorem bind_eq_pure {β : Type} {first : Outcome ε α} {next : α → Outcome ε β} {result : β} :
    first >>= next = pure result ↔ ∃ value, first = pure value ∧ next value = pure result := by
  constructor
  · intro whole
    match first with
    | none => cases whole
    | some (.error _) => cases whole
    | some (.ok value) => exact ⟨value, rfl, whole⟩
  · rintro ⟨value, rfl, returned⟩
    rw [pure_bind, returned]

theorem settled_eq_pure {outcome : Except ε α} {value : α} :
    settled outcome = pure value ↔ outcome = .ok value :=
  ⟨fun same => Option.some.inj same, fun same => by rw [same, settled_ok]⟩

theorem refuseIf_eq_pure {condition : Prop} [Decidable condition] {error : ε} {passed : Unit} :
    refuseIf condition error = pure passed ↔ ¬condition := by
  constructor
  · intro returned holds
    rw [refuseIf_pos holds] at returned
    cases returned
  · intro holds
    exact refuseIf_neg holds error

/-- A computation that does not panic. -/
def Returns (computation : Outcome ε α) : Prop := ∃ outcome, computation = settled outcome

theorem returns_settled (outcome : Except ε α) : Returns (settled outcome) := ⟨outcome, rfl⟩

theorem returns_pure (value : α) : Returns (pure value : Outcome ε α) := ⟨.ok value, rfl⟩

theorem returns_refuseIf (condition : Prop) [Decidable condition] (error : ε) :
    Returns (refuseIf condition error) := by
  by_cases holds : condition
  · exact ⟨.error error, refuseIf_pos holds error⟩
  · exact ⟨.ok (), refuseIf_neg holds error⟩

/-- A sequence does not panic where neither part does, the second after what the first returned. -/
theorem returns_bind {β : Type} {first : Outcome ε α} {next : α → Outcome ε β}
    (one : Returns first) (two : ∀ value, first = pure value → Returns (next value)) :
    Returns (first >>= next) := by
  obtain ⟨outcome, rfl⟩ := one
  cases outcome with
  | error error => exact ⟨.error error, rfl⟩
  | ok value =>
    rw [settled_ok, pure_bind]
    exact two value rfl

/-- A computation that ends as another does, where it ends at all. -/
def EndsAs (one other : Outcome ε α) : Prop := one = panics ∨ one = other

theorem EndsAs.refl (computation : Outcome ε α) : EndsAs computation computation := Or.inr rfl

theorem EndsAs.bind {β : Type} {first other : Outcome ε α} {next more : α → Outcome ε β}
    (one : EndsAs first other) (two : ∀ value, EndsAs (next value) (more value)) :
    EndsAs (first >>= next) (other >>= more) := by
  rcases one with rfl | rfl
  · exact Or.inl rfl
  · rcases first with _ | _ | value
    · exact Or.inl rfl
    · exact Or.inr rfl
    · exact two value

theorem EndsAs.eq {one other : Outcome ε α} (ends : EndsAs one other) (returns : Returns one) :
    one = other := by
  rcases ends with rfl | same
  · obtain ⟨outcome, same⟩ := returns
    cases same
  · exact same

end Outcome
end Saffui.Foundation
