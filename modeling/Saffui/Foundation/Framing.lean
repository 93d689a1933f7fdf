import Mathlib.Data.Nat.Digits.Defs
import Saffui.Foundation.Bytes

/-!
# Framings

Ways to write parts one after another that keep them apart: a part ended by a
mark it does not hold, a part of a known length, and a part after its length.
The digits of a number are a part that holds no mark of another kind.
-/

namespace Saffui.Foundation.Framing

variable {α : Type*}

/-- Parts that end with a mark neither of them holds are told apart, whatever follows. -/
theorem ended_inj [DecidableEq α] {mark : α} {one other rest more : List α} (first : mark ∉ one)
    (second : mark ∉ other) (same : one ++ mark :: rest = other ++ mark :: more) :
    one = other ∧ rest = more := by
  have taken {part : List α} (absent : mark ∉ part) (tail : List α) :
      (part ++ mark :: tail).takeWhile (fun held => held ≠ mark) = part := by
    have all : ∀ held ∈ part, decide (held ≠ mark) = true := fun held inside =>
      decide_eq_true fun equal => absent (equal ▸ inside)
    rw [List.takeWhile_append_of_pos all, List.takeWhile_cons_of_neg (by simp), List.append_nil]
  have parts : one = other := by
    rw [← taken first rest, ← taken second more, same]
  subst parts
  exact ⟨rfl, (List.cons.inj (List.append_cancel_left same)).2⟩

theorem mem_intercalate {one : α} {between : List α} {parts : List (List α)}
    (inside : one ∈ between.intercalate parts) : one ∈ between ∨ ∃ part ∈ parts, one ∈ part := by
  induction parts with
  | nil => cases inside
  | cons part rest ih =>
    cases rest with
    | nil =>
      rw [List.intercalate_singleton] at inside
      exact .inr ⟨part, List.mem_cons_self, inside⟩
    | cons other rest =>
      rw [List.intercalate_cons_cons, List.mem_append, List.mem_append] at inside
      rcases inside with (here | mark) | later
      · exact .inr ⟨part, List.mem_cons_self, here⟩
      · exact .inl mark
      · rcases ih later with mark | ⟨held, among, found⟩
        · exact .inl mark
        · exact .inr ⟨held, List.mem_cons_of_mem _ among, found⟩

theorem map_intercalate {β : Type*} (change : α → β) (between : List α) (parts : List (List α)) :
    (between.intercalate parts).map change =
      (between.map change).intercalate (parts.map (List.map change)) := by
  induction parts with
  | nil => rfl
  | cons part rest ih =>
    cases rest with
    | nil => simp [List.intercalate_singleton]
    | cons other rest =>
      rw [List.map_cons, List.map_cons, List.intercalate_cons_cons, List.intercalate_cons_cons,
        List.map_append, List.map_append, ih, List.map_cons]

theorem digitChar_injective : ∀ one < 16, ∀ other < 16,
    Nat.digitChar one = Nat.digitChar other → one = other := by
  decide

/-- A number is told by its digits. -/
theorem toDigits_injective {base : Nat} (wide : 1 < base) (known : base ≤ 16) {one other : Nat}
    (same : Nat.toDigits base one = Nat.toDigits base other) : one = other := by
  induction one using Nat.strongRecOn generalizing other with
  | _ one ih =>
    have size (value : Nat) : 0 < (Nat.toDigits base value).length := Nat.length_toDigits_pos
    by_cases small : one < base <;> by_cases least : other < base
    · rw [Nat.toDigits_of_lt_base small, Nat.toDigits_of_lt_base least] at same
      exact digitChar_injective one (by omega) other (by omega) (List.cons.inj same).1
    · rw [Nat.toDigits_of_lt_base small, Nat.toDigits_of_base_le wide (by omega)] at same
      have lengths := congrArg List.length same
      have positive := size (other / base)
      simp only [List.length_append, List.length_singleton] at lengths
      omega
    · rw [Nat.toDigits_of_lt_base least, Nat.toDigits_of_base_le wide (by omega)] at same
      have lengths := congrArg List.length same
      have positive := size (one / base)
      simp only [List.length_append, List.length_singleton] at lengths
      omega
    · rw [Nat.toDigits_of_base_le wide (Nat.le_of_not_lt small),
        Nat.toDigits_of_base_le wide (Nat.le_of_not_lt least)] at same
      obtain ⟨high, low⟩ := List.append_inj' same rfl
      have upper := ih (one / base) (Nat.div_lt_self (by omega) wide) high
      have below (value : Nat) : value % base < 16 :=
        Nat.lt_of_lt_of_le (Nat.mod_lt value (by omega)) known
      have lower := digitChar_injective _ (below one) _ (below other) (List.cons.inj low).1
      rw [← Nat.div_add_mod one base, ← Nat.div_add_mod other base, upper, lower]

theorem exists_digit_of_mem {base : Nat} (wide : 1 < base) {value : Nat} {digit : Char}
    (inside : digit ∈ Nat.toDigits base value) : ∃ number < base, digit = Nat.digitChar number := by
  induction value using Nat.strongRecOn with
  | _ value ih =>
    by_cases small : value < base
    · rw [Nat.toDigits_of_lt_base small] at inside
      exact ⟨value, small, List.mem_singleton.mp inside⟩
    · rw [Nat.toDigits_of_base_le wide (by omega)] at inside
      rcases List.mem_append.mp inside with high | low
      · exact ih (value / base) (Nat.div_lt_self (by omega) wide) high
      · exact ⟨value % base, Nat.mod_lt value (by omega), List.mem_singleton.mp low⟩

end Saffui.Foundation.Framing
