import Mathlib.Data.List.Induction
import Mathlib.Algebra.GroupWithZero.Nat
import Saffui.Foundation.Rows

/-!
# Counters in a storage, and the windows that read them

A tally sums what a scan picks of the rows: a write changes it by the row it
replaces and the row it leaves. A log is limited when each of its events came
while fewer than so many before it still counted; then no stretch within which
events count for each other holds more of them. A machine that asks a counter
before each event, and counts it after, keeps such a log.
-/

namespace Saffui.Foundation

section Tally

variable {Key : Type} [DecidableEq Key] {Row : Key → Type}

/-- The sum of what is picked of the rows. -/
def tally (db : AList Row) (pick : (key : Key) → Row key → Option Nat) : Nat := (scan db pick).sum

variable (pick : (key : Key) → Row key → Option Nat)

/-- What is picked of a row that may be absent. -/
def share (key : Key) (row : Option (Row key)) : Nat := (row.bind (pick key)).getD 0

theorem sum_kerase (key : Key) {entries : List (Sigma Row)} (nodup : entries.NodupKeys) :
    ((entries.kerase key).filterMap fun entry => pick entry.1 entry.2).sum
        + share pick key (entries.dlookup key)
      = (entries.filterMap fun entry => pick entry.1 entry.2).sum := by
  induction entries with
  | nil => rfl
  | cons entry entries ih =>
    obtain ⟨found, row⟩ := entry
    rw [List.nodupKeys_cons] at nodup
    by_cases same : key = found
    · subst same
      have erased : List.kerase key (⟨key, row⟩ :: entries) = entries := List.kerase_cons_eq rfl
      rw [erased, List.dlookup_cons_eq]
      cases picked : pick key row <;> simp [share, picked, Nat.add_comm]
    · rw [List.kerase_cons_ne same, List.dlookup_cons_ne _ ⟨found, row⟩ same]
      have later := ih nodup.2
      cases picked : pick found row <;> simp [picked] <;> omega

theorem tally_erase (db : AList Row) (key : Key) :
    tally (db.erase key) pick + share pick key (db.lookup key) = tally db pick :=
  sum_kerase pick key db.nodupKeys

theorem tally_insert (db : AList Row) (key : Key) (row : Row key) :
    tally (db.insert key row) pick + share pick key (db.lookup key)
      = tally db pick + share pick key (some row) := by
  have erased := tally_erase pick db key
  have inserted : tally (db.insert key row) pick
      = share pick key (some row) + tally (db.erase key) pick := by
    unfold tally scan
    rw [AList.entries_insert, List.filterMap_cons]
    cases picked : pick key row <;> simp [share, picked]
    all_goals rfl
  omega

/-- Rows of which nothing is picked do not count. -/
theorem tally_overlay {writes : List (Write Row)}
    (apart : ∀ write ∈ writes, ∀ row, pick write.1 row = none) (db : AList Row) :
    tally (overlay writes db) pick = tally db pick := by
  have nothing : ∀ {key : Key}, (∀ row, pick key row = none) → ∀ row, share pick key row = 0 := by
    intro key none_there row
    cases row <;> simp [share, none_there]
  induction writes generalizing db with
  | nil => rfl
  | cons write writes ih =>
    obtain ⟨key, change⟩ := write
    have here := nothing (apart _ List.mem_cons_self)
    have later := ih fun other inside => apart other (List.mem_cons_of_mem _ inside)
    cases change with
    | none =>
      have erased := tally_erase pick db key
      rw [overlay_cons_none, later]
      have zero : share pick key (db.lookup key) = 0 := here _
      omega
    | some row =>
      have inserted := tally_insert pick db key row
      rw [overlay_cons_some, later]
      have zero : share pick key (db.lookup key) = 0 := here _
      have none_new : share pick key (some row) = 0 := here _
      omega

end Tally

section Windows

variable {α : Type} {log : List α}

/-- Each event came while fewer than `most` before it counted for it. -/
def Limited (counts : α → α → Bool) (most : Nat) (log : List α) : Prop :=
  ∀ before event after, log = before ++ event :: after → (before.filter (counts event)).length < most

theorem Limited.nil {counts : α → α → Bool} {most : Nat} : Limited counts most [] := by
  intro before event after split
  simp at split

theorem Limited.snoc {counts : α → α → Bool} {most : Nat} (limited : Limited counts most log)
    {event : α} (few : (log.filter (counts event)).length < most) :
    Limited counts most (log ++ [event]) := by
  intro before found after split
  rcases List.eq_nil_or_concat after with rfl | ⟨rest, last, rfl⟩
  · obtain ⟨rfl, same⟩ := List.append_inj' split rfl
    cases same
    exact few
  · rw [List.concat_eq_append, ← List.cons_append, ← List.append_assoc] at split
    exact limited before found rest (List.append_inj' split rfl).1

/-- Events each of which counts for the later ones are no more than `most`. -/
theorem Limited.length_le {counts : α → α → Bool} {most : Nat} (limited : Limited counts most log)
    {within : α → Bool} (covers : ∀ event earlier, within event → within earlier →
      counts event earlier) : (log.filter within).length ≤ most := by
  induction log using List.reverseRecOn with
  | nil => exact Nat.zero_le _
  | append_singleton log event ih =>
    have few := limited log event [] rfl
    have earlier : Limited counts most log := by
      intro before found after split
      exact limited before found (after ++ [event]) (by simp [split])
    by_cases inside : within event
    · have fewer : (log.filter within).length ≤ (log.filter (counts event)).length := by
        rw [← List.countP_eq_length_filter, ← List.countP_eq_length_filter]
        exact List.countP_mono_left fun one _ there => covers event one inside there
      have last : ([event].filter within).length = 1 := by simp [inside]
      rw [List.filter_append, List.length_append, last]
      omega
    · have none_last : [event].filter within = [] := by simp [inside]
      rw [List.filter_append, none_last, List.append_nil]
      exact ih earlier

end Windows

section Machine

variable {State Input Output : Type} (step : Input → State → Output × State)

/-- Each call with what it was answered. -/
def outcomes : List Input → State → List (Input × Output)
  | [], _ => []
  | input :: inputs, state => (input, (step input state).1) :: outcomes inputs (step input state).2

/-- A call that hits came while its counter held fewer than `most`, and is in
it after; no call takes from the counter. -/
structure Rationed {Moment : Type} [LE Moment] (counted : State → Moment → Nat)
    (hit : Input × Output → Prop) (bucket since : Input → Moment) (most : Nat) (input : Input) :
    Prop where
  few : ∀ state, hit (input, (step input state).1) → counted state (since input) < most
  kept : ∀ state start, counted state start ≤ counted (step input state).2 start
  counts : ∀ state start, hit (input, (step input state).1) → start ≤ bucket input →
    counted state start + 1 ≤ counted (step input state).2 start

variable {step} {inputs : List Input}

section Limited

variable {Moment : Type} [LE Moment] [DecidableLE Moment] {most : Nat}
    {counted : State → Moment → Nat} {hit : Input × Output → Bool} {bucket since : Input → Moment}

/-- The invariant: the counter holds at least what the log kept. -/
theorem limited_append_outcomes
    (rationed : ∀ input ∈ inputs, Rationed step counted (fun one => hit one) bucket since most input)
    {log : List (Input × Output)} {state : State}
    (held : ∀ start, (log.filter fun event => decide (start ≤ bucket event.1)).length
      ≤ counted state start)
    (limited : Limited (fun event earlier => decide (since event.1 ≤ bucket earlier.1)) most log) :
    Limited (fun event earlier => decide (since event.1 ≤ bucket earlier.1)) most
      (log ++ (outcomes step inputs state).filter hit) := by
  induction inputs generalizing log state with
  | nil => simpa [outcomes] using limited
  | cons input inputs ih =>
    have here := rationed input List.mem_cons_self
    have later := @ih fun one inside => rationed one (List.mem_cons_of_mem input inside)
    by_cases struck : hit (input, (step input state).1)
    · rw [outcomes, List.filter_cons_of_pos struck, List.append_cons]
      apply later
      · intro start
        have before := held start
        rw [List.filter_append, List.length_append]
        by_cases recent : start ≤ bucket input
        · have after := here.counts state start struck recent
          have last : ([(input, (step input state).1)].filter fun event =>
              decide (start ≤ bucket event.1)).length = 1 := by simp [recent]
          omega
        · have after := here.kept state start
          have last : ([(input, (step input state).1)].filter fun event =>
              decide (start ≤ bucket event.1)).length = 0 := by simp [recent]
          omega
      · exact limited.snoc (Nat.lt_of_le_of_lt (held (since input)) (here.few state struck))
    · rw [outcomes, List.filter_cons_of_neg struck]
      exact later (fun start => Nat.le_trans (held start) (here.kept state start)) limited

/-- The calls that hit within a stretch over which they count for each other
are no more than `most`. -/
theorem length_outcomes_le
    (rationed : ∀ input ∈ inputs, Rationed step counted (fun one => hit one) bucket since most input)
    {within : Input → Bool} (covers : ∀ input earlier, within input → within earlier →
      since input ≤ bucket earlier) (state : State) :
    ((outcomes step inputs state).filter fun one => hit one && within one.1).length ≤ most := by
  have limited : Limited (fun event earlier => decide (since event.1 ≤ bucket earlier.1)) most
      ([] ++ (outcomes step inputs state).filter hit) :=
    limited_append_outcomes rationed (fun start => Nat.zero_le _) Limited.nil
  rw [List.nil_append] at limited
  have few := @Limited.length_le _ _ _ _ limited (fun one => within one.1) fun event earlier inside there =>
    decide_eq_true (covers event.1 earlier.1 inside there)
  rw [List.filter_filter] at few
  simpa only [Bool.and_comm] using few

end Limited

theorem mem_outcomes {state : State} {outcome : Input × Output}
    (inside : outcome ∈ outcomes step inputs state) :
    outcome.1 ∈ inputs ∧ ∃ before, outcome.2 = (step outcome.1 before).1 := by
  induction inputs generalizing state with
  | nil => cases inside
  | cons input inputs ih =>
    rcases List.mem_cons.mp inside with rfl | later
    · exact ⟨List.mem_cons_self, state, rfl⟩
    · obtain ⟨called, answered⟩ := ih later
      exact ⟨List.mem_cons_of_mem _ called, answered⟩

/-- A machine answers as one that it is viewed as. -/
theorem outcomes_view {View : Type} {view : State → View} {shown : Input → View → Output × View}
    (simulates : ∀ input state, ((step input state).1, view (step input state).2)
      = shown input (view state)) (inputs : List Input) (state : State) :
    outcomes step inputs state = outcomes shown inputs (view state) := by
  induction inputs generalizing state with
  | nil => rfl
  | cons input inputs ih =>
    have same := simulates input state
    rw [outcomes, outcomes, ih, ← same]

/-- Calls of others that leave what some calls agree on take nothing from
their answers. -/
theorem outcomes_filter {mine : Input → Bool} {agree : State → State → Prop}
    (own : ∀ input ∈ inputs, mine input → ∀ one other, agree one other →
      (step input one).1 = (step input other).1 ∧ agree (step input one).2 (step input other).2)
    (others : ∀ input ∈ inputs, ¬mine input → ∀ one other, agree one other →
      agree (step input one).2 other) {one other : State} (agrees : agree one other) :
    (outcomes step inputs one).filter (fun outcome => mine outcome.1)
      = outcomes step (inputs.filter mine) other := by
  induction inputs generalizing one other with
  | nil => rfl
  | cons input inputs ih =>
    have later := @ih (fun each inside => own each (List.mem_cons_of_mem input inside))
      (fun each inside => others each (List.mem_cons_of_mem input inside))
    by_cases ours : mine input
    · obtain ⟨same, agreed⟩ := own input List.mem_cons_self ours one other agrees
      have rest := later agreed
      rw [List.filter_cons_of_pos ours]
      simp only [outcomes, List.filter_cons, ours, if_true, same, rest]
    · have rest := later (others input List.mem_cons_self ours one other agrees)
      rw [List.filter_cons_of_neg ours]
      simp only [outcomes, List.filter_cons, ours, Bool.false_eq_true, if_false, rest]

end Machine

end Saffui.Foundation
