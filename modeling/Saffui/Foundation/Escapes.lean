import Mathlib.Data.List.Basic

/-!
# Escaped texts

Characters written with a mark before those that would read as structure, and
entries of a name and an escaped value, joined by a stop. Which characters are
escaped may depend on where they stand: as long as no mark and no stop goes
without its mark, what was escaped is read back whatever follows a stop, and entries
whose names do not hold the sign that ends them are told apart by what they are
written as.
-/

namespace Saffui.Foundation.Escapes

variable {α : Type*}

/-- Characters, each after the mark where it is escaped. -/
def spell (mark : α) (flagged : List (Bool × α)) : List α :=
  flagged.flatMap fun held => if held.1 then [mark, held.2] else [held.2]

/-- Neither the mark nor the stop goes unescaped. -/
def Guarded (mark stop : α) (flagged : List (Bool × α)) : Prop :=
  ∀ held ∈ flagged, held.2 = mark ∨ held.2 = stop → held.1 = true

/-- A name, and a value some of whose characters are escaped. -/
structure Entry (α : Type*) where
  name : List α
  value : List (Bool × α)

/-- What an entry says: its name, and the characters of its value. -/
def Entry.told (entry : Entry α) : List α × List α := (entry.name, entry.value.map Prod.snd)

/-- An entry whose name holds no sign and whose value shows neither mark nor stop. -/
structure Entry.Fit (mark stop sign : α) (entry : Entry α) : Prop where
  name : sign ∉ entry.name
  value : Guarded mark stop entry.value

def Entry.write (mark sign : α) (entry : Entry α) : List α :=
  entry.name ++ sign :: spell mark entry.value

/-- Entries one after another, with a stop between them. -/
def writeEntries (mark stop sign : α) (entries : List (Entry α)) : List α :=
  [stop].intercalate (entries.map (Entry.write mark sign))

/-- Nothing follows, or a stop does. -/
def Stopped (stop : α) (rest : List α) : Prop := ∀ character ∈ rest.head?, character = stop

variable {mark stop sign : α}

/-- What follows the first of some entries. -/
def writeRest (mark stop sign : α) : List (Entry α) → List α
  | [] => []
  | entry :: rest => stop :: writeEntries mark stop sign (entry :: rest)

theorem writeEntries_cons (entry : Entry α) (rest : List (Entry α)) :
    writeEntries mark stop sign (entry :: rest) =
      entry.write mark sign ++ writeRest mark stop sign rest := by
  cases rest with
  | nil => simp [writeEntries, writeRest]
  | cons next more =>
    rw [writeRest, writeEntries, List.map_cons, List.map_cons, List.intercalate_cons_cons,
      writeEntries, List.map_cons, List.append_assoc, List.singleton_append]

theorem writeRest_stopped (rest : List (Entry α)) :
    Stopped stop (writeRest mark stop sign rest) := by
  intro character first
  cases rest with
  | nil => simp [writeRest] at first
  | cons entry more => simpa [writeRest] using first.symm

theorem writeEntries_ne_nil (entry : Entry α) (rest : List (Entry α)) :
    writeEntries mark stop sign (entry :: rest) ≠ [] := by
  rw [writeEntries_cons, Entry.write]
  simp

variable [DecidableEq α]

/-- The characters up to the first stop that is not escaped, and what follows them. -/
def unspell (mark stop : α) : List α → List α × List α
  | [] => ([], [])
  | [character] => if character = stop then ([], [character]) else ([character], [])
  | character :: next :: rest =>
    if character = mark then
      let held := unspell mark stop rest
      (next :: held.1, held.2)
    else if character = stop then ([], character :: next :: rest)
    else
      let held := unspell mark stop (next :: rest)
      (character :: held.1, held.2)

theorem unspell_stopped (other : mark ≠ stop) {rest : List α} (stopped : Stopped stop rest) :
    unspell mark stop rest = ([], rest) := by
  match rest with
  | [] => rfl
  | [character] => rw [unspell, if_pos (stopped character rfl)]
  | character :: next :: more =>
    have same := stopped character rfl
    have unmarked : character ≠ mark := fun marked => other (marked.symm.trans same)
    rw [unspell, if_neg unmarked, if_pos same]

theorem unspell_plain {character : α} (unmarked : character ≠ mark) (unstopped : character ≠ stop)
    (rest : List α) :
    unspell mark stop (character :: rest) =
      (character :: (unspell mark stop rest).1, (unspell mark stop rest).2) := by
  cases rest with
  | nil => simp [unspell, unstopped]
  | cons next more => rw [unspell, if_neg unmarked, if_neg unstopped]

/-- What was escaped is read back, and what follows it is left. -/
theorem unspell_spell (other : mark ≠ stop) {flagged : List (Bool × α)}
    (guarded : Guarded mark stop flagged) {rest : List α} (stopped : Stopped stop rest) :
    unspell mark stop (spell mark flagged ++ rest) = (flagged.map Prod.snd, rest) := by
  induction flagged with
  | nil => exact unspell_stopped other stopped
  | cons held more ih =>
    have tail : Guarded mark stop more := fun one inside =>
      guarded one (List.mem_cons_of_mem _ inside)
    have read := ih tail
    have first := guarded held List.mem_cons_self
    have split : spell mark (held :: more) ++ rest =
        (if held.1 then [mark, held.2] else [held.2]) ++ (spell mark more ++ rest) := by
      rw [spell, List.flatMap_cons, List.append_assoc]
      rfl
    rw [split]
    by_cases escaped : held.1 = true
    · rw [if_pos escaped]
      have opened : unspell mark stop ([mark, held.2] ++ (spell mark more ++ rest)) =
          (held.2 :: (unspell mark stop (spell mark more ++ rest)).1,
            (unspell mark stop (spell mark more ++ rest)).2) := by
        simp [unspell]
      rw [opened, read]
      rfl
    · rw [if_neg escaped]
      have unmarked : held.2 ≠ mark := fun marked => escaped (first (Or.inl marked))
      have unstopped : held.2 ≠ stop := fun ended => escaped (first (Or.inr ended))
      rw [List.singleton_append, unspell_plain unmarked unstopped, read]
      rfl

/-- A name and a value, and what follows them. -/
def readEntry (mark stop sign : α) (text : List α) : List α × (List α × List α) :=
  (text.takeWhile fun character => character ≠ sign,
    unspell mark stop (text.dropWhile fun character => character ≠ sign).tail)

theorem takeWhile_sign {name : List α} (absent : sign ∉ name) (rest : List α) :
    (name ++ sign :: rest).takeWhile (fun character => character ≠ sign) = name ∧
      (name ++ sign :: rest).dropWhile (fun character => character ≠ sign) = sign :: rest := by
  have all : ∀ character ∈ name, decide (character ≠ sign) = true := by
    intro character inside
    exact decide_eq_true fun same => absent (same ▸ inside)
  constructor
  · rw [List.takeWhile_append_of_pos all, List.takeWhile_cons_of_neg (by simp), List.append_nil]
  · rw [List.dropWhile_append_of_pos all, List.dropWhile_cons_of_neg (by simp)]

/-- An entry is read back, and what follows it is left. -/
theorem readEntry_write (other : mark ≠ stop) {entry : Entry α} (fit : entry.Fit mark stop sign)
    {rest : List α} (stopped : Stopped stop rest) :
    readEntry mark stop sign (entry.write mark sign ++ rest) =
      (entry.name, entry.value.map Prod.snd, rest) := by
  have shape : entry.write mark sign ++ rest =
      entry.name ++ sign :: (spell mark entry.value ++ rest) := by
    rw [Entry.write, List.append_assoc, List.cons_append]
  obtain ⟨taken, dropped⟩ := takeWhile_sign fit.name (spell mark entry.value ++ rest)
  rw [readEntry, shape, taken, dropped, List.tail_cons,
    unspell_spell other fit.value stopped]

/-- Entries are told apart by what they are written as. -/
theorem told_of_writeEntries (other : mark ≠ stop) {left right : List (Entry α)}
    (fitLeft : ∀ entry ∈ left, entry.Fit mark stop sign)
    (fitRight : ∀ entry ∈ right, entry.Fit mark stop sign)
    (same : writeEntries mark stop sign left = writeEntries mark stop sign right) :
    left.map Entry.told = right.map Entry.told := by
  induction left generalizing right with
  | nil =>
    cases right with
    | nil => rfl
    | cons entry rest => exact absurd same.symm (writeEntries_ne_nil entry rest)
  | cons entry rest ih =>
    cases right with
    | nil => exact absurd same (writeEntries_ne_nil entry rest)
    | cons next more =>
      rw [writeEntries_cons, writeEntries_cons] at same
      have read := congrArg (readEntry mark stop sign) same
      rw [readEntry_write other (fitLeft entry List.mem_cons_self) (writeRest_stopped rest),
        readEntry_write other (fitRight next List.mem_cons_self) (writeRest_stopped more)] at read
      have name : entry.name = next.name := congrArg Prod.fst read
      have value := congrArg (fun parts => parts.2.1) read
      have left : writeRest mark stop sign rest = writeRest mark stop sign more :=
        congrArg (fun parts => parts.2.2) read
      have after : writeEntries mark stop sign rest = writeEntries mark stop sign more := by
        cases rest with
        | nil =>
          cases more with
          | nil => rfl
          | cons one others => simp [writeRest] at left
        | cons one others =>
          cases more with
          | nil => simp [writeRest] at left
          | cons two others => exact (List.cons.inj left).2
      have followed := ih (fun one inside => fitLeft one (List.mem_cons_of_mem _ inside))
        (fun one inside => fitRight one (List.mem_cons_of_mem _ inside)) after
      have told : entry.told = next.told := Prod.ext name value
      rw [List.map_cons, List.map_cons, told, followed]

end Saffui.Foundation.Escapes
