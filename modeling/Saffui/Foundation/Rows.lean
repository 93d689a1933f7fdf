import Mathlib.Data.List.AList

/-!
# Rows of a storage, and what a unit of work writes over them

A storage is a finite map from keys to rows, the type of a row given by its
key, so that one map holds every table. What a unit of work wrote is a list
of rows written and keys deleted, oldest first; `over` reads a storage
through it, and is also what committing it makes of the storage.
-/

namespace Saffui.Foundation

variable {Key : Type} [DecidableEq Key] {Row : Key → Type}

/-- A row written, or `none` where the row was deleted. -/
abbrev Write (Row : Key → Type) := Σ key, Option (Row key)

/-- One write over a storage. -/
def Write.apply (db : AList Row) (write : Write Row) : AList Row :=
  match write.2 with
  | some row => db.insert write.1 row
  | none => db.erase write.1

/-- A storage read through writes, oldest first. -/
def overlay (writes : List (Write Row)) (db : AList Row) : AList Row :=
  writes.foldl Write.apply db

@[simp]
theorem overlay_nil (db : AList Row) : overlay [] db = db := rfl

@[simp]
theorem overlay_append (first second : List (Write Row)) (db : AList Row) :
    overlay (first ++ second) db = overlay second (overlay first db) :=
  List.foldl_append

@[simp]
theorem overlay_cons_some (key : Key) (row : Row key) (rest : List (Write Row)) (db : AList Row) :
    overlay (⟨key, some row⟩ :: rest) db = overlay rest (db.insert key row) := rfl

@[simp]
theorem overlay_cons_none (key : Key) (rest : List (Write Row)) (db : AList Row) :
    overlay (⟨key, none⟩ :: rest) db = overlay rest (db.erase key) := rfl

theorem Write.lookup_apply_of_ne {key : Key} {write : Write Row} (other : key ≠ write.1)
    (db : AList Row) : (Write.apply db write).lookup key = db.lookup key := by
  unfold Write.apply
  split
  · exact AList.lookup_insert_ne other
  · exact AList.lookup_erase_ne other

theorem Write.lookup_apply (db : AList Row) (write : Write Row) :
    (Write.apply db write).lookup write.1 = write.2 := by
  unfold Write.apply
  split <;> simp [*]

/-- A row no write names is the row of the storage. -/
theorem lookup_overlay_of_not_mem {key : Key} {writes : List (Write Row)}
    (unwritten : ∀ write ∈ writes, write.1 ≠ key) (db : AList Row) :
    (overlay writes db).lookup key = db.lookup key := by
  induction writes generalizing db with
  | nil => rfl
  | cons write rest ih =>
    have same := ih (fun other inside => unwritten other (List.mem_cons_of_mem _ inside))
      (Write.apply db write)
    rw [overlay, List.foldl_cons, ← overlay, same]
    exact Write.lookup_apply_of_ne (unwritten write (by simp)).symm db

/-- What writes make of a row they name, whatever the storage was. -/
theorem lookup_overlay_congr {key : Key} {writes : List (Write Row)}
    (written : key ∈ writes.map Sigma.fst) (db other : AList Row) :
    (overlay writes db).lookup key = (overlay writes other).lookup key := by
  induction writes generalizing db other with
  | nil => cases written
  | cons write rest ih =>
    by_cases later : key ∈ rest.map Sigma.fst
    · exact ih later (Write.apply db write) (Write.apply other write)
    · have unwritten : ∀ one ∈ rest, one.1 ≠ key :=
        fun one inside same => later (List.mem_map.mpr ⟨one, inside, same⟩)
      obtain rfl : key = write.1 := by
        rcases List.mem_cons.mp written with here | there
        · exact here
        · exact absurd there later
      have last : ∀ base : AList Row, (overlay (write :: rest) base).lookup write.1 = write.2 := by
        intro base
        change (overlay rest (Write.apply base write)).lookup write.1 = write.2
        rw [lookup_overlay_of_not_mem unwritten, Write.lookup_apply]
      rw [last, last]

/-- A row is as the storage has it, or as one of the writes left it. -/
theorem lookup_overlay_cases (key : Key) (writes : List (Write Row)) (db : AList Row) :
    (overlay writes db).lookup key = db.lookup key ∨
      ⟨key, (overlay writes db).lookup key⟩ ∈ writes := by
  induction writes generalizing db with
  | nil => exact Or.inl rfl
  | cons write rest ih =>
    change (overlay rest (Write.apply db write)).lookup key = db.lookup key ∨
      ⟨key, (overlay rest (Write.apply db write)).lookup key⟩ ∈ write :: rest
    rcases ih (Write.apply db write) with same | inside
    · by_cases here : key = write.1
      · subst here
        rw [same, Write.lookup_apply]
        exact Or.inr List.mem_cons_self
      · exact Or.inl (same.trans (Write.lookup_apply_of_ne here db))
    · exact Or.inr (List.mem_cons_of_mem _ inside)

/-- Writes that name each row once leave it as they write it. -/
theorem lookup_overlay_of_mem {writes : List (Write Row)} (once : (writes.map Sigma.fst).Nodup)
    {write : Write Row} (inside : write ∈ writes) (db : AList Row) :
    (overlay writes db).lookup write.1 = write.2 := by
  induction writes generalizing db with
  | nil => cases inside
  | cons head rest ih =>
    obtain ⟨unnamed, once⟩ := List.nodup_cons.mp once
    change (overlay rest (Write.apply db head)).lookup write.1 = write.2
    rcases List.mem_cons.mp inside with rfl | inside
    · rw [lookup_overlay_of_not_mem, Write.lookup_apply]
      exact fun other there same => unnamed (List.mem_map.mpr ⟨other, there, same⟩)
    · exact ih once inside _

/-- What is there once rows are written, none deleted. -/
theorem isSome_lookup_overlay {writes : List (Write Row)} (kept : ∀ write ∈ writes, write.2.isSome)
    (db : AList Row) (key : Key) :
    ((overlay writes db).lookup key).isSome ↔
      key ∈ writes.map Sigma.fst ∨ (db.lookup key).isSome := by
  induction writes generalizing db with
  | nil => simp
  | cons write rest ih =>
    obtain ⟨written, change⟩ := write
    have some_row : change.isSome := kept _ List.mem_cons_self
    obtain ⟨row, rfl⟩ := Option.isSome_iff_exists.mp some_row
    rw [overlay_cons_some, ih fun other inside => kept other (List.mem_cons_of_mem _ inside)]
    by_cases here : key = written
    · subst here
      simp
    · simp [AList.lookup_insert_ne here, here]

/-- The rows of the keys listed, each written as `change` has it. -/
def writeEach (keys : List Key) (change : (key : Key) → Option (Row key)) : List (Write Row) :=
  keys.map fun key => ⟨key, change key⟩

omit [DecidableEq Key] in
theorem mem_writeEach_iff {keys : List Key} {change : (key : Key) → Option (Row key)}
    {write : Write Row} :
    write ∈ writeEach keys change ↔ write.1 ∈ keys ∧ write.2 = change write.1 := by
  obtain ⟨key, row⟩ := write
  simp only [writeEach, List.mem_map, Sigma.mk.injEq]
  constructor
  · rintro ⟨_, inside, rfl, same⟩
    exact ⟨inside, (eq_of_heq same).symm⟩
  · rintro ⟨inside, rfl⟩
    exact ⟨key, inside, rfl, HEq.rfl⟩

theorem lookup_overlay_writeEach (keys : List Key) (change : (key : Key) → Option (Row key))
    (db : AList Row) (key : Key) :
    (overlay (writeEach keys change) db).lookup key =
      if key ∈ keys then change key else db.lookup key := by
  induction keys generalizing db with
  | nil => rfl
  | cons head tail ih =>
    have unfolded : overlay (writeEach (head :: tail) change) db =
        overlay (writeEach tail change) (Write.apply db ⟨head, change head⟩) := rfl
    rw [unfolded, ih]
    by_cases inside : key ∈ tail
    · simp [inside]
    · by_cases here : key = head
      · subst here
        cases changed : change key <;> simp [inside, Write.apply]
      · rw [Write.lookup_apply_of_ne here]
        simp [inside, here]

section Scan

variable {α : Type} (db : AList Row)

/-- What a scan picks of the rows of a storage. -/
def scan (pick : (key : Key) → Row key → Option α) : List α :=
  db.entries.filterMap fun entry => pick entry.1 entry.2

/-- The keys of the rows that pass a test. -/
def keysWhere (test : (key : Key) → Row key → Bool) : List Key :=
  scan db fun key row => if test key row then some key else none

variable {db}

theorem mem_scan_iff {pick : (key : Key) → Row key → Option α} {value : α} :
    value ∈ scan db pick ↔ ∃ key row, db.lookup key = some row ∧ pick key row = some value := by
  simp only [scan, List.mem_filterMap, Sigma.exists, ← AList.mem_lookup_iff, Option.mem_def]

theorem mem_keysWhere_iff {test : (key : Key) → Row key → Bool} {key : Key} :
    key ∈ keysWhere db test ↔ ∃ row, db.lookup key = some row ∧ test key row = true := by
  rw [keysWhere, mem_scan_iff]
  constructor
  · rintro ⟨found, row, read, picked⟩
    rw [Option.ite_none_right_eq_some, Option.some.injEq] at picked
    obtain ⟨passed, rfl⟩ := picked
    exact ⟨row, read, passed⟩
  · rintro ⟨row, read, passed⟩
    exact ⟨key, row, read, by simp [passed]⟩

omit [DecidableEq Key] in
theorem length_scan (pick : (key : Key) → Row key → Option α) :
    (scan db pick).length = (keysWhere db fun key row => (pick key row).isSome).length := by
  rw [keysWhere, scan, scan]
  generalize db.entries = entries
  induction entries with
  | nil => rfl
  | cons entry entries ih =>
    cases picked : pick entry.1 entry.2 <;> simp [picked, ih]

omit [DecidableEq Key] in
theorem nodup_keysWhere (test : (key : Key) → Row key → Bool) : (keysWhere db test).Nodup := by
  have keys : (keysWhere db test).Sublist db.keys := by
    rw [keysWhere, scan, AList.keys, List.keys, ← List.filterMap_eq_map]
    generalize db.entries = entries
    induction entries with
    | nil => exact List.Sublist.refl _
    | cons entry entries ih =>
      by_cases passed : test entry.1 entry.2 = true
      · simpa [passed] using ih
      · simpa [passed] using ih.cons _
  exact keys.nodup db.keys_nodup

/-- A scan of the rows of some keys that picks as many as they are found each. -/
theorem isSome_lookup_of_length_le_scan {keys : List Key} {pick : (key : Key) → Row key → Option α}
    (within : ∀ key row, (pick key row).isSome → key ∈ keys)
    (enough : keys.length ≤ (scan db pick).length) :
    ∀ key ∈ keys, (db.lookup key).isSome := by
  intro key inside
  have subset : keysWhere db (fun key row => (pick key row).isSome) ⊆ keys := by
    intro one there
    obtain ⟨row, -, picked⟩ := mem_keysWhere_iff.mp there
    exact within one row picked
  rw [length_scan] at enough
  have same := (List.subperm_of_subset (nodup_keysWhere _) subset).perm_of_length_le enough
  obtain ⟨row, found, -⟩ := mem_keysWhere_iff.mp (same.mem_iff.mpr inside)
  exact Option.isSome_of_eq_some found

/-- A storage of which each row picked is of another picks no more of it. -/
theorem length_scan_le {less more : AList Row} {pick : (key : Key) → Row key → Option α}
    (within : ∀ key row, less.lookup key = some row → (pick key row).isSome →
      more.lookup key = some row) : (scan less pick).length ≤ (scan more pick).length := by
  rw [length_scan, length_scan]
  refine (List.subperm_of_subset (nodup_keysWhere _) ?_).length_le
  intro key inside
  obtain ⟨row, found, picked⟩ := mem_keysWhere_iff.mp inside
  exact mem_keysWhere_iff.mpr ⟨row, within key row found picked, picked⟩

/-- A row written under a new key is all a scan picks more. -/
theorem scan_insert {pick : (key : Key) → Row key → Option α} {key : Key} {row : Row key}
    (new : db.lookup key = none) :
    (scan (db.insert key row) pick).length =
      (pick key row).toList.length + (scan db pick).length := by
  rw [scan, scan, AList.entries_insert_of_notMem (AList.lookup_eq_none.mp new)]
  cases picked : pick key row <;> simp [picked, Nat.add_comm]

/-- The rows of some keys deleted, of those still there. -/
def deleteEach (keys : List Key) (now : AList Row) : List (Write Row) :=
  writeEach (keys.filter fun key => (now.lookup key).isSome) fun _ => none

theorem mem_of_mem_deleteEach {keys : List Key} {now : AList Row} {write : Write Row}
    (inside : write ∈ deleteEach keys now) : write.1 ∈ keys :=
  (List.mem_filter.mp (mem_writeEach_iff.mp inside).1).1

theorem lookup_overlay_deleteEach (keys : List Key) (now db : AList Row) (key : Key) :
    (overlay (deleteEach keys now) db).lookup key =
      if key ∈ keys ∧ (now.lookup key).isSome then none else db.lookup key := by
  simp [deleteEach, lookup_overlay_writeEach]

end Scan

end Saffui.Foundation
