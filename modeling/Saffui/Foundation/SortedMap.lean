import Mathlib.Order.Basic
import Mathlib.Data.List.Basic
import Mathlib.Order.Lattice

/-!
# Maps kept in the order of their keys

An ordered map as a list of entries with strictly increasing keys. The order
is a field of the structure, so two entries of one key cannot be built and an
equality of maps is an equality of lookups. `insert` replaces the entry of a
key it already holds, as an ordered map of a standard library does.
-/

namespace Saffui.Foundation

/-- A finite map whose entries are kept in strictly increasing key order. -/
structure SortedMap (κ α : Type) [LinearOrder κ] where
  entries : List (κ × α)
  sorted : entries.Pairwise (fun left right => left.1 < right.1)

namespace SortedMap

variable {κ α : Type} [LinearOrder κ]

instance [DecidableEq α] : DecidableEq (SortedMap κ α) := fun left right =>
  decidable_of_iff (left.entries = right.entries) (by
    cases left; cases right; simp)

theorem ext_entries {left right : SortedMap κ α} (same : left.entries = right.entries) :
    left = right := by
  cases left
  cases right
  simpa using same

def empty : SortedMap κ α := ⟨[], List.Pairwise.nil⟩

/-- The value of the first entry of a key, in a list of entries. -/
def lookup (key : κ) : List (κ × α) → Option α
  | [] => none
  | (found, value) :: rest => if found = key then some value else lookup key rest

def get? (map : SortedMap κ α) (key : κ) : Option α := lookup key map.entries

def keys (map : SortedMap κ α) : List κ := map.entries.map Prod.fst

/-- Places an entry among entries sorted by key, in place of one of its key. -/
def place (key : κ) (value : α) : List (κ × α) → List (κ × α)
  | [] => [(key, value)]
  | (found, kept) :: rest =>
    if key < found then (key, value) :: (found, kept) :: rest
    else if found = key then (key, value) :: rest
    else (found, kept) :: place key value rest

private theorem mem_place {key : κ} {value : α} {entry : κ × α} :
    ∀ {entries : List (κ × α)}, entry ∈ place key value entries →
      entry = (key, value) ∨ entry ∈ entries
  | [], member => by simpa [place] using member
  | (found, kept) :: rest, member => by
    unfold place at member
    split at member
    · simpa using member
    · split at member
      · rcases List.mem_cons.mp member with same | inside
        · exact Or.inl same
        · exact Or.inr (List.mem_cons_of_mem _ inside)
      · rcases List.mem_cons.mp member with same | inside
        · exact Or.inr (by simp [same])
        · rcases mem_place inside with same | inside
          · exact Or.inl same
          · exact Or.inr (List.mem_cons_of_mem _ inside)

theorem place_sorted (key : κ) (value : α) :
    ∀ entries : List (κ × α), entries.Pairwise (fun left right => left.1 < right.1) →
      (place key value entries).Pairwise (fun left right => left.1 < right.1)
  | [], _ => by simp [place]
  | (found, kept) :: rest, ordered => by
    obtain ⟨above, tail⟩ := List.pairwise_cons.mp ordered
    unfold place
    split
    · next below =>
      refine List.pairwise_cons.mpr ⟨?_, ordered⟩
      intro entry member
      rcases List.mem_cons.mp member with same | inside
      · simpa [same] using below
      · exact lt_trans below (above entry inside)
    · split
      · next same =>
        refine List.pairwise_cons.mpr ⟨?_, tail⟩
        intro entry inside
        simpa [same] using above entry inside
      · next notBelow different =>
        refine List.pairwise_cons.mpr ⟨?_, place_sorted key value rest tail⟩
        intro entry member
        rcases mem_place member with same | inside
        · simpa [same] using lt_of_le_of_ne (not_lt.mp notBelow) different
        · exact above entry inside

def insert (map : SortedMap κ α) (key : κ) (value : α) : SortedMap κ α :=
  ⟨place key value map.entries, place_sorted key value map.entries map.sorted⟩

@[simp] theorem get?_empty (key : κ) : (empty : SortedMap κ α).get? key = none := rfl

theorem lookup_place (key : κ) (value : α) (asked : κ) :
    ∀ entries : List (κ × α), entries.Pairwise (fun left right => left.1 < right.1) →
      lookup asked (place key value entries) =
        if asked = key then some value else lookup asked entries
  | [], _ => by
    simp only [place, lookup, eq_comm]
  | (found, kept) :: rest, ordered => by
    obtain ⟨above, tail⟩ := List.pairwise_cons.mp ordered
    unfold place
    split
    · simp only [lookup]
      by_cases same : asked = key
      · simp [same]
      · simp [same, Ne.symm same]
    · split
      · next same =>
        subst same
        simp only [lookup]
        by_cases same : asked = found
        · simp [same]
        · simp [same, Ne.symm same]
      · next different =>
        simp only [lookup, lookup_place key value asked rest tail]
        by_cases same : asked = key
        · subst same
          simp [different]
        · simp [same]

/-- A key reads what was last inserted under it, and any other key what it read. -/
@[simp] theorem get?_insert (map : SortedMap κ α) (key : κ) (value : α) (asked : κ) :
    (map.insert key value).get? asked = if asked = key then some value else map.get? asked :=
  lookup_place key value asked map.entries map.sorted

theorem lookup_of_mem {key : κ} {value : α} :
    ∀ {entries : List (κ × α)}, entries.Pairwise (fun left right => left.1 < right.1) →
      (key, value) ∈ entries → lookup key entries = some value
  | (found, kept) :: rest, ordered, member => by
    obtain ⟨above, tail⟩ := List.pairwise_cons.mp ordered
    rcases List.mem_cons.mp member with same | inside
    · cases same
      simp [lookup]
    · have apart : found ≠ key := ne_of_lt (above (key, value) inside)
      simp only [lookup, if_neg apart]
      exact lookup_of_mem tail inside

theorem mem_of_lookup {key : κ} {value : α} :
    ∀ {entries : List (κ × α)}, lookup key entries = some value → (key, value) ∈ entries
  | (found, kept) :: rest, read => by
    unfold lookup at read
    split at read
    · next same =>
      cases read
      simp [same]
    · exact List.mem_cons_of_mem _ (mem_of_lookup read)

/-- The entries are exactly what the lookups answer. -/
theorem mem_entries_iff (map : SortedMap κ α) (key : κ) (value : α) :
    (key, value) ∈ map.entries ↔ map.get? key = some value :=
  ⟨lookup_of_mem map.sorted, mem_of_lookup⟩

theorem mem_keys_iff (map : SortedMap κ α) (key : κ) :
    key ∈ map.keys ↔ (map.get? key).isSome := by
  rw [Option.isSome_iff_exists]
  constructor
  · intro member
    obtain ⟨⟨found, value⟩, inside, rfl⟩ := List.mem_map.mp member
    exact ⟨value, (mem_entries_iff map found value).mp inside⟩
  · rintro ⟨value, read⟩
    exact List.mem_map.mpr ⟨(key, value), (mem_entries_iff map key value).mpr read, rfl⟩

/-- Maps whose lookups agree under a view hold the same entries under it. -/
theorem map_entries_eq {β : Type} (view : α → β) {left right : SortedMap κ α}
    (same : ∀ key, (left.get? key).map view = (right.get? key).map view) :
    left.entries.map (Prod.map id view) = right.entries.map (Prod.map id view) := by
  have sorted : ∀ map : SortedMap κ α,
      (map.entries.map (Prod.map id view)).Pairwise (fun left right => left.1 < right.1) :=
    fun map => List.pairwise_map.mpr map.sorted
  have nodup : ∀ map : SortedMap κ α, (map.entries.map (Prod.map id view)).Nodup := fun map =>
    (sorted map).imp fun below equal => (ne_of_lt below) (congrArg Prod.fst equal)
  have member : ∀ (map : SortedMap κ α) (key : κ) (seen : β),
      (key, seen) ∈ map.entries.map (Prod.map id view) ↔ (map.get? key).map view = some seen := by
    intro map key seen
    constructor
    · intro inside
      obtain ⟨⟨found, value⟩, there, equal⟩ := List.mem_map.mp inside
      cases equal
      rw [id_eq, (mem_entries_iff map found value).mp there]
      rfl
    · intro read
      obtain ⟨value, found, equal⟩ := Option.map_eq_some_iff.mp read
      exact List.mem_map.mpr ⟨(key, value), (mem_entries_iff map key value).mpr found,
        by simp [equal]⟩
  have perm : (left.entries.map (Prod.map id view)).Perm (right.entries.map (Prod.map id view)) := by
    apply (List.perm_ext_iff_of_nodup (nodup left) (nodup right)).mpr
    rintro ⟨key, seen⟩
    rw [member, member, same]
  refine perm.eq_of_pairwise (fun one other _ _ below above => ?_) (sorted left) (sorted right)
  exact absurd below (lt_asymm above)

/-- Maps whose lookups agree are the same. -/
theorem ext_get? {left right : SortedMap κ α} (same : ∀ key, left.get? key = right.get? key) :
    left = right := by
  have entries := map_entries_eq id fun key => congrArg (Option.map id) (same key)
  rw [Prod.map_id, List.map_id, List.map_id] at entries
  exact ext_entries entries

/-- Sorted entries whose lookups agree are the same. -/
theorem eq_of_lookup {left right : List (κ × α)}
    (sorted : left.Pairwise fun left right => left.1 < right.1)
    (ordered : right.Pairwise fun left right => left.1 < right.1)
    (same : ∀ key, lookup key left = lookup key right) : left = right :=
  congrArg entries (@ext_get? _ _ _ ⟨left, sorted⟩ ⟨right, ordered⟩ same)

/-- A new entry stands among the entries there were. -/
theorem place_perm {key : κ} {value : α} {entries : List (κ × α)} (absent : lookup key entries = none) :
    (place key value entries).Perm ((key, value) :: entries) := by
  induction entries with
  | nil => exact .refl _
  | cons entry rest ih =>
    obtain ⟨found, kept⟩ := entry
    rw [lookup] at absent
    split at absent
    · cases absent
    next apart =>
    rw [place, if_neg apart]
    split
    · exact .refl _
    · exact ((ih absent).cons _).trans (.swap _ _ _)

theorem exists_lookup_of_mem {key : κ} {value : α} {entries : List (κ × α)}
    (inside : (key, value) ∈ entries) : ∃ first, lookup key entries = some first := by
  induction entries with
  | nil => cases inside
  | cons entry rest ih =>
    obtain ⟨found, kept⟩ := entry
    rw [lookup]
    split
    · exact ⟨kept, rfl⟩
    · next apart =>
      rcases List.mem_cons.mp inside with same | later
      · exact absurd (congrArg Prod.fst same).symm apart
      · exact ih later

/-- The entries of a map read as the map does, in whatever order. -/
theorem lookup_of_perm {entries : List (κ × α)} {map : SortedMap κ α}
    (same : entries.Perm map.entries) (key : κ) : lookup key entries = map.get? key := by
  cases found : lookup key entries with
  | some value =>
    exact ((mem_entries_iff map key value).mp (same.mem_iff.mp (mem_of_lookup found))).symm
  | none =>
    cases there : map.get? key with
    | none => rfl
    | some value =>
      have inside := same.mem_iff.mpr ((mem_entries_iff map key value).mpr there)
      obtain ⟨first, read⟩ := exists_lookup_of_mem inside
      rw [found] at read
      cases read

/-- The entries of the other keys. -/
def without (key : κ) (entries : List (κ × α)) : List (κ × α) :=
  entries.filter fun entry => entry.1 ≠ key

theorem lookup_without (key asked : κ) (entries : List (κ × α)) :
    lookup asked (without key entries) = if asked = key then none else lookup asked entries := by
  induction entries with
  | nil => simp [without, lookup]
  | cons entry rest ih =>
    by_cases here : entry.1 = key
    · have gone : without key (entry :: rest) = without key rest := by simp [without, here]
      rw [gone, ih]
      by_cases same : asked = key
      · rw [if_pos same, if_pos same]
      · rw [if_neg same, if_neg same, lookup, if_neg (by rw [here]; exact Ne.symm same)]
    · have kept : without key (entry :: rest) = entry :: without key rest := by
        simp [without, here]
      rw [kept, lookup, lookup, ih]
      by_cases same : asked = key
      · rw [if_pos same, if_neg (by rw [same]; exact here), if_pos same]
      · rw [if_neg same, if_neg same]

theorem without_sorted (key : κ) {entries : List (κ × α)}
    (sorted : entries.Pairwise fun left right => left.1 < right.1) :
    (without key entries).Pairwise fun left right => left.1 < right.1 :=
  sorted.filter _

/-- Entries inserted one after the other, no key twice: a key reads its own
entry, or what it read before them. -/
theorem get?_foldl_insert {β : Type} (key : β → κ) (value : β → α) (list : List β)
    (once : (list.map key).Nodup) (map : SortedMap κ α) (asked : κ) (found : α) :
    (list.foldl (fun map one => map.insert (key one) (value one)) map).get? asked = some found ↔
      (∃ one ∈ list, key one = asked ∧ value one = found) ∨
        ((∀ one ∈ list, key one ≠ asked) ∧ map.get? asked = some found) := by
  induction list generalizing map with
  | nil => simp
  | cons head tail ih =>
    obtain ⟨apart, once⟩ := List.nodup_cons.mp once
    rw [List.foldl_cons, ih once, get?_insert]
    by_cases same : asked = key head
    · subst same
      have others : ∀ one ∈ tail, key one ≠ key head := fun one inside equal =>
        apart (equal ▸ List.mem_map_of_mem inside)
      constructor
      · rintro (⟨one, inside, equal, -⟩ | ⟨-, read⟩)
        · exact absurd equal (others one inside)
        · exact Or.inl ⟨head, by simp, rfl, by simpa using read⟩
      · rintro (⟨one, inside, equal, rfl⟩ | ⟨none_there, -⟩)
        · rcases List.mem_cons.mp inside with rfl | inside
          · exact Or.inr ⟨others, by simp⟩
          · exact absurd equal (others one inside)
        · exact absurd rfl (none_there head (by simp))
    · simp [same, Ne.symm same]

theorem place_of_above {key : κ} {value : α} {entries : List (κ × α)}
    (above : ∀ entry ∈ entries, entry.1 < key) :
    place key value entries = entries ++ [(key, value)] := by
  induction entries with
  | nil => rfl
  | cons head tail ih =>
    obtain ⟨here, rest⟩ := List.forall_mem_cons.mp above
    unfold place
    rw [if_neg (not_lt_of_gt here), if_neg (ne_of_lt here), ih rest, List.cons_append]

/-- Entries in order, inserted one after the other, are the map they make. -/
theorem foldl_insert_entries (map : SortedMap κ α) :
    map.entries.foldl (fun map entry => map.insert entry.1 entry.2) empty = map := by
  have append : ∀ (rest : List (κ × α)) (map : SortedMap κ α),
      (map.entries ++ rest).Pairwise (fun left right => left.1 < right.1) →
      (rest.foldl (fun map entry => map.insert entry.1 entry.2) map).entries =
        map.entries ++ rest := by
    intro rest
    induction rest with
    | nil => simp
    | cons entry rest ih =>
      intro map ordered
      have above : ∀ one ∈ map.entries, one.1 < entry.1 := fun one inside =>
        (List.pairwise_append.mp ordered).2.2 one inside entry List.mem_cons_self
      have placed : (map.insert entry.1 entry.2).entries = map.entries ++ [entry] :=
        place_of_above above
      rw [List.foldl_cons, ih _ (by simpa [placed] using ordered), placed]
      simp
  exact ext_entries (append map.entries empty map.sorted)

end SortedMap

end Saffui.Foundation
