import Mathlib.Data.List.Sort
import Mathlib.Algebra.Group.Int.Defs
import Saffui.Clients
import Saffui.Foundation.Rows

/-!
# The audit chain and its verification

Source: `saffui-core/src/audit/mod.rs`, `audit/store.rs`, `audit/verify.rs`,
and the reads of `store/src/stores/audit.rs`. The storage is that of one
realm: its events by their number, and the head of its chain. SHA-256 is a
parameter; nothing is asked of it.
-/

namespace Saffui.Audit
open Saffui.Foundation

/-- Where an event sits in the chain of its realm. -/
structure ChainPosition where
  seq : Int
  hash : Bytes
  deriving DecidableEq, Repr

/-- An event as the chain keeps it: its bytes, and its two links. -/
structure ChainedEvent where
  seq : Int
  previousHash : Bytes
  hash : Bytes
  envelope : Bytes
  deriving DecidableEq, Repr

/-- The columns of an event beside its number, which is its key. -/
structure EventRow where
  previousHash : Bytes
  hash : Bytes
  envelope : Bytes
  deriving DecidableEq, Repr

inductive Key where
  | head
  | event (seq : Int)
  deriving DecidableEq

@[reducible]
def Row : Key → Type
  | .head => ChainPosition
  | .event _ => EventRow

abbrev Db := AList Row

def Db.event (db : Db) (seq : Int) : Option EventRow := db.lookup (Key.event seq)

def EventRow.chained (row : EventRow) (seq : Int) : ChainedEvent :=
  ⟨seq, row.previousHash, row.hash, row.envelope⟩

/-- The numbers of the events kept, in no order. -/
def Db.numbers (db : Db) : List Int :=
  db.keys.filterMap fun
    | .head => none
    | .event seq => some seq

/-- The events after `afterSeq`, in order, at most `limit` of them. -/
def readAuditEvents (db : Db) (afterSeq : Int) (limit : Nat) : List ChainedEvent :=
  ((db.numbers.filter (afterSeq < ·)).insertionSort (· ≤ ·) |>.take limit).filterMap fun seq =>
    (db.event seq).map fun row => row.chained seq

/-- The last position of the chain, or nothing for a realm without events. -/
def readAuditHead (db : Db) : Option ChainPosition := db.lookup Key.head

def GENESIS_HASH : Bytes := List.replicate 32 0

/-- A number of 64 bits on 8 big-endian bytes. -/
def toBeBytes (seq : Int) : Bytes :=
  (List.range 8).map fun place => UInt8.ofNat (seq / 256 ^ (7 - place) % 256).toNat

variable (sha256 : Bytes → Bytes)

/-- The hash that links an event to the chain. -/
def hashLink (previous : Bytes) (seq : Int) (envelope : Bytes) : Bytes :=
  sha256 (previous ++ toBeBytes seq ++ envelope)

inductive ChainBreak where
  /-- A sequence number is missing or repeated. -/
  | gap
  /-- An event does not name the hash of the one before it. -/
  | unlinked
  /-- The stored bytes of an event no longer give its hash. -/
  | altered
  /-- The head of the chain is not its last event. -/
  | headMismatch
  deriving DecidableEq, Repr

inductive ChainVerdict where
  | intact (events : Int)
  | broken (atSeq : Int) (reason : ChainBreak)
  deriving DecidableEq, Repr

/-- How many events are read at once. -/
def PAGE : Nat := 500

def checkLink (seq : Int) (hash : Bytes) (event : ChainedEvent) : Option ChainBreak :=
  if event.seq ≠ seq + 1 then some .gap
  else if event.previousHash ≠ hash then some .unlinked
  else if hashLink sha256 hash event.seq event.envelope ≠ event.hash then some .altered
  else none

/-- Checks the events of a page one after the other: where it ends, or the
first break. -/
def checkPage (seq : Int) (hash : Bytes) : List ChainedEvent → Except ChainVerdict ChainPosition
  | [] => .ok ⟨seq, hash⟩
  | event :: rest =>
    match checkLink sha256 seq hash event with
    | some reason => .error (.broken event.seq reason)
    | none => checkPage event.seq event.hash rest

/-- Compares where the events end with the head. -/
def checkHead (db : Db) (seq : Int) (hash : Bytes) : ChainVerdict :=
  if (match readAuditHead db with
    | some head => head.seq = seq && head.hash = hash
    | none => seq = 0) then .intact seq
  else .broken seq .headMismatch

/-- The loop over the pages. Each page read moves on past one event or more,
so it takes no more turns than there are events, and one. -/
def verifyFrom (db : Db) (page : Nat) : Nat → Int → Bytes → Option ChainVerdict
  | 0, _, _ => none
  | turns + 1, seq, hash =>
    let events := readAuditEvents db seq page
    if events.isEmpty then some (checkHead db seq hash)
    else match checkPage sha256 seq hash events with
      | .error verdict => some verdict
      | .ok position => verifyFrom db page turns position.seq position.hash

/-- Verifies the whole chain of a realm, from its first event to its head. -/
def verifyChain (db : Db) (page : Nat) : Option ChainVerdict :=
  verifyFrom sha256 db page (db.numbers.length + 1) 0 GENESIS_HASH

/-- The hash an event after this number links to. -/
def Db.hashAt (db : Db) (seq : Int) : Bytes :=
  if seq = 0 then GENESIS_HASH else ((db.event seq).map EventRow.hash).getD []

/-- An event links to the one before it, and to its own bytes. -/
def Db.Links (db : Db) (seq : Int) (row : EventRow) : Prop :=
  row.previousHash = db.hashAt (seq - 1) ∧ row.hash = hashLink sha256 row.previousHash seq row.envelope

/-- From 1 on the events are those up to `count`, each linked to the one
before, and the head is the last of them. -/
structure ChainFromFirst (db : Db) (count : Int) : Prop where
  counted : 0 ≤ count
  rows : ∀ seq, 0 < seq → ((db.event seq).isSome ↔ seq ≤ count)
  linked : ∀ seq row, 0 < seq → db.event seq = some row → db.Links sha256 seq row
  head : match readAuditHead db with
    | some head => head.seq = count ∧ head.hash = db.hashAt count
    | none => count = 0

/-- The events are exactly those from 1 to `count`, linked, up to the head. -/
structure WholeChain (db : Db) (count : Int) : Prop extends ChainFromFirst sha256 db count where
  none_before : ∀ seq, seq ≤ 0 → db.event seq = none

section Verify

variable {sha256} {db : Db}

theorem mem_numbers_iff {seq : Int} : seq ∈ db.numbers ↔ (db.event seq).isSome := by
  rw [Db.event, AList.lookup_isSome, AList.mem_keys]
  simp only [Db.numbers, List.mem_filterMap]
  constructor
  · rintro ⟨key, inside, named⟩
    cases key with
    | head => cases named
    | event number =>
      obtain rfl := Option.some.inj named
      exact inside
  · exact fun inside => ⟨.event seq, inside, rfl⟩

theorem nodup_numbers (db : Db) : db.numbers.Nodup := by
  apply db.nodupKeys.filterMap
  intro first second number here there
  cases first with
  | head => cases here
  | event one =>
    cases second with
    | head => cases there
    | event other =>
      obtain rfl := Option.some.inj here
      obtain rfl := Option.some.inj there
      rfl

/-- The events read after a number: each is kept, and none is kept between it
and the one before. -/
inductive Follows (db : Db) : Int → List ChainedEvent → Prop where
  | nil (seq : Int) : Follows db seq []
  | cons {seq next : Int} {row : EventRow} {rest : List ChainedEvent} (later : seq < next)
      (kept : db.event next = some row) (nearest : ∀ other, seq < other → other < next → db.event other = none)
      (follows : Follows db next rest) : Follows db seq (row.chained next :: rest)

theorem follows_of_sorted {numbers : List Int} {seq : Int} (ascending : numbers.Pairwise (· < ·))
    (later : ∀ number ∈ numbers, seq < number ∧ (db.event number).isSome)
    (complete : ∀ number, seq < number → (db.event number).isSome → number ∈ numbers) (limit : Nat) :
    Follows db seq ((numbers.take limit).filterMap fun seq =>
      (db.event seq).map fun row => row.chained seq) := by
  induction numbers generalizing seq limit with
  | nil => simpa using Follows.nil seq
  | cons next rest ih =>
    cases limit with
    | zero => exact Follows.nil seq
    | succ limit =>
      obtain ⟨after, kept⟩ := later next List.mem_cons_self
      obtain ⟨row, found⟩ := Option.isSome_iff_exists.mp kept
      obtain ⟨least, sorted⟩ := List.pairwise_cons.mp ascending
      have among : ∀ number, seq < number → (db.event number).isSome → number = next ∨ number ∈ rest :=
        fun number late held => List.mem_cons.mp (complete number late held)
      rw [List.take_succ_cons, List.filterMap_cons_some (b := row.chained next) (by simp [found])]
      refine Follows.cons after found ?_ (ih sorted ?_ ?_ limit)
      · intro other late early
        by_contra held
        rcases among other late (Option.isSome_iff_ne_none.mpr held) with rfl | inside
        · omega
        · have := least other inside
          omega
      · intro number inside
        exact ⟨least number inside, (later number (List.mem_cons_of_mem _ inside)).2⟩
      · intro number late held
        rcases among number (by omega) held with rfl | inside
        · omega
        · exact inside

theorem mem_later_iff {seq number : Int} :
    number ∈ db.numbers.filter (seq < ·) ↔ (db.event number).isSome ∧ seq < number := by
  rw [List.mem_filter, mem_numbers_iff, decide_eq_true_eq]

theorem follows_readAuditEvents (db : Db) (seq : Int) (limit : Nat) :
    Follows db seq (readAuditEvents db seq limit) := by
  apply follows_of_sorted
  · have ordered := List.pairwise_insertionSort (· ≤ ·) (db.numbers.filter (seq < ·))
    have once : ((db.numbers.filter (seq < ·)).insertionSort (· ≤ ·)).Nodup :=
      (List.perm_insertionSort _ _).nodup_iff.mpr ((nodup_numbers db).filter _)
    exact (ordered.and once).imp fun apart => lt_of_le_of_ne apart.1 apart.2
  · intro number inside
    rw [List.mem_insertionSort, mem_later_iff] at inside
    exact inside.symm
  · intro number late held
    rw [List.mem_insertionSort, mem_later_iff]
    exact ⟨held, late⟩

/-- A page of one event or more is empty only where no event is left. -/
theorem no_later_of_isEmpty {seq : Int} {limit : Nat} (positive : 0 < limit)
    (empty : (readAuditEvents db seq limit).isEmpty = true) (number : Int) (late : seq < number) :
    db.event number = none := by
  by_contra held
  have inside : number ∈ (db.numbers.filter (seq < ·)).insertionSort (· ≤ ·) := by
    rw [List.mem_insertionSort, mem_later_iff]
    exact ⟨Option.isSome_iff_ne_none.mpr held, late⟩
  cases sorted : (db.numbers.filter (seq < ·)).insertionSort (· ≤ ·) with
  | nil =>
    rw [sorted] at inside
    cases inside
  | cons first rest =>
    obtain ⟨limit, rfl⟩ : ∃ less, limit = less + 1 := ⟨limit - 1, by omega⟩
    have kept : (db.event first).isSome := by
      have there : first ∈ (db.numbers.filter (seq < ·)).insertionSort (· ≤ ·) := by
        rw [sorted]
        exact List.mem_cons_self
      rw [List.mem_insertionSort, mem_later_iff] at there
      exact there.1
    obtain ⟨row, found⟩ := Option.isSome_iff_exists.mp kept
    simp [readAuditEvents, sorted, found] at empty

/-- The chain is linked from its first event to this one. -/
structure LinkedTo (sha256 : Bytes → Bytes) (db : Db) (seq : Int) (hash : Bytes) : Prop where
  counted : 0 ≤ seq
  hash : hash = db.hashAt seq
  rows : ∀ number, 0 < number → number ≤ seq → ∃ row, db.event number = some row ∧
    db.Links sha256 number row

theorem checkLink_eq_none_iff {seq : Int} {hash : Bytes} {event : ChainedEvent} :
    checkLink sha256 seq hash event = none ↔ event.seq = seq + 1 ∧ event.previousHash = hash ∧
      hashLink sha256 hash event.seq event.envelope = event.hash := by
  unfold checkLink
  split
  · next apart => exact iff_of_false nofun fun fine => apart fine.1
  · next number =>
    split
    · next unlinked => exact iff_of_false nofun fun fine => unlinked fine.2.1
    · next linked =>
      split
      · next altered => exact iff_of_false nofun fun fine => altered fine.2.2
      · next same => exact iff_of_true rfl ⟨not_not.mp number, not_not.mp linked, not_not.mp same⟩

theorem hashAt_of_event {seq : Int} {row : EventRow} (positive : 0 < seq)
    (found : db.event seq = some row) : db.hashAt seq = row.hash := by
  rw [Db.hashAt, if_neg (by omega), found]
  rfl

theorem LinkedTo.next {seq next : Int} {hash : Bytes} {row : EventRow}
    (linked : LinkedTo sha256 db seq hash) (kept : db.event next = some row)
    (checked : checkLink sha256 seq hash (row.chained next) = none) :
    next = seq + 1 ∧ LinkedTo sha256 db next row.hash := by
  obtain ⟨number, previous, same⟩ := checkLink_eq_none_iff.mp checked
  change next = seq + 1 at number
  change row.previousHash = hash at previous
  change hashLink sha256 hash next row.envelope = row.hash at same
  have counted := linked.counted
  refine ⟨number, by omega, (hashAt_of_event (by omega) kept).symm, ?_⟩
  intro other positive within
  rcases Int.lt_or_eq_of_le within with earlier | rfl
  · exact linked.rows other positive (by omega)
  · refine ⟨row, kept, ?_, ?_⟩
    · rw [previous, linked.hash, number, Int.add_sub_cancel]
    · rw [previous, same]

/-- A break is one of no chain that is whole. -/
theorem LinkedTo.not_chain {seq next : Int} {hash : Bytes} {row : EventRow}
    (linked : LinkedTo sha256 db seq hash) (later : seq < next) (kept : db.event next = some row)
    (nearest : ∀ other, seq < other → other < next → db.event other = none) {reason : ChainBreak}
    (checked : checkLink sha256 seq hash (row.chained next) = some reason) (count : Int) :
    ¬ ChainFromFirst sha256 db count := by
  intro whole
  have counted := linked.counted
  have within : next ≤ count := (whole.rows next (by omega)).mp (by simp [kept])
  have number : next = seq + 1 := by
    by_contra gap
    have missing := nearest (seq + 1) (by omega) (by omega)
    have there := (whole.rows (seq + 1) (by omega)).mpr (by omega)
    rw [missing] at there
    cases there
  obtain ⟨previous, same⟩ := whole.linked next row (by omega) kept
  rw [number, Int.add_sub_cancel, ← linked.hash] at previous
  have fine : checkLink sha256 seq hash (row.chained next) = none := by
    rw [checkLink_eq_none_iff]
    refine ⟨number, previous, ?_⟩
    rw [← previous]
    exact same.symm
  rw [fine] at checked
  cases checked

theorem checkPage_ok {events : List ChainedEvent} {seq : Int} {hash : Bytes} {position : ChainPosition}
    (linked : LinkedTo sha256 db seq hash) (follows : Follows db seq events)
    (checked : checkPage sha256 seq hash events = .ok position) :
    LinkedTo sha256 db position.seq position.hash ∧ position.seq = seq + events.length := by
  induction follows generalizing hash with
  | nil seq =>
    obtain rfl := Except.ok.inj checked
    exact ⟨linked, by simp⟩
  | cons later kept nearest _ ih =>
    rw [checkPage] at checked
    split at checked
    · cases checked
    · next fine =>
      obtain ⟨number, further⟩ := linked.next kept fine
      obtain ⟨last, length⟩ := ih further checked
      refine ⟨last, ?_⟩
      rw [length, List.length_cons]
      push_cast
      omega

theorem checkPage_error {events : List ChainedEvent} {seq : Int} {hash : Bytes}
    {verdict : ChainVerdict} (linked : LinkedTo sha256 db seq hash) (follows : Follows db seq events)
    (checked : checkPage sha256 seq hash events = .error verdict) (count : Int) :
    verdict ≠ .intact count ∧ ¬ ChainFromFirst sha256 db count := by
  induction follows generalizing hash with
  | nil seq => cases checked
  | cons later kept nearest _ ih =>
    rw [checkPage] at checked
    split at checked
    · next reason broken =>
      obtain rfl := Except.error.inj checked
      exact ⟨by simp, linked.not_chain later kept nearest broken count⟩
    · next fine => exact ih (linked.next kept fine).2 checked

/-- Where no event is left, the head decides. -/
theorem checkHead_iff {seq : Int} {hash : Bytes} (linked : LinkedTo sha256 db seq hash)
    (ended : ∀ number, seq < number → db.event number = none) (count : Int) :
    checkHead db seq hash = .intact count ↔ ChainFromFirst sha256 db count := by
  have counted := linked.counted
  have upTo : ∀ number, 0 < number → ((db.event number).isSome ↔ number ≤ seq) := by
    intro number positive
    constructor
    · intro kept
      by_contra late
      rw [ended number (by omega)] at kept
      cases kept
    · intro within
      obtain ⟨row, found, -⟩ := linked.rows number positive within
      simp [found]
  have only : ∀ other, ChainFromFirst sha256 db other → other = seq := by
    intro other whole
    have positive := whole.counted
    by_contra apart
    rcases Int.lt_or_gt_of_ne apart with less | more
    · have := (whole.rows seq (by omega)).mp ((upTo seq (by omega)).mpr (le_refl _))
      omega
    · have := (upTo other (by omega)).mp ((whole.rows other (by omega)).mpr (le_refl _))
      omega
  have linked_rows : ∀ number row, 0 < number → db.event number = some row →
      db.Links sha256 number row := by
    intro number row positive found
    obtain ⟨other, same, links⟩ := linked.rows number positive
      ((upTo number positive).mp (by simp [found]))
    rw [found] at same
    rwa [Option.some.inj same]
  have decides : checkHead db seq hash = .intact count ↔ seq = count ∧
      (match readAuditHead db with
        | some head => head.seq = seq ∧ head.hash = hash
        | none => seq = 0) := by
    unfold checkHead
    cases readAuditHead db with
    | none =>
      by_cases first : seq = 0
      · simp [first]
      · simp [first]
    | some head =>
      by_cases same : head.seq = seq ∧ head.hash = hash
      · simp [same]
      · simp [same]
  rw [decides, linked.hash]
  constructor
  · intro matched
    obtain ⟨rfl, last⟩ := matched
    exact ⟨counted, upTo, linked_rows, last⟩
  · intro whole
    obtain rfl := only count whole
    exact ⟨rfl, whole.head⟩

/-- The loop answers within as many turns as events are left, and one; and it
answers that the chain is intact exactly where it is. -/
theorem verifyFrom_spec {page : Nat} (positive : 0 < page) {turns : Nat} {seq : Int} {hash : Bytes}
    (linked : LinkedTo sha256 db seq hash)
    (enough : (db.numbers.filter (seq < ·)).length < turns) :
    ∃ verdict, verifyFrom sha256 db page turns seq hash = some verdict ∧
      ∀ count, verdict = .intact count ↔ ChainFromFirst sha256 db count := by
  induction turns generalizing seq hash with
  | zero => omega
  | succ turns ih =>
    rw [verifyFrom]
    split
    · next empty =>
      exact ⟨_, rfl, checkHead_iff linked (no_later_of_isEmpty positive empty)⟩
    · next left =>
      have follows := follows_readAuditEvents db seq page
      cases checked : checkPage sha256 seq hash (readAuditEvents db seq page) with
      | error verdict =>
        refine ⟨verdict, rfl, fun count => ?_⟩
        obtain ⟨apart, broken⟩ := checkPage_error linked follows checked count
        exact iff_of_false apart broken
      | ok position =>
        obtain ⟨further, moved⟩ := checkPage_ok linked follows checked
        apply ih further
        have counted := linked.counted
        have some_left : 0 < (readAuditEvents db seq page).length := by
          rw [List.length_pos_iff]
          simpa using left
        have fewer : ((db.numbers.filter (seq < ·)).filter (position.seq < ·)).length <
            (db.numbers.filter (seq < ·)).length := by
          rw [List.length_filter_lt_length_iff_exists]
          obtain ⟨row, kept, -⟩ := further.rows (seq + 1) (by omega) (by omega)
          refine ⟨seq + 1, mem_later_iff.mpr ⟨by simp [kept], by omega⟩, by simp; omega⟩
        have same : (db.numbers.filter (seq < ·)).filter (position.seq < ·) =
            db.numbers.filter (position.seq < ·) := by
          rw [List.filter_filter]
          apply List.filter_congr
          intro number _
          simp only [Bool.and_eq_left_iff_imp, decide_eq_true_eq]
          omega
        rw [same] at fewer
        omega

/-- Whatever the storage holds and however long its pages are, verification
answers; and it answers that the chain is intact exactly where the events
from 1 on are one chain up to the head. -/
theorem verifyChain_spec (sha256 : Bytes → Bytes) (db : Db) {page : Nat} (positive : 0 < page) :
    ∃ verdict, verifyChain sha256 db page = some verdict ∧
      ∀ count, verdict = .intact count ↔ ChainFromFirst sha256 db count := by
  apply verifyFrom_spec positive
  · refine ⟨le_refl _, rfl, fun number positive within => ?_⟩
    omega
  · have := List.length_filter_le (fun number => decide ((0 : Int) < number)) db.numbers
    omega

theorem verifyChain_eq_intact_iff (sha256 : Bytes → Bytes) (db : Db) {page : Nat}
    (positive : 0 < page) (count : Int) :
    verifyChain sha256 db page = some (.intact count) ↔ ChainFromFirst sha256 db count := by
  obtain ⟨verdict, answered, told⟩ := verifyChain_spec sha256 db positive
  rw [answered, Option.some.injEq, told]

end Verify

end Saffui.Audit
