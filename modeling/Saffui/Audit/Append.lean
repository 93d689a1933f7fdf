import Mathlib.Algebra.GroupWithZero.Nat
import Saffui.Audit.Chain
import Saffui.Foundation.History

/-!
# Appending to the audit chain

Source: `saffui_append_audit_event` of `pgcore/migrations/0002_audit.sql`,
reached by `append_audit_event` of `store/src/stores/audit.rs` and
`record_event` of `saffui-core/src/audit/append.rs`. The function is several
statements, each with what it sees of its own, as `plpgsql` runs them. How the
database reads the bytes of an envelope is a parameter.

A unit of work appends as many events as the change it makes calls for,
whatever the chain holds: `record_event` drops the position it is given.
-/

namespace Saffui.Audit
open Saffui.Foundation Saffui.Foundation.Language

inductive Op where
  | insertHead
  | lockHead
  | insertEvent (seq : Int) (row : EventRow)
  | updateHead (position : ChainPosition)

abbrev Res : Op → Type
  | .lockHead => Option ChainPosition
  | .insertEvent _ _ => Bool
  | .insertHead | .updateHead _ => Unit

/-- How the database reads an envelope. -/
structure EnvelopeReader where
  /-- Whether it names the tenant and the realm of the unit of work. -/
  namesScope : Bytes → Bool
  /-- Whether it gives the columns generated from it. -/
  givesColumns : Bytes → Bool

def locks (op : Op) (seen : Db) : List (Key × LockMode) :=
  match op with
  | .insertHead => if (readAuditHead seen).isSome then [] else [(.head, .exclusive)]
  | .lockHead | .updateHead _ => if (readAuditHead seen).isSome then [(.head, .exclusive)] else []
  | .insertEvent seq _ => [(.event seq, .exclusive)]

def run (reader : EnvelopeReader) (op : Op) (seen now : Db) : List (Write Row) × Res op :=
  match op with
  -- `ON CONFLICT DO NOTHING`
  | .insertHead =>
    if (readAuditHead seen).isSome || (readAuditHead now).isSome then ([], ())
    else ([⟨.head, some ⟨0, GENESIS_HASH⟩⟩], ())
  | .lockHead => ([], if (readAuditHead seen).isSome then readAuditHead now else none)
  | .insertEvent seq row =>
    if (now.event seq).isSome || !reader.givesColumns row.envelope then ([], false)
    else ([⟨.event seq, some row⟩], true)
  | .updateHead position =>
    if (readAuditHead seen).isSome && (readAuditHead now).isSome then ([⟨.head, some position⟩], ())
    else ([], ())

theorem run_locked (reader : EnvelopeReader) (op : Op) (seen now : Db) :
    ∀ write ∈ (run reader op seen now).1, (write.1, LockMode.exclusive) ∈ locks op seen := by
  intro write inside
  cases op with
  | insertHead =>
    simp only [run] at inside
    split at inside
    · cases inside
    · next absent =>
      have unseen : (readAuditHead seen).isSome = false := by
        simp only [Bool.or_eq_true, not_or, Bool.not_eq_true] at absent
        exact absent.1
      rw [List.mem_singleton.mp inside, locks, unseen]
      exact List.mem_singleton_self _
  | lockHead => cases inside
  | insertEvent seq row =>
    simp only [run] at inside
    split at inside
    · cases inside
    · rw [List.mem_singleton.mp inside]
      exact List.mem_singleton_self _
  | updateHead position =>
    simp only [run] at inside
    split at inside
    · next present =>
      rw [List.mem_singleton.mp inside, locks, (Bool.and_eq_true_iff.mp present).1]
      exact List.mem_singleton_self _
    · cases inside

inductive AppendError where
  /-- The envelope names another scope. -/
  | insufficientPrivilege
  /-- A number out of range, or a row the table does not take. -/
  | failed
  deriving DecidableEq, Repr

abbrev language (reader : EnvelopeReader) : Language where
  Key := Key
  Row := Row
  Op := Op
  Res := Res
  locks := locks
  run := run reader
  run_locked := run_locked reader
  Ask := Empty
  Ans := Empty.elim
  Id := Empty
  Err := AppendError

section Program

variable (sha256 : Bytes → Bytes) (reader : EnvelopeReader)

abbrev Program := (language reader).Prog

def statement (op : Op) : Program reader (Res op) := exec (L := language reader) op

def fail {α : Type} (error : AppendError) : Program reader α := Prog.fail (L := language reader) error

def appendAuditEvent (envelope : Bytes) : Program reader ChainPosition := do
  if !reader.namesScope envelope then fail reader .insufficientPrivilege
  else do
    let _ : Unit ← statement reader .insertHead
    let held : Option ChainPosition ← statement reader .lockHead
    match held with
    | none => fail reader .failed
    | some head =>
      let seq := head.seq + 1
      if seq ≥ 2 ^ 63 then fail reader .failed
      else do
        let hash := hashLink sha256 head.hash seq envelope
        let kept : Bool ← statement reader (.insertEvent seq ⟨head.hash, hash, envelope⟩)
        if !kept then fail reader .failed
        else do
          let _ : Unit ← statement reader (.updateHead ⟨seq, hash⟩)
          pure ⟨seq, hash⟩

/-- The events of one unit of work, in their order. -/
def appendEach : List Bytes → Program reader Unit
  | [] => pure ()
  | envelope :: rest => do
    let _ ← appendAuditEvent sha256 reader envelope
    appendEach rest

def recordEvents (envelopes : List Bytes) : Program reader Unit := do
  beginUnit (L := language reader)
  appendEach sha256 reader envelopes
  commitUnit (L := language reader)

/-- Any units of work at once, each with the events it appends. -/
def appends : (language reader).Calls where
  Call := List Bytes
  Answer := Unit
  program := recordEvents sha256 reader

end Program

section Unit

variable {sha256 : Bytes → Bytes} {db now : Db} {count : Int}

theorem event_ne_head {seq : Int} : Key.event seq ≠ Key.head := nofun

/-- Two storages that read alike. -/
def Alike (db other : Db) : Prop := ∀ key : Key, db.lookup key = other.lookup key

theorem Alike.event (alike : Alike db now) (seq : Int) : db.event seq = now.event seq :=
  alike (.event seq)

theorem Alike.hashAt (alike : Alike db now) (seq : Int) : db.hashAt seq = now.hashAt seq := by
  rw [Db.hashAt, Db.hashAt, alike.event]

theorem Alike.head (alike : Alike db now) : readAuditHead db = readAuditHead now := alike .head

theorem WholeChain.alike (whole : WholeChain sha256 db count) (alike : Alike db now) :
    WholeChain sha256 now count where
  counted := whole.counted
  rows seq positive := by
    rw [← alike.event]
    exact whole.rows seq positive
  linked seq row positive found := by
    rw [← alike.event] at found
    have linked := whole.linked seq row positive found
    rw [Db.Links, alike.hashAt] at linked
    exact linked
  head := by
    rw [← alike.head, ← alike.hashAt]
    exact whole.head
  none_before seq early := by
    rw [← alike.event]
    exact whole.none_before seq early

theorem alike_overlay (alike : Alike db now) (writes : List (Write Row)) :
    Alike (overlay writes db) (overlay writes now) := by
  induction writes generalizing db now with
  | nil => exact alike
  | cons write rest ih =>
    apply ih
    intro key
    by_cases here : key = write.1
    · subst here
      rw [Write.lookup_apply, Write.lookup_apply]
    · rw [Write.lookup_apply_of_ne here, Write.lookup_apply_of_ne here]
      exact alike key

theorem wholeChain_empty : WholeChain sha256 ∅ 0 where
  counted := le_refl _
  rows seq positive := by simp [Db.event, positive]
  linked seq row positive found := by simp [Db.event] at found
  head := by simp [readAuditHead]
  none_before seq early := by simp [Db.event]

theorem WholeChain.unique {other : Int} (whole : WholeChain sha256 db count)
    (again : WholeChain sha256 db other) : count = other := by
  have first := whole.counted
  have second := again.counted
  rcases Int.lt_trichotomy count other with less | same | more
  · have := (whole.rows other (by omega)).mp ((again.rows other (by omega)).mpr (le_refl _))
    omega
  · exact same
  · have := (again.rows count (by omega)).mp ((whole.rows count (by omega)).mpr (le_refl _))
    omega

/-- A realm without a head has no event yet, and takes the first one. -/
theorem WholeChain.insertHead (whole : WholeChain sha256 db count)
    (absent : readAuditHead db = none) :
    WholeChain sha256 (db.insert .head ⟨0, GENESIS_HASH⟩) count := by
  have events : ∀ seq, Db.event (db.insert .head ⟨0, GENESIS_HASH⟩) seq = db.event seq :=
    fun seq => AList.lookup_insert_ne event_ne_head
  have hashes : ∀ seq, Db.hashAt (db.insert .head ⟨0, GENESIS_HASH⟩) seq = db.hashAt seq := by
    intro seq
    rw [Db.hashAt, Db.hashAt, events]
  have first : count = 0 := by
    have last := whole.head
    rwa [absent] at last
  refine ⟨⟨whole.counted, ?_, ?_, ?_⟩, ?_⟩
  · intro seq positive
    rw [events]
    exact whole.rows seq positive
  · intro seq row positive found
    rw [events] at found
    have linked := whole.linked seq row positive found
    rwa [Db.Links, hashes]
  · rw [readAuditHead, AList.lookup_insert, hashes, first]
    exact ⟨rfl, rfl⟩
  · intro seq early
    rw [events]
    exact whole.none_before seq early

/-- The event an append links after the head, and the head moved to it. -/
def Db.linkAfter (sha256 : Bytes → Bytes) (db : Db) (head : ChainPosition) (envelope : Bytes) : Db :=
  (db.insert (.event (head.seq + 1))
    ⟨head.hash, hashLink sha256 head.hash (head.seq + 1) envelope, envelope⟩).insert .head
      ⟨head.seq + 1, hashLink sha256 head.hash (head.seq + 1) envelope⟩

theorem WholeChain.linkAfter (whole : WholeChain sha256 db count) {head : ChainPosition}
    (held : readAuditHead db = some head) (envelope : Bytes) :
    head.seq = count ∧ WholeChain sha256 (db.linkAfter sha256 head envelope) (count + 1) := by
  have last := whole.head
  rw [held] at last
  obtain ⟨rfl, hash⟩ := last
  have counted := whole.counted
  have newest : (db.linkAfter sha256 head envelope).event (head.seq + 1) =
      some ⟨head.hash, hashLink sha256 head.hash (head.seq + 1) envelope, envelope⟩ := by
    rw [Db.event, Db.linkAfter, AList.lookup_insert_ne event_ne_head, AList.lookup_insert]
  have others : ∀ seq, seq ≠ head.seq + 1 →
      (db.linkAfter sha256 head envelope).event seq = db.event seq := by
    intro seq apart
    rw [Db.event, Db.linkAfter, AList.lookup_insert_ne event_ne_head,
      AList.lookup_insert_ne (by simpa using apart)]
    rfl
  have hashes : ∀ seq, seq ≤ head.seq →
      (db.linkAfter sha256 head envelope).hashAt seq = db.hashAt seq := by
    intro seq within
    rw [Db.hashAt, Db.hashAt, others seq (by omega)]
  refine ⟨rfl, ⟨by omega, ?_, ?_, ?_⟩, ?_⟩
  · intro seq positive
    by_cases here : seq = head.seq + 1
    · subst here
      simp [newest]
    · rw [others seq here, whole.rows seq positive]
      omega
  · intro seq row positive found
    by_cases here : seq = head.seq + 1
    · subst here
      obtain rfl := Option.some.inj (newest.symm.trans found)
      refine ⟨?_, rfl⟩
      rw [Int.add_sub_cancel, hashes _ (le_refl _)]
      exact hash
    · rw [others seq here] at found
      have within := (whole.rows seq positive).mp (by simp [found])
      have linked := whole.linked seq row positive found
      rwa [Db.Links, hashes (seq - 1) (by omega)]
  · rw [readAuditHead, Db.linkAfter, AList.lookup_insert]
    exact ⟨rfl, (hashAt_of_event (by omega) newest).symm⟩
  · intro seq early
    rw [others seq (by omega)]
    exact whole.none_before seq early

end Unit

section Sound

variable {sha256 : Bytes → Bytes} {reader : EnvelopeReader}

/-- A unit keeps the chain whole and its head in place, and moves an event
only while it holds the head. -/
def discipline (sha256 : Bytes → Bytes) (reader : EnvelopeReader) : Discipline (language reader) where
  Inv db := ∃ count, WholeChain sha256 db count
  Le db now := (readAuditHead db).isSome → (readAuditHead now).isSome
  le_refl _ present := present
  le_trans first second present := second (first present)
  Guarded key db now := key = Key.head → ∀ seq : Int, Db.event now seq = Db.event db seq
  guarded_refl _ _ _ _ := rfl
  guarded_trans first second same seq := (second same seq).trans (first same seq)
  Absent _ _ := True

/-- What a unit owes the chain: as many more events as it recorded. -/
def guarantee (sha256 : Bytes → Bytes) (envelopes : List Bytes) (_ : (language reader).Work)
    (before after : Db) : Prop :=
  ∀ count, WholeChain sha256 before count → WholeChain sha256 after (count + envelopes.length)

variable {work : (language reader).Work} {db now : Db}

/-- A unit holds the head of a chain of `count` events, and reads the storage
through its writes as `view`. -/
structure Holding (sha256 : Bytes → Bytes) (view : Db) (count : Int) (work : (language reader).Work)
    (db : Db) : Prop where
  held : (Key.head, LockMode.exclusive) ∈ work.locks
  whole : WholeChain sha256 db count
  view : Alike (overlay work.writes db) view

theorem alike_of_rely (held : (Key.head, LockMode.exclusive) ∈ work.locks)
    (rely : (discipline sha256 reader).Rely work db now) : Alike db now := by
  intro key
  cases key with
  | head => exact (rely.kept Key.head _ held).symm
  | event seq => exact (rely.guarded Key.head held rfl seq).symm

theorem Holding.stable {view : Db} {count : Int} (holding : Holding sha256 view count work db)
    (rely : (discipline sha256 reader).Rely work db now) : Holding sha256 view count work now := by
  have alike := alike_of_rely holding.held rely
  refine ⟨holding.held, holding.whole.alike alike, ?_⟩
  exact fun key => (alike_overlay alike _ key).symm.trans (holding.view key)

/-- A unit that has recorded so many events: it holds the head, or has yet to
write. -/
def Recorded (sha256 : Bytes → Bytes) (events : Nat) (work : (language reader).Work) (db : Db) :
    Prop :=
  (work.writes = [] ∧ events = 0) ∨ ∃ view count, Holding sha256 view count work db ∧
    WholeChain sha256 view (count + events) ∧ (readAuditHead view).isSome

theorem Recorded.stable {events : Nat} (recorded : Recorded sha256 events work db)
    (rely : (discipline sha256 reader).Rely work db now) : Recorded sha256 events work now := by
  rcases recorded with first | ⟨view, count, holding, whole⟩
  · exact Or.inl first
  · exact Or.inr ⟨view, count, holding.stable rely, whole⟩

/-- A statement of a unit that holds the head. -/
theorem Holding.ran {view : Db} {count : Int} (holding : Holding sha256 view count work db) (op : Op)
    (span : Span) (snapshot : Db) {writes : List (Write (language reader).Row)}
    (wrote : (run reader op (overlay work.writes snapshot) (overlay work.writes db)).1 = writes) :
    Holding sha256 (overlay writes view) count (work.ran op span snapshot db) db := by
  refine ⟨List.mem_append_left _ holding.held, holding.whole, ?_⟩
  have same : (work.ran op span snapshot db).writes = work.writes ++ writes :=
    congrArg (work.writes ++ ·) wrote
  rw [same, overlay_append]
  exact alike_overlay holding.view _

variable {α : Type} {post : α → (language reader).Work → Db → Prop} {envelopes : List Bytes}

/-- What is shown of the program of a unit. -/
abbrev Sound (sha256 : Bytes → Bytes) (envelopes : List Bytes) (prog : Program reader α)
    (post : α → (language reader).Work → Db → Prop) (work : (language reader).Work) (db : Db) : Prop :=
  prog.wp (discipline sha256 reader) (guarantee sha256 envelopes) post work db

theorem sound_statement {op : Op} {rest : Res op → Program reader α}
    (holds : ∀ snapshot now span, (discipline sha256 reader).Rely work db snapshot →
      (discipline sha256 reader).Rely work snapshot now →
      Sound sha256 envelopes
        (rest (run reader op (overlay work.writes snapshot) (overlay work.writes now)).2) post
        (work.ran op span snapshot now) now) :
    Sound sha256 envelopes (statement reader op >>= rest) post work db :=
  fun snapshot seen now rely span => holds snapshot now span seen rely

theorem sound_begin {rest : Unit → Program reader α}
    (holds : ∀ now, Sound sha256 envelopes (rest ()) post (work.finish false) now) :
    Sound sha256 envelopes (beginUnit >>= rest) post work db :=
  fun now _ => holds now

/-- A statement of a unit that holds the head: what it sees and what it finds
is what the unit reads. -/
theorem Holding.sound_statement {view : Db} {count : Int}
    (holding : Holding sha256 view count work db) {op : Op} {rest : Res op → Program reader α}
    (writes : List (Write (language reader).Row)) (result : Res op)
    (ran : ∀ seen found, Alike seen view → Alike found view → run reader op seen found = (writes, result))
    (holds : ∀ after now, Holding sha256 (overlay writes view) count after now →
      Sound sha256 envelopes (rest result) post after now) :
    Sound sha256 envelopes (statement reader op >>= rest) post work db := by
  apply Saffui.Audit.sound_statement
  intro snapshot now span seen rely
  have before := holding.stable seen
  have after := before.stable rely
  have told := ran _ _ before.view after.view
  rw [told]
  exact holds _ now (after.ran op span snapshot (congrArg Prod.fst told))

/-- The head is there for the unit to take: it wrote it, or it is kept. -/
def HeadReady (sha256 : Bytes → Bytes) (events : Nat) (work : (language reader).Work) (db : Db) :
    Prop :=
  Recorded sha256 events work db ∧ (readAuditHead (overlay work.writes db)).isSome

theorem HeadReady.stable {events : Nat} (ready : HeadReady sha256 events work db)
    (rely : (discipline sha256 reader).Rely work db now) : HeadReady sha256 events work now := by
  refine ⟨ready.1.stable rely, ?_⟩
  rcases ready.1 with ⟨none, -⟩ | ⟨view, count, holding, -⟩
  · have present := ready.2
    rw [none] at present ⊢
    exact rely.le present
  · have alike := alike_overlay (alike_of_rely holding.held rely) work.writes
    rw [← alike.head]
    exact ready.2

/-- What inserting the head writes, where the storage it finds has none. -/
def headWrites (found : Db) : List (Write Row) :=
  if (readAuditHead found).isSome then [] else [⟨.head, some ⟨0, GENESIS_HASH⟩⟩]

theorem run_insertHead {seen found : Db}
    (kept : (readAuditHead seen).isSome → (readAuditHead found).isSome) :
    run reader .insertHead seen found = (headWrites found, ()) := by
  unfold run headWrites
  cases present : (readAuditHead found).isSome with
  | true => simp
  | false =>
    have unseen : (readAuditHead seen).isSome = false := by
      cases there : (readAuditHead seen).isSome with
      | false => rfl
      | true => rw [kept there] at present; cases present
    simp [unseen]

theorem WholeChain.headWrites {found : Db} {count : Int} (whole : WholeChain sha256 found count) :
    WholeChain sha256 (overlay (headWrites found) found) count ∧
      (readAuditHead (overlay (headWrites found) found)).isSome := by
  unfold Audit.headWrites
  cases present : readAuditHead found with
  | some head => exact ⟨whole, by simp [present]⟩
  | none => exact ⟨whole.insertHead present, by simp [readAuditHead]⟩

theorem insertHead_sound {events : Nat} {rest : Unit → Program reader α}
    (recorded : Recorded sha256 events work db)
    (holds : ∀ after now, HeadReady sha256 events after now →
      Sound sha256 envelopes (rest ()) post after now) :
    Sound sha256 envelopes (statement reader .insertHead >>= rest) post work db := by
  rcases recorded with ⟨empty, rfl⟩ | ⟨view, count, holding, whole⟩
  · apply sound_statement
    intro snapshot now span seen rely
    apply holds
    have told : run reader .insertHead (overlay work.writes snapshot) (overlay work.writes now) =
        (headWrites now, ()) := by
      rw [empty]
      exact run_insertHead rely.le
    have writes : (work.ran .insertHead span snapshot now).writes = headWrites now := by
      change work.writes ++ (run reader .insertHead _ _).1 = headWrites now
      rw [told, empty]
      rfl
    obtain ⟨count, whole⟩ := rely.inv
    refine ⟨?_, ?_⟩
    · cases there : (readAuditHead snapshot).isSome with
      | true =>
        refine Or.inl ⟨?_, rfl⟩
        rw [writes, headWrites, if_pos (rely.le there)]
      | false =>
        refine Or.inr ⟨overlay (headWrites now) now, count, ⟨?_, whole, ?_⟩, ?_, whole.headWrites.2⟩
        · simp [Work.ran, locks, empty, there]
        · rw [writes]
          exact fun key => rfl
        · simpa using whole.headWrites.1
    · rw [writes]
      exact whole.headWrites.2
  · obtain ⟨whole, -⟩ := whole
    have same : ∀ found, Alike found view → headWrites found = headWrites view := by
      intro found alike
      rw [headWrites, headWrites, alike.head]
    apply holding.sound_statement (headWrites view)
    · intro seen found first last
      rw [run_insertHead, same found last]
      rw [first.head, last.head]
      exact id
    · intro after now holding
      apply holds
      refine ⟨Or.inr ⟨_, count, holding, whole.headWrites⟩, ?_⟩
      rw [holding.view.head]
      exact whole.headWrites.2

/-- A unit takes the head of the chain it reads. -/
theorem lockHead_sound {events : Nat} {rest : Option ChainPosition → Program reader α}
    (ready : HeadReady sha256 events work db)
    (holds : ∀ view count head after now, Holding sha256 view count after now →
      WholeChain sha256 view (count + events) → readAuditHead view = some head →
      Sound sha256 envelopes (rest (some head)) post after now) :
    Sound sha256 envelopes (statement reader .lockHead >>= rest) post work db := by
  apply sound_statement
  intro snapshot now span seen rely
  have before := ready.stable seen
  have after := before.stable rely
  obtain ⟨head, found⟩ := Option.isSome_iff_exists.mp after.2
  have told : run reader .lockHead (overlay work.writes snapshot) (overlay work.writes now) =
      ([], some head) := by
    simp [run, before.2, found]
  rw [told]
  have writes : (work.ran .lockHead span snapshot now).writes = work.writes := by
    simp only [Work.ran, told, List.append_nil]
  have taken : (Key.head, LockMode.exclusive) ∈ (work.ran .lockHead span snapshot now).locks := by
    simp [Work.ran, locks, before.2]
  rcases after.1 with ⟨empty, rfl⟩ | ⟨view, count, holding, whole⟩
  · obtain ⟨count, whole⟩ := rely.inv
    apply holds now count head _ now ⟨taken, whole, ?_⟩
    · simpa using whole
    · rwa [empty] at found
    · rw [writes, empty]
      exact fun key => rfl
  · apply holds view count head _ now ⟨taken, holding.whole, ?_⟩ whole.1
    · rw [← holding.view.head, found]
    · rw [writes]
      exact holding.view

theorem appendAuditEvent_sound {post : ChainPosition → (language reader).Work → Db → Prop}
    {events : Nat} (envelope : Bytes) (recorded : Recorded sha256 events work db)
    (holds : ∀ position after now, Recorded sha256 (events + 1) after now →
      post position after now) :
    Sound sha256 envelopes (appendAuditEvent sha256 reader envelope) post work db := by
  unfold appendAuditEvent
  split
  · trivial
  apply insertHead_sound recorded
  intro work db ready
  apply lockHead_sound ready
  intro view count head work db holding whole found
  obtain ⟨last, linked⟩ := whole.linkAfter found envelope
  dsimp only
  split
  · trivial
  have free : view.event (head.seq + 1) = none := by
    by_contra kept
    have counted := whole.counted
    have within := (whole.rows (head.seq + 1) (by omega)).mp (Option.isSome_iff_ne_none.mpr kept)
    omega
  cases columns : reader.givesColumns envelope with
  | false =>
    apply holding.sound_statement [] false
    · intro seen there _ _
      simp [run, columns]
    · intro after now _
      trivial
  | true =>
    let row : EventRow := ⟨head.hash, hashLink sha256 head.hash (head.seq + 1) envelope, envelope⟩
    have still : readAuditHead (overlay [⟨.event (head.seq + 1), some row⟩] view) = some head := by
      rw [overlay_cons_some, overlay_nil, readAuditHead, AList.lookup_insert_ne event_ne_head.symm]
      exact found
    apply holding.sound_statement [⟨.event (head.seq + 1), some row⟩] true
    · intro seen there _ alike
      simp [run, columns, alike.event, free, row]
    · intro work db holding
      apply holding.sound_statement [⟨.head, some ⟨head.seq + 1, row.hash⟩⟩] ()
      · intro seen there first second
        have seenHead := first.head.trans still
        have foundHead := second.head.trans still
        simp [run, seenHead, foundHead, row]
      · intro after now holding later rely
        apply holds
        refine Or.inr ⟨_, count, holding.stable rely, ?_, ?_⟩
        · have one_more : count + ((events + 1 : Nat) : Int) = count + events + 1 := by omega
          rw [one_more]
          exact linked
        · rw [overlay_cons_some, overlay_nil, readAuditHead, AList.lookup_insert]
          rfl

theorem appendEach_sound {post : Unit → (language reader).Work → Db → Prop} {events : Nat}
    (rest : List Bytes) (recorded : Recorded sha256 events work db)
    (holds : ∀ after now, Recorded sha256 (events + rest.length) after now → post () after now) :
    Sound sha256 envelopes (appendEach sha256 reader rest) post work db := by
  induction rest generalizing events work db with
  | nil => exact fun now rely => holds work now (recorded.stable rely)
  | cons envelope rest ih =>
    apply Prog.wp_bind
    apply appendAuditEvent_sound envelope recorded
    intro _ after now next
    apply ih next
    intro work db all
    apply holds
    rwa [List.length_cons, Nat.add_comm rest.length, ← Nat.add_assoc]

/-- A unit that recorded its events may commit. -/
theorem Recorded.commits (recorded : Recorded sha256 envelopes.length work db)
    (inv : ∃ count, WholeChain sha256 db count) :
    (discipline sha256 reader).Commits (guarantee sha256 envelopes) work db := by
  rcases recorded with ⟨empty, none⟩ | ⟨view, count, holding, whole⟩
  · refine ⟨?_, ?_, ?_, fun _ _ _ => trivial, ?_⟩
    · rwa [empty]
    · rw [empty]
      exact id
    · rw [empty]
      exact fun _ _ _ _ => rfl
    · intro count whole
      rw [empty, none]
      simpa using whole
  · have after : WholeChain sha256 (overlay work.writes db) (count + envelopes.length) :=
      whole.1.alike fun key => (holding.view key).symm
    refine ⟨⟨_, after⟩, ?_, ?_, fun _ _ _ => trivial, ?_⟩
    · intro _
      rw [holding.view.head]
      exact whole.2
    · intro key free same
      subst same
      exact absurd holding.held free
    · intro other before
      rwa [before.unique holding.whole]

def proof (sha256 : Bytes → Bytes) (reader : EnvelopeReader) : Proof (appends sha256 reader) where
  toDiscipline := discipline sha256 reader
  guar := guarantee sha256
  post _ _ _ _ := True
  calls envelopes db inv := by
    apply sound_begin
    intro now
    apply Prog.wp_bind
    apply appendEach_sound envelopes (Or.inl ⟨rfl, rfl⟩)
    intro after now recorded later rely
    rw [Nat.zero_add] at recorded
    exact ⟨(recorded.stable rely).commits rely.inv, fun _ _ => trivial⟩

end Sound

section Runs

variable {sha256 : Bytes → Bytes} {reader : EnvelopeReader} {mode : Mode}
  {world : World (appends sha256 reader)}

/-- How many events the units committed appended. -/
def eventsAppended (past : List (Commit (appends sha256 reader))) : Nat :=
  (past.map fun commit => commit.call.length).sum

theorem eventsAppended_cons (commit : Commit (appends sha256 reader))
    (older : List (Commit (appends sha256 reader))) :
    eventsAppended (commit :: older) = eventsAppended older + commit.call.length := by
  simp only [eventsAppended, List.map_cons, List.sum_cons]
  omega

/-- Each unit adds its own to what the one before it left. -/
theorem wholeChain_of_chained {start : Db} {count : Int} (whole : WholeChain sha256 start count)
    {past : List (Commit (appends sha256 reader))} (chained : Chained start past)
    (kept : ∀ commit ∈ past, guarantee sha256 commit.call commit.work commit.before commit.after) :
    WholeChain sha256 (dbOf start past) (count + eventsAppended past) := by
  induction past with
  | nil => simpa [eventsAppended, dbOf] using whole
  | cons commit older ih =>
    obtain ⟨from_older, chained⟩ := chained
    have before := ih chained fun one inside => kept one (List.mem_cons_of_mem _ inside)
    have grown := kept commit List.mem_cons_self
    rw [from_older] at grown
    have total : count + (eventsAppended (commit :: older) : Int) =
        count + eventsAppended older + commit.call.length := by
      rw [eventsAppended_cons]
      omega
    rw [total]
    exact grown _ before

/-- In every state committed the chain is whole, with the events appended. -/
theorem wholeChain_of_reachable {start : Db} {count : Int} (whole : WholeChain sha256 start count)
    (reached : Reachable (appends sha256 reader) mode start [] world) :
    WholeChain sha256 world.db (count + eventsAppended world.past) := by
  have sound := reached.sound (P := proof sha256 reader) ⟨count, whole⟩ fun _ _ => trivial
  rw [reached.history.db]
  exact wholeChain_of_chained whole reached.history.chained fun commit inside =>
    (sound.past commit inside).guar

end Runs

/-- Verification reads no event numbered below 1, so it tells a whole chain
from another where there is none, or where what follows breaks by itself. -/
theorem verifyChain_iff_wholeChain_iff (sha256 : Bytes → Bytes) (db : Db) :
    (∀ page, 0 < page → ∀ count,
      verifyChain sha256 db page = some (.intact count) ↔ WholeChain sha256 db count) ↔
      (∀ seq, seq ≤ 0 → db.event seq = none) ∨ ∀ count, ¬ ChainFromFirst sha256 db count := by
  constructor
  · intro told
    by_contra neither
    rw [not_or] at neither
    obtain ⟨stray, chain⟩ := neither
    simp only [not_forall, not_not] at chain
    obtain ⟨count, chain⟩ := chain
    have intact := (verifyChain_eq_intact_iff sha256 db (by decide : 0 < PAGE) count).mpr chain
    exact stray ((told PAGE (by decide) count).mp intact).none_before
  · intro condition page positive count
    rw [verifyChain_eq_intact_iff sha256 db positive]
    rcases condition with none_before | broken
    · exact ⟨fun chain => ⟨chain, none_before⟩, fun whole => whole.toChainFromFirst⟩
    · exact iff_of_false (broken count) fun whole => broken count whole.toChainFromFirst

/-- Whatever units append at once, every state they commit verifies as intact
with the events appended; and, whatever the storage holds, verification tells
the whole chains exactly where no event is numbered below 1, or the others
are no chain. -/
theorem verifyChain_intact_iff (sha256 : Bytes → Bytes) :
    (∀ reader mode (world : World (appends sha256 reader)),
      Reachable (appends sha256 reader) mode ∅ [] world → ∀ page, 0 < page →
        verifyChain sha256 world.db page = some (.intact (eventsAppended world.past))) ∧
    ∀ db : Db, (∀ page, 0 < page → ∀ count,
      verifyChain sha256 db page = some (.intact count) ↔ WholeChain sha256 db count) ↔
      (∀ seq, seq ≤ 0 → db.event seq = none) ∨ ∀ count, ¬ ChainFromFirst sha256 db count := by
  refine ⟨?_, verifyChain_iff_wholeChain_iff sha256⟩
  intro reader mode world reached page positive
  rw [verifyChain_eq_intact_iff sha256 world.db positive]
  have whole := wholeChain_of_reachable wholeChain_empty reached
  rw [Int.zero_add] at whole
  exact whole.toChainFromFirst

/-- A digest to run with: the last 32 bytes. -/
def lastBytes (bytes : Bytes) : Bytes := bytes.drop (bytes.length - 32)

def everyEnvelope : EnvelopeReader where
  namesScope _ := true
  givesColumns _ := true

/-- Two units append at once: the second waits for the first to commit. -/
def appendTwice : List (Label (appends lastBytes everyEnvelope)) :=
  [.call [[1], [2]], .call [[3]], .turn 0, .turn 1, .start 0, .start 1, .finish 0,
    .start 0, .finish 0, .start 0, .finish 0, .start 0, .finish 0,
    .start 0, .finish 0, .start 0, .finish 0, .start 0, .finish 0, .start 0, .finish 0, .turn 0,
    .finish 1, .start 1, .finish 1, .start 1, .finish 1, .start 1, .finish 1, .turn 1]

theorem appendTwice_intact : ∃ world, Reachable (appends lastBytes everyEnvelope) .waiting ∅ [] world ∧
    verifyChain lastBytes world.db PAGE = some (.intact 3) := by
  have ran : ((World.initial ∅ []).run .waiting appendTwice).map
      (fun world => eventsAppended world.past) = some 3 := by
    decide +kernel
  obtain ⟨world, ran, counted⟩ := Option.map_eq_some_iff.mp ran
  have reached := Reachable.initial.of_run ran
  have intact := (verifyChain_intact_iff lastBytes).1 everyEnvelope .waiting world reached PAGE
    (by decide)
  rw [counted] at intact
  exact ⟨world, reached, intact⟩

/-- A realm without a head that keeps one event, numbered 0. -/
def strayEvent : Db := (∅ : Db).insert (.event 0) ⟨GENESIS_HASH, GENESIS_HASH, []⟩

theorem strayEvent_intact : ¬ ∀ count, verifyChain lastBytes strayEvent PAGE = some (.intact count) ↔
    WholeChain lastBytes strayEvent count := by
  intro told
  have intact : verifyChain lastBytes strayEvent PAGE = some (.intact 0) := by decide +kernel
  have absent := ((told 0).mp intact).none_before 0 (le_refl _)
  have kept : (Db.event strayEvent 0).isSome := by decide +kernel
  rw [absent] at kept
  cases kept

end Saffui.Audit
