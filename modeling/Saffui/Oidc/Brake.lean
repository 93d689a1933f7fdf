import Saffui.Foundation.Alone
import Saffui.Foundation.Bytes
import Saffui.Foundation.Tallies
import Saffui.Oidc.Login

/-!
# The brake, one attempt after the other

Source: `saffui-core/src/login/throttle.rs`, over `steps/password.rs`,
`steps/totp.rs` and `steps/webauthn.rs`. `judge` is what the steps have in
common: an attempt is counted against its address where a password is to be
hashed, the lock of its name is read, and the guess is judged. Run alone, it
is `handle`, a function of the counters.
-/

namespace Saffui.Oidc
open Saffui.Foundation Saffui.Foundation.Language
open Saffui.Foundation.Bytes (bigEndian bigEndian_length bigEndian_injective)

inductive IpAddr where
  | v4 (one two three four : UInt8)
  | v6 (segments : Vector UInt16 8)
  deriving DecidableEq

/-- An IPv4 address written as IPv6 is itself. -/
def IpAddr.toCanonical : IpAddr → IpAddr
  | .v4 one two three four => .v4 one two three four
  | .v6 segments =>
    if segments[0] = 0 ∧ segments[1] = 0 ∧ segments[2] = 0 ∧ segments[3] = 0 ∧ segments[4] = 0 ∧
        segments[5] = 0xffff then
      .v4 (segments[6] >>> 8).toUInt8 segments[6].toUInt8 (segments[7] >>> 8).toUInt8
        segments[7].toUInt8
    else .v6 segments

/-- What is counted as one address: an IPv4 address, or a /64. -/
inductive Network where
  | host (one two three four : UInt8)
  | subscriber (one two three four : UInt16)
  deriving DecidableEq

def IpAddr.network (address : IpAddr) : Network :=
  match address.toCanonical with
  | .v4 one two three four => .host one two three four
  | .v6 segments => .subscriber segments[0] segments[1] segments[2] segments[3]

def hexadecimal (value : UInt16) : String := String.ofList (Nat.toDigits 16 value.toNat)

def writeAddressBucket (address : IpAddr) : String :=
  match address.toCanonical with
  | .v6 segments =>
    hexadecimal segments[0] ++ ":" ++ hexadecimal segments[1] ++ ":" ++ hexadecimal segments[2]
      ++ ":" ++ hexadecimal segments[3] ++ "::/64"
  | .v4 one two three four =>
    toString one.toNat ++ "." ++ toString two.toNat ++ "." ++ toString three.toNat ++ "."
      ++ toString four.toNat

/-- What the counters name a network. -/
def Network.bucket : Network → String
  | .host one two three four =>
    toString one.toNat ++ "." ++ toString two.toNat ++ "." ++ toString three.toNat ++ "."
      ++ toString four.toNat
  | .subscriber one two three four =>
    hexadecimal one ++ ":" ++ hexadecimal two ++ ":" ++ hexadecimal three ++ ":" ++ hexadecimal four
      ++ "::/64"

/-- The addresses of a network are counted as one. -/
theorem writeAddressBucket_eq (address : IpAddr) :
    writeAddressBucket address = address.network.bucket := by
  unfold IpAddr.network writeAddressBucket
  cases address.toCanonical <;> rfl

example : writeAddressBucket (.v6 #v[0x2001, 0xdb8, 1, 2, 0xaaaa, 0, 0, 1]) = "2001:db8:1:2::/64"
    ∧ writeAddressBucket (.v6 #v[0, 0, 0, 0, 0, 0xffff, 0xc000, 0x207]) = "192.0.2.7" := by decide

def CounterPart.bytes : CounterPart → Bytes
  | .text typed => Text.utf8 typed
  | .device known => bigEndian 16 known.val

/-- What a counter is digested from: its kind, and its parts each ended by a
zero byte. -/
def writeCounter (kind : Nat) (parts : List CounterPart) : Bytes :=
  UInt8.ofNat kind :: parts.flatMap fun part => part.bytes ++ [0]

theorem kind_eq_of_written {kind other : Nat} {parts others : List CounterPart}
    (same : writeCounter kind parts = writeCounter other others) :
    UInt8.ofNat kind = UInt8.ofNat other := (List.cons.inj same).1

theorem device_eq_of_written {kind other : Nat} {device known : Uuid}
    {parts others : List CounterPart}
    (same : writeCounter kind (.device device :: parts)
      = writeCounter other (.device known :: others)) : device = known := by
  have written := (List.cons.inj same).2
  simp only [List.flatMap_cons, CounterPart.bytes, List.append_assoc] at written
  have bytes := (List.append_inj written (by simp [bigEndian_length])).1
  have small : ∀ id : Uuid, id.val < 256 ^ 16 := fun id => id.isLt
  exact Fin.ext (bigEndian_injective (small device) (small known) bytes)

/-- What a guess is worth, once it is judged: it proves nothing, it proves
what the step asks and the person owes another, or it opens a session. -/
inductive Guess where
  | wrong
  | owing
  | opening
  deriving DecidableEq

structure Attempt where
  now : Instant
  typed : String
  caller : Option IpAddr
  /-- The browser, where the realm keeps it for the person of the name. -/
  browser : Option Uuid
  /-- A password, which is hashed; a code and a key are not. -/
  hashed : Bool
  guess : Guess
  deriving DecidableEq

inductive Verdict where
  | locked
  | failed
  | proven
  deriving DecidableEq

/-- What an attempt is answered: a verdict, or a refusal before any. -/
abbrev Handled := Except Refusal Verdict

/-- What a guess that was let through counts for. -/
def Guess.settle (guess : Guess) (brake : Brake) (now : Instant) : Run Verdict :=
  match guess with
  | .wrong => do
    beginWork
    brake.recordFailure now
    commitWork
    return .failed
  | .owing => return .proven
  | .opening => do
    beginWork
    brake.forgetBrowserFailures
    commitWork
    return .proven

/-- A password is counted before it is judged. -/
def Brake.admitHash (brake : Brake) (now : Instant) (hashed : Bool) : Run Unit :=
  if hashed then brake.admit now else pure ()

/-- Judges a guess under its counters. -/
def Brake.judge (brake : Brake) (now : Instant) (hashed : Bool) (guess : Guess) : Run Verdict := do
  brake.admitHash now hashed
  let locked ← brake.isNameLocked now
  commitWork
  if locked then return .locked else guess.settle brake now

/-- What the steps of a sign-in have in common. -/
def judge (app : App) (typed : String) (hashed : Bool) (guess : Guess) : Run Verdict := do
  let brake ← Brake.ofTyped app typed
  let now ← tellNow
  beginWork
  let brake ← brake.ofCaller app typed none
  brake.judge now hashed guess

/-- What the surroundings of an attempt answer. -/
def Attempt.surroundings (attempt : Attempt) : (question : Ask) → Ans question
  | .now => attempt.now
  | .callerAddress => attempt.caller.map writeAddressBucket
  | .knownBrowser _ | .keptBrowser => attempt.browser
  | .hasFreeShare | .signs => true
  | .startProof _ | .startEnrollment _ _ => none
  | .sealTotpSecret _ => none
  | .findTotpStep _ _ _ => .ok none

/-- Handles an attempt while no other is. -/
def handle (app : App) (attempt : Attempt) (db : Db) : Handled × Db :=
  let ran := (judge app attempt.typed attempt.hashed attempt.guess).alone attempt.surroundings
    (fun _ => Drawn.secret []) ⟨db, [], 0⟩
  (ran.1, ran.2.db)

/-- What each counter holds since an instant. -/
abbrev Counts := Bytes → Instant → Nat

namespace Counts

def record (counts : Counts) (digest : Bytes) (bucket : Instant) : Counts := fun other since =>
  if other = digest ∧ bucket ≥ since then counts other since + 1 else counts other since

def forget (counts : Counts) (digest : Bytes) : Counts := fun other since =>
  if other = digest then 0 else counts other since

end Counts

def Db.counts (db : Db) : Counts := fun digest since => tally db (pickFailures digest since)

/-- A statement that picks no row changes none. -/
theorem hits_eq_nil {op : Op} {seen now : Db} (unpicked : ∀ key row, picks op seen key row = false) :
    hits op seen now = [] := by
  apply List.eq_nil_iff_forall_not_mem.mpr
  intro key hit
  obtain ⟨⟨row, -, picked⟩, -⟩ := mem_hits.mp hit
  rw [unpicked] at picked
  cases picked

theorem run_countLoginFailures (digest : Bytes) (since : Instant) (db : Db) :
    run (.countLoginFailures digest since) db db = ([], Db.counts db digest since) := by
  have nothing : writes (.countLoginFailures digest since) db db = [] := by
    rw [writes, hits_eq_nil fun _ _ => rfl]
    rfl
  rw [run, nothing]
  rfl

theorem share_loginFailures (digest other : Bytes) (bucket since : Instant) (row : Option Nat) :
    share (pickFailures other since) (.loginFailures digest bucket) row
      = if other = digest ∧ bucket ≥ since then row.getD 0 else 0 := by
  cases row with
  | none => simp [share]
  | some held =>
    by_cases same : digest = other ∧ bucket ≥ since
    · have flipped : other = digest ∧ bucket ≥ since := ⟨same.1.symm, same.2⟩
      simp [share, pickFailures, same]
    · have flipped : ¬(other = digest ∧ bucket ≥ since) := fun both => same ⟨both.1.symm, both.2⟩
      simp [share, pickFailures, same, flipped]

theorem counts_recordLoginFailure (digest : Bytes) (bucket : Instant) (db : Db) :
    Db.counts (overlay (run (.recordLoginFailure digest bucket) db db).1 db)
      = (Db.counts db).record digest bucket := by
  let held : Option Nat := db.lookup (.loginFailures digest bucket)
  have written : (run (.recordLoginFailure digest bucket) db db).1
      = [⟨.loginFailures digest bucket, some (held.elim 1 (· + 1))⟩] := by
    change writes (.recordLoginFailure digest bucket) db db = _
    rw [writes, hits_eq_nil fun _ _ => rfl]
    rfl
  rw [written, overlay_cons_some, overlay_nil]
  funext other since
  have inserted := tally_insert (pickFailures other since) db (.loginFailures digest bucket)
    (held.elim 1 (· + 1))
  have old := share_loginFailures digest other bucket since held
  have new := share_loginFailures digest other bucket since (some (held.elim 1 (· + 1)))
  have more : held.elim 1 (· + 1) = held.getD 0 + 1 := by cases held <;> rfl
  change tally _ _ = _
  unfold Counts.record Db.counts
  rw [old, new, more] at inserted
  split at inserted <;> simp_all
  omega

theorem counts_forgetLoginFailures (digest : Bytes) (db : Db) :
    Db.counts (overlay (run (.forgetLoginFailures digest) db db).1 db)
      = (Db.counts db).forget digest := by
  have written : (run (.forgetLoginFailures digest) db db).1
      = writeEach (hits (.forgetLoginFailures digest) db db) fun key =>
          (db.lookup key).bind (sets (.forgetLoginFailures digest) key) := by
    change writes (.forgetLoginFailures digest) db db = _
    rw [writes]
    exact List.append_nil _
  rw [written]
  funext other since
  unfold Counts.forget Db.counts
  by_cases same : other = digest
  · subst same
    rw [if_pos rfl]
    have empty : scan (overlay (writeEach (hits (.forgetLoginFailures other) db db) fun key =>
        (db.lookup key).bind (sets (.forgetLoginFailures other) key)) db)
        (pickFailures other since) = [] := by
      apply List.eq_nil_iff_forall_not_mem.mpr
      intro failures inside
      obtain ⟨key, row, found, picked⟩ := mem_scan_iff.mp inside
      cases key with
      | loginFailures one bucket =>
        have here : one = other := by
          by_contra apart
          simp [pickFailures, apart] at picked
        subst here
        rw [lookup_overlay_writeEach] at found
        split at found
        · cases held : db.lookup (.loginFailures one bucket) with
          | none => simp [held] at found
          | some failures => simp [held, sets] at found
        · rename_i unhit
          apply unhit
          have chosen : picks (.forgetLoginFailures one) db (.loginFailures one bucket) row = true :=
            decide_eq_true rfl
          exact mem_hits.mpr ⟨⟨row, found, chosen⟩, row, found, chosen⟩
      | _ => cases picked
    rw [tally, empty]
    rfl
  · rw [if_neg same]
    apply tally_overlay
    intro write inside row
    obtain ⟨hit, -⟩ := mem_writeEach_iff.mp inside
    obtain ⟨⟨kept, -, picked⟩, -⟩ := mem_hits.mp hit
    obtain ⟨key, change⟩ := write
    cases key with
    | loginFailures one bucket =>
      have here : one = digest := of_decide_eq_true picked
      have apart : ¬(one = other) := fun both => same (both.symm.trans here)
      simp [pickFailures, apart]
    | _ => rfl

namespace Brake

section Counters

variable (app : App) (typed : String)

/-- The counters of what was typed from an address, where they digest. -/
def read (address : Option String) : Option Brake := do
  let name ← app.digestCounter 1 [.text typed]
  let nameToday ← app.digestCounter 5 [.text typed]
  match address with
  | none => some ⟨name, nameToday, none, none, none⟩
  | some address =>
    let byAddress ← app.digestCounter 2 [.text address]
    let byBoth ← app.digestCounter 3 [.text address, .text typed]
    some ⟨name, nameToday, some byAddress, some byBoth, none⟩

/-- The brake with the counters of a browser that is known, where they
digest. -/
def readBrowser (brake : Brake) : Option Uuid → Option Brake
  | none => some brake
  | some device => do
    let attempts ← app.digestCounter 10 [.device device]
    let recent ← app.digestCounter 6 [.device device, .text typed]
    let today ← app.digestCounter 7 [.device device, .text typed]
    some { brake with browser := some ⟨attempts, recent, today⟩ }

end Counters

variable (brake : Brake) (now : Instant) (counts : Counts)

/-- What an attempt is counted under, and how many there may be. -/
def attempts : Option Bytes × Nat :=
  match brake.browser with
  | some browser => (some browser.attempts, MAX_RECENT_ATTEMPTS_PER_BROWSER)
  | none => (brake.address, MAX_RECENT_ATTEMPTS_PER_ADDRESS)

/-- The counters once an attempt is admitted; none, where it is not. -/
def admitted : Option Counts :=
  match brake.attempts with
  | (none, _) => some counts
  | (some counter, most) =>
    if counts counter (startWindow now) ≥ most then none
    else some (counts.record counter (startBucket now))

def locked : Bool :=
  match brake.browser with
  | some browser => isLocked (counts browser.recent (startWindow now)) ||
      decide (counts browser.today (startLongWindow now) ≥ MAX_DAILY_FAILURES_PER_BROWSER)
  | none => (match brake.addressAndName with
      | some byBoth => isLocked (counts byBoth (startWindow now)) ||
          decide (counts brake.name (startWindow now) ≥ MAX_RECENT_FAILURES_PER_NAME)
      | none => isLocked (counts brake.name (startWindow now))) ||
      decide (counts brake.nameToday (startLongWindow now) ≥ MAX_DAILY_FAILURES)

def failed : Counts :=
  let today := counts.record brake.nameToday (startLongBucket now)
  match brake.browser with
  | some browser =>
    (today.record browser.recent (startBucket now)).record browser.today (startLongBucket now)
  | none =>
    let named := today.record brake.name (startBucket now)
    match brake.addressAndName with
    | some byBoth => named.record byBoth (startBucket now)
    | none => named

def forgot : Counts :=
  match brake.browser with
  | some browser => (counts.forget browser.recent).forget browser.today
  | none => counts

end Brake

def Attempt.brake (app : App) (attempt : Attempt) : Option Brake := do
  let brake ← Brake.read app attempt.typed (attempt.caller.map writeAddressBucket)
  brake.readBrowser app attempt.typed attempt.browser

/-- What a guess that is let through is worth, and leaves the counters at. -/
def Guess.settled (guess : Guess) (brake : Brake) (now : Instant) (counts : Counts) :
    Verdict × Counts :=
  match guess with
  | .wrong => (.failed, brake.failed now counts)
  | .owing => (.proven, counts)
  | .opening => (.proven, brake.forgot counts)

/-- What a guess is worth that nothing stopped before its lock is read. -/
def Brake.weighed (brake : Brake) (now : Instant) (guess : Guess) (counts : Counts) :
    Handled × Counts :=
  if brake.locked now counts then (.ok .locked, counts)
  else (.ok (guess.settled brake now counts).1, (guess.settled brake now counts).2)

/-- What a guess is worth under its counters. -/
def Brake.judged (brake : Brake) (now : Instant) (hashed : Bool) (guess : Guess) (counts : Counts) :
    Handled × Counts :=
  match if hashed then brake.admitted now counts else some counts with
  | none => (.error (.failed .hashingBusy), counts)
  | some counts => brake.weighed now guess counts

/-- What an attempt is answered, and leaves the counters at. -/
def Attempt.settled (app : App) (attempt : Attempt) (counts : Counts) : Handled × Counts :=
  match attempt.brake app with
  | none => (.error (.failed .cryptoUnavailable), counts)
  | some brake => brake.judged attempt.now attempt.hashed attempt.guess counts

section Alone

variable {app : App} {surroundings : (question : Ask) → Ans question} {draw : Nat → Drawn}
  {here : Alone language}

/-- A statement that writes nothing leaves its unit as it is. -/
theorem query_alone {op : Op} (silent : writes op here.seen here.seen = []) :
    (query op).alone surroundings draw here = (.ok (answer op here.seen here.seen), here) := by
  have still : here.ran op = here := by
    unfold Alone.ran
    rw [show language.run op here.seen here.seen = (writes op here.seen here.seen, _) from rfl, silent,
      List.append_nil]
  change (Except.ok _, here.ran op) = _
  rw [still]
  rfl

theorem query_count (digest : Bytes) (since : Instant) :
    (query (.countLoginFailures digest since)).alone surroundings draw here
      = (.ok (Db.counts here.seen digest since), here) :=
  query_alone (congrArg Prod.fst (run_countLoginFailures digest since here.seen))

/-- A program answers, changes no more than its unit, and leaves the counters
so. -/
def Leaves {α : Type} (surroundings : (question : Ask) → Ans question) (draw : Nat → Drawn)
    (here : Alone language) (program : Run α) (value : α) (counts : Counts) : Prop :=
  ∃ later, program.alone surroundings draw here = (.ok value, later) ∧ later.db = here.db ∧
    Db.counts later.seen = counts

theorem query_record (digest : Bytes) (bucket : Instant) :
    Leaves surroundings draw here (query (.recordLoginFailure digest bucket)) ()
      ((Db.counts here.seen).record digest bucket) := by
  refine ⟨here.ran (.recordLoginFailure digest bucket), rfl, rfl, ?_⟩
  rw [Alone.seen_ran]
  exact counts_recordLoginFailure digest bucket here.seen

theorem query_forget (digest : Bytes) :
    Leaves surroundings draw here (query (.forgetLoginFailures digest)) ()
      ((Db.counts here.seen).forget digest) := by
  refine ⟨here.ran (.forgetLoginFailures digest), rfl, rfl, ?_⟩
  rw [Alone.seen_ran]
  exact counts_forgetLoginFailures digest here.seen

theorem Leaves.bind {α β : Type} {program : Run α} {next : α → Run β} {value : α} {result : β}
    {middle counts : Counts} (first : Leaves surroundings draw here program value middle)
    (second : ∀ later : Alone language, Db.counts later.seen = middle →
      Leaves surroundings draw later (next value) result counts) :
    Leaves surroundings draw here (program >>= next) result counts := by
  obtain ⟨later, ran, same, counted⟩ := first
  obtain ⟨last, ended, kept, left⟩ := second later counted
  exact ⟨last, (Prog.alone_bind_ok ran).trans ended, kept.trans same, left⟩

theorem digestCounter_alone (kind : Nat) (parts : List CounterPart) :
    (digestCounter app kind parts).alone surroundings draw here
      = match app.digestCounter kind parts with
        | some digest => (.ok digest, here)
        | none => (.error (.failed .cryptoUnavailable), here.dropped) := by
  unfold digestCounter
  cases app.digestCounter kind parts <;> rfl

theorem ofTyped_alone (typed : String) :
    (Brake.ofTyped app typed).alone surroundings draw here
      = match Brake.read app typed (surroundings .callerAddress) with
        | some brake => (.ok brake, here)
        | none => (.error (.failed .cryptoUnavailable), here.dropped) := by
  have asked : (ask .callerAddress).alone surroundings draw here
      = (.ok (surroundings .callerAddress), here) := rfl
  unfold Brake.ofTyped
  rw [Prog.alone_bind_ok asked]
  unfold digestNameLocks Brake.read
  simp only [Prog.alone_bind, digestCounter_alone]
  cases app.digestCounter 1 [.text typed] with
  | none => rfl
  | some name =>
    cases app.digestCounter 5 [.text typed] with
    | none => rfl
    | some nameToday =>
      cases surroundings .callerAddress with
      | none => rfl
      | some address =>
        have answered : (pure (name, nameToday) : Run (Bytes × Bytes)).alone surroundings draw here
            = (.ok (name, nameToday), here) := rfl
        simp only [answered, Prog.alone_bind, digestCounter_alone, Option.bind_eq_bind,
          Option.bind_some]
        cases app.digestCounter 2 [.text address] with
        | none => rfl
        | some byAddress =>
          cases app.digestCounter 3 [.text address, .text typed] <;> rfl

theorem ofCaller_alone (brake : Brake) (typed : String) (person : Option Uuid) :
    (brake.ofCaller app typed person).alone surroundings draw here
      = match brake.readBrowser app typed (surroundings (.knownBrowser person)) with
        | some brake => (.ok brake, here)
        | none => (.error (.failed .cryptoUnavailable), here.dropped) := by
  have asked : (ask (.knownBrowser person)).alone surroundings draw here
      = (.ok (surroundings (.knownBrowser person)), here) := rfl
  unfold Brake.ofCaller
  rw [Prog.alone_bind_ok asked]
  cases surroundings (.knownBrowser person) with
  | none => rfl
  | some device =>
    simp only [Brake.countBrowserApart, Brake.readBrowser, Prog.alone_bind, digestCounter_alone]
    cases app.digestCounter 10 [.device device] with
    | none => rfl
    | some attempts =>
      cases app.digestCounter 6 [.device device, .text typed] with
      | none => rfl
      | some recent => cases app.digestCounter 7 [.device device, .text typed] <;> rfl

theorem isNameLocked_alone (brake : Brake) (now : Instant) :
    (brake.isNameLocked now).alone surroundings draw here
      = (.ok (brake.locked now (Db.counts here.seen)), here) := by
  unfold Brake.isNameLocked Brake.locked
  cases brake.browser with
  | some browser =>
    rw [Prog.alone_bind_ok (query_count _ _)]
    by_cases recently : isLocked (Db.counts here.seen browser.recent (startWindow now))
    · simp only [recently, if_true, Bool.true_or]
      rfl
    · simp only [recently, Bool.false_eq_true, if_false, Bool.false_or]
      rw [Prog.alone_bind_ok (query_count _ _)]
      rfl
  | none =>
    rw [Prog.alone_bind_ok (query_count _ _), Prog.alone_bind_ok (query_count _ _)]
    cases brake.addressAndName with
    | none => rfl
    | some byBoth =>
      change (query _ >>= _).alone surroundings draw here = _
      rw [Prog.alone_bind_ok (query_count _ _)]
      rfl

/-- Counts an attempt under a counter, or refuses it. -/
def admitUnder (now : Instant) (counter : Bytes) (most : Nat) : Run Unit := do
  let recent ← query (.countLoginFailures counter (startWindow now))
  refuseIf (recent ≥ most) .hashingBusy
  query (.recordLoginFailure counter (startBucket now))

theorem admit_eq (brake : Brake) (now : Instant) :
    brake.admit now = brake.attempts.1.elim (pure ()) fun counter =>
      admitUnder now counter brake.attempts.2 := by
  unfold Brake.admit Brake.attempts
  cases brake.browser with
  | some browser => rfl
  | none => cases brake.address <;> rfl

/-- An attempt that is admitted is in the counters of its unit. -/
theorem admit_leaves {brake : Brake} {now : Instant} {counts : Counts}
    (admitted : brake.admitted now (Db.counts here.seen) = some counts) :
    Leaves surroundings draw here ( brake.admit now) () counts := by
  rw [admit_eq]
  unfold Brake.admitted at admitted
  rcases chosen : brake.attempts with ⟨counter, most⟩
  rw [chosen] at admitted
  cases counter with
  | none =>
    cases admitted
    exact ⟨here, rfl, rfl, rfl⟩
  | some counter =>
    simp only at admitted
    split at admitted
    · cases admitted
    · rename_i few
      cases admitted
      have passed : (refuseIf (decide (Db.counts here.seen counter (startWindow now) ≥ most))
          .hashingBusy).alone surroundings draw here = (.ok (), here) := by
        rw [decide_eq_false few]
        rfl
      obtain ⟨later, recorded, same, counted⟩ := query_record counter (startBucket now)
      refine ⟨later, ?_, same, counted⟩
      change (admitUnder now counter most).alone surroundings draw here = _
      unfold admitUnder
      rw [Prog.alone_bind_ok (query_count _ _), Prog.alone_bind_ok passed]
      exact recorded

theorem admit_refuses {brake : Brake} {now : Instant}
    (refused : brake.admitted now (Db.counts here.seen) = none) :
    ( brake.admit now).alone surroundings draw here
      = (.error (.failed .hashingBusy), here.dropped) := by
  rw [admit_eq]
  unfold Brake.admitted at refused
  rcases chosen : brake.attempts with ⟨counter, most⟩
  rw [chosen] at refused
  cases counter with
  | none => cases refused
  | some counter =>
    simp only at refused
    split at refused
    · rename_i many
      have stopped : (refuseIf (decide (Db.counts here.seen counter (startWindow now) ≥ most))
          .hashingBusy).alone surroundings draw here
          = (.error (.failed .hashingBusy), here.dropped) := by
        rw [decide_eq_true many]
        rfl
      change (admitUnder now counter most).alone surroundings draw here = _
      unfold admitUnder
      rw [Prog.alone_bind_ok (query_count _ _), Prog.alone_bind_error stopped]
    · cases refused

theorem recordFailure_leaves (brake : Brake) (now : Instant) :
    Leaves surroundings draw here (brake.recordFailure now) ()
      (brake.failed now (Db.counts here.seen)) := by
  unfold Brake.recordFailure Brake.failed
  apply Leaves.bind (query_record _ _)
  intro first named
  cases brake.browser with
  | some browser =>
    apply Leaves.bind (query_record _ _)
    intro second recent
    simp only [← named, ← recent]
    exact query_record _ _
  | none =>
    apply Leaves.bind (query_record _ _)
    intro second locked
    cases brake.addressAndName with
    | some byBoth =>
      simp only [← named, ← locked]
      exact query_record _ _
    | none =>
      simp only [← named, ← locked]
      exact ⟨second, rfl, rfl, rfl⟩

theorem forgetBrowserFailures_leaves (brake : Brake) :
    Leaves surroundings draw here brake.forgetBrowserFailures ()
      (brake.forgot (Db.counts here.seen)) := by
  unfold Brake.forgetBrowserFailures Brake.forgot
  cases brake.browser with
  | some browser =>
    apply Leaves.bind (query_forget _)
    intro later recent
    simp only [← recent]
    exact query_forget _
  | none => exact ⟨here, rfl, rfl, rfl⟩

theorem commitWork_alone : commitWork.alone surroundings draw here = (.ok (), here.commit) := rfl

/-- A guess is settled in a unit of its own. -/
theorem settle_alone (guess : Guess) (brake : Brake) (now : Instant) :
    ∃ later, (guess.settle brake now).alone surroundings draw here
        = (.ok (guess.settled brake now (Db.counts here.db)).1, later) ∧
      Db.counts later.db = (guess.settled brake now (Db.counts here.db)).2 := by
  have began : beginWork.alone surroundings draw here = (.ok (), here.dropped) := rfl
  cases guess with
  | wrong =>
    have recorded : Leaves surroundings draw here.dropped (brake.recordFailure now) ()
      (brake.failed now (Db.counts here.db)) := recordFailure_leaves brake now
    obtain ⟨last, ran, -, counted⟩ := recorded
    refine ⟨last.commit, ?_, counted⟩
    unfold Guess.settle
    rw [Prog.alone_bind_ok began, Prog.alone_bind_ok ran, Prog.alone_bind_ok commitWork_alone]
    rfl
  | owing => exact ⟨here, rfl, rfl⟩
  | opening =>
    have cleared : Leaves surroundings draw here.dropped brake.forgetBrowserFailures ()
      (brake.forgot (Db.counts here.db)) := forgetBrowserFailures_leaves brake
    obtain ⟨last, ran, -, counted⟩ := cleared
    refine ⟨last.commit, ?_, counted⟩
    unfold Guess.settle
    rw [Prog.alone_bind_ok began, Prog.alone_bind_ok ran, Prog.alone_bind_ok commitWork_alone]
    rfl

/-- Once an attempt is admitted, where it has to be, its lock and its guess
decide. -/
theorem judge_admitted {brake : Brake} {now : Instant} {hashed : Bool} {counts : Counts}
    (admitted : Leaves surroundings draw here (brake.admitHash now hashed) () counts)
    (guess : Guess) :
    ∃ later, (brake.judge now hashed guess).alone surroundings draw here
        = ((brake.weighed now guess counts).1, later) ∧
      Db.counts later.db = (brake.weighed now guess counts).2 := by
  obtain ⟨middle, ran, -, rfl⟩ := admitted
  unfold Brake.judge Brake.weighed
  rw [Prog.alone_bind_ok ran, Prog.alone_bind_ok (isNameLocked_alone brake now),
    Prog.alone_bind_ok commitWork_alone]
  by_cases locked : brake.locked now (Db.counts middle.seen)
  · simp only [locked, if_true]
    exact ⟨middle.commit, rfl, rfl⟩
  · simp only [locked, Bool.false_eq_true, if_false]
    exact settle_alone guess brake now

theorem judge_alone (unwritten : here.seen = here.db) (brake : Brake) (now : Instant) (hashed : Bool)
    (guess : Guess) :
    ∃ later, (brake.judge now hashed guess).alone surroundings draw here
        = ((brake.judged now hashed guess (Db.counts here.db)).1, later) ∧
      Db.counts later.db = (brake.judged now hashed guess (Db.counts here.db)).2 := by
  unfold Brake.judged
  cases hashed with
  | false =>
    have passed : Leaves surroundings draw here (brake.admitHash now false) () (Db.counts here.db) :=
      ⟨here, rfl, rfl, congrArg Db.counts unwritten⟩
    exact judge_admitted passed guess
  | true =>
    rw [if_pos rfl]
    cases decided : brake.admitted now (Db.counts here.db) with
    | none =>
      rw [← unwritten] at decided
      have refused : (brake.admitHash now true).alone surroundings draw here
        = (.error (.failed .hashingBusy), here.dropped) := admit_refuses decided
      refine ⟨here.dropped, ?_, rfl⟩
      unfold Brake.judge
      rw [Prog.alone_bind_error refused]
    | some counts =>
      rw [← unwritten] at decided
      have admitted : Leaves surroundings draw here (brake.admitHash now true) () counts :=
        admit_leaves decided
      exact judge_admitted admitted guess

end Alone

/-- Handled alone, an attempt is answered from the counters, and changes them
alone. -/
theorem handle_counts (app : App) (attempt : Attempt) (db : Db) :
    ((handle app attempt db).1, Db.counts (handle app attempt db).2)
      = attempt.settled app (Db.counts db) := by
  unfold handle judge Attempt.settled Attempt.brake
  rw [Prog.alone_bind, ofTyped_alone]
  rw [show attempt.surroundings .callerAddress = attempt.caller.map writeAddressBucket from rfl]
  cases Brake.read app attempt.typed (attempt.caller.map writeAddressBucket) with
  | none => rfl
  | some brake =>
    have timed : tellNow.alone attempt.surroundings (fun _ => Drawn.secret []) ⟨db, [], 0⟩
      = (.ok attempt.now, ⟨db, [], 0⟩) := rfl
    have began : beginWork.alone attempt.surroundings (fun _ => Drawn.secret []) ⟨db, [], 0⟩
      = (.ok (), ⟨db, [], 0⟩) := rfl
    simp only [Option.bind_eq_bind, Option.bind_some]
    rw [Prog.alone_bind_ok timed, Prog.alone_bind_ok began, Prog.alone_bind, ofCaller_alone]
    rw [show attempt.surroundings (.knownBrowser none) = attempt.browser from rfl]
    cases brake.readBrowser app attempt.typed attempt.browser with
    | none => rfl
    | some brake =>
      obtain ⟨later, ran, counted⟩ := @judge_alone attempt.surroundings (fun _ => Drawn.secret [])
        ⟨db, [], 0⟩ rfl brake attempt.now attempt.hashed attempt.guess
      simp only
      rw [ran, counted]

/-- What the step of the password answers to what an attempt is. -/
def Answers : Handled → Except Refusal (Person × Brake) → Prop
  | .error refusal, answered => answered = .error refusal
  | .ok .locked, answered => answered = .error (.failed .signInFailed)
  | .ok .failed, answered => answered = .error (.failed .signInFailed)
  | .ok .proven, answered => answered.isOk

/-- The person of what was typed, if it is somebody's. -/
def readTyped (typedName : String) : Run (Option Person) :=
  match normalizeUsername typedName with
  | some username => query (.readPersonByUsername username)
  | none => pure none

/-- The step of the password, once its counters and its person are read. -/
def weighPassword (app : App) (password : Bytes) (now : Instant) (person : Option Person)
    (brake : Brake) : Run (Person × Brake) := do
  brake.admit now
  let locked ← brake.isNameLocked now
  let person := person.filter fun _ => !locked
  let stored ← query (.readPassword (person.elim 0 Person.id))
  commitWork
  refuseIf locked .signInFailed
  let shared ← ask .hasFreeShare
  refuseIf (!shared) .hashingBusy
  let verified := app.verifyPassword password (stored.getD app.decoyHash)
  match person.filter fun person => verified && person.enabled with
  | some person => return (person, brake)
  | none =>
    beginWork
    brake.recordFailure now
    commitWork
    failed .signInFailed

theorem verifyPassword_eq (app : App) (typedName : String) (password : Bytes) :
    verifyPassword app typedName password = (do
      refuseIf (password.length > PASSWORD_MAX_BYTES) .signInFailed
      let brake ← Brake.ofTyped app (app.toLowercase (Text.trim typedName))
      let hasFreeShare ← ask .hasFreeShare
      refuseIf (!hasFreeShare) .hashingBusy
      let now ← tellNow
      beginWork
      let person ← readTyped typedName
      let brake ← brake.ofCaller app (app.toLowercase (Text.trim typedName)) (person.map Person.id)
      weighPassword app password now person brake) := by
  unfold verifyPassword readTyped
  cases normalizeUsername typedName <;> rfl

section Password

variable {app : App} {password : Bytes} {now : Instant} {person : Option Person} {brake : Brake}
  {surroundings : (question : Ask) → Ans question} {draw : Nat → Drawn} {here : Alone language}

theorem weighPassword_alone (unwritten : here.seen = here.db)
    (free : surroundings .hasFreeShare = true) :
    ∃ guess answered later, (weighPassword app password now person brake).alone surroundings draw here
        = (answered, later) ∧
      Answers (brake.judged now true guess (Db.counts here.db)).1 answered ∧
      Db.counts later.db = (brake.judged now true guess (Db.counts here.db)).2 := by
  unfold weighPassword Brake.judged
  rw [if_pos rfl]
  cases decided : brake.admitted now (Db.counts here.db) with
  | none =>
    rw [← unwritten] at decided
    rw [Prog.alone_bind_error (admit_refuses decided)]
    exact ⟨.wrong, _, _, rfl, rfl, rfl⟩
  | some counts =>
    rw [← unwritten] at decided
    have admitted : Leaves surroundings draw here ( brake.admit now) () counts := admit_leaves decided
    obtain ⟨middle, ran, -, rfl⟩ := admitted
    rw [Prog.alone_bind_ok ran, Prog.alone_bind_ok (isNameLocked_alone brake now)]
    have reads : ∀ id, (query (.readPassword id)).alone surroundings draw middle
        = (.ok (middle.seen.lookup (Key.password id)), middle) := by
      intro id
      apply query_alone
      rw [writes, hits_eq_nil fun _ _ => rfl]
      rfl
    simp only
    rw [Prog.alone_bind_ok (reads _), Prog.alone_bind_ok commitWork_alone]
    unfold Brake.weighed
    by_cases locked : brake.locked now (Db.counts middle.seen)
    · have refused : (refuseIf (brake.locked now (Db.counts middle.seen)) .signInFailed).alone
          surroundings draw middle.commit
          = (.error (.failed .signInFailed), middle.commit.dropped) := by
        rw [locked]
        rfl
      rw [Prog.alone_bind_error refused]
      exact ⟨.wrong, _, _, rfl, by rw [if_pos locked]; rfl, by rw [if_pos locked]; rfl⟩
    · rw [Bool.not_eq_true] at locked
      have passed : (refuseIf (brake.locked now (Db.counts middle.seen)) .signInFailed).alone
          surroundings draw middle.commit = (.ok (), middle.commit) := by
        rw [locked]
        rfl
      have shared : (ask .hasFreeShare).alone surroundings draw middle.commit
          = (.ok (surroundings .hasFreeShare), middle.commit) := rfl
      have taken : (refuseIf (!surroundings .hasFreeShare) .hashingBusy).alone surroundings draw
          middle.commit = (.ok (), middle.commit) := by
        rw [free]
        rfl
      rw [Prog.alone_bind_ok passed, Prog.alone_bind_ok shared, Prog.alone_bind_ok taken]
      simp only [locked, Bool.false_eq_true, if_false]
      split
      · exact ⟨.owing, _, _, rfl, rfl, rfl⟩
      · have began : beginWork.alone surroundings draw middle.commit = (.ok (), middle.commit.dropped) :=
          rfl
        have recorded : Leaves surroundings draw middle.commit.dropped (brake.recordFailure now) ()
          (brake.failed now (Db.counts middle.seen)) := recordFailure_leaves brake now
        obtain ⟨last, counted, -, left⟩ := recorded
        rw [Prog.alone_bind_ok began, Prog.alone_bind_ok counted, Prog.alone_bind_ok commitWork_alone]
        exact ⟨.wrong, _, _, rfl, rfl, left⟩

end Password

/-- Alone, the step of the password is an attempt: whatever is typed, the
counters are left as it leaves them. -/
theorem verifyPassword_alone (app : App) (typedName : String) (password : Bytes)
    (short : password.length ≤ PASSWORD_MAX_BYTES) (surroundings : (question : Ask) → Ans question)
    (free : surroundings .hasFreeShare = true) (caller : Option IpAddr)
    (placed : surroundings .callerAddress = caller.map writeAddressBucket) (draw : Nat → Drawn)
    (db : Db) (drawn : Nat) :
    ∃ browser guess answered later, (verifyPassword app typedName password).alone surroundings draw
        ⟨db, [], drawn⟩ = (answered, later) ∧
      let attempt : Attempt := ⟨surroundings .now, app.toLowercase (Text.trim typedName), caller,
        browser, true, guess⟩
      Answers (attempt.settled app (Db.counts db)).1 answered ∧
        Db.counts later.db = (attempt.settled app (Db.counts db)).2 := by
  let start : Alone language := ⟨db, [], drawn⟩
  have few : (refuseIf (decide (password.length > PASSWORD_MAX_BYTES)) .signInFailed).alone
      surroundings draw start = (.ok (), start) := by
    rw [decide_eq_false (by omega)]
    rfl
  have shared : (ask .hasFreeShare).alone surroundings draw start
      = (.ok (surroundings .hasFreeShare), start) := rfl
  have taken : (refuseIf (!surroundings .hasFreeShare) .hashingBusy).alone surroundings draw start
      = (.ok (), start) := by
    rw [free]
    rfl
  have timed : tellNow.alone surroundings draw start = (.ok (surroundings .now), start) := rfl
  have began : beginWork.alone surroundings draw start = (.ok (), start) := rfl
  have found : ∃ person, (readTyped typedName).alone surroundings draw start = (.ok person, start) := by
    unfold readTyped
    cases normalizeUsername typedName with
    | none => exact ⟨none, rfl⟩
    | some username =>
      refine ⟨_, query_alone ?_⟩
      rw [writes, hits_eq_nil fun _ _ => rfl]
      rfl
  obtain ⟨person, named⟩ := found
  refine ⟨surroundings (.knownBrowser (person.map Person.id)), ?_⟩
  rw [verifyPassword_eq, Prog.alone_bind_ok few, Prog.alone_bind, ofTyped_alone, placed]
  simp only [Attempt.settled, Attempt.brake]
  cases Brake.read app (app.toLowercase (Text.trim typedName)) (caller.map writeAddressBucket) with
  | none => exact ⟨.wrong, _, _, rfl, rfl, rfl⟩
  | some brake =>
    simp only [Option.bind_eq_bind, Option.bind_some]
    rw [Prog.alone_bind_ok shared, Prog.alone_bind_ok taken, Prog.alone_bind_ok timed,
      Prog.alone_bind_ok began, Prog.alone_bind_ok named, Prog.alone_bind, ofCaller_alone]
    cases brake.readBrowser app (app.toLowercase (Text.trim typedName))
      (surroundings (.knownBrowser (person.map Person.id))) with
    | none => exact ⟨.wrong, _, _, rfl, rfl, rfl⟩
    | some brake => exact weighPassword_alone rfl free

end Saffui.Oidc
