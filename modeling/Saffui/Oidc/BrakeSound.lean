import Saffui.Oidc.Brake
import Saffui.Oidc.Families

/-!
# What the brake holds attempts to

Over every sequence of attempts, from any counters: the guesses on a name from
browsers it does not know, and the attempts from an address, stay within their
bounds in any stretch of time; and a browser a name knows is answered as if no
other had tried. No counter of the one is digested as one of the other.
-/

namespace Saffui.Oidc
open Saffui.Foundation Saffui.Foundation.Language

/-- What an attempt may be counted under, each with its kind. -/
def Attempt.counters (attempt : Attempt) : List (Nat × List CounterPart) :=
  [(1, [.text attempt.typed]), (5, [.text attempt.typed])] ++
    (attempt.caller.map writeAddressBucket).elim [] (fun address =>
      [(2, [.text address]), (3, [.text address, .text attempt.typed])]) ++
    attempt.browser.elim [] fun device =>
      [(10, [.device device]), (6, [.device device, .text attempt.typed]),
        (7, [.device device, .text attempt.typed])]

/-- No two counters of these attempts share a digest. -/
def CountersApart (app : App) (attempts : List Attempt) : Prop :=
  ∀ one ∈ attempts.flatMap Attempt.counters, ∀ other ∈ attempts.flatMap Attempt.counters,
    ∀ digest, app.digestCounter one.1 one.2 = some digest →
      app.digestCounter other.1 other.2 = some digest →
      writeCounter one.1 one.2 = writeCounter other.1 other.2

/-- A counter is of a name or of an address, or of the browser that tried. -/
theorem counters_cases {attempt : Attempt} {counter : Nat × List CounterPart}
    (inside : counter ∈ attempt.counters) :
    (counter.1 ∈ [1, 2, 3, 5]) ∨ (counter.1 ∈ [6, 7, 10] ∧
      ∃ device parts, attempt.browser = some device ∧ counter.2 = .device device :: parts) := by
  unfold Attempt.counters at inside
  rcases List.mem_append.mp inside with outer | browsed
  · left
    rcases List.mem_append.mp outer with named | placed
    · simp only [List.mem_cons, List.not_mem_nil, or_false] at named
      rcases named with rfl | rfl <;> simp
    · cases located : attempt.caller.map writeAddressBucket with
      | none =>
        rw [located] at placed
        cases placed
      | some address =>
        simp only [located, Option.elim_some, List.mem_cons, List.not_mem_nil, or_false] at placed
        rcases placed with rfl | rfl <;> simp
  · right
    cases known : attempt.browser with
    | none =>
      rw [known] at browsed
      cases browsed
    | some device =>
      simp only [known, Option.elim_some, List.mem_cons, List.not_mem_nil, or_false] at browsed
      rcases browsed with rfl | rfl | rfl
      all_goals exact ⟨by simp, device, _, rfl, rfl⟩

/-- The digests of a brake. -/
def Brake.digests (brake : Brake) : List Bytes :=
  [brake.name, brake.nameToday] ++ brake.address.toList ++ brake.addressAndName.toList ++
    brake.browser.elim [] fun browser => [browser.attempts, browser.recent, browser.today]

/-- What the counters of an attempt are digested to. -/
structure Digested (app : App) (attempt : Attempt) (brake : Brake) : Prop where
  name : app.digestCounter 1 [.text attempt.typed] = some brake.name
  nameToday : app.digestCounter 5 [.text attempt.typed] = some brake.nameToday
  unplaced : attempt.caller = none → brake.address = none ∧ brake.addressAndName = none
  placed : ∀ caller, attempt.caller = some caller → ∃ address byBoth,
    brake.address = some address ∧ brake.addressAndName = some byBoth ∧
      app.digestCounter 2 [.text (writeAddressBucket caller)] = some address ∧
      app.digestCounter 3 [.text (writeAddressBucket caller), .text attempt.typed] = some byBoth
  unknown : attempt.browser = none → brake.browser = none
  known : ∀ device, attempt.browser = some device → ∃ browser, brake.browser = some browser ∧
    app.digestCounter 10 [.device device] = some browser.attempts ∧
    app.digestCounter 6 [.device device, .text attempt.typed] = some browser.recent ∧
    app.digestCounter 7 [.device device, .text attempt.typed] = some browser.today

theorem digested_of_brake {app : App} {attempt : Attempt} {brake : Brake}
    (read : attempt.brake app = some brake) : Digested app attempt brake := by
  unfold Attempt.brake at read
  obtain ⟨typed, opened, browsed⟩ := Option.bind_eq_some_iff.mp read
  unfold Brake.read at opened
  obtain ⟨name, named, later⟩ := Option.bind_eq_some_iff.mp opened
  obtain ⟨nameToday, dated, placed⟩ := Option.bind_eq_some_iff.mp later
  have browserless : Digested app { attempt with browser := none } typed := by
    cases located : attempt.caller with
    | none =>
      simp only [located, Option.map_none] at placed
      cases placed
      exact ⟨named, dated, fun _ => ⟨rfl, rfl⟩, by simp, fun _ => rfl, by simp⟩
    | some caller =>
      simp only [located, Option.map_some] at placed
      obtain ⟨address, addressed, rest⟩ := Option.bind_eq_some_iff.mp placed
      obtain ⟨byBoth, both, made⟩ := Option.bind_eq_some_iff.mp rest
      cases made
      refine ⟨named, dated, by simp, ?_, fun _ => rfl, by simp⟩
      intro found same
      cases same
      exact ⟨address, byBoth, rfl, rfl, addressed, both⟩
  cases known : attempt.browser with
  | none =>
    rw [known] at browsed
    cases browsed
    exact ⟨browserless.name, browserless.nameToday, browserless.unplaced, browserless.placed,
      fun _ => browserless.unknown rfl, by simp [known]⟩
  | some device =>
    rw [known] at browsed
    unfold Brake.readBrowser at browsed
    obtain ⟨attempts, tried, rest⟩ := Option.bind_eq_some_iff.mp browsed
    obtain ⟨recent, lately, last⟩ := Option.bind_eq_some_iff.mp rest
    obtain ⟨today, daily, made⟩ := Option.bind_eq_some_iff.mp last
    cases made
    refine ⟨browserless.name, browserless.nameToday, browserless.unplaced, browserless.placed,
      by simp [known], ?_⟩
    intro found same
    cases known.symm.trans same
    exact ⟨⟨attempts, recent, today⟩, rfl, tried, lately, daily⟩

theorem counter_of_mem_digests {app : App} {attempt : Attempt} {brake : Brake}
    (digested : Digested app attempt brake) {digest : Bytes} (inside : digest ∈ brake.digests) :
    ∃ counter ∈ attempt.counters, app.digestCounter counter.1 counter.2 = some digest := by
  unfold Brake.digests at inside
  unfold Attempt.counters
  rcases List.mem_append.mp inside with outer | browsed
  · rcases List.mem_append.mp outer with outer | both
    · rcases List.mem_append.mp outer with named | addressed
      · simp only [List.mem_cons, List.not_mem_nil, or_false] at named
        rcases named with rfl | rfl
        · exact ⟨(1, [.text attempt.typed]), by simp, digested.name⟩
        · exact ⟨(5, [.text attempt.typed]), by simp, digested.nameToday⟩
      · cases located : attempt.caller with
        | none =>
          rw [(digested.unplaced located).1] at addressed
          cases addressed
        | some caller =>
          obtain ⟨address, -, here, -, found, -⟩ := digested.placed caller located
          rw [here] at addressed
          cases List.mem_singleton.mp addressed
          exact ⟨(2, [.text (writeAddressBucket caller)]), by simp, found⟩
    · cases located : attempt.caller with
      | none =>
        rw [(digested.unplaced located).2] at both
        cases both
      | some caller =>
        obtain ⟨-, byBoth, -, here, -, found⟩ := digested.placed caller located
        rw [here] at both
        cases List.mem_singleton.mp both
        exact ⟨(3, [.text (writeAddressBucket caller), .text attempt.typed]), by simp, found⟩
  · cases known : attempt.browser with
    | none =>
      rw [digested.unknown known] at browsed
      cases browsed
    | some device =>
      obtain ⟨browser, here, attempts, recent, today⟩ := digested.known device known
      rw [here] at browsed
      simp only [Option.elim_some, List.mem_cons, List.not_mem_nil, or_false] at browsed
      rcases browsed with rfl | rfl | rfl
      · exact ⟨(10, [.device device]), by simp, attempts⟩
      · exact ⟨(6, [.device device, .text attempt.typed]), by simp, recent⟩
      · exact ⟨(7, [.device device, .text attempt.typed]), by simp, today⟩

namespace Counts

variable {counts : Counts} {digest other : Bytes} {bucket since : Instant}

theorem le_record : counts other since ≤ counts.record digest bucket other since := by
  unfold record
  split <;> omega

theorem record_self (recent : since ≤ bucket) :
    counts.record digest bucket digest since = counts digest since + 1 := if_pos ⟨rfl, recent⟩

theorem record_of_ne (apart : other ≠ digest) :
    counts.record digest bucket other since = counts other since := if_neg fun both => apart both.1

theorem forget_of_ne (apart : other ≠ digest) : counts.forget digest other since = counts other since :=
  if_neg apart

end Counts

section Changes

variable {app : App} {attempt : Attempt} {counts : Counts}

theorem admitted_cases {brake : Brake} {now : Instant} {later : Counts}
    (admitted : brake.admitted now counts = some later) :
    (later = counts ∧ brake.attempts.1 = none) ∨
    ∃ counter ∈ brake.digests, brake.attempts.1 = some counter ∧
      counts counter (startWindow now) < brake.attempts.2 ∧
      later = counts.record counter (startBucket now) := by
  have inside : ∀ counter, brake.attempts.1 = some counter → counter ∈ brake.digests := by
    intro counter chosen
    unfold Brake.attempts at chosen
    unfold Brake.digests
    cases known : brake.browser with
    | some browser =>
      rw [known] at chosen
      cases chosen
      simp
    | none =>
      simp only [known] at chosen
      simp [chosen]
  unfold Brake.admitted at admitted
  rcases chosen : brake.attempts with ⟨_ | counter, most⟩
  · rw [chosen] at admitted
    cases admitted
    exact Or.inl ⟨rfl, rfl⟩
  · rw [chosen] at admitted
    simp only at admitted
    split at admitted
    · cases admitted
    · cases admitted
      exact Or.inr ⟨counter, inside counter (by rw [chosen]), rfl, by omega, rfl⟩

section Induction

variable {holds : Counts → Prop}

/-- What holds of the counters holds after a guess is weighed, where counting
under its brake and forgetting its browser keep it. -/
theorem weighed_induction {brake : Brake} (start : holds counts)
    (record : ∀ digest ∈ brake.digests, ∀ bucket before, holds before →
      holds (before.record digest bucket))
    (forget : ∀ browser, brake.browser = some browser → ∀ digest ∈ [browser.recent, browser.today],
      ∀ before, holds before → holds (before.forget digest)) (now : Instant) (guess : Guess) :
    holds (brake.weighed now guess counts).2 := by
  have fails : holds (brake.failed now counts) := by
    have dated := record brake.nameToday (by simp [Brake.digests]) (startLongBucket now) counts start
    unfold Brake.failed
    cases known : brake.browser with
    | some browser =>
      have recent := record browser.recent (by simp [Brake.digests, known]) (startBucket now) _ dated
      exact record browser.today (by simp [Brake.digests, known]) _ _ recent
    | none =>
      have named := record brake.name (by simp [Brake.digests]) (startBucket now) _ dated
      cases placed : brake.addressAndName with
      | none => exact named
      | some byBoth => exact record byBoth (by simp [Brake.digests, placed]) _ _ named
  have clears : holds (brake.forgot counts) := by
    unfold Brake.forgot
    cases known : brake.browser with
    | none => exact start
    | some browser =>
      have recent := forget browser known browser.recent (by simp) counts start
      exact forget browser known browser.today (by simp) _ recent
  unfold Brake.weighed
  split
  · exact start
  · cases guess with
    | wrong => exact fails
    | owing => exact start
    | opening => exact clears

theorem settled_induction (start : holds counts)
    (record : ∀ brake, attempt.brake app = some brake → ∀ digest ∈ brake.digests,
      ∀ bucket before, holds before → holds (before.record digest bucket))
    (forget : ∀ brake, attempt.brake app = some brake → ∀ browser, brake.browser = some browser →
      ∀ digest ∈ [browser.recent, browser.today], ∀ before, holds before →
        holds (before.forget digest)) :
    holds (attempt.settled app counts).2 := by
  unfold Attempt.settled
  cases read : attempt.brake app with
  | none => exact start
  | some brake =>
    simp only [Brake.judged]
    split
    · exact start
    · rename_i later admitted
      apply weighed_induction _ (record brake read) (forget brake read)
      split at admitted
      · rcases admitted_cases admitted with ⟨rfl, -⟩ | ⟨counter, inside, -, -, rfl⟩
        · exact start
        · exact record brake read counter inside _ _ start
      · cases admitted
        exact start

end Induction

theorem settled_of_not_mem {digest : Bytes}
    (outside : ∀ brake, attempt.brake app = some brake → digest ∉ brake.digests) (since : Instant) :
    (attempt.settled app counts).2 digest since = counts digest since := by
  apply @settled_induction app attempt counts (fun later => later digest since = counts digest since) rfl
  · intro brake read found inside bucket before held
    have apart : digest ≠ found := fun same => outside brake read (same ▸ inside)
    rw [Counts.record_of_ne apart, held]
  · intro brake read browser known found inside before held
    have touched : found ∈ brake.digests := by
      simp only [List.mem_cons, List.not_mem_nil, or_false] at inside
      rcases inside with rfl | rfl <;> simp [Brake.digests, known]
    have apart : digest ≠ found := fun same => outside brake read (same ▸ touched)
    rw [Counts.forget_of_ne apart, held]

theorem le_settled {digest : Bytes}
    (unforgotten : ∀ brake, attempt.brake app = some brake → ∀ browser,
      brake.browser = some browser → digest ∉ [browser.recent, browser.today]) (since : Instant) :
    counts digest since ≤ (attempt.settled app counts).2 digest since := by
  apply @settled_induction app attempt counts (fun later => counts digest since ≤ later digest since)
    (Nat.le_refl _)
  · intro brake read found inside bucket before held
    exact Nat.le_trans held Counts.le_record
  · intro brake read browser known found inside before held
    have apart : digest ≠ found := fun same => unforgotten brake read browser known (same ▸ inside)
    rwa [Counts.forget_of_ne apart]

/-- An attempt that was judged found its name unlocked, once it was admitted. -/
theorem settled_ok {verdict : Verdict} (answered : (attempt.settled app counts).1 = .ok verdict) :
    ∃ brake middle, attempt.brake app = some brake ∧
      (if attempt.hashed then brake.admitted attempt.now counts else some counts) = some middle ∧
      attempt.settled app counts = brake.weighed attempt.now attempt.guess middle := by
  unfold Attempt.settled at answered ⊢
  cases read : attempt.brake app with
  | none =>
    rw [read] at answered
    cases answered
  | some brake =>
    simp only [read, Brake.judged] at answered ⊢
    cases decided : (if attempt.hashed then brake.admitted attempt.now counts else some counts) with
    | none =>
      rw [decided] at answered
      cases answered
    | some middle => exact ⟨brake, middle, rfl, decided, rfl⟩

theorem le_middle {brake : Brake} {middle : Counts}
    (admitted : (if attempt.hashed then brake.admitted attempt.now counts else some counts)
      = some middle) (digest : Bytes) (since : Instant) : counts digest since ≤ middle digest since := by
  split at admitted
  · rcases admitted_cases admitted with ⟨rfl, -⟩ | ⟨counter, -, -, -, rfl⟩
    · exact Nat.le_refl _
    · exact Counts.le_record
  · cases admitted
    exact Nat.le_refl _

/-- A guess that failed came unlocked, and is counted. -/
theorem settled_failed (failed : (attempt.settled app counts).1 = .ok .failed) :
    ∃ brake middle, attempt.brake app = some brake ∧
      (∀ digest since, counts digest since ≤ middle digest since) ∧
      brake.locked attempt.now middle = false ∧
      (attempt.settled app counts).2 = brake.failed attempt.now middle := by
  obtain ⟨brake, middle, read, admitted, weighed⟩ := settled_ok failed
  rw [weighed] at failed ⊢
  have grown := le_middle admitted
  refine ⟨brake, middle, read, grown, ?_⟩
  unfold Brake.weighed at failed ⊢
  by_cases locked : brake.locked attempt.now middle
  · simp only [locked, if_true] at failed
    cases failed
  · simp only [locked, Bool.false_eq_true, if_false] at failed ⊢
    cases guessed : attempt.guess with
    | wrong => exact ⟨trivial, rfl⟩
    | owing =>
      rw [guessed] at failed
      cases failed
    | opening =>
      rw [guessed] at failed
      cases failed

/-- What an unlocked name held, of a browser it does not know. -/
theorem few_of_unlocked {brake : Brake} {now : Instant} (unknown : brake.browser = none)
    (unlocked : brake.locked now counts = false) :
    counts brake.nameToday (startLongWindow now) < MAX_DAILY_FAILURES ∧
      counts brake.name (startWindow now) < MAX_RECENT_FAILURES_PER_NAME ∧
      (brake.addressAndName = none → counts brake.name (startWindow now) < MAX_RECENT_FAILURES) ∧
      ∀ byBoth, brake.addressAndName = some byBoth →
        counts byBoth (startWindow now) < MAX_RECENT_FAILURES := by
  unfold Brake.locked isLocked at unlocked
  rw [unknown] at unlocked
  cases placed : brake.addressAndName with
  | none =>
    simp only [placed, Bool.or_eq_false_iff, decide_eq_false_iff_not, not_le, ge_iff_le] at unlocked
    have wider : MAX_RECENT_FAILURES < MAX_RECENT_FAILURES_PER_NAME := by decide
    exact ⟨unlocked.2, by omega, fun _ => unlocked.1, nofun⟩
  | some found =>
    simp only [placed, Bool.or_eq_false_iff, decide_eq_false_iff_not, not_le, ge_iff_le] at unlocked
    refine ⟨unlocked.2, unlocked.1.2, nofun, ?_⟩
    intro byBoth same
    cases same
    exact unlocked.1.1

/-- What a failed guess of a browser its name does not know adds. -/
theorem lt_failed {brake : Brake} {now : Instant} (unknown : brake.browser = none) :
    (∀ since ≤ startLongBucket now,
      counts brake.nameToday since < brake.failed now counts brake.nameToday since) ∧
    (∀ since ≤ startBucket now, counts brake.name since < brake.failed now counts brake.name since) ∧
    ∀ byBoth, brake.addressAndName = some byBoth → ∀ since ≤ startBucket now,
      counts byBoth since < brake.failed now counts byBoth since := by
  let today := counts.record brake.nameToday (startLongBucket now)
  let named := today.record brake.name (startBucket now)
  have failed : brake.failed now counts = brake.addressAndName.elim named fun byBoth =>
      named.record byBoth (startBucket now) := by
    unfold Brake.failed
    rw [unknown]
    cases brake.addressAndName <;> rfl
  have last : ∀ digest since, named digest since ≤ brake.failed now counts digest since := by
    intro digest since
    rw [failed]
    cases brake.addressAndName with
    | none => exact Nat.le_refl _
    | some byBoth => exact Counts.le_record
  have first : ∀ digest since, counts digest since ≤ today digest since := fun _ _ => Counts.le_record
  have second : ∀ digest since, today digest since ≤ named digest since := fun _ _ => Counts.le_record
  refine ⟨?_, ?_, ?_⟩
  · intro since recent
    have counted : today brake.nameToday since = counts brake.nameToday since + 1 :=
      Counts.record_self recent
    have kept := second brake.nameToday since
    have ended := last brake.nameToday since
    omega
  · intro since recent
    have counted : named brake.name since = today brake.name since + 1 := Counts.record_self recent
    have kept := first brake.name since
    have ended := last brake.name since
    omega
  · intro byBoth placed since recent
    have counted : brake.failed now counts byBoth since = named byBoth since + 1 := by
      rw [failed, placed]
      exact Counts.record_self recent
    have dated := first byBoth since
    have kept := second byBoth since
    omega

end Changes

section Bounds

variable {app : App} {attempts : List Attempt}

/-- What is counted under a name or an address is never forgotten. -/
theorem le_settled_of_apart (apart : CountersApart app attempts) {counter : Nat × List CounterPart}
    (listed : counter ∈ attempts.flatMap Attempt.counters) (kind : counter.1 ∈ [1, 2, 3, 5])
    {digest : Bytes} (digested : app.digestCounter counter.1 counter.2 = some digest)
    {attempt : Attempt} (inside : attempt ∈ attempts) (counts : Counts) (since : Instant) :
    counts digest since ≤ (attempt.settled app counts).2 digest since := by
  apply le_settled
  intro brake read browser known forgotten
  have fields := digested_of_brake read
  cases found : attempt.browser with
  | none =>
    rw [fields.unknown found] at known
    cases known
  | some device =>
    obtain ⟨_, same, -, recent, today⟩ := fields.known device found
    rw [same] at known
    cases known
    have other : ∃ own ∈ attempts.flatMap Attempt.counters, own.1 ∈ [6, 7] ∧
        app.digestCounter own.1 own.2 = some digest := by
      simp only [List.mem_cons, List.not_mem_nil, or_false] at forgotten
      rcases forgotten with rfl | rfl
      · refine ⟨(6, [.device device, .text attempt.typed]), ?_, by simp, recent⟩
        exact List.mem_flatMap.mpr ⟨attempt, inside, by simp [Attempt.counters, found]⟩
      · refine ⟨(7, [.device device, .text attempt.typed]), ?_, by simp, today⟩
        exact List.mem_flatMap.mpr ⟨attempt, inside, by simp [Attempt.counters, found]⟩
    obtain ⟨own, there, kinds, alike⟩ := other
    have clash := kind_eq_of_written (apart counter listed own there digest digested alike)
    simp only [List.mem_cons, List.not_mem_nil, or_false] at kind kinds
    rcases kind with one | one | one | one <;> rcases kinds with two | two <;>
      simp [one, two] at clash

/-- Whether an attempt came within so long after an instant. -/
def Attempt.within (attempt : Attempt) (start width : Instant) : Bool :=
  start ≤ attempt.now && attempt.now ≤ start + width

/-- A counter that each hit finds below its bound, and is counted in, bounds
the hits of a stretch of time. -/
theorem length_hits_le (apart : CountersApart app attempts) {counter : Nat × List CounterPart}
    (kind : counter.1 ∈ [1, 2, 3, 5]) {hit : Attempt × Handled → Bool}
    {bucket since : Instant → Instant} {most : Nat} {width : Instant}
    (counted : ∀ (attempt : Attempt) (counts : Counts), hit (attempt, (attempt.settled app counts).1) →
      counter ∈ attempt.counters ∧ ∃ digest, app.digestCounter counter.1 counter.2 = some digest ∧
        counts digest (since attempt.now) < most ∧
        ∀ start ≤ bucket attempt.now,
          counts digest start < (attempt.settled app counts).2 digest start)
    (covers : ∀ now earlier : Instant, now ≤ earlier + width → since now ≤ bucket earlier)
    (start : Instant) (counts : Counts) :
    ((outcomes (Attempt.settled app) attempts counts).filter fun outcome =>
      hit outcome && outcome.1.within start width).length ≤ most := by
  by_cases met : ∃ outcome ∈ outcomes (Attempt.settled app) attempts counts, hit outcome
  · obtain ⟨⟨found, handled⟩, inside, struck⟩ := met
    obtain ⟨tried, before, answered⟩ := mem_outcomes inside
    simp only at tried answered
    subst answered
    obtain ⟨owned, digest, digested, -, -⟩ := counted found before struck
    have listed := List.mem_flatMap.mpr ⟨found, tried, owned⟩
    have rationed : ∀ attempt ∈ attempts, Rationed (Attempt.settled app)
        (fun (counts : Counts) start => counts digest start) (fun outcome => hit outcome)
        (fun attempt => bucket attempt.now) (fun attempt => since attempt.now) most attempt := by
      intro attempt here
      constructor
      · intro counts hits
        obtain ⟨-, same, again, few, -⟩ := counted attempt counts hits
        cases digested.symm.trans again
        exact few
      · intro counts start
        exact le_settled_of_apart apart listed kind digested here counts start
      · intro counts start hits recent
        obtain ⟨-, same, again, -, more⟩ := counted attempt counts hits
        cases digested.symm.trans again
        exact more start recent
    have covered : ∀ attempt earlier : Attempt, attempt.within start width →
        earlier.within start width → since attempt.now ≤ bucket earlier.now := by
      intro attempt earlier later sooner
      simp only [Attempt.within, Bool.and_eq_true, decide_eq_true_eq] at later sooner
      have near : attempt.now ≤ start + width := later.2
      have after : start ≤ earlier.now := sooner.1
      exact covers attempt.now earlier.now (near.trans (Int.add_le_add_right after width))
    exact length_outcomes_le rationed covered counts
  · have none_hit : (outcomes (Attempt.settled app) attempts counts).filter (fun outcome =>
        hit outcome && outcome.1.within start width) = [] := by
      apply List.filter_eq_nil_iff.mpr
      intro outcome inside both
      exact met ⟨outcome, inside, (Bool.and_eq_true _ _ ▸ both : _ ∧ _).1⟩
    rw [none_hit]
    exact Nat.zero_le most

theorem startWindow_le {now earlier : Int} (near : now ≤ earlier + 300 * 1000000) :
    startWindow now ≤ startBucket earlier := by
  simp only [startWindow, startBucket, startOf, BUCKET_SECONDS]
  change @LE.le Int _ _ _
  omega

theorem startLongWindow_le {now earlier : Int} (near : now ≤ earlier + 23 * 3600 * 1000000) :
    startLongWindow now ≤ startLongBucket earlier := by
  simp only [startLongWindow, startLongBucket, startOf, LONG_BUCKET_SECONDS, LONG_WINDOW_BUCKETS]
  change @LE.le Int _ _ _
  omega

/-- A failed guess on a name, judged from a browser it does not know. -/
def failsUnknown (typed : String) (outcome : Attempt × Handled) : Bool :=
  outcome.1.typed = typed && outcome.1.browser = none && outcome.2 = .ok .failed

/-- A counter had room at an attempt, and holds it after. -/
def CountedIn (attempt : Attempt) (counts later : Counts) (digest : Bytes)
    (since bucket : Instant → Instant) (most : Nat) : Prop :=
  counts digest (since attempt.now) < most ∧
    ∀ start ≤ bucket attempt.now, counts digest start < later digest start

theorem counted_of_fails {typed : String} {attempt : Attempt} {counts : Counts}
    (fails : failsUnknown typed (attempt, (attempt.settled app counts).1)) :
    attempt.typed = typed ∧ ∃ brake, Digested app attempt brake ∧
      CountedIn attempt counts (attempt.settled app counts).2 brake.nameToday startLongWindow
        startLongBucket MAX_DAILY_FAILURES ∧
      CountedIn attempt counts (attempt.settled app counts).2 brake.name startWindow startBucket
        MAX_RECENT_FAILURES_PER_NAME ∧
      (brake.addressAndName = none → CountedIn attempt counts (attempt.settled app counts).2 brake.name
        startWindow startBucket MAX_RECENT_FAILURES) ∧
      ∀ byBoth, brake.addressAndName = some byBoth → CountedIn attempt counts
        (attempt.settled app counts).2 byBoth startWindow startBucket MAX_RECENT_FAILURES := by
  simp only [failsUnknown, Bool.and_eq_true, decide_eq_true_eq] at fails
  obtain ⟨⟨named, strange⟩, failed⟩ := fails
  obtain ⟨brake, middle, read, grown, unlocked, left⟩ := settled_failed failed
  have digested := digested_of_brake read
  have unknown := digested.unknown strange
  obtain ⟨today, recent, alone, here⟩ := few_of_unlocked unknown unlocked
  obtain ⟨moreToday, moreRecent, moreHere⟩ := @lt_failed middle brake attempt.now unknown
  rw [← left] at moreToday moreRecent moreHere
  have below := fun digest since => grown digest since
  refine ⟨named, brake, digested, ⟨?_, ?_⟩, ⟨?_, ?_⟩, ?_, ?_⟩
  · exact Nat.lt_of_le_of_lt (grown _ _) today
  · exact fun start within => Nat.lt_of_le_of_lt (grown _ _) (moreToday start within)
  · exact Nat.lt_of_le_of_lt (grown _ _) recent
  · exact fun start within => Nat.lt_of_le_of_lt (grown _ _) (moreRecent start within)
  · intro unplaced
    exact ⟨Nat.lt_of_le_of_lt (grown _ _) (alone unplaced),
      fun start within => Nat.lt_of_le_of_lt (grown _ _) (moreRecent start within)⟩
  · intro byBoth placed
    exact ⟨Nat.lt_of_le_of_lt (grown _ _) (here byBoth placed),
      fun start within => Nat.lt_of_le_of_lt (grown _ _) (moreHere byBoth placed start within)⟩

/-- An attempt of a browser its name does not know, admitted from a network. -/
def admitsUnknown (network : Network) (outcome : Attempt × Handled) : Bool :=
  outcome.1.hashed && outcome.1.browser = none && outcome.1.caller.map IpAddr.network = some network &&
    outcome.2.isOk

theorem counted_of_admits {network : Network} {attempt : Attempt} {counts : Counts}
    (admits : admitsUnknown network (attempt, (attempt.settled app counts).1)) :
    ∃ caller digest, attempt.caller = some caller ∧ caller.network = network ∧
      app.digestCounter 2 [.text (writeAddressBucket caller)] = some digest ∧
      CountedIn attempt counts (attempt.settled app counts).2 digest startWindow startBucket
        MAX_RECENT_ATTEMPTS_PER_ADDRESS := by
  simp only [admitsUnknown, Bool.and_eq_true, decide_eq_true_eq] at admits
  obtain ⟨⟨⟨hashed, strange⟩, placed⟩, answered⟩ := admits
  cases ruled : (attempt.settled app counts).1 with
  | error refusal =>
    rw [ruled] at answered
    cases answered
  | ok verdict =>
    obtain ⟨brake, middle, read, admitted, weighed⟩ := settled_ok ruled
    rw [if_pos hashed] at admitted
    have digested := digested_of_brake read
    have unknown := digested.unknown strange
    obtain ⟨caller, located, same⟩ := Option.map_eq_some_iff.mp placed
    obtain ⟨address, -, here, -, found, -⟩ := digested.placed caller located
    have chosen : brake.attempts = (some address, MAX_RECENT_ATTEMPTS_PER_ADDRESS) := by
      unfold Brake.attempts
      rw [unknown, here]
    rcases admitted_cases admitted with ⟨-, missing⟩ | ⟨counter, -, counted, few, rfl⟩
    · rw [chosen] at missing
      cases missing
    · rw [chosen] at counted few
      cases counted
      refine ⟨caller, address, located, same, found, few, ?_⟩
      intro since recent
      have kept : counts.record address (startBucket attempt.now) address since
          ≤ (attempt.settled app counts).2 address since := by
        rw [weighed]
        apply @weighed_induction (counts.record address (startBucket attempt.now))
          (fun later => counts.record address (startBucket attempt.now) address since
            ≤ later address since) brake (Nat.le_refl _)
        · intro digest inside bucket before held
          exact Nat.le_trans held Counts.le_record
        · intro browser known
          rw [unknown] at known
          cases known
      rw [Counts.record_self recent] at kept
      exact kept

variable (apart : CountersApart app attempts) (start : Instant) (counts : Counts)

include apart in
theorem failures_today_le (typed : String) :
    ((outcomes (Attempt.settled app) attempts counts).filter fun outcome =>
      failsUnknown typed outcome && outcome.1.within start (23 * 3600 * 1000000)).length
        ≤ MAX_DAILY_FAILURES := by
  apply @length_hits_le app attempts apart (5, [.text typed]) (by simp) _ _ _ _ _ _
    fun now earlier near => startLongWindow_le near
  intro attempt counts fails
  obtain ⟨rfl, brake, digested, counted, -⟩ := counted_of_fails fails
  exact ⟨by simp [Attempt.counters], brake.nameToday, digested.nameToday, counted⟩

include apart in
theorem failures_on_name_le (typed : String) :
    ((outcomes (Attempt.settled app) attempts counts).filter fun outcome =>
      failsUnknown typed outcome && outcome.1.within start (300 * 1000000)).length
        ≤ MAX_RECENT_FAILURES_PER_NAME := by
  apply @length_hits_le app attempts apart (1, [.text typed]) (by simp) _ _ _ _ _ _
    fun now earlier near => startWindow_le near
  intro attempt counts fails
  obtain ⟨rfl, brake, digested, -, counted, -⟩ := counted_of_fails fails
  exact ⟨by simp [Attempt.counters], brake.name, digested.name, counted⟩

/-- The failed guesses of callers with no address are held as those of one. -/
def failsFrom (typed : String) (place : Option Network) (outcome : Attempt × Handled) : Bool :=
  failsUnknown typed outcome && outcome.1.caller.map IpAddr.network = place

include apart in
theorem failures_from_le (typed : String) (place : Option Network) :
    ((outcomes (Attempt.settled app) attempts counts).filter fun outcome =>
      failsFrom typed place outcome && outcome.1.within start (300 * 1000000)).length
        ≤ MAX_RECENT_FAILURES := by
  cases place with
  | none =>
    apply @length_hits_le app attempts apart (1, [.text typed]) (by simp) _ _ _ _ _ _
      fun now earlier near => startWindow_le near
    intro attempt counts hit
    simp only [failsFrom, Bool.and_eq_true, decide_eq_true_eq, Option.map_eq_none_iff] at hit
    obtain ⟨rfl, brake, digested, -, -, counted, -⟩ := counted_of_fails hit.1
    exact ⟨by simp [Attempt.counters], brake.name, digested.name,
      counted (digested.unplaced hit.2).2⟩
  | some network =>
    apply @length_hits_le app attempts apart (3, [.text network.bucket, .text typed]) (by simp)
      _ _ _ _ _ _ fun now earlier near => startWindow_le near
    intro attempt counts hit
    simp only [failsFrom, Bool.and_eq_true, decide_eq_true_eq] at hit
    obtain ⟨caller, located, rfl⟩ := Option.map_eq_some_iff.mp hit.2
    obtain ⟨rfl, brake, digested, -, -, -, counted⟩ := counted_of_fails hit.1
    obtain ⟨-, byBoth, -, here, -, found⟩ := digested.placed caller located
    rw [writeAddressBucket_eq] at found
    exact ⟨by simp [Attempt.counters, located, writeAddressBucket_eq], byBoth, found,
      counted byBoth here⟩

include apart in
theorem attempts_from_le (network : Network) :
    ((outcomes (Attempt.settled app) attempts counts).filter fun outcome =>
      admitsUnknown network outcome && outcome.1.within start (300 * 1000000)).length
        ≤ MAX_RECENT_ATTEMPTS_PER_ADDRESS := by
  apply @length_hits_le app attempts apart (2, [.text network.bucket]) (by simp) _ _ _ _ _ _
    fun now earlier near => startWindow_le near
  intro attempt counts hit
  obtain ⟨caller, digest, located, rfl, found, counted⟩ := counted_of_admits hit
  rw [writeAddressBucket_eq] at found
  exact ⟨by simp [Attempt.counters, located, writeAddressBucket_eq], digest, found, counted⟩

end Bounds

section Known

variable {app : App} {attempts : List Attempt} {device : Uuid}

/-- A digest that counts for a browser. -/
def CountsFor (app : App) (attempts : List Attempt) (device : Uuid) (digest : Bytes) : Prop :=
  ∃ counter ∈ attempts.flatMap Attempt.counters, counter.1 ∈ [6, 7, 10] ∧
    (∃ parts, counter.2 = .device device :: parts) ∧
    app.digestCounter counter.1 counter.2 = some digest

/-- Counters that hold the same for a browser. -/
def Agree (app : App) (attempts : List Attempt) (device : Uuid) (one other : Counts) : Prop :=
  ∀ digest, CountsFor app attempts device digest → one digest = other digest

theorem Agree.record {one other : Counts} (agree : Agree app attempts device one other)
    (digest : Bytes) (bucket : Instant) :
    Agree app attempts device (one.record digest bucket) (other.record digest bucket) := by
  intro found own
  funext since
  unfold Counts.record
  rw [agree found own]

theorem Agree.forget {one other : Counts} (agree : Agree app attempts device one other)
    (digest : Bytes) : Agree app attempts device (one.forget digest) (other.forget digest) := by
  intro found own
  funext since
  unfold Counts.forget
  rw [agree found own]

/-- The counters of a known browser count for it. -/
theorem countsFor_browser {attempt : Attempt} (inside : attempt ∈ attempts)
    (known : attempt.browser = some device) {brake : Brake} (digested : Digested app attempt brake) :
    ∃ browser, brake.browser = some browser ∧ CountsFor app attempts device browser.attempts ∧
      CountsFor app attempts device browser.recent ∧ CountsFor app attempts device browser.today := by
  obtain ⟨browser, here, tried, recent, today⟩ := digested.known device known
  have listed : ∀ counter ∈ attempt.counters, counter ∈ attempts.flatMap Attempt.counters :=
    fun counter own => List.mem_flatMap.mpr ⟨attempt, inside, own⟩
  refine ⟨browser, here, ⟨(10, [.device device]), listed _ ?_, by simp, ⟨_, rfl⟩, tried⟩,
    ⟨(6, [.device device, .text attempt.typed]), listed _ ?_, by simp, ⟨_, rfl⟩, recent⟩,
    ⟨(7, [.device device, .text attempt.typed]), listed _ ?_, by simp, ⟨_, rfl⟩, today⟩⟩
  all_goals simp [Attempt.counters, known]

/-- The attempts of others leave what counts for a browser. -/
theorem agree_settled_other (apart : CountersApart app attempts) {attempt : Attempt}
    (inside : attempt ∈ attempts) (other : attempt.browser ≠ some device) {one two : Counts}
    (agree : Agree app attempts device one two) :
    Agree app attempts device (attempt.settled app one).2 two := by
  intro digest own
  rw [← agree digest own]
  funext since
  apply settled_of_not_mem
  intro brake read touched
  obtain ⟨counter, counted, digested⟩ := counter_of_mem_digests (digested_of_brake read) touched
  obtain ⟨mine, listed, kind, ⟨parts, shape⟩, alike⟩ := own
  have there := List.mem_flatMap.mpr ⟨attempt, inside, counted⟩
  have written := apart counter there mine listed digest digested alike
  rcases counters_cases counted with common | ⟨-, found, rest, browsed, form⟩
  · have clash := kind_eq_of_written written
    simp only [List.mem_cons, List.not_mem_nil, or_false] at common kind
    rcases common with first | first | first | first <;> rcases kind with second | second | second <;>
      simp [first, second] at clash
  · rw [form, shape] at written
    have same := device_eq_of_written written
    rw [same] at browsed
    exact other browsed

/-- An attempt of a browser that is known is answered from what counts for it. -/
theorem agree_settled {attempt : Attempt} (inside : attempt ∈ attempts)
    (known : attempt.browser = some device) {one two : Counts}
    (agree : Agree app attempts device one two) :
    (attempt.settled app one).1 = (attempt.settled app two).1 ∧
      Agree app attempts device (attempt.settled app one).2 (attempt.settled app two).2 := by
  unfold Attempt.settled
  cases read : attempt.brake app with
  | none => exact ⟨rfl, agree⟩
  | some brake =>
    obtain ⟨browser, here, tried, recent, today⟩ :=
      countsFor_browser inside known (digested_of_brake read)
    have weighs : ∀ one two : Counts, Agree app attempts device one two →
        (brake.weighed attempt.now attempt.guess one).1
          = (brake.weighed attempt.now attempt.guess two).1 ∧
        Agree app attempts device (brake.weighed attempt.now attempt.guess one).2
          (brake.weighed attempt.now attempt.guess two).2 := by
      intro one two agree
      have locked : brake.locked attempt.now one = brake.locked attempt.now two := by
        unfold Brake.locked
        rw [here]
        simp only [agree _ recent, agree _ today]
      unfold Brake.weighed
      rw [locked]
      split
      · exact ⟨rfl, agree⟩
      · cases attempt.guess with
        | wrong =>
          refine ⟨rfl, ?_⟩
          simp only [Guess.settled, Brake.failed, here]
          exact ((agree.record _ _).record _ _).record _ _
        | owing => exact ⟨rfl, agree⟩
        | opening =>
          refine ⟨rfl, ?_⟩
          simp only [Guess.settled, Brake.forgot, here]
          exact (agree.forget _).forget _
    simp only [Brake.judged]
    cases attempt.hashed with
    | false => exact weighs one two agree
    | true =>
      have chosen : brake.attempts = (some browser.attempts, MAX_RECENT_ATTEMPTS_PER_BROWSER) := by
        unfold Brake.attempts
        rw [here]
      simp only [if_true, Brake.admitted, chosen, agree _ tried]
      by_cases many : two browser.attempts (startWindow attempt.now) ≥ MAX_RECENT_ATTEMPTS_PER_BROWSER
      · simp only [many, if_true]
        exact ⟨trivial, agree⟩
      · simp only [many, if_false]
        exact weighs _ _ (agree.record _ _)

end Known

/-- What attempts are answered that are handled one after the other. -/
def attend (app : App) (attempts : List Attempt) (db : Db) : List (Attempt × Handled) :=
  outcomes (handle app) attempts db

theorem attend_eq (app : App) (attempts : List Attempt) (db : Db) :
    attend app attempts db = outcomes (Attempt.settled app) attempts (Db.counts db) :=
  outcomes_view (handle_counts app) attempts db

/-- Whether an attempt came from a browser its name knows as this one. -/
def Attempt.isOf (device : Uuid) (attempt : Attempt) : Bool := attempt.browser = some device

/-- The bounds of the brake, over every sequence of attempts. -/
theorem attend_braked (app : App) (attempts : List Attempt) (apart : CountersApart app attempts)
    (db : Db) :
    (∀ typed start, ((attend app attempts db).filter fun outcome => failsUnknown typed outcome &&
      outcome.1.within start (23 * 3600 * 1000000)).length ≤ MAX_DAILY_FAILURES) ∧
    (∀ typed start, ((attend app attempts db).filter fun outcome => failsUnknown typed outcome &&
      outcome.1.within start (300 * 1000000)).length ≤ MAX_RECENT_FAILURES_PER_NAME) ∧
    (∀ typed place start, ((attend app attempts db).filter fun outcome =>
      failsFrom typed place outcome && outcome.1.within start (300 * 1000000)).length
        ≤ MAX_RECENT_FAILURES) ∧
    (∀ network start, ((attend app attempts db).filter fun outcome =>
      admitsUnknown network outcome && outcome.1.within start (300 * 1000000)).length
        ≤ MAX_RECENT_ATTEMPTS_PER_ADDRESS) ∧
    ∀ device, (attend app attempts db).filter (fun outcome => outcome.1.isOf device)
      = attend app (attempts.filter (Attempt.isOf device)) db := by
  simp only [attend_eq]
  refine ⟨?_, ?_, ?_, ?_, ?_⟩
  · intro typed start
    exact failures_today_le apart start _ typed
  · intro typed start
    exact failures_on_name_le apart start _ typed
  · intro typed place start
    exact failures_from_le apart start _ typed place
  · intro network start
    exact attempts_from_le apart start _ network
  · intro device
    apply @outcomes_filter _ _ _ _ attempts (Attempt.isOf device) (Agree app attempts device)
    · intro attempt inside known one two agree
      exact agree_settled inside (of_decide_eq_true known) agree
    · intro attempt inside other one two agree
      exact agree_settled_other apart inside (fun known => other (decide_eq_true known)) agree
    · exact fun digest own => rfl

/-- A realm whose counters are kept as they are written. -/
def guardedApp : App := { homeApp with digestCounter := fun kind parts => some (writeCounter kind parts) }

/-- Six wrong passwords for a name from one address, then one from a browser
the name knows. -/
def guessing : List Attempt :=
  List.replicate 6 ⟨0, "ada", some (.v4 192 0 2 7), none, true, .wrong⟩ ++
    [⟨0, "ada", some (.v4 192 0 2 7), some 1, true, .wrong⟩]

theorem guessing_apart : CountersApart guardedApp guessing := by
  intro one _ other _ digest here there
  exact (Option.some.inj here).trans (Option.some.inj there).symm

theorem guessing_braked :
    (attend guardedApp guessing ∅).map Prod.snd
        = List.replicate 5 (.ok .failed) ++ [.ok .locked, .ok .failed] ∧
      ((attend guardedApp guessing ∅).filter fun outcome =>
        failsFrom "ada" (some (.host 192 0 2 7)) outcome && outcome.1.within 0 (300 * 1000000)).length
          ≤ MAX_RECENT_FAILURES :=
  ⟨by decide +kernel, (attend_braked guardedApp guessing guessing_apart ∅).2.2.1 _ _ _⟩

end Saffui.Oidc
