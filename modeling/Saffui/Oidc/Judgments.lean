import Saffui.Foundation.Deeds
import Saffui.Oidc.Backed
import Saffui.Oidc.Brake

/-!
# What becomes of a second factor that was answered

A code, or the answer of a key, is judged in one unit of its call. The unit
that judged ends in its commit, or the call in the failure of a package; what
it counted is told here deed by deed, under the counters of the very caller.

Source: `saffui-core/src/login/steps/{totp,webauthn}.rs`, `login/throttle.rs`.
-/

namespace Saffui.Oidc
open Saffui.Foundation Saffui.Foundation.Language Saffui.Login

abbrev Deed := language.Deed

/-- The deeds a second factor is judged by. -/
def judges : Deed → Bool
  | .asked (.findTotpStep _ _ _) _ | .asked (.knownBrowser _) _ => true
  | .said ⟨.listSecurityKeys _, _⟩ => true
  | _ => false

/-- A unit that judged a code of a person: it asked which step the code is of,
in the secret it read of that person, and was answered. -/
def JudgesCode (person : Uuid) (unit : List Deed) : Prop :=
  ∃ known code instant found, .said (told (.readTotp person) (some known)) ∈ unit ∧
    .asked (.findTotpStep known.sealedSecret code instant) (.ok found) ∈ unit

/-- A unit that judged a code counted it first, within the bound, and is over
in its commit. -/
def CodeAnswered (deeds : List Deed) (bound : Deed) : Prop :=
  ∀ person, JudgesCode person (Deed.unit deeds) → (∃ place, bound = .committed place) ∧
    ∃ attempts ≤ MAX_CODE_FAILURES,
      .said (told (.countCodeAttempt person) attempts) ∈ Deed.unit deeds

/-- The statements that count one failure of a brake. -/
def Brake.failures (brake : Brake) (now : Instant) : List Told :=
  told (.recordLoginFailure brake.nameToday (startLongBucket now)) () ::
    match brake.browser with
    | some browser => [told (.recordLoginFailure browser.recent (startBucket now)) (),
        told (.recordLoginFailure browser.today (startLongBucket now)) ()]
    | none => told (.recordLoginFailure brake.name (startBucket now)) () ::
        (brake.addressAndName.map fun byBoth =>
          told (.recordLoginFailure byBoth (startBucket now)) ()).toList

/-- What a brake counted of a name, and whether that locks it. -/
inductive Brake.Counted (brake : Brake) (now : Instant) : List Told → Bool → Prop
  | recently {browser : BrowserCounters} {recent : Nat} (known : brake.browser = some browser)
      (locked : isLocked recent = true) :
      Counted brake now [told (.countLoginFailures browser.recent (startWindow now)) recent] true
  | today {browser : BrowserCounters} {recent today : Nat} (known : brake.browser = some browser)
      (unlocked : isLocked recent = false) :
      Counted brake now [told (.countLoginFailures browser.recent (startWindow now)) recent,
          told (.countLoginFailures browser.today (startLongWindow now)) today]
        (today ≥ MAX_DAILY_FAILURES_PER_BROWSER)
  | here {byBoth : Bytes} {named today both : Nat} (unknown : brake.browser = none)
      (addressed : brake.addressAndName = some byBoth) :
      Counted brake now [told (.countLoginFailures brake.name (startWindow now)) named,
          told (.countLoginFailures brake.nameToday (startLongWindow now)) today,
          told (.countLoginFailures byBoth (startWindow now)) both]
        (isLocked both || named ≥ MAX_RECENT_FAILURES_PER_NAME || today ≥ MAX_DAILY_FAILURES)
  | named {named today : Nat} (unknown : brake.browser = none)
      (unaddressed : brake.addressAndName = none) :
      Counted brake now [told (.countLoginFailures brake.name (startWindow now)) named,
          told (.countLoginFailures brake.nameToday (startLongWindow now)) today]
        (isLocked named || today ≥ MAX_DAILY_FAILURES)

/-- The statements that count the failures of a name. -/
def asksFailures : Told → Bool
  | ⟨.countLoginFailures _ _, _⟩ => true
  | _ => false

theorem Brake.Counted.counts {brake : Brake} {now : Instant} {counted : List Told} {locked : Bool}
    (told : brake.Counted now counted locked) {said : Told} (inside : said ∈ counted) :
    asksFailures said = true := by
  cases told <;> simp only [List.mem_cons, List.not_mem_nil, or_false] at inside
  · rw [inside]
    rfl
  · rcases inside with rfl | rfl <;> rfl
  · rcases inside with rfl | rfl | rfl <;> rfl
  · rcases inside with rfl | rfl <;> rfl

def countsFailure : Told → Bool
  | ⟨.recordLoginFailure _ _, _⟩ => true
  | _ => false

def believesKey : Told → Bool
  | ⟨.recordKeyUse _ _ _, believed⟩ => believed
  | _ => false

/-- Who answers with a key: the person, the state of the proof their request
keeps, the address and the browser they answer from, and when. -/
structure KeyCaller where
  person : Person
  state : Bytes
  address : Option String
  device : Option Uuid
  now : Instant

section KeyAnswered

variable (app : App) (caller : KeyCaller)

/-- The counters of a caller, where they digest. -/
def KeyCaller.brake : Option Brake :=
  (Brake.read app caller.person.username caller.address).bind fun brake =>
    brake.readBrowser app caller.person.username caller.device

/-- What becomes of the answer of a key, by the statements its unit ran once
it knew the browser, and by the end of that unit. -/
inductive KeyOutcome (answer : Json) : List Told → Deed → Prop
  /-- The counters do not digest. -/
  | undigested (undigested : caller.brake app = none) :
      KeyOutcome answer [] (.failed (.failed .cryptoUnavailable))
  /-- The name is locked: nothing is judged. -/
  | locked {brake : Brake} {counted : List Told} {place : Nat}
      (braked : caller.brake app = some brake) (locked : brake.Counted caller.now counted true) :
      KeyOutcome answer counted (.committed place)
  /-- The library fails: nothing is judged. -/
  | unread {brake : Brake} {counted : List Told} {keys : List SecurityKey}
      (braked : caller.brake app = some brake) (unlocked : brake.Counted caller.now counted false)
      (failed : finishProof app.keyLibrary caller.state answer (keys.map SecurityKey.record) =
        .error .failed) :
      KeyOutcome answer (counted ++ [told (.listSecurityKeys caller.person.id) keys])
        (.failed (.failed .cryptoUnavailable))
  /-- The proof is believed, or counts as one failure. -/
  | judged {brake : Brake} {counted settled : List Told} {keys : List SecurityKey} {place : Nat}
      (braked : caller.brake app = some brake) (unlocked : brake.Counted caller.now counted false)
      (counts : settled.filter countsFailure =
        if settled.any believesKey then [] else brake.failures caller.now) :
      KeyOutcome answer (counted ++ told (.listSecurityKeys caller.person.id) keys :: settled)
        (.committed place)

variable {app caller} in
/-- A call read its request, and the person that owes a key to it. -/
structure KeyCaller.Owing (caller : KeyCaller) (request : Uuid) (earlier : List Deed) : Prop where
  owed : ∃ instant pending id proof,
    .said (told (.readPendingAuthorization request instant) (some pending)) ∈ earlier ∧
    pending.firstFactor = some id ∧ .said (told (.readPerson id) (some caller.person)) ∈ earlier ∧
    pending.keyProof = some proof ∧ proof.state = caller.state

/-- The unit that judged the answer of a key, in a call that read the person
and their request before: it began once the caller and the time were known,
and is over in one of those outcomes. -/
structure KeyAnswered (request : Uuid) (answer : Json) (deeds : List Deed) (bound : Deed) :
    Prop where
  answered : ∃ earlier script, deeds = earlier ++ [.asked .callerAddress caller.address,
      .asked .now caller.now, .began,
      .asked (.knownBrowser (some caller.person.id)) caller.device] ++ script.map .said ∧
    caller.Owing request earlier ∧ KeyOutcome app caller answer script bound

end KeyAnswered

/-- Nothing was judged in the unit still open. -/
def Quiet (deeds : List Deed) : Prop := ∀ deed ∈ Deed.unit deeds, judges deed = false

/-- A unit that judged the answer of a key, if it judged anything. -/
def KeyOwes (app : App) (request : Uuid) (answer : Json) (deeds : List Deed) (bound : Deed) : Prop :=
  ¬Quiet deeds → ∃ caller, KeyAnswered app caller request answer deeds bound

/-- What a call owes at each end of its units. -/
def Owes (app : App) : Call → List Deed → Deed → Prop
  | .finishSignIn _ _ (.code _), deeds, bound => CodeAnswered deeds bound
  | .finishSignIn request _ (.key answer), deeds, bound => KeyOwes app request answer deeds bound
  | _, _, _ => True

section Ends

variable {α : Type} {guar : List Deed → Deed → Prop} {deeds : List Deed}

@[simp]
theorem ends_failed {post : α → List Deed → Prop} {code : ErrorCode} :
    (failed code : Run α).ends guar post deeds = guar deeds (.failed (.failed code)) := rfl

@[simp]
theorem ends_orFail {post : α → List Deed → Prop} {code : ErrorCode} {value : Option α} :
    (orFail code value).ends guar post deeds =
      ((value = none → guar deeds (.failed (.failed code))) ∧
        ∀ one, value = some one → post one deeds) := by
  cases value with
  | none => simp [orFail]
  | some value => simp [orFail]

@[simp]
theorem ends_refuseIf {post : Unit → List Deed → Prop} {refused : Bool} {code : ErrorCode} :
    (refuseIf refused code).ends guar post deeds =
      ((refused = true → guar deeds (.failed (.failed code))) ∧
        (refused = false → post () deeds)) := by
  cases refused with
  | true => simp [refuseIf]
  | false => simp [refuseIf]

@[simp]
theorem ends_tellNow {post : Instant → List Deed → Prop} :
    tellNow.ends guar post deeds = ∀ instant, post instant (deeds ++ [.asked .now instant]) := rfl

@[simp]
theorem ends_beginWork {post : Unit → List Deed → Prop} :
    beginWork.ends guar post deeds = (guar deeds .began ∧ post () (deeds ++ [.began])) := rfl

@[simp]
theorem ends_dropWork {post : Unit → List Deed → Prop} :
    dropWork.ends guar post deeds = (guar deeds .dropped ∧ post () (deeds ++ [.dropped])) := rfl

@[simp]
theorem ends_commitWork {post : Unit → List Deed → Prop} :
    commitWork.ends guar post deeds = ∀ place, guar deeds (.committed place) ∧
      post () (deeds ++ [.committed place]) := rfl

@[simp]
theorem ends_ite {post : α → List Deed → Prop} {condition : Prop} [Decidable condition]
    {yes no : Run α} : (if condition then yes else no).ends guar post deeds =
      ((condition → yes.ends guar post deeds) ∧ (¬condition → no.ends guar post deeds)) := by
  by_cases holds : condition
  · simp [holds]
  · simp [holds]

variable {app : App}

theorem ofTyped_ends {post : Brake → List Deed → Prop} {typed : String}
    (free : ∀ address, guar (deeds ++ [.asked .callerAddress address])
      (.failed (.failed .cryptoUnavailable)))
    (made : ∀ address brake, Brake.read app typed address = some brake →
      post brake (deeds ++ [.asked .callerAddress address])) :
    (Brake.ofTyped app typed).ends guar post deeds := by
  simp only [Brake.ofTyped, digestNameLocks, digestCounter, ask, inquire, Prog.ends_bind, Prog.ends,
    ends_orFail, Prog.ends_pure]
  intro address
  refine ⟨fun _ => free address, fun name isName => ⟨fun _ => free address, fun today isToday => ?_⟩⟩
  cases address with
  | none => exact made none _ (by simp [Brake.read, isName, isToday])
  | some address =>
    simp only [Prog.ends_bind, ends_orFail, Prog.ends_pure]
    refine ⟨fun _ => free _, fun byAddress isAddress => ⟨fun _ => free _, fun byBoth isBoth => ?_⟩⟩
    exact made (some address) _ (by simp [Brake.read, isName, isToday, isAddress, isBoth])

theorem ofCaller_ends {post : Brake → List Deed → Prop} {brake : Brake} {typed : String}
    {person : Option Uuid}
    (unmade : ∀ device, brake.readBrowser app typed device = none →
      guar (deeds ++ [.asked (.knownBrowser person) device])
        (.failed (.failed .cryptoUnavailable)))
    (made : ∀ device other, brake.readBrowser app typed device = some other →
      post other (deeds ++ [.asked (.knownBrowser person) device])) :
    (brake.ofCaller app typed person).ends guar post deeds := by
  simp only [Brake.ofCaller, ask, inquire, Prog.ends_bind, Prog.ends]
  intro device
  cases device with
  | none => exact made none brake rfl
  | some device =>
    simp only [Brake.countBrowserApart, digestCounter, Prog.ends_bind, ends_orFail, Prog.ends_pure]
    refine ⟨fun absent => unmade _ (by simp [Brake.readBrowser, absent]), fun attempts isAttempts =>
      ⟨fun absent => unmade _ (by simp [Brake.readBrowser, isAttempts, absent]), fun recent isRecent =>
        ⟨fun absent => unmade _ (by simp [Brake.readBrowser, isAttempts, isRecent, absent]),
          fun today isToday => ?_⟩⟩⟩
    exact made (some device) _ (by simp [Brake.readBrowser, isAttempts, isRecent, isToday])

theorem isNameLocked_ends {post : Bool → List Deed → Prop} {brake : Brake} {now : Instant}
    (asked : ∀ counted locked, brake.Counted now counted locked →
      post locked (deeds ++ counted.map .said)) :
    (brake.isNameLocked now).ends guar post deeds := by
  unfold Brake.isNameLocked
  split
  · next browser known =>
    simp only [query, exec, Prog.ends_bind, Prog.ends, ends_ite, Prog.ends_pure]
    intro recent
    refine ⟨fun locked => asked _ _ (.recently known locked), fun unlocked today => ?_⟩
    rw [List.append_assoc]
    exact asked _ _ (.today known (Bool.eq_false_of_not_eq_true unlocked))
  · next unknown =>
    simp only [query, exec, Prog.ends_bind, Prog.ends]
    intro named today
    split
    · next byBoth addressed =>
      simp only [Prog.ends_bind, Prog.ends, Prog.ends_pure]
      intro both
      rw [List.append_assoc, List.append_assoc]
      exact asked _ _ (.here unknown addressed)
    · next unaddressed =>
      rw [List.append_assoc]
      exact asked _ _ (.named unknown unaddressed)

theorem recordFailure_ends {post : Unit → List Deed → Prop} {brake : Brake} {now : Instant}
    (counted : post () (deeds ++ (brake.failures now).map .said)) :
    (brake.recordFailure now).ends guar post deeds := by
  simp only [Brake.recordFailure, query, exec, Prog.ends_bind, Prog.ends]
  intro _
  unfold Brake.failures at counted
  split
  · next browser isBrowser =>
    simp only [Prog.ends_bind, Prog.ends]
    intro _ _
    rw [isBrowser] at counted
    rw [List.append_assoc, List.append_assoc]
    exact counted
  · next absent =>
    simp only [Prog.ends_bind, Prog.ends]
    intro _
    rw [absent] at counted
    split
    · next byBoth isBoth =>
      intro _
      rw [isBoth] at counted
      rw [List.append_assoc, List.append_assoc]
      exact counted
    · next none =>
      rw [none] at counted
      rw [List.append_assoc]
      exact counted

end Ends

section Avoids

theorem query_avoids {op : Op} (other : ∀ result, judges (.said (told op result)) = false) :
    (query op).avoids judges :=
  fun result => ⟨other result, trivial⟩

theorem tellNow_avoids : tellNow.avoids judges := fun _ => ⟨rfl, trivial⟩

theorem drawSecret_avoids : drawSecret.avoids judges := by
  intro drawn
  cases drawn <;> exact ⟨rfl, trivial⟩

theorem mintId_avoids : mintId.avoids judges := by
  intro drawn
  cases drawn <;> exact ⟨rfl, trivial⟩

theorem refuseIf_avoids (refused : Bool) (code : ErrorCode) :
    (refuseIf refused code).avoids judges := by
  cases refused <;> trivial

theorem closeSession_avoids (session : Session) : (closeSession session).avoids judges := by
  unfold closeSession
  refine Prog.avoids_bind (query_avoids fun _ => rfl) fun ended => ?_
  split
  · exact Prog.avoids_bind tellNow_avoids fun _ =>
      Prog.avoids_bind (query_avoids fun _ => rfl) fun _ => trivial
  · trivial

theorem endOrphanSession_avoids (session : Uuid) : (endOrphanSession session).avoids judges := by
  unfold endOrphanSession
  refine Prog.avoids_bind (query_avoids fun _ => rfl) fun read => ?_
  split
  · exact Prog.avoids_bind (closeSession_avoids _) fun _ => trivial
  · trivial

theorem leaveConsentOwed_avoids (request : Uuid) (signedIn : SignedIn) :
    (leaveConsentOwed request signedIn).avoids judges := by
  unfold leaveConsentOwed
  refine Prog.avoids_bind tellNow_avoids fun _ =>
    Prog.avoids_bind (query_avoids fun _ => rfl) fun marked => ?_
  split
  · exact Prog.avoids_bind (endOrphanSession_avoids _) fun _ => trivial
  · trivial

theorem issueCode_avoids (app : App) (grant : CodeGrant) : (issueCode app grant).avoids judges := by
  unfold issueCode
  refine Prog.avoids_bind drawSecret_avoids fun _ => Prog.avoids_bind tellNow_avoids fun _ =>
    Prog.avoids_bind (query_avoids fun _ => rfl) fun inserted => ?_
  cases inserted <;> trivial

theorem takeRequest_avoids (request session : Uuid) :
    (takeRequest request session).avoids judges := by
  unfold takeRequest
  refine Prog.avoids_bind tellNow_avoids fun _ =>
    Prog.avoids_bind (query_avoids fun _ => rfl) fun taken => ?_
  split
  · trivial
  · exact Prog.avoids_bind (endOrphanSession_avoids _) fun _ => trivial

theorem finishRequest_avoids (app : App) (request : Uuid) (signedIn : SignedIn) :
    (finishRequest app request signedIn).avoids judges := by
  unfold finishRequest
  refine Prog.avoids_bind (takeRequest_avoids _ _) fun pending => ?_
  split
  · trivial
  · exact Prog.avoids_bind tellNow_avoids fun _ =>
      Prog.avoids_bind (issueCode_avoids _ _) fun _ => trivial

theorem isConsentOwedAfterSignIn_avoids (pending : PendingAuthorization) (person : Uuid) :
    (isConsentOwedAfterSignIn pending person).avoids judges := by
  unfold isConsentOwedAfterSignIn
  split
  · trivial
  · exact Prog.avoids_bind (query_avoids fun _ => rfl) fun _ => trivial

/-- What a sign-in still does once its person is proven. -/
theorem settled_avoids (app : App) (request : Uuid) (pending : PendingAuthorization)
    (signedIn : SignedIn) :
    (do
      beginWork
      let owed ← if isHintedAtAnother pending signedIn.person.id then pure false
        else isConsentOwedAfterSignIn pending signedIn.person.id
      if owed then leaveConsentOwed request signedIn
      else finishRequest app request signedIn : Run SignInStep).avoids judges := by
  have ends : ∀ owed : Bool, (if owed then leaveConsentOwed request signedIn
      else finishRequest app request signedIn : Run SignInStep).avoids judges := by
    intro owed
    split
    · exact leaveConsentOwed_avoids request signedIn
    · exact finishRequest_avoids app request signedIn
  refine Prog.avoids_bind trivial fun _ => ?_
  split
  · exact Prog.avoids_bind (by trivial) ends
  · exact Prog.avoids_bind (isConsentOwedAfterSignIn_avoids pending signedIn.person.id) ends

theorem openSessionFor_avoids (person : Person) (brake : Brake)
    (methods : List AuthenticationMethod) : (openSessionFor person brake methods).avoids judges := by
  unfold openSessionFor openSession Brake.forgetBrowserFailures
  refine Prog.avoids_bind trivial fun _ => Prog.avoids_bind ?_ fun _ => ?_
  · split
    · exact Prog.avoids_bind (query_avoids fun _ => rfl) fun _ => query_avoids fun _ => rfl
    · trivial
  · refine Prog.avoids_bind ?_ fun opened => Prog.avoids_bind trivial fun _ => trivial
    exact Prog.avoids_bind drawSecret_avoids fun _ => Prog.avoids_bind tellNow_avoids fun _ =>
      Prog.avoids_bind mintId_avoids fun _ => Prog.avoids_bind (query_avoids fun _ => rfl) fun _ =>
      Prog.avoids_bind (refuseIf_avoids _ _) fun _ => trivial

end Avoids

section Quiet

variable {guar : List Deed → Deed → Prop} {deeds : List Deed}

theorem Quiet.closed {deed : Deed} (closes : deed.closes = true) : Quiet (deeds ++ [deed]) := by
  rw [Quiet, Deed.unit_closed closes]
  exact List.forall_mem_nil _

theorem Quiet.concat {deed : Deed} (quiet : Quiet deeds) (other : judges deed = false) :
    Quiet (deeds ++ [deed]) := by
  by_cases closes : deed.closes = true
  · exact .closed closes
  · rw [Quiet, Deed.unit_concat (Bool.eq_false_of_not_eq_true closes), List.forall_mem_append,
      List.forall_mem_singleton]
    exact ⟨quiet, other⟩

theorem readPersonWhoOwes_ends {post : Person → List Deed → Prop} {id : Uuid} {refusal : ErrorCode}
    (free : ∀ deeds bound, Quiet deeds → guar deeds bound) (quiet : Quiet deeds)
    (read : ∀ row, post row (deeds ++ [.began] ++ [.said (told (.readPerson id) (some row))] ++
      [.dropped])) :
    (readPersonWhoOwes id refusal).ends guar post deeds := by
  simp only [readPersonWhoOwes, query, exec, Prog.ends_bind, Prog.ends, ends_beginWork,
    ends_dropWork, ends_orFail]
  refine ⟨free _ _ quiet, fun found => ⟨free _ _ ?_, fun _ => free _ _ (.closed rfl), ?_⟩⟩
  · exact (Quiet.closed rfl).concat rfl
  · intro row enabled
    obtain ⟨rfl, -⟩ := Option.filter_eq_some_iff.mp enabled
    exact read row

/-- A sign-in owes what the proof of its answer owes. -/
theorem finishSignIn_ends {app : App} {request : Uuid} {browserDigest : Bytes} {answer : SignInAnswer}
    (free : ∀ deeds bound, Quiet deeds → guar deeds bound)
    (proves : ∀ instant pending, (proveAnswer app pending answer).ends guar (fun _ => Quiet)
      [.began, .asked .now instant,
        .said (told (.readPendingAuthorization request instant) (some pending)), .dropped]) :
    (program app (.finishSignIn request browserDigest answer)).ends guar
      (fun _ deeds => guar deeds .answered) [] := by
  simp only [program, finishSignIn, requireBrowser, query, exec, Prog.ends_bind, Prog.ends,
    ends_beginWork, ends_tellNow, ends_dropWork, ends_orFail]
  have begun : Quiet ([] ++ [.began]) := .closed rfl
  refine ⟨free _ _ (List.forall_mem_nil _), fun instant read => ⟨free _ _ ?_, fun _ => free _ _ ?_, ?_⟩⟩
  · exact (begun.concat rfl).concat rfl
  · exact .closed rfl
  · intro pending isPending
    obtain ⟨rfl, -⟩ := Option.filter_eq_some_iff.mp isPending
    refine Prog.ends_mono ?_ (proves instant pending)
    intro proven later quiet
    cases proven with
    | owes owed => exact free _ _ quiet
    | signedIn signedIn =>
      have rest := Prog.ends_of_avoids (settled_avoids app request pending signedIn) free quiet
      exact Prog.ends_mono (fun _ later left => free later .answered left) rest

end Quiet

section Codes

variable {deeds : List Deed}

/-- A unit that asked for no step of a code judged none. -/
theorem codeAnswered_of_unasked {bound : Deed}
    (unasked : ∀ secret code instant found,
      .asked (.findTotpStep secret code instant) (.ok found) ∉ Deed.unit deeds) :
    CodeAnswered deeds bound := by
  rintro person ⟨known, code, instant, found, -, asked⟩
  exact absurd asked (unasked _ _ _ _)

theorem codeAnswered_of_quiet {bound : Deed} (quiet : Quiet deeds) : CodeAnswered deeds bound := by
  apply codeAnswered_of_unasked
  intro secret code instant found inside
  cases quiet _ inside

theorem reads_failures {brake : Brake} {now : Instant} :
    ∀ said ∈ brake.failures now, reads said.1 = false := by
  unfold Brake.failures
  split
  · simp [told, reads]
  · cases brake.addressAndName <;> simp [told, reads]

theorem settleCode_ends {post : Unit → List Deed → Prop} {brake : Brake} {person : Uuid}
    {now : Instant} {accepted : Bool} {attempts : Option Nat} {guar : List Deed → Deed → Prop}
    (settled : ∀ (script : List Told) place, (∀ said ∈ script, reads said.1 = false) →
      guar (deeds ++ script.map .said) (.committed place) ∧
      post () (deeds ++ script.map .said ++ [.committed place])) :
    (settleCode brake person now accepted attempts).ends guar post deeds := by
  cases accepted with
  | true =>
    simp only [settleCode, if_true, Bool.not_true, Bool.false_and, Bool.false_eq_true, if_false, query,
      exec, Prog.ends_bind, Prog.ends, ends_commitWork]
    intro cleared place
    exact settled [told (.clearCodeAttempts person) cleared] place (by simp [told, reads])
  | false =>
    simp only [settleCode, Bool.false_eq_true, if_false, Bool.not_false, Bool.true_and,
      decide_eq_true_eq, Prog.ends_bind]
    apply recordFailure_ends
    simp only [ends_ite, query, exec, ends_commitWork]
    refine ⟨fun _ result place => ?_, fun _ place => settled _ place reads_failures⟩
    have more := settled (brake.failures now ++ [told (.recordEvent .codesSuspended person) result])
      place (by
        rw [List.forall_mem_append, List.forall_mem_singleton]
        exact ⟨reads_failures, rfl⟩)
    rw [List.map_append, ← List.append_assoc] at more
    exact more

/-- A unit that settles what it did not judge. -/
theorem codeAnswered_settled {bound : Deed} {script : List Told}
    (unasked : ∀ secret code instant found,
      .asked (.findTotpStep secret code instant) (.ok found) ∉ Deed.unit deeds) :
    CodeAnswered (deeds ++ script.map .said) bound := by
  apply codeAnswered_of_unasked
  intro secret code instant found inside
  rw [Deed.unit_said] at inside
  rcases List.mem_append.mp inside with earlier | later
  · exact unasked _ _ _ _ earlier
  · obtain ⟨said, -, other⟩ := List.mem_map.mp later
    cases other

/-- A unit that counted a code of the one person whose authenticator it read. -/
structure CountedCode (person : Uuid) (attempts : Nat) (deeds : List Deed) : Prop where
  only : ∀ one known, .said (told (.readTotp one) known) ∈ Deed.unit deeds → one = person
  counted : .said (told (.countCodeAttempt person) attempts) ∈ Deed.unit deeds

theorem CountedCode.concat {person : Uuid} {attempts : Nat} {deed : Deed}
    (counted : CountedCode person attempts deeds) (inside : deed.closes = false)
    (other : ∀ one known, .said (told (.readTotp one) known) ≠ deed) :
    CountedCode person attempts (deeds ++ [deed]) := by
  refine ⟨?_, ?_⟩
  · intro one known isRead
    rw [Deed.unit_concat inside, List.mem_append, List.mem_singleton] at isRead
    rcases isRead with earlier | same
    · exact counted.only one known earlier
    · exact absurd same (other one known)
  · rw [Deed.unit_concat inside]
    exact List.mem_append_left _ counted.counted

theorem CountedCode.asked {person : Uuid} {attempts : Nat}
    (counted : CountedCode person attempts deeds) (question : Ask) (answer : Ans question) :
    CountedCode person attempts (deeds ++ [.asked question answer]) :=
  counted.concat rfl fun _ _ same => by cases same

/-- A unit that settles what it judged. -/
theorem CountedCode.answered {person : Uuid} {attempts place : Nat} {script : List Told}
    (counted : CountedCode person attempts deeds) (within : attempts ≤ MAX_CODE_FAILURES)
    (settled : ∀ said ∈ script, reads said.1 = false) :
    CodeAnswered (deeds ++ script.map .said) (.committed place) := by
  rintro one ⟨known, code, instant, found, isRead, -⟩
  rw [Deed.unit_said] at isRead ⊢
  refine ⟨⟨place, rfl⟩, attempts, within, ?_⟩
  rcases List.mem_append.mp isRead with earlier | later
  · rw [counted.only one _ earlier]
    exact List.mem_append_left _ counted.counted
  · obtain ⟨said, inside, same⟩ := List.mem_map.mp later
    obtain rfl := Deed.said.inj same
    cases settled _ inside

/-- A code is judged once it was counted. -/
theorem judgeCode_ends {post : Bool × Option Nat → List Deed → Prop} {person : Uuid}
    {totp : Option TotpAuthenticator} {code : String}
    (unasked : ∀ secret code instant found,
      .asked (.findTotpStep secret code instant) (.ok found) ∉ Deed.unit deeds)
    (unread : ∀ one known, .said (told (.readTotp one) known) ∉ Deed.unit deeds)
    (judged : ∀ accepted attempts (later : List Deed),
      (∀ (script : List Told) place, (∀ said ∈ script, reads said.1 = false) →
        CodeAnswered (later ++ script.map .said) (.committed place)) →
      post (accepted, attempts) later) :
    (judgeCode person (totp.filter fun known => known.confirmedAt.isSome) code).ends CodeAnswered post
      (deeds ++ [.said ⟨.readTotp person, totp⟩]) := by
  unfold judgeCode
  split
  · apply judged
    intro script place _
    apply codeAnswered_settled
    rw [Deed.unit_concat rfl]
    simpa using unasked
  next known isKnown =>
  obtain ⟨rfl, -⟩ := Option.filter_eq_some_iff.mp isKnown
  simp only [query, exec, Prog.ends_bind, Prog.ends, ends_ite, Prog.ends_pure]
  intro attempts
  refine ⟨fun within => ?_, fun _ => ?_⟩
  · have counts : CountedCode person attempts (deeds ++ [.said ⟨.readTotp person, some known⟩] ++
        [.said ⟨.countCodeAttempt person, attempts⟩]) := by
      refine ⟨?_, ?_⟩
      · intro one found isRead
        rw [Deed.unit_concat rfl, Deed.unit_concat rfl, List.mem_append, List.mem_append] at isRead
        rcases isRead with (earlier | same) | other
        · exact absurd earlier (unread one found)
        · cases List.mem_singleton.mp same
          rfl
        · cases List.mem_singleton.mp other
      · rw [Deed.unit_concat rfl]
        exact List.mem_append_right _ List.mem_cons_self
    simp only [acceptCode, ask, inquire, query, exec, Prog.ends_bind, Prog.ends, ends_ite,
      Prog.ends_pure, ends_tellNow]
    intro instant
    have timed := counts.asked .now instant
    refine ⟨fun _ => judged _ _ _ fun _ _ => timed.answered within, fun _ found => ?_⟩
    have asked := timed.asked (.findTotpStep known.sealedSecret (Text.trim code) instant) found
    cases found with
    | error code =>
      apply codeAnswered_of_unasked
      repeat rw [Deed.unit_concat rfl]
      simpa using unasked
    | ok step =>
      cases step with
      | none => exact judged _ _ _ fun _ _ => asked.answered within
      | some step =>
        intro accepted
        apply judged
        intro script place settled
        exact (asked.concat rfl fun _ _ same => by cases same).answered within settled
  · apply judged
    intro script place _
    apply codeAnswered_settled
    rw [Deed.unit_concat rfl, Deed.unit_concat rfl]
    simpa using unasked

/-- The unit that judges a code commits. -/
theorem verifyCode_ends {app : App} {post : Brake → List Deed → Prop} {person : Person}
    {code : String} (quiet : Quiet deeds) (verified : ∀ brake later, Quiet later → post brake later) :
    (verifyCode app person code).ends CodeAnswered post deeds := by
  rw [verifyCode, Prog.ends_bind]
  apply ofTyped_ends
  · exact fun address => codeAnswered_of_quiet (quiet.concat rfl)
  intro address brake _
  simp only [Prog.ends_bind, ends_tellNow, ends_beginWork]
  intro now
  refine ⟨codeAnswered_of_quiet ((quiet.concat rfl).concat rfl), ?_⟩
  have idle : Deed.unit (deeds ++ [.asked .callerAddress address] ++ [.asked .now now] ++
      [.began]) = ([] : List Deed) := Deed.unit_closed rfl
  generalize deeds ++ [.asked .callerAddress address] ++ [.asked .now now] ++ [.began] = began at idle ⊢
  apply ofCaller_ends
  · intro device _
    apply codeAnswered_of_unasked
    rw [Deed.unit_concat rfl, idle]
    simp
  intro device brake _
  apply isNameLocked_ends
  intro counted locked isCounted
  have unit : Deed.unit (L := language) (began ++ [.asked (.knownBrowser (some person.id)) device] ++
      counted.map .said) = .asked (.knownBrowser (some person.id)) device :: counted.map .said := by
    rw [Deed.unit_said, Deed.unit_concat rfl, idle]
    rfl
  generalize began ++ [.asked (.knownBrowser (some person.id)) device] ++ counted.map .said = asked
    at unit ⊢
  have unasked : ∀ secret code instant found,
      .asked (.findTotpStep secret code instant) (.ok found) ∉ Deed.unit asked := by
    simp [unit]
  simp only [ends_ite, Prog.ends_bind, ends_commitWork, ends_failed, query, exec, Prog.ends]
  refine ⟨fun _ place => ⟨codeAnswered_of_unasked unasked, codeAnswered_of_quiet (.closed rfl)⟩,
    fun _ totp => ?_⟩
  apply judgeCode_ends unasked
  · intro one known inside
    obtain ⟨said, among, rfl⟩ : ∃ said ∈ counted, said = told (.readTotp one) known := by
      simpa [unit] using inside
    exact absurd (isCounted.counts among) Bool.false_ne_true
  · intro accepted attempts later owed
    apply settleCode_ends
    intro script place settled
    rw [ends_refuseIf]
    exact ⟨owed script place settled, fun _ => codeAnswered_of_quiet (.closed rfl),
      fun _ => verified _ _ (.closed rfl)⟩

/-- A sign-in by code owes its judgment. -/
theorem signInByCode_ends (app : App) (request : Uuid) (browserDigest : Bytes) (code : String) :
    (program app (.finishSignIn request browserDigest (.code code))).ends CodeAnswered
      (fun _ deeds => CodeAnswered deeds .answered) [] := by
  apply finishSignIn_ends fun _ _ => codeAnswered_of_quiet
  intro instant pending
  simp only [proveAnswer, finishSignInWithCode, Prog.ends_bind, ends_orFail, Prog.ends_pure]
  have idle : Quiet ([.began, .asked .now instant,
      .said (told (.readPendingAuthorization request instant) (some pending))] ++ [.dropped]) :=
    .closed rfl
  refine ⟨fun _ => codeAnswered_of_quiet idle, fun id _ => ?_⟩
  apply readPersonWhoOwes_ends (fun _ _ => codeAnswered_of_quiet) idle
  intro person
  apply verifyCode_ends (.closed rfl)
  intro brake later quiet
  exact Prog.ends_of_avoids (openSessionFor_avoids person brake _) (fun _ _ => codeAnswered_of_quiet)
    quiet

end Codes

section Keys

variable {deeds : List Deed} {app : App} {request : Uuid} {answer : Json}

theorem keyOwes_of_quiet {bound : Deed} (quiet : Quiet deeds) :
    KeyOwes app request answer deeds bound :=
  fun judged => absurd quiet judged

theorem keyOwes_of_outcome {caller : KeyCaller} {script : List Told} {bound : Deed}
    (owing : caller.Owing request deeds) (outcome : KeyOutcome app caller answer script bound) :
    KeyOwes app request answer (deeds ++ [.asked .callerAddress caller.address] ++
      [.asked .now caller.now] ++ [.began] ++
      [.asked (.knownBrowser (some caller.person.id)) caller.device] ++ script.map .said) bound :=
  fun _ => ⟨caller, deeds, script, by simp, owing, outcome⟩

theorem filter_failures (brake : Brake) (now : Instant) :
    (brake.failures now).filter countsFailure = brake.failures now := by
  rw [List.filter_eq_self]
  intro said inside
  unfold Brake.failures at inside
  split at inside
  · simp only [List.mem_cons, List.not_mem_nil, or_false] at inside
    rcases inside with rfl | rfl | rfl <;> rfl
  · simp only [List.mem_cons, Option.mem_toList, Option.map_eq_some_iff] at inside
    rcases inside with rfl | rfl | ⟨byBoth, -, rfl⟩ <;> rfl

theorem not_believes_failures (brake : Brake) (now : Instant) :
    (brake.failures now).any believesKey = false := by
  rw [List.any_eq_false]
  intro said inside
  rw [← filter_failures] at inside
  have counts := (List.mem_filter.mp inside).2
  unfold countsFailure at counts
  split at counts
  · exact Bool.false_ne_true
  · cases counts

variable {guar : List Deed → Deed → Prop}

theorem judgeKey_ends {post : Option KeyRefusal → List Deed → Prop} {keys : List SecurityKey}
    {instant : Instant} {proof : Except KeyRefusal KeyProof}
    (failed : proof = .error .failed → guar deeds (.failed (.failed .cryptoUnavailable)))
    (judged : ∀ refusal (script : List Told), script.filter countsFailure = [] →
      script.any believesKey = refusal.isNone → post refusal (deeds ++ script.map .said)) :
    (judgeKey keys instant proof).ends guar post deeds := by
  have unjudged : ∀ refusal, post (some refusal) deeds := by
    intro refusal
    simpa using judged (some refusal) [] rfl rfl
  cases proof with
  | error refusal =>
    cases refusal with
    | failed => exact failed rfl
    | refused => exact unjudged _
    | copySuspected => exact unjudged _
  | ok proof =>
    simp only [judgeKey]
    split
    · next key found =>
      simp only [query, exec, Prog.ends_bind, Prog.ends, Prog.ends_pure]
      intro recorded
      refine judged _ [told (.recordKeyUse key proof.record instant) recorded] rfl ?_
      cases recorded <;> rfl
    · exact unjudged _

theorem settleKey_ends {post : Unit → List Deed → Prop} {brake : Brake} {person : Uuid}
    {now : Instant} {refusal : Option KeyRefusal}
    (settled : ∀ (script : List Told) place,
      script.filter countsFailure = (if refusal.isNone then [] else brake.failures now) →
      script.any believesKey = false → guar (deeds ++ script.map .said) (.committed place) ∧
        post () (deeds ++ script.map .said ++ [.committed place])) :
    (settleKey brake person now refusal).ends guar post deeds := by
  cases refusal with
  | none =>
    simp only [settleKey, Option.isNone_none, if_true, reduceCtorEq, if_false, query, exec,
      Prog.ends_bind, Prog.ends, ends_commitWork]
    intro cleared place
    exact settled [told (.clearCodeAttemptsBelow person MAX_CODE_FAILURES) cleared] place rfl rfl
  | some refusal =>
    simp only [settleKey, Option.isNone_some, Bool.false_eq_true, if_false, Prog.ends_bind]
    apply recordFailure_ends
    simp only [ends_ite, query, exec, ends_commitWork]
    refine ⟨fun _ told_ place => ?_, fun _ place => ?_⟩
    · have more := settled (brake.failures now ++ [told (.recordEvent .keyCopySuspected person) told_])
        place (by
          rw [List.filter_append, filter_failures]
          exact List.append_nil _)
        (by
          rw [List.any_append, not_believes_failures]
          rfl)
      rw [List.map_append, ← List.append_assoc] at more
      exact more
    · exact settled _ place (filter_failures brake now) (not_believes_failures brake now)

/-- The unit that judges the answer of a key commits, or the call fails. -/
theorem verifyKey_ends {post : Brake → List Deed → Prop} {person : Person} {state : Bytes}
    (quiet : Quiet deeds)
    (owing : ∀ address device now, KeyCaller.Owing ⟨person, state, address, device, now⟩ request deeds)
    (verified : ∀ brake later, Quiet later → post brake later) :
    (verifyKey app person state answer).ends (KeyOwes app request answer) post deeds := by
  rw [verifyKey, Prog.ends_bind]
  apply ofTyped_ends
  · exact fun address => keyOwes_of_quiet (quiet.concat rfl)
  intro address first isFirst
  simp only [Prog.ends_bind, ends_tellNow, ends_beginWork]
  intro now
  refine ⟨keyOwes_of_quiet ((quiet.concat rfl).concat rfl), ?_⟩
  have owes : ∀ device script bound,
      KeyOutcome app ⟨person, state, address, device, now⟩ answer script bound →
      KeyOwes app request answer (deeds ++ [.asked .callerAddress address] ++ [.asked .now now] ++
        [.began] ++ [.asked (.knownBrowser (some person.id)) device] ++ script.map .said) bound :=
    fun device script bound => keyOwes_of_outcome (owing address device now)
  apply ofCaller_ends
  · intro device unmade
    simpa using owes device [] _ (.undigested (by simp [KeyCaller.brake, isFirst, unmade]))
  intro device brake isBrake
  have braked : KeyCaller.brake app ⟨person, state, address, device, now⟩ = some brake := by
    simp [KeyCaller.brake, isFirst, isBrake]
  apply isNameLocked_ends
  intro counted locked isCounted
  simp only [ends_ite, Prog.ends_bind, ends_commitWork, ends_failed, query, exec, Prog.ends]
  refine ⟨fun isLocked place => ⟨?_, keyOwes_of_quiet (.closed rfl)⟩, fun unlocked keys => ?_⟩
  · subst isLocked
    exact owes device counted _ (.locked braked isCounted)
  · obtain rfl := Bool.eq_false_of_not_eq_true unlocked
    apply judgeKey_ends
    · intro failed
      have outcome := owes device _ _ (.unread braked isCounted failed)
      rw [List.map_append, ← List.append_assoc] at outcome
      exact outcome
    intro refusal script uncounted believed
    apply settleKey_ends
    intro settled place counts unbelieved
    have outcome := owes device (counted ++ told (.listSecurityKeys person.id) keys ::
      (script ++ settled)) (.committed place) (.judged braked isCounted (by
        rw [List.filter_append, uncounted, List.nil_append, counts, List.any_append, believed,
          unbelieved, Bool.or_false]))
    rw [ends_refuseIf]
    refine ⟨?_, fun _ => keyOwes_of_quiet (.closed rfl), fun _ => verified _ _ (.closed rfl)⟩
    simpa [told] using outcome

/-- A sign-in by key owes what becomes of its answer. -/
theorem signInByKey_ends (app : App) (request : Uuid) (browserDigest : Bytes) (answer : Json) :
    (program app (.finishSignIn request browserDigest (.key answer))).ends (KeyOwes app request answer)
      (fun _ deeds => KeyOwes app request answer deeds .answered) [] := by
  apply finishSignIn_ends fun _ _ => keyOwes_of_quiet
  intro instant pending
  simp only [proveAnswer, finishSignInWithKey, Prog.ends_bind, ends_orFail, Prog.ends_pure]
  have idle : Quiet ([.began, .asked .now instant,
      .said (told (.readPendingAuthorization request instant) (some pending))] ++ [.dropped]) :=
    .closed rfl
  refine ⟨fun _ => keyOwes_of_quiet idle, fun id isPerson =>
    ⟨fun _ => keyOwes_of_quiet idle, fun proof isProof => ?_⟩⟩
  apply readPersonWhoOwes_ends (fun _ _ => keyOwes_of_quiet) idle
  intro person
  apply verifyKey_ends (.closed rfl)
  · intro address device now
    exact ⟨instant, pending, id, proof, by simp, isPerson, by simp, isProof, rfl⟩
  intro brake later quiet
  exact Prog.ends_of_avoids (openSessionFor_avoids person brake _) (fun _ _ => keyOwes_of_quiet) quiet

end Keys

/-- Every call ends its units as it owes. -/
def owed (app : App) : Deeds (calls app) where
  guar := Owes app
  calls call := by
    cases call with
    | finishSignIn request browserDigest answer =>
      cases answer with
      | code code => exact signInByCode_ends app request browserDigest code
      | key answer => exact signInByKey_ends app request browserDigest answer
      | password name password => exact Prog.ends_trivial
    | _ => exact Prog.ends_trivial

end Saffui.Oidc
