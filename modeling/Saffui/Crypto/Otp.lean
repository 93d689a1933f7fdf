import Mathlib.Data.List.Basic
import Mathlib.Algebra.Group.Int.Defs
import Saffui.Crypto.Provider
import Saffui.Utf8

/-!
# One-time passwords

Source: `crypto/src/otp/hotp.rs`, `crypto/src/otp/totp.rs` and
`crypto/src/adapters/otp.rs`. The window is walked once and every step of it is
tried; the step reported is the last one whose code is the one presented, which
is the greatest.
-/

namespace Saffui.Crypto.Otp

open Foundation Foundation.Bytes Outcome

/-- The code a counter has, of the digits asked. -/
def hotp (hmac : HmacProvider) (secret : Bytes) (counter : UInt64) (digits : UInt32)
    (hash : HashAlg) : Outcome CryptoError UInt32 := do
  if ¬(6 ≤ digits ∧ digits ≤ 8) then throw .invalidParams
  let tag ← settled (hmac hash secret (bigEndian 8 counter.toNat))
  let place ← minus tag.length 1
  let last ← within tag[place]?
  let offset := (last &&& 0x0f).toNat
  match slice tag offset (offset + 4) with
  | some [first, second, third, fourth] =>
    let binary := ofBigEndian [first &&& 0x7f, second, third, fourth]
    let modulus ← checked (2 ^ 32) (10 ^ digits.toNat)
    return UInt32.ofNat (binary % modulus)
  | _ => throw .operationFailed

structure TotpParams where
  period : UInt64
  digits : UInt32
  hash : HashAlg

def TotpParams.new (hash : HashAlg) : TotpParams := ⟨30, 6, hash⟩

def TotpParams.check (params : TotpParams) : Outcome CryptoError Unit := do
  if params.period = 0 then throw .invalidParams

/-- The numbers of a range, both of its ends included. -/
def inclusive (first last : Int) : List Int :=
  (List.range (last + 1 - first).toNat).map fun place : Nat => first + (place : Int)

/-- `u64::checked_add_signed` -/
def checkedAddSigned (center : UInt64) (delta : Int) : Option UInt64 :=
  let sum := (center.toNat : Int) + delta
  if 0 ≤ sum ∧ sum < 2 ^ 64 then some (UInt64.ofNat sum.toNat) else none

/-- What the walk has found: whether a step matched, and the last that did. -/
structure Walk where
  hit : Bool
  step : UInt64

def Walk.found (walk : Walk) : Option UInt64 := if walk.hit then some walk.step else none

/-- What the walk does of one step. -/
def tryStep (hmac : HmacProvider) (secret : Bytes) (code : UInt32) (params : TotpParams)
    (walk : Walk) (counter : UInt64) : Outcome CryptoError Walk := do
  let candidate ← hotp hmac secret counter params.digits params.hash
  let eq : Bool := candidate = code
  return ⟨walk.hit || eq, if eq then counter else walk.step⟩

/-- The steps a window holds, in the order they are tried. -/
def steps (center : UInt64) (window : UInt32) : List UInt64 :=
  (inclusive (-(window.toNat : Int)) window.toNat).filterMap (checkedAddSigned center)

def scan (hmac : HmacProvider) (secret : Bytes) (code : UInt32) (unixSeconds : UInt64)
    (params : TotpParams) (window : UInt32) : Outcome CryptoError (Option UInt64) := do
  params.check
  let center := unixSeconds / params.period
  let walk ← (steps center window).foldlM (tryStep hmac secret code params) ⟨false, 0⟩
  return walk.found

/-- How many steps on each side of the present one a code may be of. -/
def WINDOW : UInt32 := 1

/-- Reads six digits. -/
def readCode (code : String) : Option UInt32 :=
  if code.utf8ByteSize = 6 ∧ code.toList.all Text.isAsciiDigit then
    let number := Text.decimal code.toList
    if number < 2 ^ 32 then some (UInt32.ofNat number) else none
  else none

def findTotpStep (hmac : HmacProvider) (secret : Bytes) (code : String) (unixSeconds : UInt64) :
    Outcome CryptoFailure (Option UInt64) :=
  match readCode code with
  | none => pure none
  | some code =>
    ExceptT.adapt (fun _ => ⟨⟩) (scan hmac secret code unixSeconds (.new .sha1) WINDOW)

/-- A function in the place of HMAC: it always gives a tag, of twenty bytes at least. -/
def Keyed (hmac : HmacProvider) : Prop :=
  ∀ hash secret message, ∃ tag, hmac hash secret message = .ok tag ∧ 20 ≤ tag.length

variable {hmac : HmacProvider}

theorem slice_four {tag : Bytes} {offset : Nat} (inside : offset + 4 ≤ tag.length) :
    ∃ first second third fourth,
      slice tag offset (offset + 4) = some [first, second, third, fourth] := by
  have four : ((tag.take (offset + 4)).drop offset).length = 4 := by
    rw [List.length_drop, List.length_take]
    omega
  have shape : slice tag offset (offset + 4) = some ((tag.take (offset + 4)).drop offset) :=
    if_pos ⟨by omega, inside⟩
  obtain ⟨first, second, third, fourth, window⟩ := List.length_eq_four.mp four
  exact ⟨first, second, third, fourth, by rw [shape, window]⟩

theorem modulus_fits {digits : UInt32} (wide : digits ≤ 8) : 10 ^ digits.toNat < 2 ^ 32 := by
  have small : digits.toNat ≤ 8 := UInt32.le_iff_toNat_le.mp wide
  calc 10 ^ digits.toNat ≤ 10 ^ 8 := Nat.pow_le_pow_right (by decide) small
    _ < 2 ^ 32 := by decide

/-- Every counter has a code. -/
theorem hotp_returns (keyed : Keyed hmac) (secret : Bytes) (counter : UInt64) {digits : UInt32}
    (admitted : 6 ≤ digits ∧ digits ≤ 8) (hash : HashAlg) :
    ∃ code, hotp hmac secret counter digits hash = pure code := by
  obtain ⟨tag, made, long⟩ := keyed hash secret (bigEndian 8 counter.toNat)
  have place : (minus tag.length 1 : Outcome CryptoError Nat) = pure (tag.length - 1) :=
    minus_of_le (by omega)
  have last : tag[tag.length - 1]? = some tag[tag.length - 1] := List.getElem?_eq_getElem (by omega)
  have nibble : (tag[tag.length - 1] &&& 0x0f).toNat ≤ 15 := by
    rw [UInt8.toNat_and]
    exact Nat.and_le_right
  obtain ⟨first, second, third, fourth, window⟩ :=
    @slice_four tag (tag[tag.length - 1] &&& 0x0f).toNat (by omega)
  have modulus : (checked (2 ^ 32) (10 ^ digits.toNat) : Outcome CryptoError Nat) =
      pure (10 ^ digits.toNat) := checked_of_lt (modulus_fits admitted.2)
  refine ⟨UInt32.ofNat (ofBigEndian [first &&& 0x7f, second, third, fourth] % 10 ^ digits.toNat), ?_⟩
  simp only [hotp, made, admitted, place, last, window, modulus, not_true_eq_false, and_self,
    if_false, pure_bind, settled_ok, within_some]

/-- What the walk does of one step, where a code is known for each. -/
def Walk.note (matching : UInt64 → Bool) (walk : Walk) (counter : UInt64) : Walk :=
  ⟨walk.hit || matching counter, if matching counter then counter else walk.step⟩

/-- The walk ends with the last step that matched. -/
theorem foldl_note (matching : UInt64 → Bool) (tried : List UInt64) (walk : Walk) :
    (tried.foldl (Walk.note matching) walk).found =
      (tried.filter matching).getLast?.or walk.found := by
  induction tried generalizing walk with
  | nil => rfl
  | cons counter rest ih =>
    rw [List.foldl_cons, ih]
    cases matched : matching counter with
    | true =>
      rw [List.filter_cons_of_pos matched]
      have here : (walk.note matching counter).found = some counter := by
        simp [Walk.note, Walk.found, matched]
      cases later : (rest.filter matching).getLast? with
      | none => simp [List.getLast?_cons, later, here]
      | some step => simp [List.getLast?_cons, later]
    | false =>
      rw [List.filter_cons_of_neg (by simp [matched])]
      have here : walk.note matching counter = walk := by simp [Walk.note, matched]
      rw [here]

/-- The last of an ascending list is the greatest. -/
theorem getLast?_greatest {tried : List UInt64} (ascending : tried.Pairwise (· < ·))
    (step : UInt64) :
    tried.getLast? = some step ↔ step ∈ tried ∧ ∀ other ∈ tried, other ≤ step := by
  constructor
  · intro last
    obtain ⟨before, rfl⟩ := List.getLast?_eq_some_iff.mp last
    refine ⟨by simp, fun other inside => ?_⟩
    rcases List.mem_append.mp inside with earlier | same
    · have less := (List.pairwise_append.mp ascending).2.2 other earlier step (by simp)
      exact UInt64.le_of_lt less
    · rw [List.mem_singleton.mp same]
      exact UInt64.le_refl step
  · rintro ⟨inside, greatest⟩
    cases last : tried.getLast? with
    | none =>
      rw [List.getLast?_eq_none_iff.mp last] at inside
      exact absurd inside List.not_mem_nil
    | some other =>
      obtain ⟨before, rfl⟩ := List.getLast?_eq_some_iff.mp last
      have atMost := greatest other (by simp)
      rcases List.mem_append.mp inside with earlier | same
      · have less := (List.pairwise_append.mp ascending).2.2 step earlier other (by simp)
        exact absurd less (UInt64.not_lt.mpr atMost)
      · rw [List.mem_singleton.mp same]

theorem checkedAddSigned_eq {center counter : UInt64} {delta : Int} :
    checkedAddSigned center delta = some counter ↔
      (counter.toNat : Int) = center.toNat + delta := by
  have bound := counter.toNat_lt
  unfold checkedAddSigned
  simp only
  split
  · next inside =>
    rw [Option.some.injEq, ← UInt64.toNat_inj, UInt64.toNat_ofNat']
    omega
  · next outside =>
    constructor
    · nofun
    · intro same
      exact absurd ⟨by omega, by omega⟩ outside

/-- The steps of a window are those at its distance, in ascending order. -/
theorem mem_steps {center counter : UInt64} {window : UInt32} :
    counter ∈ steps center window ↔
      ((counter.toNat : Int) - center.toNat).natAbs ≤ window.toNat := by
  rw [steps, List.mem_filterMap]
  constructor
  · rintro ⟨delta, ranged, added⟩
    have same := checkedAddSigned_eq.mp added
    obtain ⟨place, below, rfl⟩ := List.mem_map.mp ranged
    have bound := List.mem_range.mp below
    omega
  · intro near
    refine ⟨counter.toNat - center.toNat, ?_, checkedAddSigned_eq.mpr (by omega)⟩
    refine List.mem_map.mpr ⟨((counter.toNat : Int) - center.toNat + window.toNat).toNat, ?_, ?_⟩
    · exact List.mem_range.mpr (by omega)
    · omega

theorem steps_ascending (center : UInt64) (window : UInt32) :
    (steps center window).Pairwise (· < ·) := by
  have deltas : (inclusive (-(window.toNat : Int)) window.toNat).Pairwise (· < ·) := by
    rw [inclusive]
    apply List.Pairwise.map _ _ List.pairwise_lt_range
    intro one other less
    omega
  apply List.Pairwise.filterMap _ _ deltas
  intro one other less first added second further
  have low := checkedAddSigned_eq.mp added
  have high := checkedAddSigned_eq.mp further
  rw [UInt64.lt_iff_toNat_lt]
  omega

/-- A step whose code is the one presented, within a window of the present step. -/
structure Answers (hmac : HmacProvider) (secret : Bytes) (code : UInt32) (unixSeconds : UInt64)
    (params : TotpParams) (window : UInt32) (step : UInt64) : Prop where
  near : ((step.toNat : Int) - (unixSeconds.toNat / params.period.toNat : Nat)).natAbs ≤ window.toNat
  coded : hotp hmac secret step params.digits params.hash = pure code

/-- A configuration whose codes are defined. -/
def TotpParams.Admitted (params : TotpParams) : Prop :=
  params.period ≠ 0 ∧ 6 ≤ params.digits ∧ params.digits ≤ 8

/-- The walk neither panics nor fails, and finds the greatest of the steps that answer. -/
theorem scan_found (keyed : Keyed hmac) (secret : Bytes) (code : UInt32) (unixSeconds : UInt64)
    {params : TotpParams} (admitted : params.Admitted) (window : UInt32) :
    ∃ found, scan hmac secret code unixSeconds params window = pure found ∧
      (∀ step, found = some step ↔
        Answers hmac secret code unixSeconds params window step ∧
          ∀ other, Answers hmac secret code unixSeconds params window other → other ≤ step) ∧
      (found = none ↔ ∀ step, ¬Answers hmac secret code unixSeconds params window step) := by
  obtain ⟨period, width⟩ := admitted
  choose codeAt coded using fun counter =>
    hotp_returns keyed secret counter width params.hash
  let matching : UInt64 → Bool := fun counter => codeAt counter = code
  have tried (walk : Walk) (counter : UInt64) :
      tryStep hmac secret code params walk counter = pure (walk.note matching counter) := by
    rw [tryStep, coded]
    rfl
  have answers (step : UInt64) : Answers hmac secret code unixSeconds params window step ↔
      step ∈ (steps (unixSeconds / params.period) window).filter matching := by
    rw [List.mem_filter, mem_steps, UInt64.toNat_div, decide_eq_true_iff]
    constructor
    · rintro ⟨near, same⟩
      exact ⟨near, pure_inj.mp ((coded step).symm.trans same)⟩
    · rintro ⟨near, same⟩
      exact ⟨near, by rw [coded step, same]⟩
  have whole : scan hmac secret code unixSeconds params window =
      pure ((steps (unixSeconds / params.period) window).filter matching).getLast? := by
    have step : tryStep hmac secret code params =
        fun walk counter => pure (walk.note matching counter) := by
      funext walk counter
      exact tried walk counter
    simp only [scan, TotpParams.check, if_neg period, pure_bind, step, List.foldlM_pure, foldl_note]
    simp [Walk.found]
  have ascending := (steps_ascending (unixSeconds / params.period) window).filter matching
  refine ⟨_, whole, ?_, ?_⟩
  · intro step
    rw [getLast?_greatest ascending, answers]
    simp only [answers]
  · rw [List.getLast?_eq_none_iff, List.eq_nil_iff_forall_not_mem]
    simp only [answers]

/-- Six ASCII digits. -/
def SixDigits (text : String) : Prop :=
  text.toList.length = 6 ∧ ∀ digit ∈ text.toList, Text.isAsciiDigit digit = true

/-- A text is read as the number its six digits write, and nothing else is read. -/
theorem readCode_eq {text : String} {code : UInt32} :
    readCode text = some code ↔ SixDigits text ∧ Text.decimal text.toList = code.toNat := by
  unfold readCode
  constructor
  · intro read
    split at read
    · next shaped =>
      have digits : ∀ digit ∈ text.toList, Text.isAsciiDigit digit = true := by
        simpa using shaped.2
      have size := Text.utf8ByteSize_of_ascii fun one inside =>
        Text.ascii_of_digit (digits one inside)
      have long : text.toList.length = 6 := size.symm.trans shaped.1
      have small := Text.decimal_lt digits
      rw [long] at small
      have fits : Text.decimal text.toList < 2 ^ 32 := by omega
      rw [if_pos fits] at read
      have same := congrArg UInt32.toNat (Option.some.inj read)
      rw [UInt32.toNat_ofNat', Nat.mod_eq_of_lt fits] at same
      exact ⟨⟨long, digits⟩, same⟩
    · cases read
  · rintro ⟨⟨long, digits⟩, same⟩
    have size := Text.utf8ByteSize_of_ascii fun one inside =>
      Text.ascii_of_digit (digits one inside)
    have fits : Text.decimal text.toList < 2 ^ 32 := by
      rw [same]
      exact code.toNat_lt
    rw [if_pos ⟨size.trans long, by simpa using digits⟩]
    dsimp only
    rw [if_pos fits, same, UInt32.ofNat_toNat]

theorem new_admitted (hash : HashAlg) : (TotpParams.new hash).Admitted := by
  refine ⟨?_, ?_, ?_⟩ <;> simp [TotpParams.new]

/-- A step is found for a text only where the text is six digits that write the code of that step. -/
theorem typed_found (keyed : Keyed hmac) {secret : Bytes} {text : String} {unixSeconds step : UInt64}
    (found : findTotpStep hmac secret text unixSeconds = pure (some step)) :
    SixDigits text ∧ ∃ code : UInt32, Text.decimal text.toList = code.toNat ∧
      Answers hmac secret code unixSeconds (.new .sha1) WINDOW step := by
  unfold findTotpStep at found
  split at found
  · exact absurd (pure_inj.mp found) nofun
  · next code read =>
    obtain ⟨digits, value⟩ := readCode_eq.mp read
    obtain ⟨result, scanned, greatest, -⟩ :=
      scan_found keyed secret code unixSeconds (new_admitted .sha1) WINDOW
    rw [scanned] at found
    have same : result = some step := pure_inj.mp found
    exact ⟨digits, code, value, ((greatest step).mp same).1⟩

/-- Whatever the code, the time, the configuration and the window, the step reported is the
greatest within the window whose code is the one presented, tried once as every other; and a text
is of a step only as the six digits of its code. -/
theorem totp_window (hmac : HmacProvider) (keyed : Keyed hmac) (secret : Bytes) :
    (∀ (code : UInt32) (unixSeconds : UInt64) (params : TotpParams) (window : UInt32),
      params.Admitted →
        (∃ found, scan hmac secret code unixSeconds params window = pure found ∧
          (∀ step, found = some step ↔
            Answers hmac secret code unixSeconds params window step ∧
              ∀ other, Answers hmac secret code unixSeconds params window other → other ≤ step) ∧
          (found = none ↔ ∀ step, ¬Answers hmac secret code unixSeconds params window step)) ∧
        (steps (unixSeconds / params.period) window).Nodup) ∧
    ∀ (text : String) (unixSeconds step : UInt64),
      findTotpStep hmac secret text unixSeconds = pure (some step) →
        SixDigits text ∧ ∃ code : UInt32, Text.decimal text.toList = code.toNat ∧
          Answers hmac secret code unixSeconds (.new .sha1) WINDOW step := by
  constructor
  · intro code unixSeconds params window admitted
    refine ⟨scan_found keyed secret code unixSeconds admitted window, ?_⟩
    apply (steps_ascending (unixSeconds / params.period) window).imp
    intro one other less
    exact UInt64.ne_of_lt less
  · intro text unixSeconds step found
    exact typed_found keyed found

/-- A keyed function whose tags begin with the message. -/
def showing : HmacProvider := fun _ _ message => .ok (message ++ List.replicate 20 0)

theorem showing_keyed : Keyed showing := by
  intro hash secret message
  refine ⟨message ++ List.replicate 20 0, rfl, ?_⟩
  simp

/-- Near the epoch, the steps of a window that would begin before it are tried once each. -/
theorem showing_window :
    (∃ found, scan showing [] 0 59 (.new .sha1) 3 = pure found ∧
      (∀ step, found = some step ↔ Answers showing [] 0 59 (.new .sha1) 3 step ∧
        ∀ other, Answers showing [] 0 59 (.new .sha1) 3 other → other ≤ step) ∧
      (found = none ↔ ∀ step, ¬Answers showing [] 0 59 (.new .sha1) 3 step)) ∧
    (steps (59 / (TotpParams.new .sha1).period) 3).Nodup :=
  (totp_window showing showing_keyed []).1 0 59 (.new .sha1) 3 (new_admitted .sha1)

example : steps 1 3 = [0, 1, 2, 3, 4] := by decide

example : scan showing [] 0 59 (.new .sha1) 3 = pure (some 4) := rfl

end Saffui.Crypto.Otp
