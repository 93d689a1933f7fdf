import Saffui.Decimal
import Saffui.Foundation.Base64
import Saffui.Ids
import Saffui.Tokens

/-!
# The marks a browser keeps

Source: `saffui-core/src/login/device.rs`. A cookie carries marks with a tilde
between them; a mark is an expiry, a device and a MAC with a dot between them.
Reading stops after the first few pieces of a cookie, marks or not; keeping
stops after the first few marks that are worth it.
-/

namespace Saffui.Login.DeviceMarks

open Foundation Tokens

/-- How many marks one cookie carries. -/
def MOST_MARKS : Nat := 4

structure DeviceMark where
  device : Uuid
  /-- Whole seconds since the epoch. -/
  expiresAt : Int64
  mac : List UInt8
  deriving DecidableEq

/-- How an `i64` is displayed. -/
def writeSeconds (seconds : Int64) : String :=
  let digits := String.ofList (Nat.toDigits 10 seconds.toInt.natAbs)
  if seconds.toInt < 0 then "-" ++ digits else digits

/-- `str::parse` of an `i64`, of digits alone. -/
def readSeconds (digits : List Char) : Option Int64 :=
  if digits = [] ∨ 2 ^ 63 ≤ Text.decimal digits then none
  else some (Int64.ofNat (Text.decimal digits))

/-- The value of the cookie: `DeviceMark::write`. -/
def DeviceMark.write (mark : DeviceMark) : String :=
  writeSeconds mark.expiresAt ++ "." ++ mark.device.text ++ "." ++ Base64.encode mark.mac

/-- Anything else than an instant, an identifier and 32 bytes of MAC is no mark. -/
def DeviceMark.parse (cookie : String) : Option DeviceMark :=
  match Text.split '.' cookie with
  | [expiresAt, device, mac] => do
    guard (expiresAt.toList.all Text.isAsciiDigit)
    let mac ← Base64.decode mac
    guard (mac.length = 32)
    let device ← Uuid.parse device
    let expiresAt ← readSeconds expiresAt.toList
    return { device, expiresAt, mac }
  | _ => none

def readDeviceMarks (cookie : String) : List DeviceMark :=
  ((Text.split '~' cookie).take MOST_MARKS).filterMap DeviceMark.parse

def writeDeviceMarks (marks : List DeviceMark) : String :=
  "~".intercalate (marks.map DeviceMark.write)

/-- What `keep_device_marks` asks of a mark a browser brought: it is of another
device than the new one, and has not expired. -/
def worthKeeping (new : DeviceMark) (now : Instant) (mark : DeviceMark) : Bool :=
  mark.device ≠ new.device && unixTimestamp now < mark.expiresAt.toInt

def keepDeviceMarks (new : DeviceMark) (presented : List DeviceMark) (now : Instant) :
    List DeviceMark :=
  new :: (presented.filter (worthKeeping new now)).take (MOST_MARKS - 1)

/-- A mark its own text can carry. -/
structure DeviceMark.Sound (mark : DeviceMark) : Prop where
  instant : 0 ≤ mark.expiresAt.toInt
  whole : mark.mac.length = 32

theorem writeSeconds_of_not_negative {seconds : Int64} (instant : 0 ≤ seconds.toInt) :
    writeSeconds seconds = String.ofList (Nat.toDigits 10 seconds.toInt.natAbs) := by
  rw [writeSeconds, if_neg (by omega)]

/-- The seconds a mark is written with are read back. -/
theorem readSeconds_toDigits {seconds : Int64} (instant : 0 ≤ seconds.toInt) :
    readSeconds (Nat.toDigits 10 seconds.toInt.natAbs) = some seconds := by
  have below : seconds.toInt < 2 ^ 63 := seconds.toInt_lt
  have filled : Nat.toDigits 10 seconds.toInt.natAbs ≠ [] := Nat.toDigits_ne_nil
  have small : ¬ (Nat.toDigits 10 seconds.toInt.natAbs = [] ∨ 2 ^ 63 ≤ seconds.toInt.natAbs) := by
    rw [not_or]
    exact ⟨filled, by omega⟩
  have same : Int64.ofNat seconds.toInt.natAbs = seconds := by
    apply Int64.toInt.inj
    rw [Int64.toInt_ofNat_of_lt (by omega)]
    omega
  rw [readSeconds, Text.decimal_toDigits, if_neg small, same]

theorem not_negative_of_readSeconds {digits : List Char} {seconds : Int64}
    (read : readSeconds digits = some seconds) : 0 ≤ seconds.toInt := by
  unfold readSeconds at read
  split at read
  · cases read
  · next fits =>
    rw [not_or] at fits
    have value := Int64.toInt_ofNat_of_lt (n := Text.decimal digits) (by omega)
    rw [← Option.some.inj read, value]
    omega

/-- A sign that neither ends a mark nor writes a part of it. -/
theorem not_mem_digits {sign : Char} (other : Text.isAsciiDigit sign = false) (value : Nat) :
    sign ∉ (String.ofList (Nat.toDigits 10 value)).toList := by
  rw [String.toList_ofList]
  intro inside
  have digit := Text.isAsciiDigit_of_toDigits inside
  rw [other] at digit
  cases digit

theorem DeviceMark.split_write {mark : DeviceMark} (instant : 0 ≤ mark.expiresAt.toInt) :
    Text.split '.' mark.write =
      [String.ofList (Nat.toDigits 10 mark.expiresAt.toInt.natAbs), mark.device.text,
        Base64.encode mark.mac] := by
  rw [write, writeSeconds_of_not_negative instant]
  exact Text.split_joined (not_mem_digits (by decide) _)
    (Uuid.not_mem_text (by decide) (by decide) _) (Base64.not_mem_encode (by decide) _)

/-- A mark reads back from what it wrote. -/
theorem DeviceMark.parse_write {mark : DeviceMark} (sound : mark.Sound) :
    parse mark.write = some mark := by
  have digits : (Nat.toDigits 10 mark.expiresAt.toInt.natAbs).all Text.isAsciiDigit = true :=
    List.all_eq_true.mpr fun _ inside => Text.isAsciiDigit_of_toDigits inside
  rw [parse, split_write sound.instant]
  simp [digits, Base64.decode_encode, sound.whole, Uuid.parse_text,
    readSeconds_toDigits sound.instant, guard]

/-- What is read as a mark can be written again. -/
theorem DeviceMark.sound_of_parse {piece : String} {mark : DeviceMark}
    (read : parse piece = some mark) : mark.Sound := by
  unfold parse at read
  split at read
  · next expiresAt device mac _ =>
    obtain ⟨_, -, read⟩ := Option.bind_eq_some_iff.mp read
    obtain ⟨bytes, -, read⟩ := Option.bind_eq_some_iff.mp read
    obtain ⟨_, long, read⟩ := Option.bind_eq_some_iff.mp read
    obtain ⟨id, -, read⟩ := Option.bind_eq_some_iff.mp read
    obtain ⟨seconds, number, read⟩ := Option.bind_eq_some_iff.mp read
    cases read
    have whole : bytes.length = 32 := by simpa [guard] using long
    exact ⟨not_negative_of_readSeconds number, whole⟩
  · cases read

/-- No mark holds the sign that stands between marks. -/
theorem DeviceMark.tilde_not_mem_write {mark : DeviceMark} (instant : 0 ≤ mark.expiresAt.toInt) :
    '~' ∉ mark.write.toList := by
  have number := @not_mem_digits '~' (by decide) mark.expiresAt.toInt.natAbs
  have device := @Uuid.not_mem_text '~' (by decide) (by decide) mark.device
  have mac := @Base64.not_mem_encode '~' (by decide) mark.mac
  have dot : ".".toList = ['.'] := rfl
  rw [write, writeSeconds_of_not_negative instant]
  simp only [String.toList_append, List.mem_append, dot, List.mem_singleton, not_or]
  exact ⟨⟨⟨⟨number, by decide⟩, device⟩, by decide⟩, mac⟩

theorem sound_of_read {cookie : String} {mark : DeviceMark}
    (inside : mark ∈ readDeviceMarks cookie) : mark.Sound := by
  obtain ⟨piece, -, read⟩ := List.mem_filterMap.mp inside
  exact DeviceMark.sound_of_parse read

/-- A few marks are read back from the cookie they write. -/
theorem read_write {marks : List DeviceMark} (filled : marks ≠ [])
    (few : marks.length ≤ MOST_MARKS) (sound : ∀ mark ∈ marks, mark.Sound) :
    readDeviceMarks (writeDeviceMarks marks) = marks := by
  have apart : ∀ piece ∈ marks.map DeviceMark.write, '~' ∉ piece.toList := by
    intro piece inside
    obtain ⟨mark, among, rfl⟩ := List.mem_map.mp inside
    exact DeviceMark.tilde_not_mem_write (sound mark among).instant
  have pieces : Text.split '~' (writeDeviceMarks marks) = marks.map DeviceMark.write :=
    Text.split_intercalate (by simpa using filled) apart
  have read : ∀ mark ∈ marks, (DeviceMark.parse ∘ DeviceMark.write) mark = some mark :=
    fun mark among => DeviceMark.parse_write (sound mark among)
  rw [readDeviceMarks, pieces, List.take_of_length_le (by simpa using few), List.filterMap_map,
    List.filterMap_congr read, List.filterMap_some]

/-- What was kept before a mark of the cookie: the marks worth it among the
pieces before its own. -/
def keptBefore (new : DeviceMark) (now : Instant) (before : List String) : List DeviceMark :=
  (before.filterMap DeviceMark.parse).filter (worthKeeping new now)

/-- A mark that is worth it, and within both bounds, is kept at its place. -/
theorem kept_at {new mark : DeviceMark} {now : Instant} {cookie piece : String}
    {before after : List String} (parted : Text.split '~' cookie = before ++ piece :: after)
    (read : DeviceMark.parse piece = some mark) (worth : worthKeeping new now mark = true)
    (early : before.length < MOST_MARKS)
    (room : (keptBefore new now before).length < MOST_MARKS - 1) :
    (keepDeviceMarks new (readDeviceMarks cookie) now)[(keptBefore new now before).length + 1]? =
      some mark := by
  have taken : (before ++ piece :: after).take MOST_MARKS =
      before ++ piece :: after.take (MOST_MARKS - before.length - 1) := by
    obtain ⟨left, more⟩ := Nat.exists_eq_add_of_lt early
    rw [List.take_append, List.take_of_length_le (by omega), more]
    have rest : before.length + left + 1 - before.length = left + 1 := by omega
    rw [rest, List.take_succ_cons, Nat.add_sub_cancel]
  rw [keepDeviceMarks, readDeviceMarks, parted, taken, List.filterMap_append,
    List.filterMap_cons_some read, List.filter_append, List.filter_cons_of_pos worth,
    List.getElem?_cons_succ]
  change (List.take (MOST_MARKS - 1) (keptBefore new now before ++ mark :: _))[_]? = some mark
  rw [List.getElem?_take_of_lt room, List.getElem?_append_right (Nat.le_refl _), Nat.sub_self,
    List.getElem?_cons_zero]

/-- Why a mark of the piece after `before` is not among those kept. -/
inductive Dropped (new : DeviceMark) (now : Instant) (before : List String) (mark : DeviceMark) :
    Prop where
  | expired (spent : mark.expiresAt.toInt ≤ unixTimestamp now)
  | replaced (same : mark.device = new.device)
  | pastReading (late : MOST_MARKS ≤ before.length)
  | pastKeeping (full : MOST_MARKS - 1 ≤ (keptBefore new now before).length)

/-- Every mark of a cookie is kept at its place, or dropped for a reason. -/
theorem kept_or_dropped (new : DeviceMark) (now : Instant) {cookie piece : String}
    {before after : List String} {mark : DeviceMark}
    (parted : Text.split '~' cookie = before ++ piece :: after)
    (read : DeviceMark.parse piece = some mark) :
    (keepDeviceMarks new (readDeviceMarks cookie) now)[(keptBefore new now before).length + 1]? =
        some mark ∨
      Dropped new now before mark := by
  by_cases same : mark.device = new.device
  · exact .inr (.replaced same)
  · by_cases live : unixTimestamp now < mark.expiresAt.toInt
    · have worth : worthKeeping new now mark = true := by
        simp [worthKeeping, same, live]
      by_cases early : before.length < MOST_MARKS
      · by_cases room : (keptBefore new now before).length < MOST_MARKS - 1
        · exact .inl (kept_at parted read worth early room)
        · exact .inr (.pastKeeping (by omega))
      · exact .inr (.pastReading (by omega))
    · exact .inr (.expired (by omega))

/-- The marks a browser keeps: the new one and some of those it brought, in
their order, each of the others dropped for a reason; and they survive the
cookie that carries them. -/
theorem marks_survive (new : DeviceMark) (cookie : String) (now : Instant) :
    let kept := keepDeviceMarks new (readDeviceMarks cookie) now
    kept.length ≤ MOST_MARKS ∧
    (∃ others, kept = new :: others ∧ others.Sublist (readDeviceMarks cookie) ∧
      ∀ mark ∈ others, mark.device ≠ new.device ∧ unixTimestamp now < mark.expiresAt.toInt) ∧
    (∀ before piece after mark, Text.split '~' cookie = before ++ piece :: after →
      DeviceMark.parse piece = some mark →
      kept[(keptBefore new now before).length + 1]? = some mark ∨ Dropped new now before mark) ∧
    (0 ≤ new.expiresAt.toInt → new.mac.length = 32 →
      readDeviceMarks (writeDeviceMarks kept) = kept) := by
  intro kept
  have few : kept.length ≤ MOST_MARKS := by
    have taken := List.length_take_le (MOST_MARKS - 1)
      ((readDeviceMarks cookie).filter (worthKeeping new now))
    have bound : MOST_MARKS = 4 := rfl
    simp only [kept, keepDeviceMarks, List.length_cons]
    omega
  have others : ∀ mark ∈ ((readDeviceMarks cookie).filter (worthKeeping new now)).take
      (MOST_MARKS - 1), mark ∈ readDeviceMarks cookie ∧ worthKeeping new now mark = true :=
    fun mark inside => List.mem_filter.mp (List.mem_of_mem_take inside)
  refine ⟨few, ⟨_, rfl, ?_, ?_⟩, ?_, ?_⟩
  · exact (List.take_sublist _ _).trans List.filter_sublist
  · intro mark inside
    simpa [worthKeeping] using (others mark inside).2
  · intro before piece after mark parted read
    exact kept_or_dropped new now parted read
  · intro instant whole
    refine read_write (List.cons_ne_nil _ _) few ?_
    intro mark inside
    rcases List.mem_cons.mp inside with rfl | brought
    · exact ⟨instant, whole⟩
    · exact sound_of_read (others mark brought).1

end Saffui.Login.DeviceMarks
