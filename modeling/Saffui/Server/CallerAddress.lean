import Saffui.Foundation.Framing
import Saffui.Server.Addresses

/-!
# Where a request comes from

Source: `middleware/caller_address.rs`. The peer is believed, and where it is a
proxy of the deployment the entries of `X-Forwarded-For` are, from the right, up
to the first that is of no proxy. A line with a byte no header text has is left
out whole, with what a proxy wrote at its end.
-/

namespace Saffui.Server.CallerAddress
open Saffui.Oidc (IpAddr)

abbrev Bytes := List UInt8

/-- A byte of a header that can be read as text: visible ASCII, a space or a tab. -/
def Readable (byte : UInt8) : Prop := 32 ≤ byte.toNat ∧ byte.toNat < 127 ∨ byte = 9

instance (byte : UInt8) : Decidable (Readable byte) :=
  inferInstanceAs (Decidable (_ ∧ _ ∨ _))

def characterOf (byte : UInt8) : Char := Char.ofNat byte.toNat

def textOf (bytes : Bytes) : String := String.ofList (bytes.map characterOf)

/-- `HeaderValue::to_str` -/
def toStr (header : Bytes) : Option String :=
  if header.all fun byte => Readable byte then some (textOf header) else none

/-- An address, or an address and the port some proxies write after it. -/
def readForwardedEntry (entry : String) : Option IpAddr :=
  match Net.parseIpAddr entry with
  | some address => some address
  | none =>
    match Net.parseSocketAddr entry with
    | some address => some address
    | none =>
      match entry.toList with
      | '[' :: rest =>
        if rest.getLast? = some ']' then Net.parseIpAddr (String.ofList rest.dropLast) else none
      | _ => none

def isTrusted (trusted : List AddressRange) (address : IpAddr) : Bool :=
  trusted.any fun range => range.contains address

/-- The scan of the entries, the last one first: what is vouched for so far is kept where an entry
is no address, and where it is of no proxy. -/
def scanEntries (trusted : List AddressRange) (vouchedFor : IpAddr) : List String → IpAddr
  | [] => vouchedFor
  | entry :: rest =>
    match readForwardedEntry entry with
    | none => vouchedFor
    | some address =>
      if isTrusted trusted address.toCanonical then
        scanEntries trusted address.toCanonical rest
      else address.toCanonical

def chooseCaller (peer : IpAddr) (forwarded : List String) (trusted : List AddressRange) : IpAddr :=
  if isTrusted trusted peer.toCanonical then
    let entries := (forwarded.flatMap (Text.split ',')).map Text.trim
    scanEntries trusted peer.toCanonical entries.reverse
  else peer.toCanonical

/-- Reads the address a request comes from: of its peer, and of the lines of its header. -/
def readCallerAddress (trusted : List AddressRange) (peer : Option IpAddr) (headers : List Bytes) :
    Option IpAddr := do
  let peer ← peer
  return chooseCaller peer (headers.filterMap toStr) trusted

def COMMA : UInt8 := 0x2c

/-- One entry of a line, as a proxy writes it. -/
structure Entry where
  bytes : Bytes
  readable : ∀ byte ∈ bytes, Readable byte
  single : COMMA ∉ bytes

def Entry.read (entry : Entry) : Option IpAddr := readForwardedEntry (Text.trim (textOf entry.bytes))

/-- The entries at the end of a line: the caller, and the proxies after. -/
structure Appended (trusted : List AddressRange) where
  first : Entry
  address : IpAddr
  reads : first.read = some address
  outside : isTrusted trusted address.toCanonical = false
  rest : List Entry
  proxies : ∀ entry ∈ rest, ∃ proxy, entry.read = some proxy ∧
    isTrusted trusted proxy.toCanonical = true

def Appended.entries {trusted : List AddressRange} (appended : Appended trusted) : List Entry :=
  appended.first :: appended.rest

/-- What the entries are in a line, commas between them. -/
def Appended.bytes {trusted : List AddressRange} (appended : Appended trusted) : Bytes :=
  [COMMA].intercalate (appended.entries.map Entry.bytes)

/-- The scan stops at the caller, whatever is left of it. -/
theorem scanEntries_appended {trusted : List AddressRange} (appended : Appended trusted)
    (peer : IpAddr) (before : List String) :
    scanEntries trusted peer
        ((before ++ appended.entries.map fun entry => Text.trim (textOf entry.bytes)).reverse) =
      appended.address.toCanonical := by
  have stepped (proxies : List Entry) (all : ∀ entry ∈ proxies, ∃ proxy,
      entry.read = some proxy ∧ isTrusted trusted proxy.toCanonical = true)
      (vouchedFor : IpAddr) (left : List String) :
      ∃ reached, scanEntries trusted vouchedFor
          ((proxies.map fun entry => Text.trim (textOf entry.bytes)) ++ left) =
        scanEntries trusted reached left := by
    induction proxies generalizing vouchedFor with
    | nil => exact ⟨vouchedFor, rfl⟩
    | cons entry rest ih =>
      obtain ⟨proxy, read, known⟩ := all entry List.mem_cons_self
      have told : readForwardedEntry (Text.trim (textOf entry.bytes)) = some proxy := read
      obtain ⟨reached, same⟩ := ih (fun other inside => all other (List.mem_cons_of_mem _ inside))
        proxy.toCanonical
      refine ⟨reached, ?_⟩
      rw [List.map_cons, List.cons_append, scanEntries, told]
      simp only [known, if_true]
      exact same
  have read : readForwardedEntry (Text.trim (textOf appended.first.bytes)) =
      some appended.address := appended.reads
  obtain ⟨reached, same⟩ := stepped appended.rest.reverse
    (fun entry inside => appended.proxies entry (List.mem_reverse.mp inside)) peer
    (Text.trim (textOf appended.first.bytes) :: before.reverse)
  rw [List.reverse_append, Appended.entries, List.map_cons, List.reverse_cons, List.append_assoc,
    List.singleton_append, ← List.map_reverse, same, scanEntries, read]
  simp only [appended.outside, Bool.false_eq_true, if_false]

theorem comma_of_characterOf {byte : UInt8} (same : characterOf byte = ',') : byte = COMMA := by
  have all : ∀ value : Fin 256, Char.ofNat value.val = ',' → value.val = 44 := by
    decide +kernel
  have number := all ⟨byte.toNat, byte.toNat_lt⟩ same
  exact UInt8.toNat_inj.mp number

theorem Entry.unsplit (entry : Entry) : ',' ∉ entry.bytes.map characterOf := by
  intro inside
  obtain ⟨byte, held, same⟩ := List.mem_map.mp inside
  exact entry.single (comma_of_characterOf same ▸ held)

/-- What proxies append is read as their entries. -/
theorem split_appended {trusted : List AddressRange} (appended : Appended trusted) :
    Text.split ',' (textOf appended.bytes) =
      appended.entries.map fun entry => textOf entry.bytes := by
  have apart : ∀ part ∈ appended.entries.map (fun entry => entry.bytes.map characterOf),
      ',' ∉ part := by
    intro part inside
    obtain ⟨entry, -, rfl⟩ := List.mem_map.mp inside
    exact entry.unsplit
  have comma : [COMMA].map characterOf = [','] := rfl
  have parts : (appended.entries.map Entry.bytes).map (List.map characterOf) =
      appended.entries.map fun entry => entry.bytes.map characterOf := by
    rw [List.map_map]
    rfl
  rw [Text.split, textOf, String.toList_ofList, Appended.bytes, Foundation.Framing.map_intercalate, comma, parts,
    List.splitOn_intercalate ',' apart (by simp [Appended.entries]), List.map_map]
  rfl

/-- What stands before, up to a comma, is read as entries before them. -/
theorem split_line {trusted : List AddressRange} (appended : Appended trusted) {left : Bytes}
    (ended : left = [] ∨ ∃ own, left = own ++ [COMMA]) :
    ∃ before, Text.split ',' (textOf (left ++ appended.bytes)) =
      before ++ appended.entries.map fun entry => textOf entry.bytes := by
  rcases ended with rfl | ⟨own, rfl⟩
  · exact ⟨[], split_appended appended⟩
  · refine ⟨Text.split ',' (textOf own), ?_⟩
    have comma : characterOf COMMA = ',' := rfl
    have parted : (own ++ [COMMA] ++ appended.bytes).map characterOf =
        own.map characterOf ++ ',' :: appended.bytes.map characterOf := by
      rw [List.append_assoc, List.map_append, List.singleton_append, List.map_cons, comma]
    rw [← split_appended, Text.split, Text.split, Text.split, textOf, textOf, textOf,
      String.toList_ofList, String.toList_ofList, String.toList_ofList, parted,
      List.splitOn_append_cons_self, List.map_append]

theorem Appended.readable {trusted : List AddressRange} (appended : Appended trusted) :
    ∀ byte ∈ appended.bytes, Readable byte := by
  intro byte inside
  rcases Foundation.Framing.mem_intercalate inside with comma | ⟨part, among, found⟩
  · rw [List.mem_singleton.mp comma]
    decide
  · obtain ⟨entry, -, rfl⟩ := List.mem_map.mp among
    exact entry.readable byte found

theorem toStr_eq_some {header : Bytes} (readable : ∀ byte ∈ header, Readable byte) :
    toStr header = some (textOf header) :=
  if_pos (List.all_eq_true.mpr fun byte inside => decide_eq_true (readable byte inside))

theorem toStr_eq_none {header : Bytes} (unreadable : ¬∀ byte ∈ header, Readable byte) :
    toStr header = none :=
  if_neg fun all => unreadable fun byte inside =>
    of_decide_eq_true (List.all_eq_true.mp all byte inside)

theorem readable_append {trusted : List AddressRange} (appended : Appended trusted) (left : Bytes) :
    (∀ byte ∈ left ++ appended.bytes, Readable byte) ↔ ∀ byte ∈ left, Readable byte := by
  constructor
  · exact fun all byte inside => all byte (List.mem_append_left _ inside)
  · intro all byte inside
    rcases List.mem_append.mp inside with first | last
    · exact all byte first
    · exact appended.readable byte last

theorem readCallerAddress_some (trusted : List AddressRange) (peer : IpAddr)
    (headers : List Bytes) : readCallerAddress trusted (some peer) headers =
      some (chooseCaller peer (headers.filterMap toStr) trusted) := rfl

/-- A peer that is no proxy is the caller, whatever it sends. -/
theorem readCallerAddress_untrusted {trusted : List AddressRange} {peer : IpAddr}
    (outside : isTrusted trusted peer.toCanonical = false) (headers : List Bytes) :
    readCallerAddress trusted (some peer) headers = some peer.toCanonical := by
  rw [readCallerAddress_some, chooseCaller, if_neg (by rw [outside]; exact Bool.false_ne_true)]

/-- Before what the proxies append, text changes nothing. -/
theorem readCallerAddress_readable {trusted : List AddressRange} {peer : IpAddr}
    (inside : isTrusted trusted peer.toCanonical = true) (appended : Appended trusted)
    {left : Bytes} (ended : left = [] ∨ ∃ own, left = own ++ [COMMA])
    (readable : ∀ byte ∈ left, Readable byte) (earlier : List Bytes) :
    readCallerAddress trusted (some peer) (earlier ++ [left ++ appended.bytes]) =
      some appended.address.toCanonical := by
  obtain ⟨before, parts⟩ := split_line appended ended
  have lines : (earlier ++ [left ++ appended.bytes]).filterMap toStr =
      earlier.filterMap toStr ++ [textOf (left ++ appended.bytes)] := by
    rw [List.filterMap_append, List.filterMap_cons,
      toStr_eq_some ((readable_append appended left).mpr readable)]
    rfl
  have scanned := scanEntries_appended appended peer.toCanonical
    (((earlier.filterMap toStr).flatMap (Text.split ',') ++ before).map Text.trim)
  have entries : (((earlier.filterMap toStr ++ [textOf (left ++ appended.bytes)]).flatMap
      (Text.split ',')).map Text.trim) =
        ((earlier.filterMap toStr).flatMap (Text.split ',') ++ before).map Text.trim ++
          appended.entries.map fun entry => Text.trim (textOf entry.bytes) := by
    rw [List.flatMap_append, List.flatMap_singleton, parts, ← List.append_assoc, List.map_append,
      List.map_map]
    rfl
  rw [readCallerAddress_some, chooseCaller, if_pos inside, lines, entries, scanned]

/-- A byte that is no text leaves the line out, and then the peer is the caller. -/
theorem readCallerAddress_unreadable {trusted : List AddressRange} {peer : IpAddr}
    (inside : isTrusted trusted peer.toCanonical = true) (appended : Appended trusted)
    {left : Bytes} (unreadable : ¬∀ byte ∈ left, Readable byte) :
    readCallerAddress trusted (some peer) [left ++ appended.bytes] = some peer.toCanonical := by
  have lines : [left ++ appended.bytes].filterMap toStr = [] := by
    rw [List.filterMap_cons, toStr_eq_none (mt (readable_append appended left).mp unreadable)]
    rfl
  rw [readCallerAddress_some, chooseCaller, if_pos inside, lines]
  rfl

theorem readCallerAddress_iff {trusted : List AddressRange} {peer : IpAddr}
    (inside : isTrusted trusted peer.toCanonical = true) (appended : Appended trusted)
    {left : Bytes} (ended : left = [] ∨ ∃ own, left = own ++ [COMMA]) :
    (∀ earlier, readCallerAddress trusted (some peer) (earlier ++ [left ++ appended.bytes]) =
        some appended.address.toCanonical) ↔ ∀ byte ∈ left, Readable byte := by
  constructor
  · intro believed
    by_contra unreadable
    have alone := believed []
    rw [List.nil_append, readCallerAddress_unreadable inside appended unreadable] at alone
    have outside := appended.outside
    rw [← Option.some.inj alone, inside] at outside
    cases outside
  · exact readCallerAddress_readable inside appended ended

/-- A peer of no trusted range is the caller; a range that is read trusts its network; and behind
a trusted peer the first entry from the right that is of no proxy is the caller, whatever is left
of it and in the lines before, if and only if what is left of it in its line is text. -/
theorem caller_vouched_for (trusted : List AddressRange) (peer : IpAddr) :
    (isTrusted trusted peer.toCanonical = false → ∀ headers : List Bytes,
      readCallerAddress trusted (some peer) headers = some peer.toCanonical) ∧
    (∀ (text : String) (range : AddressRange) (address : IpAddr),
      AddressRange.parse text = .ok range →
        (range.contains address = true ↔
          InNetwork range.network range.prefixLength.toNat address.toCanonical)) ∧
    ∀ (appended : Appended trusted) (left : Bytes),
      isTrusted trusted peer.toCanonical = true → (left = [] ∨ ∃ own, left = own ++ [COMMA]) →
        ((∀ earlier, readCallerAddress trusted (some peer) (earlier ++ [left ++ appended.bytes]) =
          some appended.address.toCanonical) ↔ ∀ byte ∈ left, Readable byte) :=
  ⟨readCallerAddress_untrusted,
    fun _ _ address read => (AddressRange.valid_of_parse read).contains_iff address,
    fun appended _ inside ended => readCallerAddress_iff inside appended ended⟩

def proxy : AddressRange := ⟨.v4 10 0 0 1, 32⟩

/-- The entry a proxy appends for 203.0.113.7. -/
def appendedOnce : Appended [proxy] where
  first :=
    { bytes := Text.utf8 " 203.0.113.7"
      readable := by decide +kernel
      single := by decide +kernel }
  address := .v4 203 0 113 7
  reads := by decide +kernel
  outside := by decide +kernel
  rest := []
  proxies := nofun

/-- With a byte that is no text before it, the address of a line of the caller's own is believed
in its place. -/
theorem own_word_believed : readCallerAddress [proxy] (some (.v4 10 0 0 1))
      ([Text.utf8 "198.51.100.9"] ++ [[0xff, COMMA] ++ appendedOnce.bytes]) =
        some (.v4 198 51 100 9) ∧
    ¬∀ (left : Bytes) (earlier : List Bytes), (left = [] ∨ ∃ own, left = own ++ [COMMA]) →
      readCallerAddress [proxy] (some (.v4 10 0 0 1)) (earlier ++ [left ++ appendedOnce.bytes]) =
        some appendedOnce.address.toCanonical := by
  have believed : readCallerAddress [proxy] (some (.v4 10 0 0 1))
      ([Text.utf8 "198.51.100.9"] ++ [[0xff, COMMA] ++ appendedOnce.bytes]) =
        some (.v4 198 51 100 9) := by
    decide
  refine ⟨believed, fun all => ?_⟩
  have vouched := all [0xff, COMMA] [Text.utf8 "198.51.100.9"] (.inr ⟨[0xff], rfl⟩)
  rw [believed] at vouched
  revert vouched
  decide

end Saffui.Server.CallerAddress
