import Mathlib.Data.List.Nodup
import Mathlib.Data.List.Range
import Saffui.Crypto.Provider

/-!
# HKDF

Source: `hkdf` of `crypto/src/provider/openssl/kdf.rs`. The keyed digest is taken
as a function. The counter of the rounds is a byte that wraps, and the last
length admitted makes it wrap as the loop ends.
-/

namespace Saffui.Crypto.Kdf

/-- What the loop of the expansion holds. -/
structure Expanding where
  okm : Bytes
  previous : Bytes
  counter : UInt8
  deriving DecidableEq, Repr

/-- One round: a block of what came before it, the label and the counter. -/
def expandRound (hmac : HmacProvider) (hash : HashAlg) (prk info : Bytes) (state : Expanding) :
    Except CryptoError Expanding := do
  let block ← hmac hash prk (state.previous ++ info ++ [state.counter])
  return ⟨state.okm ++ block, block, state.counter + 1⟩

/-- The rounds until there is enough, with the counters they used. No answer is a loop that did
not end within so many rounds. -/
def expandRounds (hmac : HmacProvider) (hash : HashAlg) (prk info : Bytes) (len : Nat) :
    Nat → Expanding → Option (Except CryptoError (Expanding × List UInt8))
  | 0, state => if state.okm.length < len then none else some (.ok (state, []))
  | fuel + 1, state =>
    if state.okm.length < len then
      match expandRound hmac hash prk info state with
      | .error error => some (.error error)
      | .ok after =>
        (expandRounds hmac hash prk info len fuel after).map fun ended =>
          ended.map fun (last, counters) => (last, state.counter :: counters)
    else some (.ok (state, []))

/-- An absent salt, and an empty one, is a string of zeros as long as the digest. -/
def saltOrZeros (hash : HashAlg) : Option Bytes → Bytes
  | some (byte :: rest) => byte :: rest
  | _ => List.replicate hash.outputLen 0

/-- The derivation, with the counters its rounds used. -/
def hkdfCounted (hmac : HmacProvider) (hash : HashAlg) (ikm : Bytes) (salt : Option Bytes)
    (info : Bytes) (len fuel : Nat) : Option (Except CryptoError (Bytes × List UInt8)) :=
  if len > 255 * hash.outputLen then some (.error .invalidParams)
  else
    match hmac hash (saltOrZeros hash salt) ikm with
    | .error error => some (.error error)
    | .ok prk =>
      (expandRounds hmac hash prk info len fuel ⟨[], [], 1⟩).map fun ended =>
        ended.map fun (last, counters) => (last.okm.take len, counters)

def hkdf (hmac : HmacProvider) (hash : HashAlg) (ikm : Bytes) (salt : Option Bytes)
    (info : Bytes) (len fuel : Nat) : Option (Except CryptoError Bytes) :=
  (hkdfCounted hmac hash ikm salt info len fuel).map fun ended => ended.map Prod.fst

/-- What a salt is taken for: an empty one for none. -/
def takenFor : Option Bytes → Option Bytes
  | some [] => none
  | salt => salt

/-- A keyed function with tags as long as the digest. -/
structure Keyed (hash : HashAlg) where
  tag : Bytes → Bytes → Bytes
  length : ∀ key data, (tag key data).length = hash.outputLen

namespace Keyed

variable {hash : HashAlg} (keyed : Keyed hash)

/-- In the place of the HMAC of the provider. -/
def hmac : HmacProvider := fun _ key data => .ok (keyed.tag key data)

/-- The extraction: the tag of the key under the salt, which is a string of zeros as long as the
digest where none is given. -/
def extract (ikm : Bytes) (salt : Option Bytes) : Bytes :=
  keyed.tag (salt.getD (List.replicate hash.outputLen 0)) ikm

/-- An empty key is a string of zeros, as HMAC has it. -/
def PadsKeys : Prop := ∀ data, keyed.tag [] data = keyed.tag (List.replicate hash.outputLen 0) data

/-- `T(0)` is empty, and each `T(i)` is the tag of the one before, the label and `i`. -/
def block (prk info : Bytes) : Nat → Bytes
  | 0 => []
  | count + 1 => keyed.tag prk (block prk info count ++ info ++ [UInt8.ofNat (count + 1)])

/-- `T(1) | T(2) | ...`, so many of them. -/
def blocks (prk info : Bytes) (count : Nat) : Bytes :=
  (List.range count).flatMap fun place => keyed.block prk info (place + 1)

/-- How many blocks hold a length. -/
def needed (hash : HashAlg) (len : Nat) : Nat := (len + hash.outputLen - 1) / hash.outputLen

/-- The output keying material. -/
def okm (prk info : Bytes) (len : Nat) : Bytes :=
  (keyed.blocks prk info (needed hash len)).take len

end Keyed

theorem outputLen_pos (hash : HashAlg) : 0 < hash.outputLen := by
  cases hash <;> decide

namespace Keyed

variable {hash : HashAlg} (keyed : Keyed hash) (prk info : Bytes)

theorem blocks_succ (count : Nat) : keyed.blocks prk info (count + 1) =
    keyed.blocks prk info count ++ keyed.block prk info (count + 1) := by
  rw [blocks, List.range_succ, List.flatMap_append, List.flatMap_singleton]
  rfl

theorem blocks_length (count : Nat) :
    (keyed.blocks prk info count).length = count * hash.outputLen := by
  induction count with
  | zero => rw [Nat.zero_mul]; rfl
  | succ count ih => rw [blocks_succ, List.length_append, ih, block, keyed.length, Nat.succ_mul]

theorem blocks_add (count more : Nat) :
    keyed.blocks prk info count <+: keyed.blocks prk info (count + more) := by
  induction more with
  | zero => exact List.prefix_rfl
  | succ more ih =>
    rw [← Nat.add_assoc, blocks_succ]
    exact ih.trans (List.prefix_append _ _)

/-- The state before each round. -/
def reached (count : Nat) : Expanding :=
  ⟨keyed.blocks prk info count, keyed.block prk info count, UInt8.ofNat (count + 1)⟩

theorem expandRound_reached (count : Nat) : expandRound keyed.hmac hash prk info (keyed.reached prk info count) =
    .ok (keyed.reached prk info (count + 1)) := by
  have next : UInt8.ofNat (count + 1) + 1 = UInt8.ofNat (count + 1 + 1) :=
    (UInt8.ofNat_add (count + 1) 1).symm
  rw [reached, reached, blocks_succ, ← next]
  rfl

/-- More rounds are needed while what there is falls short. -/
theorem lt_needed {len count : Nat} : count < needed hash len ↔ count * hash.outputLen < len := by
  have wide := outputLen_pos hash
  rw [needed, Nat.lt_iff_add_one_le, Nat.le_div_iff_mul_le wide, Nat.succ_mul]
  omega

/-- The rounds from some state on: as many as are needed, each with the counter of its block. -/
theorem expandRounds_reached {len fuel left count : Nat} (enough : left ≤ fuel)
    (all : count + left = needed hash len) :
    expandRounds keyed.hmac hash prk info len fuel (keyed.reached prk info count) =
      some (.ok (keyed.reached prk info (needed hash len),
        (List.range' (count + 1) left).map UInt8.ofNat)) := by
  induction left generalizing fuel count with
  | zero =>
    have done : ¬(keyed.reached prk info count).okm.length < len := by
      have long := mt (@lt_needed hash len count).mpr (by omega)
      rwa [reached, blocks_length]
    rw [Nat.add_zero] at all
    cases fuel with
    | zero =>
      rw [expandRounds, if_neg done, all]
      rfl
    | succ fuel =>
      rw [expandRounds, if_neg done, all]
      rfl
  | succ left ih =>
    have short : (keyed.reached prk info count).okm.length < len := by
      have more := lt_needed.mp (show count < needed hash len by omega)
      rwa [reached, blocks_length]
    cases fuel with
    | zero => omega
    | succ fuel =>
      have rest := @ih fuel (count + 1) (by omega) (by omega)
      rw [expandRounds, if_pos short, expandRound_reached]
      simp only [rest]
      rw [List.range'_succ, List.map_cons]
      rfl

theorem needed_le {len : Nat} : needed hash len ≤ len := by
  by_contra more
  have short := (@lt_needed hash len len).mp (Nat.lt_of_not_le more)
  have wide := outputLen_pos hash
  have least : len * 1 ≤ len * hash.outputLen := Nat.mul_le_mul_left len wide
  omega

end Keyed

/-- The counters of a derivation, one for each block. -/
def counters (hash : HashAlg) (len : Nat) : List UInt8 :=
  (List.range' 1 (Keyed.needed hash len)).map UInt8.ofNat

theorem extract_takenFor {hash : HashAlg} (keyed : Keyed hash) (ikm : Bytes) (salt : Option Bytes) :
    keyed.tag (saltOrZeros hash salt) ikm = keyed.extract ikm (takenFor salt) := by
  match salt with
  | none => rfl
  | some [] => rfl
  | some (byte :: rest) => rfl

theorem hkdfCounted_eq {hash : HashAlg} (keyed : Keyed hash) (ikm : Bytes) (salt : Option Bytes)
    (info : Bytes) {len fuel : Nat} (enough : len ≤ fuel) (fits : len ≤ 255 * hash.outputLen) :
    hkdfCounted keyed.hmac hash ikm salt info len fuel =
      some (.ok (keyed.okm (keyed.extract ikm (takenFor salt)) info len, counters hash len)) := by
  have rounds := keyed.expandRounds_reached (keyed.extract ikm (takenFor salt)) info
    (Nat.le_trans Keyed.needed_le enough) (Nat.zero_add (Keyed.needed hash len))
  have start : keyed.reached (keyed.extract ikm (takenFor salt)) info 0 = ⟨[], [], 1⟩ := rfl
  rw [start, Nat.zero_add, ← extract_takenFor] at rounds
  rw [hkdfCounted, if_neg (Nat.not_lt.mpr fits), Keyed.hmac, ← extract_takenFor]
  exact congrArg (Option.map _) rounds

/-- A byte counts the blocks of every length admitted. -/
theorem needed_le_byte {hash : HashAlg} {len : Nat} (fits : len ≤ 255 * hash.outputLen) :
    Keyed.needed hash len ≤ 255 := by
  by_contra more
  have short := (@Keyed.lt_needed hash len 255).mp (Nat.lt_of_not_le more)
  omega

theorem counters_nodup {hash : HashAlg} {len : Nat} (fits : len ≤ 255 * hash.outputLen) :
    (counters hash len).Nodup := by
  have few := needed_le_byte fits
  refine List.Nodup.map_on ?_ List.nodup_range'
  intro one first other second same
  rw [List.mem_range'_1] at first second
  have numbers := congrArg UInt8.toNat same
  rw [UInt8.toNat_ofNat', UInt8.toNat_ofNat'] at numbers
  omega

/-- The blocks of a longer output start with those of a shorter one. -/
theorem okm_prefix {hash : HashAlg} (keyed : Keyed hash) (prk info : Bytes) {len longer : Nat}
    (least : len ≤ longer) : keyed.okm prk info len <+: keyed.okm prk info longer := by
  have fewer : Keyed.needed hash len ≤ Keyed.needed hash longer := by
    rw [Keyed.needed, Keyed.needed]
    exact Nat.div_le_div_right (by omega)
  obtain ⟨more, same⟩ := Nat.exists_eq_add_of_le fewer
  have wider := keyed.blocks_add prk info (Keyed.needed hash len) more
  rw [← same] at wider
  obtain ⟨rest, whole⟩ := wider
  have enough := mt (@Keyed.lt_needed hash len (Keyed.needed hash len)).mpr (lt_irrefl _)
  have inside : len ≤ (keyed.blocks prk info (Keyed.needed hash len)).length := by
    rw [Keyed.blocks_length]
    omega
  rw [Keyed.okm, Keyed.okm, ← whole, ← List.take_append_of_le_length inside]
  exact List.take_prefix_take_left least

/-- A derivation of an admitted length is the output of RFC 5869 with an empty salt taken for none,
with no counter used twice, and a longer one is an error; an output is a prefix of every longer one.
Where the keyed function takes an empty key for zeros, the output is that of the salt as given. -/
theorem hkdf_rfc5869 (hash : HashAlg) (keyed : Keyed hash) (ikm : Bytes) (salt : Option Bytes)
    (info : Bytes) :
    (∀ len fuel, len ≤ fuel → len ≤ 255 * hash.outputLen →
      ∃ used, hkdfCounted keyed.hmac hash ikm salt info len fuel =
          some (.ok (keyed.okm (keyed.extract ikm (takenFor salt)) info len, used)) ∧
        hkdf keyed.hmac hash ikm salt info len fuel =
          some (.ok (keyed.okm (keyed.extract ikm (takenFor salt)) info len)) ∧ used.Nodup) ∧
    (salt ≠ some [] ∨ keyed.PadsKeys → keyed.extract ikm (takenFor salt) = keyed.extract ikm salt) ∧
    (∀ len fuel, 255 * hash.outputLen < len →
      hkdf keyed.hmac hash ikm salt info len fuel = some (.error .invalidParams)) ∧
    ∀ len longer fuel, len ≤ longer → longer ≤ fuel → longer ≤ 255 * hash.outputLen →
      ∃ output more, hkdf keyed.hmac hash ikm salt info len fuel = some (.ok output) ∧
        hkdf keyed.hmac hash ikm salt info longer fuel = some (.ok more) ∧ output <+: more := by
  have derived (len fuel : Nat) (enough : len ≤ fuel) (fits : len ≤ 255 * hash.outputLen) :
      hkdf keyed.hmac hash ikm salt info len fuel =
        some (.ok (keyed.okm (keyed.extract ikm (takenFor salt)) info len)) := by
    rw [hkdf, hkdfCounted_eq keyed ikm salt info enough fits]
    rfl
  refine ⟨?_, ?_, ?_, ?_⟩
  · intro len fuel enough fits
    exact ⟨counters hash len, hkdfCounted_eq keyed ikm salt info enough fits,
      derived len fuel enough fits, counters_nodup fits⟩
  · intro told
    match salt with
    | none => rfl
    | some (byte :: rest) => rfl
    | some [] =>
      have pads := told.resolve_left (not_not.mpr rfl)
      exact (pads ikm).symm
  · intro len fuel beyond
    rw [hkdf, hkdfCounted, if_pos beyond]
    rfl
  · intro len longer fuel least enough fits
    exact ⟨_, _, derived len fuel (by omega) (by omega), derived longer fuel enough fits,
      okm_prefix keyed _ info least⟩

/-- A keyed function that tells an empty key from one of zeros. -/
def firstOfKey : Keyed .sha1 where
  tag key _ := List.replicate 20 (key.headD 1)
  length _ _ := List.length_replicate

/-- Under it an empty salt is not the one RFC 5869 extracts with. -/
theorem empty_salt_taken_for_none :
    ¬∀ (hash : HashAlg) (keyed : Keyed hash) (ikm : Bytes) (salt : Option Bytes) (info : Bytes)
      (len fuel : Nat), len ≤ fuel → len ≤ 255 * hash.outputLen →
      hkdf keyed.hmac hash ikm salt info len fuel =
        some (.ok (keyed.okm (keyed.extract ikm salt) info len)) := by
  intro claimed
  have derived : hkdf firstOfKey.hmac .sha1 [] (some []) [] 1 1 = some (.ok [0]) := by rfl
  have expected : firstOfKey.okm (firstOfKey.extract [] (some [])) [] 1 = [1] := by rfl
  have same := claimed .sha1 firstOfKey [] (some []) [] 1 1 (by decide) (by decide)
  rw [derived, expected] at same
  revert same
  decide

/-- The key of the seventh test case of RFC 5869, and the tags its derivation asks for. -/
def caseIkm : Bytes := List.replicate 22 0x0c

def casePrk : Bytes :=
  [42, 220, 202, 218, 24, 119, 158, 124, 32, 119, 173, 46, 177, 157, 63, 62, 115, 19, 133, 221]

def caseBlocks : List Bytes :=
  [[44, 145, 17, 114, 4, 215, 69, 243, 80, 13, 99, 106, 98, 246, 79, 10, 179, 186, 229, 72],
    [170, 83, 212, 35, 176, 209, 242, 126, 187, 166, 245, 229, 103, 58, 8, 29, 112, 204, 231, 172],
    [252, 72, 138, 13, 201, 60, 27, 55, 55, 242, 220, 37, 210, 168, 93, 74, 222, 149, 71, 228]]

def caseTags : List ((Bytes × Bytes) × Bytes) :=
  [((List.replicate 20 0, caseIkm), casePrk), ((casePrk, [1]), caseBlocks[0]),
    ((casePrk, caseBlocks[0] ++ [2]), caseBlocks[1]), ((casePrk, caseBlocks[1] ++ [3]), caseBlocks[2])]

/-- HMAC-SHA-1 on those inputs. -/
def hmacSha1 : Keyed .sha1 where
  tag key data :=
    (caseTags.lookup (if key = [] then List.replicate 20 0 else key, data)).getD
      (List.replicate 20 0)
  length key data := by
    cases found : caseTags.lookup (if key = [] then List.replicate 20 0 else key, data) with
    | none => rfl
    | some tag =>
      have each : ∀ kept ∈ caseTags, kept.2.length = 20 := by decide
      obtain ⟨before, after, split, -⟩ := List.lookup_eq_some_iff.mp found
      exact each (_, tag) (split ▸ List.mem_append_right before List.mem_cons_self)

/-- The output of the seventh test case, whose salt may be absent or empty. -/
theorem hmacSha1_derives :
    hkdf hmacSha1.hmac .sha1 caseIkm none [] 42 42 = some (.ok (caseBlocks.flatten.take 42)) ∧
      hkdf hmacSha1.hmac .sha1 caseIkm (some []) [] 42 42 =
        some (.ok (hmacSha1.okm (hmacSha1.extract caseIkm (some [])) [] 42)) := by
  have pads : hmacSha1.PadsKeys := fun _ => rfl
  have absent := hkdf_rfc5869 .sha1 hmacSha1 caseIkm none []
  have empty := hkdf_rfc5869 .sha1 hmacSha1 caseIkm (some []) []
  obtain ⟨used, -, derived, -⟩ := absent.1 42 42 (by decide) (by decide)
  obtain ⟨used, -, again, -⟩ := empty.1 42 42 (by decide) (by decide)
  rw [empty.2.1 (Or.inr pads)] at again
  refine ⟨derived.trans ?_, again⟩
  have whole : hmacSha1.okm (hmacSha1.extract caseIkm none) [] 42 = caseBlocks.flatten.take 42 := by
    decide
  exact congrArg (some ∘ Except.ok) whole

end Saffui.Crypto.Kdf
