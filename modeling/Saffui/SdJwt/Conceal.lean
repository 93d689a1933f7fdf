import Mathlib.Data.List.Sort
import Saffui.SdJwt.Disclosure

/-!
# Concealing claims

`crypto/src/sd_jwt/conceal.rs`: the payload an issuer signs, with digests where
the concealed claims stood, and the disclosures that open them.

What a mutable reference into the payload was changed to is written back by
`putAt`. The salts are drawn one after the other; `drawn` counts them.
-/

namespace Saffui.SdJwt
open Foundation Crypto

/-- Claims RFC 9901 §9.7 names as deciding whether the token is valid at all. -/
def VALIDITY_CLAIMS : List String := ["iss", "aud", "exp", "nbf", "cnf"]

/-- A claim the holder may withhold, named by its path of object keys. -/
inductive Concealed where
  | property (path : List String)
  | element (path : List String) (index : Nat)
  deriving DecidableEq, Repr

/-- How deep the concealed value sits. -/
def Concealed.depth : Concealed → Nat
  | .property path => path.length
  | .element path _ => path.length + 1

structure Concealment where
  payload : List (String × Json)
  disclosures : List String

inductive Unconcealable where
  | notFound | validityClaim (name : String) | reservedName (name : String)
  | alreadyConcealed | unavailable
  deriving DecidableEq, Repr

/-- The value the path of object keys leads to. -/
def valueAt : List String → Json → Option Json
  | [], value => some value
  | name :: path, .object members => (SortedMap.lookup name members).bind (valueAt path)
  | _ :: _, _ => none

/-- What stands at a path replaced, where something does. -/
def putAt : List String → Json → Json → Json
  | [], changed, _ => changed
  | name :: path, changed, .object members =>
    match SortedMap.lookup name members with
    | some value => .object (SortedMap.place name (putAt path changed value) members)
    | none => .object members
  | _ :: _, _, value => value

mutual

/-- Claims that already carry the RFC's own names, anywhere, are refused. -/
def refuseReservedNames : Json → Except Unconcealable Unit
  | .object members =>
    match RESERVED_NAMES.find? fun name => (SortedMap.lookup name members).isSome with
    | some name => .error (.reservedName name)
    | none => refuseInMembers members
  | .array items => refuseInItems items
  | _ => .ok ()

def refuseInMembers : List (String × Json) → Except Unconcealable Unit
  | [] => .ok ()
  | (_, value) :: rest => do
    refuseReservedNames value
    refuseInMembers rest

def refuseInItems : List Json → Except Unconcealable Unit
  | [] => .ok ()
  | item :: rest => do
    refuseReservedNames item
    refuseInItems rest

end

/-- Digests by their texts, what is no text first. -/
def digestLe (left right : Json) : Bool :=
  match left.asStr, right.asStr with
  | none, _ => true
  | some _, none => false
  | some left, some right => left ≤ right

variable (serde : SerdeJson) (provider : CryptoProvider)

/-- A fresh salt: 128 random bits, base64url. -/
def salt (drawn : Nat) : Except Unconcealable (String × Nat) :=
  match provider.fill drawn with
  | .ok bytes => .ok (Base64.encode bytes.val, drawn + 1)
  | .error _ => .error .unavailable

/-- Digests that open nothing. -/
def drawDecoys : Nat → Nat → Except Unconcealable (List Json × Nat)
  | 0, drawn => .ok ([], drawn)
  | decoys + 1, drawn => do
    let (salt, drawn) ← salt provider drawn
    let decoy ← (digestOf provider .sha256 salt).mapError fun _ => .unavailable
    let (more, drawn) ← drawDecoys decoys drawn
    return (.string decoy :: more, drawn)

mutual

/-- Every `_sd` array the value holds padded and sorted. -/
def sealDigests (decoys : Nat) : Json → Nat → Except Unconcealable (Json × Nat)
  | .object members, drawn => do
    let (members, drawn) ← sealMembers decoys members drawn
    match SortedMap.lookup "_sd" members with
    | some (.array digests) =>
      let (more, drawn) ← drawDecoys provider decoys drawn
      let sealed := (digests ++ more).insertionSort fun left right => digestLe left right
      return (.object (SortedMap.place "_sd" (.array sealed) members), drawn)
    | _ => return (.object members, drawn)
  | .array items, drawn => do
    let (items, drawn) ← sealItems decoys items drawn
    return (.array items, drawn)
  | plain, drawn => .ok (plain, drawn)

def sealMembers (decoys : Nat) :
    List (String × Json) → Nat → Except Unconcealable (List (String × Json) × Nat)
  | [], drawn => .ok ([], drawn)
  | (name, value) :: rest, drawn => do
    let (value, drawn) ← sealDigests decoys value drawn
    let (rest, drawn) ← sealMembers decoys rest drawn
    return ((name, value) :: rest, drawn)

def sealItems (decoys : Nat) : List Json → Nat → Except Unconcealable (List Json × Nat)
  | [], drawn => .ok ([], drawn)
  | item :: rest, drawn => do
    let (item, drawn) ← sealDigests decoys item drawn
    let (rest, drawn) ← sealItems decoys rest drawn
    return (item :: rest, drawn)

end

/-- A disclosure of `members` and the digest that stands for it. -/
def disclose (members : Json) : Except Unconcealable (String × String) := do
  let encoded := Base64.encode (Text.utf8 (members.write serde.float))
  let digest ← (digestOf provider .sha256 encoded).mapError fun _ => .unavailable
  return (encoded, digest)

/-- The payload, the disclosures and the salts drawn, after a claim is concealed. -/
structure Concealing where
  payload : Json
  disclosures : List String
  drawn : Nat

/-- An object without a property that is concealed, its digest among the others. -/
def addDigest (name digest : String) (parent : List (String × Json)) :
    Except Unconcealable (List (String × Json)) :=
  let parent := SortedMap.without name parent
  match (SortedMap.lookup "_sd" parent).getD (.array []) with
  | .array digests => .ok (SortedMap.place "_sd" (.array (digests ++ [.string digest])) parent)
  | _ => .error (.reservedName "_sd")

def concealProperty (decoys : Nat) (path : List String) (state : Concealing) :
    Except Unconcealable Concealing :=
  match path.getLast? with
  | none => .error .notFound
  | some name =>
    let parents := path.dropLast
    if parents = [] ∧ name ∈ VALIDITY_CLAIMS then .error (.validityClaim name)
    else
      match valueAt parents state.payload with
      | some (.object parent) =>
        match SortedMap.lookup name parent with
        | none => .error .notFound
        | some value => do
          let (value, drawn) ← sealDigests provider decoys value state.drawn
          let (salt, drawn) ← salt provider drawn
          let (encoded, digest) ←
            disclose serde provider (.array [.string salt, .string name, value])
          let parent ← addDigest name digest parent
          return {
            payload := putAt parents (.object parent) state.payload
            disclosures := state.disclosures ++ [encoded]
            drawn }
      | _ => .error .notFound

/-- Whether an element is a carrier already. -/
def isCarrier : Json → Bool
  | .object members => (SortedMap.lookup "..." members).isSome
  | _ => false

def concealElement (decoys : Nat) (path : List String) (index : Nat) (state : Concealing) :
    Except Unconcealable Concealing :=
  match valueAt path state.payload with
  | some (.array elements) =>
    match elements[index]? with
    | none => .error .notFound
    | some slot =>
      if isCarrier slot then .error .alreadyConcealed
      else do
        let (value, drawn) ← sealDigests provider decoys slot state.drawn
        let (salt, drawn) ← salt provider drawn
        let (encoded, digest) ← disclose serde provider (.array [.string salt, value])
        let carrier : Json := .object [("...", .string digest)]
        return {
          payload := putAt path (.array (elements.set index carrier)) state.payload
          disclosures := state.disclosures ++ [encoded]
          drawn }
  | _ => .error .notFound

def concealOne (decoys : Nat) (state : Concealing) : Concealed → Except Unconcealable Concealing
  | .property path => concealProperty serde provider decoys path state
  | .element path index => concealElement serde provider decoys path index state

/-- The deepest first, so that a property whose own members are concealed
carries their digests inside its disclosure. -/
def deepestFirst (concealed : List Concealed) : List Concealed :=
  concealed.insertionSort fun left right => right.depth ≤ left.depth

def concealClaims (claims : List (String × Json)) (concealed : List Concealed) (decoys : Nat) :
    Except Unconcealable Concealment := do
  refuseReservedNames (.object claims)
  let state ← (deepestFirst concealed).foldlM (concealOne serde provider decoys)
    ⟨.object claims, [], 0⟩
  let (payload, _) ← sealDigests provider decoys state.payload state.drawn
  match payload with
  | .object payload =>
    return ⟨SortedMap.place "_sd_alg" (.string "sha-256") payload, state.disclosures⟩
  | _ => .error .notFound

/-- What a sequence returned, both parts of it did. -/
theorem bind_eq_ok {ε α β : Type} {first : Except ε α} {next : α → Except ε β} {result : β} :
    first >>= next = .ok result ↔ ∃ value, first = .ok value ∧ next value = .ok result := by
  constructor
  · intro whole
    cases first with
    | error error => cases whole
    | ok value => exact ⟨value, rfl, whole⟩
  · intro both
    obtain ⟨value, rfl, ended⟩ := both
    exact ended

variable {serde provider}

theorem salt_eq_ok {drawn after : Nat} {text : String} (ran : salt provider drawn = .ok (text, after)) :
    after = drawn + 1 ∧ ∃ bytes, provider.fill drawn = .ok bytes ∧ text = Base64.encode bytes.val := by
  unfold salt at ran
  split at ran
  · next bytes filled =>
    cases ran
    exact ⟨rfl, bytes, filled, rfl⟩
  · cases ran

theorem disclose_eq_ok {members : Json} {encoded digest : String}
    (ran : disclose serde provider members = .ok (encoded, digest)) :
    encoded = Base64.encode (Text.utf8 (members.write serde.float)) ∧
      digestOf provider .sha256 encoded = .ok digest := by
  obtain ⟨found, digested, ended⟩ := bind_eq_ok.mp ran
  cases ended
  refine ⟨rfl, ?_⟩
  cases made : digestOf provider .sha256 (Base64.encode (Text.utf8 (members.write serde.float))) with
  | error refused =>
    rw [made] at digested
    cases digested
  | ok text =>
    rw [made] at digested
    exact congrArg _ (Except.ok.inj digested)

end Saffui.SdJwt
