import Mathlib.Data.List.TakeWhile
import Saffui.LowerCase
import Saffui.Oidc.Brake

/-!
# The name that is braked and the name that is tried

Source: `login/steps/password.rs` (the head of `verify_password`) and
`directory/mod.rs`. What is typed is read twice: as a username, in ASCII, and as
the text the brake counts under, in the lower case of Unicode. The two agree but
for one character.
-/

namespace Saffui.Login.Names

/-- A letter or a digit, as a username has them at its ends. -/
def Edge (character : Char) : Prop :=
  Text.isAsciiLowercase character = true ∨ Text.isAsciiDigit character = true

/-- A text that can be a username. -/
structure Username where
  name : String
  short : name.utf8ByteSize ≤ 64
  inner : ∀ character ∈ name.toList, Edge character ∨ character ∈ ['.', '_', '-']
  starts : ∃ first, name.toList.head? = some first ∧ Edge first
  ends : ∃ last, name.toList.getLast? = some last ∧ Edge last

/-- What a typed name is tried as, and what its attempt is counted under. -/
structure TypedName where
  username : Option String
  typed : String
  deriving DecidableEq, Repr

/-- The head of `verify_password`. -/
def readTypedName (properties : Text.WordProperties) (typedName : String) : TypedName :=
  ⟨normalizeUsername typedName, Text.toLowercase properties (Text.trim typedName)⟩

/-- The step of the password counts and tries what is read here. -/
theorem verifyPassword_reads {app : Oidc.App} {properties : Text.WordProperties}
    (lower : app.toLowercase = Text.toLowercase properties) (typedName : String)
    (password : Bytes) : Oidc.verifyPassword app typedName password = (do
      Oidc.refuseIf (password.length > PASSWORD_MAX_BYTES) .signInFailed
      let brake ← Oidc.Brake.ofTyped app (readTypedName properties typedName).typed
      let hasFreeShare ← Oidc.ask .hasFreeShare
      Oidc.refuseIf (!hasFreeShare) .hashingBusy
      let now ← Oidc.tellNow
      Oidc.beginWork
      let person ← (readTypedName properties typedName).username.elim (pure none) fun username =>
        Oidc.query (.readPersonByUsername username)
      let brake ← brake.ofCaller app (readTypedName properties typedName).typed
        (person.map Person.id)
      Oidc.weighPassword app password now person brake) := by
  have tried : Oidc.readTyped typedName =
      (readTypedName properties typedName).username.elim (pure none) fun username =>
        Oidc.query (.readPersonByUsername username) := by
    unfold Oidc.readTyped readTypedName
    cases normalizeUsername typedName <;> rfl
  rw [Oidc.verifyPassword_eq, lower, tried]
  rfl

theorem Username.ascii (username : Username) :
    ∀ character ∈ username.name.toList, Text.IsAscii character := by
  intro character inside
  rcases username.inner character inside with (lower | digit) | mark
  · apply Text.ascii_of_alphanumeric
    rw [Text.isAsciiAlphanumeric, lower]
    rfl
  · exact Text.ascii_of_digit digit
  · have one : character = '.' ∨ character = '_' ∨ character = '-' := by simpa using mark
    rcases one with rfl | rfl | rfl <;> decide

theorem Username.filled (username : Username) : 1 ≤ username.name.utf8ByteSize := by
  obtain ⟨first, here, -⟩ := username.starts
  rw [Text.utf8ByteSize_of_ascii username.ascii, Nat.one_le_iff_ne_zero, Ne,
    List.length_eq_zero_iff]
  intro empty
  rw [empty] at here
  cases here

/-- What is accepted is a username, and it is the ASCII lower case of what was typed. -/
theorem normalizeUsername_eq {typed name : String} :
    normalizeUsername typed = some name ↔
      Text.toAsciiLowercase (Text.trim typed) = name ∧ ∃ username : Username, username.name = name := by
  unfold normalizeUsername
  constructor
  · intro accepted
    dsimp only at accepted
    split at accepted
    · next checked =>
      obtain ⟨-, short, inner, starts, ends⟩ := checked
      cases accepted
      refine ⟨rfl, ⟨_, short, ?_, ?_, ?_⟩, rfl⟩
      · intro character inside
        simpa [Edge] using List.all_eq_true.mp inner character inside
      · simpa [Option.any_eq_true, Edge] using starts
      · simpa [Option.any_eq_true, Edge] using ends
    · cases accepted
  · rintro ⟨same, username, named⟩
    have lower : Text.toAsciiLowercase (Text.trim typed) = username.name := same.trans named.symm
    obtain ⟨first, here, first_edge⟩ := username.starts
    obtain ⟨last, there, last_edge⟩ := username.ends
    have inner : username.name.toList.all (fun character =>
        (Text.isAsciiLowercase character || Text.isAsciiDigit character) ||
          decide (character ∈ ['.', '_', '-'])) = true := by
      rw [List.all_eq_true]
      intro character inside
      simpa [Edge] using username.inner character inside
    simp only [lower]
    rw [if_pos ⟨username.filled, username.short, inner, by simpa [here, Edge] using first_edge,
      by simpa [there, Edge] using last_edge⟩, named]

theorem mem_dropWhile {blank : Char → Bool} {character : Char} (kept : blank character = false)
    {text : List Char} : character ∈ text.dropWhile blank ↔ character ∈ text := by
  constructor
  · exact fun inside => (List.dropWhile_suffix blank).subset inside
  · intro inside
    rw [← List.takeWhile_append_dropWhile (p := blank) (l := text), List.mem_append] at inside
    rcases inside with taken | dropped
    · rw [List.mem_takeWhile_imp taken] at kept
      cases kept
    · exact dropped

theorem mem_trim {character : Char} (kept : Text.isWhitespace character = false) {text : String} :
    character ∈ (Text.trim text).toList ↔ character ∈ text.toList := by
  rw [Text.trim, String.toList_ofList, List.mem_reverse, mem_dropWhile kept, List.mem_reverse,
    mem_dropWhile kept]

/-- A Kelvin sign was typed for a `k` of the username. -/
def WithKelvin (typed : String) (username : Username) : Prop :=
  Text.KELVIN_SIGN ∈ typed.toList ∧
    Text.toAsciiLowercase ((Text.trim typed).map Text.withoutKelvin) = username.name

theorem map_withoutKelvin {text : String} (absent : Text.KELVIN_SIGN ∉ text.toList) :
    text.map Text.withoutKelvin = text := by
  apply String.toList_injective
  have each : ∀ character ∈ text.toList, Text.withoutKelvin character = id character := by
    intro character inside
    have other : character ≠ Text.KELVIN_SIGN := by
      rintro rfl
      exact absent inside
    rw [Text.withoutKelvin, if_neg other, id]
  rw [String.toList_map, List.map_congr_left each, List.map_id]

/-- The ASCII lower case keeps a Kelvin sign, which no username holds. -/
theorem kelvin_kept {text : String} {username : Username}
    (same : Text.toAsciiLowercase text = username.name) : Text.KELVIN_SIGN ∉ text.toList := by
  intro inside
  have listed : username.name.toList = text.toList.map Text.asciiLower := by
    rw [← same, Text.toAsciiLowercase, String.toList_map]
    rfl
  have high : Text.asciiLower Text.KELVIN_SIGN = Text.KELVIN_SIGN := by decide
  have held : Text.KELVIN_SIGN ∈ username.name.toList := by
    rw [listed, ← high]
    exact List.mem_map_of_mem inside
  exact absurd (username.ascii _ held) (by decide)

/-- A username is counted under itself. -/
theorem counted_of_tried (properties : Text.WordProperties) {typed : String} {username : Username}
    (tried : (readTypedName properties typed).username = some username.name) :
    (readTypedName properties typed).typed = username.name := by
  have same := (normalizeUsername_eq.mp tried).1
  apply (Text.toLowercase_eq_ascii properties username.ascii).mpr
  rw [map_withoutKelvin (kelvin_kept same), same]

/-- The name that is braked is the name that is tried, unless a Kelvin sign was typed for one of
its letters. -/
theorem braked_as_tried (properties : Text.WordProperties) (typed : String) (username : Username) :
    ((readTypedName properties typed).typed = username.name ↔
        (readTypedName properties typed).username = some username.name) ↔
      ¬WithKelvin typed username := by
  have counted : (readTypedName properties typed).typed = username.name ↔
      Text.toAsciiLowercase ((Text.trim typed).map Text.withoutKelvin) = username.name :=
    Text.toLowercase_eq_ascii properties username.ascii
  have printed : Text.isWhitespace Text.KELVIN_SIGN = false := by decide
  constructor
  · rintro agree ⟨kelvin, spelled⟩
    have tried := agree.mp (counted.mpr spelled)
    exact kelvin_kept (normalizeUsername_eq.mp tried).1 ((mem_trim printed).mpr kelvin)
  · intro plain
    refine ⟨fun same => ?_, counted_of_tried properties⟩
    have spelled := counted.mp same
    have absent : Text.KELVIN_SIGN ∉ (Text.trim typed).toList := fun inside =>
      plain ⟨(mem_trim printed).mp inside, spelled⟩
    rw [map_withoutKelvin absent] at spelled
    exact normalizeUsername_eq.mpr ⟨spelled, username, rfl⟩

def kate : Username where
  name := "kate"
  short := by decide
  inner := fun character inside => .inl (.inl (List.all_eq_true.mp
    (by decide : "kate".toList.all Text.isAsciiLowercase = true) character inside))
  starts := ⟨'k', rfl, .inl rfl⟩
  ends := ⟨'e', rfl, .inl rfl⟩

/-- A Kelvin sign and `ate` are counted against `kate`, and can never be her name. -/
theorem kelvin_braked : ¬∀ (properties : Text.WordProperties) (typed : String) (username : Username),
    (readTypedName properties typed).typed = username.name ↔
      (readTypedName properties typed).username = some username.name := by
  intro agree
  have one := agree ⟨fun _ => false, fun _ => false⟩ "\u212aate" kate
  have counted : (readTypedName ⟨fun _ => false, fun _ => false⟩ "\u212aate").typed = kate.name := by
    decide +kernel
  have tried : (readTypedName ⟨fun _ => false, fun _ => false⟩ "\u212aate").username = none := by
    decide +kernel
  rw [one.mp counted] at tried
  cases tried

end Saffui.Login.Names
