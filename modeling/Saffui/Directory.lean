import Saffui.Ids
import Saffui.Ports

/-!
# The persons of a realm

Source: `saffui-core/src/directory/mod.rs`. What a person shows beside their
name, and when they came, are read by no modelled function.
-/

namespace Saffui

structure Person where
  id : Uuid
  username : String
  email : Option String
  emailVerified : Bool
  enabled : Bool
  deriving DecidableEq, Repr

/-- Reads a username as typed: trimmed and lowercased, then 1 to 64 letters,
digits, dots, hyphens or underscores that start and end with a letter or a
digit. -/
def normalizeUsername (typed : String) : Option String :=
  let username := Text.toAsciiLowercase (Text.trim typed)
  let characters := username.toList
  let edge := fun character => Text.isAsciiLowercase character || Text.isAsciiDigit character
  let inner := fun character => edge character || character ∈ ['.', '_', '-']
  if 1 ≤ username.utf8ByteSize ∧ username.utf8ByteSize ≤ 64 ∧ characters.all inner ∧
      characters.head?.any edge ∧ characters.getLast?.any edge then some username
  else none

/-- The longest password, in bytes. -/
def PASSWORD_MAX_BYTES : Nat := 1024

end Saffui
