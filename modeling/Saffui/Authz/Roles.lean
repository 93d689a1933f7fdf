import Saffui.Clients

/-!
# Roles, and the groups that carry them

Source: `saffui-core/src/authz/roles.rs`, its data and the checks of its
texts. What is created and deleted is in `Saffui.Authz.Manage`.
-/

namespace Saffui.Authz

structure Role where
  id : Uuid
  /-- The client the role is said to. A role of the realm has none. -/
  clientId : Option String
  name : String
  description : Option String
  createdAt : Instant
  deriving DecidableEq, Repr

structure Group where
  id : Uuid
  name : String
  description : Option String
  createdAt : Instant
  deriving DecidableEq, Repr

/-- 1 to 64 letters, digits, dots, colons, hyphens or underscores. -/
def isRoleName (text : String) : Bool :=
  1 ≤ text.utf8ByteSize && text.utf8ByteSize ≤ 64 && text.toList.all fun character =>
    Text.isAsciiAlphanumeric character || character ∈ ['.', ':', '_', '-']

/-- A text without the blanks around it. -/
def trim (text : List Char) : List Char :=
  ((text.dropWhile Text.isWhitespace).reverse.dropWhile Text.isWhitespace).reverse

/-- A description or a reason: trimmed, and absent when nothing is left. -/
def readRoleText (text : Option String) : Except ErrorCode (Option String) :=
  match text.map fun text => trim text.toList with
  | none | some [] => .ok none
  | some trimmed =>
    if trimmed.length > 255 || trimmed.any Text.isUnshowable then .error .roleTextInvalid
    else .ok (some (String.ofList trimmed))

end Saffui.Authz
