import Mathlib.Data.Finset.Card
import Mathlib.Order.Interval.Finset.Nat
import Saffui.Oidc.Factors
import Saffui.Oidc.Judgments

/-!
# The codes of an authenticator application

A code is counted before it is judged, in the unit that judges it: attempts
made together wait on the row of the counter. A step is accepted by one
statement that compares it to the last one. Past the bound nothing is judged,
and nothing a person proves at a sign-in clears the counter any more.

Source: `saffui-core/src/login/steps/{totp,webauthn}.rs`, `login/store.rs`,
`store/src/stores/authenticators.rs`.
-/

namespace Saffui.Oidc
open Saffui.Foundation Saffui.Foundation.Language Saffui.Login

/-- An authenticator application that is confirmed and accepted a step. -/
def Accepted (step : Int) (row : Option TotpAuthenticator) : Prop :=
  ∃ authenticator last, row = some authenticator ∧ authenticator.confirmedAt.isSome = true ∧
    authenticator.lastStep = some last ∧ step ≤ last

section Written

variable {op : Op} {seen now : Db} {person : Uuid}

end Written

section Runs

variable {app : App} {mode : Mode} {start : Db} {ids : List Drawn} {world : World (calls app)}
  {place other first last : Nat} {commit one : Commit (calls app)} {event : language.Event}
  {person : Uuid} {attempts : Nat}
  (reached : Reachable (calls app) mode start ids world)

include reached

end Runs

end Saffui.Oidc
