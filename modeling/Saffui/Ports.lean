import Mathlib.Data.Int.Notation

/-!
# Instants and the failures of the storage

Source: `saffui-core/src/ports/storage.rs` and the instants of the `time`
crate, which the code only compares, adds to and subtracts from.
-/

namespace Saffui

/-- An instant, in microseconds: the precision `App::now` keeps. -/
abbrev Instant := Int

/-- Why the database cannot serve a request right now. -/
inductive StorageUnavailable where
  | poolExhausted | timedOut | tlsFailed | refused | schemaBehind | schemaAhead | unreachable
  deriving DecidableEq, Repr

/-- Why a read or a write did not happen. -/
inductive StorageError where
  | unavailable (why : StorageUnavailable)
  /-- A rule of uniqueness refused the write. The text names what is taken. -/
  | taken (what : String)
  | failed
  deriving DecidableEq, Repr

end Saffui
