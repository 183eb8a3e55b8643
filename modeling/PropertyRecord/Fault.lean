/-!
# Faults

Everything in this library that can fail, fails for one of seven causes. A cause is a constructor;
its wording is `Fault.message`.
-/

namespace PropertyRecord

/-- The causes of failure. -/
inductive Fault where
  /-- A buffer, an arena, a slot table or a store has no room left. -/
  | exhausted
  /-- The bytes end too early or do not hold what was asked for. -/
  | malformed
  /-- A number does not fit the type that was asked for. -/
  | outOfRange
  /-- A header uses a reserved or an indefinite length. -/
  | unsupported
  /-- The call is not allowed now. -/
  | invalidState
  /-- There is no such record or property. -/
  | notFound
  /-- A record name is empty or too long. -/
  | badName
  deriving DecidableEq

/-- The wording of a cause. -/
def Fault.message : Fault → String
  | exhausted => "buffer or table capacity exceeded"
  | malformed => "malformed or truncated data"
  | outOfRange => "value out of representable range"
  | unsupported => "unsupported encoding form"
  | invalidState => "operation not valid in current state"
  | notFound => "record not found"
  | badName => "invalid record name"

end PropertyRecord
