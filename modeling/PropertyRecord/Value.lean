import PropertyRecord.Double
import PropertyRecord.Limits
import PropertyRecord.Text
import PropertyRecord.Wire.Initial

/-!
# Values

The value of a property. The readings (`bool?`, `int64?`, …) answer what a value is as a given type:
integers pass between the signed and the unsigned type where the number fits.
-/

namespace PropertyRecord

/-- The value of a property. -/
inductive Value where
  | null
  | bool (b : Bool)
  | int (i : Int64)
  | uint (u : UInt64)
  | double (d : Double)
  | text (s : String)
  | bytes (bs : Bytes)
  deriving DecidableEq

namespace Value

/-- The kind of item that a value is written as. -/
def major : Value → MajorType
  | null | bool _ | double _ => .simple
  | int i => if i.toInt < 0 then .negative else .unsigned
  | uint _ => .unsigned
  | text _ => .text
  | bytes _ => .bytes

/-- The truth value. -/
def bool? : Value → Option Bool
  | bool b => some b
  | _ => none

/-- The integer, if it fits the signed type. -/
def int64? : Value → Option Int64
  | int i => some i
  | uint u => if u.toNat < signedBound then some (Int64.ofNat u.toNat) else none
  | _ => none

/-- The integer, if it fits the unsigned type. -/
def uint64? : Value → Option UInt64
  | uint u => some u
  | int i => if 0 ≤ i.toInt then some (UInt64.ofNat i.toInt.toNat) else none
  | _ => none

/-- The number, integers being rounded to the nearest double. -/
def double? : Value → Option Double
  | double d => some d
  | int i => some (Double.ofInt i.toInt)
  | uint u => some (Double.ofInt u.toNat)
  | _ => none

/-- The text. -/
def text? : Value → Option String
  | text s => some s
  | _ => none

/-- The byte string. -/
def bytes? : Value → Option Bytes
  | bytes bs => some bs
  | _ => none

/-- Whether the value is null. -/
def isNull : Value → Bool
  | null => true
  | _ => false

/-- Equality of values of one type. Doubles are compared as numbers, so this is not reflexive. -/
def equal : Value → Value → Bool
  | double a, double b => a.equal b
  | a, b => a == b

/-- The bytes of a value that lie outside a slot: those of a text or a byte string. -/
def payload : Value → Bytes
  | text s => utf8 s
  | bytes bs => bs
  | _ => []

end Value

end PropertyRecord
