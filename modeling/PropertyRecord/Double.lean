/-!
# Doubles

A double is its 64 bits, so the payload of a NaN survives every copy. Two operations look inside:
the comparison of floating-point numbers, and the conversion from an integer, which rounds to the
nearest double and takes the even one of two equally near.
-/

namespace PropertyRecord

/-- A floating-point number in the 64-bit binary format. -/
structure Double where
  bits : UInt64
  deriving DecidableEq

namespace Double

/-- The eleven bits of the biased exponent. -/
def biasedExponent (d : Double) : Nat := (d.bits.toNat >>> 52) % 2048

/-- The 52 bits below the exponent. -/
def fraction (d : Double) : Nat := d.bits.toNat % (1 <<< 52)

/-- Whether the bits stand for no number. -/
def isNaN (d : Double) : Bool := d.biasedExponent == 2047 && d.fraction != 0

/-- Whether the number is zero, of either sign. -/
def isZero (d : Double) : Bool := d.bits.toNat % (1 <<< 63) == 0

/-- Equality of the numbers: the zeros are equal, and a NaN equals nothing. -/
def equal (a b : Double) : Bool :=
  !a.isNaN && !b.isNaN && (a.bits == b.bits || (a.isZero && b.isZero))

/-- The quotient rounded to the nearest integer, a half going to the even one. -/
def divHalfEven (n d : Nat) : Nat :=
  if 2 * (n % d) < d ∨ (2 * (n % d) = d ∧ n / d % 2 = 0) then n / d else n / d + 1

/-- The bits of the double nearest to a natural number of at most 1023 bits. The significand is
scaled to 53 bits and added with its leading one, so that a carry out of it raises the exponent.
-/
def magnitude (n : Nat) : Nat :=
  if n = 0 then 0
  else
    ((n.log2 + 1022) <<< 52)
      + if n.log2 ≤ 52 then n <<< (52 - n.log2) else divHalfEven n (1 <<< (n.log2 - 52))

/-- The double nearest to an integer. -/
def ofInt (i : Int) : Double :=
  ⟨UInt64.ofNat ((if i < 0 then 1 <<< 63 else 0) + magnitude i.natAbs)⟩

end Double

end PropertyRecord
