import PropertyRecord.Limits
import PropertyRecord.Wire.Initial

/-!
# Headers

An item starts with a header: its initial byte, and up to eight bytes of argument. Additional
information below 24 is itself the argument; 24 to 27 announce one, two, four or eight bytes, most
significant first; 28 to 31 are not supported. A header is written in the smallest of its five
sizes.
-/

namespace PropertyRecord

/-- A header as it was read. -/
structure Header where
  major : MajorType
  /-- The low five bits of the initial byte. -/
  info : Nat
  argument : Nat
  /-- The length of the header in bytes. -/
  size : Nat
  deriving DecidableEq

namespace Header

/-- The number of argument bytes that additional information from 24 on announces. -/
def widthFor : (info : Nat) → Option Nat
  | 24 => some 1
  | 25 => some 2
  | 26 => some 4
  | 27 => some 8
  | _ => none

/-- Reads the header at the front of the bytes. -/
def parse : Bytes → Except Fault Header
  | [] => .error .malformed
  | initial :: rest =>
    let major := MajorType.ofInitial initial
    let info := infoOf initial
    if info < 24 then .ok ⟨major, info, info, 1⟩
    else
      match widthFor info with
      | none => .error .unsupported
      | some width =>
        match Bytes.cut? width rest with
        | none => .error .malformed
        | some (digits, _) => .ok ⟨major, info, Bytes.ofBigEndian digits, 1 + width⟩

/-- The additional information in the smallest header for an argument. -/
def infoFor (argument : Nat) : Nat :=
  if argument ≤ 23 then argument
  else if argument ≤ 0xff then 24
  else if argument ≤ 0xffff then 25
  else if argument ≤ 0xffffffff then 26
  else 27

/-- The length in bytes of the smallest header for an argument. -/
def sizeFor (argument : Nat) : Nat :=
  if argument ≤ 23 then 1
  else if argument ≤ 0xff then 2
  else if argument ≤ 0xffff then 3
  else if argument ≤ 0xffffffff then 5
  else 9

/-- The smallest header for an argument below `unsignedBound`. -/
def encode (major : MajorType) (argument : Nat) : Bytes :=
  initialByte major (infoFor argument) :: Bytes.bigEndian (sizeFor argument - 1) argument

/-- The smallest header at the front of nine bytes, the longest that a header can be, with zeros
after it. -/
def padded (major : MajorType) (argument : Nat) : Bytes :=
  Bytes.overlay (encode major argument) (List.replicate 9 0)

/-! ## Writing and reading a header -/

theorem sizeFor_pos (argument : Nat) : 0 < sizeFor argument := by
  unfold sizeFor
  repeat' split
  all_goals decide

theorem infoFor_lt (argument : Nat) : infoFor argument < 28 := by
  unfold infoFor
  repeat' split
  all_goals omega

@[simp] theorem length_encode (major : MajorType) (argument : Nat) :
    (encode major argument).length = sizeFor argument := by
  have := sizeFor_pos argument
  simp only [encode, List.length_cons, Bytes.length_bigEndian]
  omega

/-- The additional information and the size of the smallest header agree on its argument bytes. -/
theorem widthFor_infoFor {argument : Nat} (wide : 23 < argument) :
    widthFor (infoFor argument) = some (sizeFor argument - 1) := by
  have low : ¬ argument ≤ 23 := by omega
  simp only [infoFor, sizeFor, low, if_false]
  repeat' split
  all_goals rfl

/-- The argument bytes of the smallest header are enough for the argument. -/
theorem lt_of_sizeFor {argument : Nat} (wide : 23 < argument) (small : argument < unsignedBound) :
    argument < Bytes.scale (sizeFor argument - 1) := by
  have low : ¬ argument ≤ 23 := by omega
  simp only [sizeFor, low, if_false]
  repeat' split
  all_goals simp only [Bytes.scale, Nat.reduceMul, unsignedBound] at small ⊢
  all_goals omega

/-- A header is read back from the front of any bytes that it was written to. -/
theorem parse_encode {major : MajorType} {argument : Nat} (rest : Bytes)
    (small : argument < unsignedBound) :
    parse (encode major argument ++ rest)
      = .ok ⟨major, infoFor argument, argument, sizeFor argument⟩ := by
  have low : infoFor argument < 32 := Nat.lt_trans (infoFor_lt argument) (by decide)
  simp only [encode, List.cons_append, parse, ofInitial_initialByte major _ low,
    infoOf_initialByte major _ low]
  by_cases inline : argument ≤ 23
  · simp [infoFor, sizeFor, inline]
    omega
  · have wide : 23 < argument := by omega
    have outside : ¬ infoFor argument < 24 := by
      simp only [infoFor, inline, if_false]
      repeat' split
      all_goals decide
    have digits : Bytes.cut? (sizeFor argument - 1)
        (Bytes.bigEndian (sizeFor argument - 1) argument ++ rest)
          = some (Bytes.bigEndian (sizeFor argument - 1) argument, rest) :=
      Bytes.cut?_eq_some_iff.2 ⟨rfl, Bytes.length_bigEndian _ _⟩
    have size : 1 + (sizeFor argument - 1) = sizeFor argument := by
      have := sizeFor_pos argument
      omega
    simp only [outside, if_false, widthFor_infoFor wide, digits, Bytes.ofBigEndian_bigEndian,
      Nat.mod_eq_of_lt (lt_of_sizeFor wide small), size]

theorem sizeFor_le {argument width : Nat} {info : Nat} (announced : widthFor info = some width)
    (fits : argument < Bytes.scale width) :
    sizeFor argument ≤ 1 + width ∧ argument < unsignedBound := by
  unfold widthFor at announced
  split at announced
  all_goals cases announced
  all_goals
    simp only [Bytes.scale, Nat.reduceMul] at fits
    refine ⟨?_, by simp only [unsignedBound]; omega⟩
    unfold sizeFor
    repeat' split
    all_goals omega

/-- A header that was read lies within the bytes, and no shorter header has its argument. -/
theorem le_length_of_parse {bytes : Bytes} {header : Header} (read : parse bytes = .ok header) :
    0 < header.size ∧ header.size ≤ bytes.length ∧ sizeFor header.argument ≤ header.size
      ∧ header.argument < unsignedBound := by
  cases bytes with
  | nil => cases read
  | cons initial rest =>
    simp only [parse] at read
    split at read
    next inline =>
      cases read
      have small : infoOf initial ≤ 23 := by omega
      simp only [sizeFor, small, if_true, List.length_cons, unsignedBound]
      omega
    next =>
      split at read
      next => cases read
      next width announced =>
        split at read
        next => cases read
        next digits _ cut =>
          cases read
          obtain ⟨rfl, length⟩ := Bytes.cut?_eq_some_iff.1 cut
          have bound := Bytes.ofBigEndian_lt digits
          rw [length] at bound
          have fits := sizeFor_le announced bound
          simp only [List.length_cons, List.length_append]
          omega

end Header

end PropertyRecord
