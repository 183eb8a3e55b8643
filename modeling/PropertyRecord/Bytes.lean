import PropertyRecord.Fault

/-!
# Bytes

Byte strings are lists of bytes. This module has the three things that the wire format does with
them: cutting a length off the front, overwriting the front of a buffer, and writing a number with
a fixed count of big-endian digits.

Main statements: `cut?_eq_some_iff` and `cut?_eq_none_iff` say what a cut does;
`ofBigEndian_bigEndian` and `bigEndian_ofBigEndian` say that digits and numbers of one width
correspond.
-/

namespace PropertyRecord

/-- A byte string. -/
abbrev Bytes := List UInt8

/-- The answer of a call that fills a caller's buffer: its result, and the buffer afterwards. -/
structure Filled (α : Type) where
  result : Except Fault α
  out : Bytes

namespace Bytes

/-- Whether there are at least `n` bytes. Looks at no more than `n` of them. -/
def holds : Nat → Bytes → Bool
  | 0, _ => true
  | _ + 1, [] => false
  | n + 1, _ :: rest => holds n rest

theorem holds_iff (n : Nat) (bytes : Bytes) : holds n bytes = true ↔ n ≤ bytes.length := by
  fun_induction holds n bytes with
  | case1 => simp
  | case2 => simp
  | case3 n _ rest ih => simpa using ih

/-- The first `n` bytes and the bytes after them, if there are that many. -/
def cut? (n : Nat) (bytes : Bytes) : Option (Bytes × Bytes) :=
  if holds n bytes then some (bytes.take n, bytes.drop n) else none

theorem cut?_eq_some_iff {n : Nat} {bytes front rest : Bytes} :
    cut? n bytes = some (front, rest) ↔ bytes = front ++ rest ∧ front.length = n := by
  by_cases enough : n ≤ bytes.length
  · simp only [cut?, (holds_iff n bytes).2 enough, if_true, Option.some.injEq, Prod.mk.injEq]
    constructor
    · rintro ⟨rfl, rfl⟩
      exact ⟨(List.take_append_drop n bytes).symm, List.length_take_of_le enough⟩
    · rintro ⟨rfl, rfl⟩
      simp
  · have short : holds n bytes = false :=
      Bool.eq_false_iff.2 (mt (holds_iff n bytes).1 enough)
    simp only [cut?, short]
    constructor
    · simp
    · rintro ⟨rfl, rfl⟩
      simp at enough

theorem cut?_eq_none_iff {n : Nat} {bytes : Bytes} : cut? n bytes = none ↔ bytes.length < n := by
  unfold cut?
  split
  next enough => simpa using (holds_iff n bytes).1 enough
  next short => simpa [holds_iff] using short

theorem cut?_of_le {n : Nat} {bytes : Bytes} (enough : n ≤ bytes.length) :
    cut? n bytes = some (bytes.take n, bytes.drop n) :=
  if_pos ((holds_iff n bytes).2 enough)

/-- A buffer whose front has been overwritten with `front`. -/
def overlay (front buffer : Bytes) : Bytes := front ++ buffer.drop front.length

theorem length_overlay {front buffer : Bytes} (fits : front.length ≤ buffer.length) :
    (overlay front buffer).length = buffer.length := by
  simp [overlay]; omega

/-- The bytes with `front` in the place of as many of them from an index on. -/
def splice (bytes : Bytes) (start : Nat) (front : Bytes) : Bytes :=
  bytes.take start ++ overlay front (bytes.drop start)

/-- How many numbers `width` digits to base 256 can hold. -/
def scale : (width : Nat) → Nat
  | 0 => 1
  | width + 1 => scale width * 256

/-- The lowest `width` digits of `n` to base 256, most significant first. -/
def bigEndian : (width n : Nat) → Bytes
  | 0, _ => []
  | width + 1, n => UInt8.ofNat (n / scale width) :: bigEndian width n

/-- The number that digits to base 256 stand for, most significant first. -/
def ofBigEndian (digits : Bytes) : Nat :=
  digits.foldl (fun n digit => 256 * n + digit.toNat) 0

theorem scale_pos (width : Nat) : 0 < scale width := by
  induction width with
  | zero => decide
  | succ width ih => exact Nat.mul_pos ih (by decide)

@[simp] theorem length_bigEndian (width n : Nat) : (bigEndian width n).length = width := by
  induction width with
  | zero => rfl
  | succ width ih => simp [bigEndian, ih]

theorem foldl_digits (digits : Bytes) (n : Nat) :
    digits.foldl (fun n digit => 256 * n + digit.toNat) n
      = n * scale digits.length + ofBigEndian digits := by
  induction digits generalizing n with
  | nil => simp [ofBigEndian, scale]
  | cons digit digits ih =>
    simp only [List.foldl_cons, List.length_cons, ofBigEndian, ih (256 * n + digit.toNat),
      ih (256 * 0 + digit.toNat)]
    simp only [Nat.mul_zero, Nat.zero_add, Nat.add_mul, scale]
    have swap : 256 * n * scale digits.length = n * (scale digits.length * 256) := by
      rw [Nat.mul_comm 256 n, Nat.mul_assoc, Nat.mul_comm 256]
    omega

theorem ofBigEndian_cons (digit : UInt8) (digits : Bytes) :
    ofBigEndian (digit :: digits) = digit.toNat * scale digits.length + ofBigEndian digits := by
  have folded := foldl_digits digits (256 * 0 + digit.toNat)
  simpa [ofBigEndian] using folded

theorem ofBigEndian_lt (digits : Bytes) : ofBigEndian digits < scale digits.length := by
  induction digits with
  | nil => simp [ofBigEndian, scale]
  | cons digit digits ih =>
    have small : digit.toNat + 1 ≤ 256 := digit.toNat_lt
    have scaled := Nat.mul_le_mul_right (scale digits.length) small
    simp only [ofBigEndian_cons, List.length_cons, scale]
    rw [Nat.add_mul] at scaled
    omega

theorem ofBigEndian_bigEndian (width n : Nat) :
    ofBigEndian (bigEndian width n) = n % scale width := by
  induction width with
  | zero => simp [bigEndian, ofBigEndian, scale, Nat.mod_one]
  | succ width ih =>
    have next : n % scale (width + 1)
        = n % scale width + scale width * (n / scale width % 256) := by
      rw [scale, Nat.mod_mul]
    rw [bigEndian, ofBigEndian_cons, ih, length_bigEndian, UInt8.toNat_ofNat', next, Nat.mul_comm,
      Nat.add_comm]

theorem bigEndian_ofBigEndian (digits : Bytes) :
    bigEndian digits.length (ofBigEndian digits) = digits := by
  suffices general : ∀ high,
      bigEndian digits.length (high * scale digits.length + ofBigEndian digits) = digits by
    simpa using general 0
  induction digits with
  | nil => intro high; rfl
  | cons digit digits ih =>
    intro high
    have small := ofBigEndian_lt digits
    have positive := scale_pos digits.length
    have split : high * scale (digits.length + 1)
          + (digit.toNat * scale digits.length + ofBigEndian digits)
        = (high * 256 + digit.toNat) * scale digits.length + ofBigEndian digits := by
      rw [Nat.add_mul, scale, Nat.mul_comm (scale digits.length) 256, ← Nat.mul_assoc]
      omega
    rw [ofBigEndian_cons, List.length_cons, bigEndian, split, ih]
    congr 1
    rw [Nat.mul_comm _ (scale digits.length), Nat.mul_add_div positive,
      Nat.div_eq_of_lt small, Nat.add_zero]
    apply UInt8.toNat.inj
    rw [UInt8.toNat_ofNat']
    have := digit.toNat_lt
    omega

end Bytes

end PropertyRecord
