import PropertyRecord.Bytes

/-!
# Initial bytes

The first byte of an item has the item's major type in its top three bits and its additional
information in the low five. Four initial bytes stand for a simple value or for a double.
-/

namespace PropertyRecord

/-- The eight kinds of item. -/
inductive MajorType where
  | unsigned
  | negative
  | bytes
  | text
  | array
  | map
  | tag
  | simple
  deriving DecidableEq

namespace MajorType

/-- The number of a kind, from 0 to 7. -/
def code : MajorType → Nat
  | unsigned => 0
  | negative => 1
  | bytes => 2
  | text => 3
  | array => 4
  | map => 5
  | tag => 6
  | simple => 7

/-- The kind with a number; anything above 6 is `simple`. -/
def ofCode : Nat → MajorType
  | 0 => unsigned
  | 1 => negative
  | 2 => bytes
  | 3 => text
  | 4 => array
  | 5 => map
  | 6 => tag
  | _ => simple

@[simp] theorem ofCode_code (major : MajorType) : ofCode major.code = major := by
  cases major <;> rfl

theorem code_lt (major : MajorType) : major.code < 8 := by
  cases major <;> decide

theorem code_ofCode (n : Nat) (small : n < 8) : (ofCode n).code = n := by
  match n, small with
  | 0, _ | 1, _ | 2, _ | 3, _ | 4, _ | 5, _ | 6, _ | 7, _ => rfl

/-- The kind of the item that starts with a byte. -/
def ofInitial (initial : UInt8) : MajorType := ofCode (initial.toNat / 32)

/-- The initial byte of an item of this kind, with its low five bits clear. -/
def bits (major : MajorType) : UInt8 := UInt8.ofNat (32 * major.code)

end MajorType

/-- The initial byte of an item with additional information `info`. -/
def initialByte (major : MajorType) (info : Nat) : UInt8 := UInt8.ofNat (32 * major.code + info)

/-- The additional information in an initial byte. -/
def infoOf (initial : UInt8) : Nat := initial.toNat % 32

theorem toNat_initialByte (major : MajorType) (info : Nat) (small : info < 32) :
    (initialByte major info).toNat = 32 * major.code + info := by
  have := major.code_lt
  rw [initialByte, UInt8.toNat_ofNat']
  omega

theorem ofInitial_initialByte (major : MajorType) (info : Nat) (small : info < 32) :
    MajorType.ofInitial (initialByte major info) = major := by
  have quotient : (32 * major.code + info) / 32 = major.code := by omega
  rw [MajorType.ofInitial, toNat_initialByte major info small, quotient, MajorType.ofCode_code]

theorem infoOf_initialByte (major : MajorType) (info : Nat) (small : info < 32) :
    infoOf (initialByte major info) = info := by
  rw [infoOf, toNat_initialByte major info small]
  omega

theorem initialByte_ofInitial (initial : UInt8) :
    initialByte (MajorType.ofInitial initial) (infoOf initial) = initial := by
  have byte := initial.toNat_lt
  apply UInt8.toNat.inj
  have low : infoOf initial < 32 := Nat.mod_lt _ (by decide)
  rw [toNat_initialByte _ _ low, MajorType.ofInitial, MajorType.code_ofCode _ (by omega), infoOf]
  omega

/-- The initial byte of `false`. -/
def falseByte : UInt8 := 0xf4

/-- The initial byte of `true`. -/
def trueByte : UInt8 := 0xf5

/-- The initial byte of null. -/
def nullByte : UInt8 := 0xf6

/-- The initial byte of a double, which has its eight bytes as the header's argument. -/
def doubleByte : UInt8 := 0xfb

end PropertyRecord
