import PropertyRecord.Wire.Header

/-!
# Packed headers

`Header.encode` writes the digits of a number. A machine has the argument as a word of 64 bits: it
narrows the word to the bytes that the header has for it, puts them into an array of nine, which is
the longest that a header can be, and counts how many of the nine are the header. What a narrowed
word has no room for is lost. The initial byte is made of the bits of the kind and those of the
additional information.
-/

namespace PropertyRecord

/-- The lowest `width` bytes of a word. -/
def Word.narrow (width : Nat) (word : UInt64) : BitVec (8 * width) :=
  word.toBitVec.setWidth (8 * width)

/-- The bytes of a word, most significant first. -/
def Word.digits {width : Nat} (word : BitVec (8 * width)) : Bytes :=
  (List.range width).reverse.map fun i => UInt8.ofBitVec (word.extractLsb' (8 * i) 8)

namespace Header

/-- A header at the front of an array. -/
structure Packed where
  array : Bytes
  /-- The length of the header in bytes. -/
  size : Nat
  deriving DecidableEq

/-- The bytes of the array that are the header. -/
def Packed.header (packed : Packed) : Bytes := packed.array.take packed.size

/-- An initial byte with additional information `info`, and the lowest `width` bytes of the argument
behind it. -/
def wide (major : MajorType) (info : UInt8) (width : Nat) (argument : UInt64) : Bytes :=
  (major.bits ||| info) :: Word.digits (Word.narrow width argument)

/-- Packs the smallest header for an argument. -/
def pack (major : MajorType) (argument : UInt64) : Packed :=
  let size := sizeFor argument.toNat
  let header :=
    match size with
    | 1 => [major.bits ||| argument.toUInt8]
    | 2 => wide major 24 1 argument
    | 3 => wide major 25 2 argument
    | 5 => wide major 26 4 argument
    | _ => wide major 27 8 argument
  ⟨Bytes.overlay header (List.replicate 9 0), size⟩

end Header

end PropertyRecord
