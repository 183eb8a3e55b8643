import PropertyRecord.Value
import PropertyRecord.Wire.Header

/-!
# The canonical encoding

A record is a map from text keys to values: a map header with the number of properties, then each
key and its value. Every length and every integer has the smallest header; a double always has all
of its eight bytes.
-/

namespace PropertyRecord

/-- A named value. -/
structure Property where
  key : String
  value : Value
  deriving DecidableEq

/-- A string of bytes as an item of kind `bytes` or `text`. -/
def encodeString (major : MajorType) (payload : Bytes) : Bytes :=
  Header.encode major payload.length ++ payload

/-- The canonical item of a value. -/
def Value.encode : Value → Bytes
  | null => [nullByte]
  | bool b => [if b then trueByte else falseByte]
  | int i =>
    if 0 ≤ i.toInt then Header.encode .unsigned i.toInt.toNat
    else Header.encode .negative (-1 - i.toInt).toNat
  | uint u => Header.encode .unsigned u.toNat
  | double d => doubleByte :: Bytes.bigEndian 8 d.bits.toNat
  | text s => encodeString .text (utf8 s)
  | bytes bs => encodeString .bytes bs

/-- The canonical items of a key and its value. -/
def Property.encode (p : Property) : Bytes := encodeString .text (utf8 p.key) ++ p.value.encode

/-- The canonical header of a map with `count` pairs. -/
def encodeMapHeader (count : Nat) : Bytes := Header.encode .map count

/-- The canonical record with the given properties. -/
def encodeRecord (properties : List Property) : Bytes :=
  encodeMapHeader properties.length ++ properties.flatMap Property.encode

end PropertyRecord
