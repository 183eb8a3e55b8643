import PropertyRecord.Value
import PropertyRecord.Wire.Header

/-!
# Reading from a cursor

A reader is a position in a byte string with the bytes from there on. A peek answers about the
item at the position; a read answers with its content and with the reader after it. Either may
fail, and then the caller still has the reader that it asked.

The reads of a key, a text or a byte string copy the content into a caller's buffer. They touch
the buffer only when the content is complete and fits.

The words of the machine have 64 bits, as many as the largest argument. So every argument is a
number that a length or a count may have, and none is refused for being too large for one: a map may
announce any number of pairs, and a string may claim any length, whether or not so many bytes
follow.
-/

namespace PropertyRecord

/-- A position in a byte string and the bytes from there on. -/
structure Reader where
  pos : Nat
  rest : Bytes
  deriving DecidableEq

namespace Reader

/-- A reader at the start of a byte string. -/
def ofBytes (source : Bytes) : Reader := ⟨0, source⟩

/-- The number of bytes left. -/
def remaining (r : Reader) : Nat := r.rest.length

/-- Whether bytes are left. -/
def hasNext (r : Reader) : Bool := !r.rest.isEmpty

/-- The reader `n` bytes further on. -/
def advance (r : Reader) (n : Nat) : Reader := ⟨r.pos + n, r.rest.drop n⟩

/-! ## Peeks -/

/-- The initial byte of the item. -/
def peekByte (r : Reader) : Except Fault UInt8 :=
  match r.rest with
  | [] => .error .malformed
  | initial :: _ => .ok initial

/-- The kind of the item. -/
def peekMajor (r : Reader) : Except Fault MajorType := do
  let initial ← r.peekByte
  return MajorType.ofInitial initial

/-- The header of the item. -/
def peekHeader (r : Reader) : Except Fault Header := Header.parse r.rest

/-- The header of the item, which must be of the given kind. -/
def peekHeaderOf (r : Reader) (major : MajorType) : Except Fault Header := do
  let header ← r.peekHeader
  if header.major = major then return header else .error .malformed

/-- The length that the text or byte string at the position claims to have, which may be any
word. -/
def peekStringLength (r : Reader) : Except Fault Nat := do
  let major ← r.peekMajor
  if major = .text ∨ major = .bytes then
    let header ← r.peekHeader
    return header.argument
  else .error .invalidState

/-! ## Reads -/

/-- The number of pairs that a map header announces, which may be any word. -/
def readMapHeader (r : Reader) : Except Fault (Nat × Reader) := do
  let header ← r.peekHeaderOf .map
  return (header.argument, r.advance header.size)

/-- A truth value. -/
def readBool (r : Reader) : Except Fault (Bool × Reader) := do
  let initial ← r.peekByte
  if initial = falseByte then return (false, r.advance 1)
  else if initial = trueByte then return (true, r.advance 1)
  else .error .malformed

/-- An integer that fits the signed type. -/
def readInt (r : Reader) : Except Fault (Int64 × Reader) := do
  let header ← r.peekHeader
  match header.major with
  | .unsigned =>
    if header.argument < signedBound then
      return (Int64.ofInt header.argument, r.advance header.size)
    else .error .outOfRange
  | .negative =>
    if header.argument < signedBound then
      return (Int64.ofInt (-1 - header.argument), r.advance header.size)
    else .error .outOfRange
  | _ => .error .malformed

/-- An unsigned integer. -/
def readUInt (r : Reader) : Except Fault (UInt64 × Reader) := do
  let header ← r.peekHeaderOf .unsigned
  return (UInt64.ofNat header.argument, r.advance header.size)

/-- A double, or an integer that fits the signed type, rounded to the nearest double. -/
def readDouble (r : Reader) : Except Fault (Double × Reader) := do
  let initial ← r.peekByte
  match MajorType.ofInitial initial with
  | .unsigned | .negative =>
    let (i, next) ← r.readInt
    return (Double.ofInt i.toInt, next)
  | _ =>
    if initial = doubleByte then
      let header ← r.peekHeader
      return (⟨UInt64.ofNat header.argument⟩, r.advance header.size)
    else .error .malformed

/-- The content of the text or byte string at the position, which must be complete. A claimed length
is malformed only for want of so many bytes. -/
def payload (r : Reader) (major : MajorType) : Except Fault (Bytes × Reader) := do
  let header ← r.peekHeaderOf major
  match Bytes.cut? header.argument (r.advance header.size).rest with
  | some (content, _) => return (content, (r.advance header.size).advance header.argument)
  | none => .error .malformed

/-- A text, copied into `out`. Content that fits is copied before it is checked to be UTF-8. -/
def readText (r : Reader) (out : Bytes) : Filled (String × Reader) :=
  match r.payload .text with
  | .error fault => ⟨.error fault, out⟩
  | .ok (content, next) =>
    if Bytes.holds content.length out then
      match ofUtf8? content with
      | some text => ⟨.ok (text, next), Bytes.overlay content out⟩
      | none => ⟨.error .malformed, Bytes.overlay content out⟩
    else ⟨.error .exhausted, out⟩

/-- A byte string, copied into `out`. -/
def readBytes (r : Reader) (out : Bytes) : Filled (Bytes × Reader) :=
  match r.payload .bytes with
  | .error fault => ⟨.error fault, out⟩
  | .ok (content, next) =>
    if Bytes.holds content.length out then ⟨.ok (content, next), Bytes.overlay content out⟩
    else ⟨.error .exhausted, out⟩

end Reader

end PropertyRecord
