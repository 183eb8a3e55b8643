import PropertyRecord.Wire.Cursor
import PropertyRecord.Wire.Packed
import PropertyRecord.Wire.Writer

/-!
# Encoders over words

A `Writer` keeps what it has written apart from the rest of the buffer, so it cannot write over
either. An encoder is a buffer and a position in it, and a step changes both in place: the next one
finds what the last one has left, also where a call then fails. It counts in words of 64 bits. A sum
or a difference that is not a word, a range that is not in the buffer and a copy between lengths
that differ stop the computation.

The calls are those of a writer. The size of a pair is added up before its key is written, and a sum
that is not a word is more room than there is. A header is packed into an array of its own and
copied from there.
-/

namespace PropertyRecord

/-- A buffer, and the position up to which it has been written. -/
structure Encoder where
  buffer : Bytes
  pos : Nat

/-- A computation that writes to an encoder. -/
abbrev Emitting := Machine Encoder

namespace Encoder

/-- An encoder at the start of a buffer. -/
def ofBuffer (buffer : Bytes) : Encoder := ⟨buffer, 0⟩

/-- The number of bytes left. -/
def remaining (e : Encoder) : Checked Nat := Checked.orStop (Word.sub? e.buffer.length e.pos)

/-- The bytes written so far. -/
def written? (e : Encoder) : Option Bytes := e.buffer.slice? 0 e.pos

end Encoder

/-- The kind and the argument of the header of a signed integer, as a word. -/
def intArgument (i : Int64) : MajorType × UInt64 :=
  if 0 ≤ i then (.unsigned, i.toUInt64) else (.negative, (-1 - i).toUInt64)

/-! ## Steps -/

namespace Emitting

open Checked Machine

/-- Fails if fewer than `needed` bytes are left. -/
def ensure (needed : Nat) : Emitting Unit := do
  let left ← look Encoder.remaining
  if left < needed then throw .exhausted else return

/-- Copies bytes to the position and moves it behind them. -/
def putRaw (bytes : Bytes) : Emitting Unit :=
  ExceptT.mk fun e => do
    let stop ← Word.add? e.pos bytes.length
    let range ← e.buffer.slice? e.pos stop
    if range.length = bytes.length then
      return (.ok (), ⟨e.buffer.splice e.pos bytes, stop⟩)
    else none

/-- Packs a header and puts it. -/
def putHeader (major : MajorType) (argument : UInt64) : Emitting Unit := do
  let packed := Header.pack major argument
  let header ← check (orStop (packed.array.slice? 0 packed.size))
  putRaw header

/-- The number of bytes that a string takes up, its header and its content. There is no room for a
number that is not a word. -/
def stringSize (length : Nat) : Checked Nat :=
  orFault .exhausted (Word.add? (Header.sizeFor (UInt64.ofNat length).toNat) length)

/-- Starts a map with `count` pairs. -/
def beginMap (count : UInt64) : Emitting Unit := do
  ensure (Header.sizeFor count.toNat)
  putHeader .map count

/-- Looks whether there is room for a key and for `size` bytes of a value, and writes the key. -/
def beginPair (key : Bytes) (size : Nat) : Emitting Unit := do
  let keySize ← check (stringSize key.length)
  let needed ← check (orFault .exhausted (Word.add? keySize size))
  ensure needed
  putHeader .text (UInt64.ofNat key.length)
  putRaw key

/-- Writes a key and a text or a byte string. -/
def writeSpan (key : Bytes) (major : MajorType) (content : Bytes) : Emitting Unit := do
  let size ← check (stringSize content.length)
  beginPair key size
  putHeader major (UInt64.ofNat content.length)
  putRaw content

/-- Writes a key and its value. -/
def write (p : Property) : Emitting Unit :=
  let key := utf8 p.key
  match p.value with
  | .null => do
    beginPair key 1
    putRaw [nullByte]
  | .bool b => do
    beginPair key 1
    putRaw [if b then trueByte else falseByte]
  | .int i => do
    let (major, argument) := intArgument i
    beginPair key (Header.sizeFor argument.toNat)
    putHeader major argument
  | .uint u => do
    beginPair key (Header.sizeFor u.toNat)
    putHeader .unsigned u
  | .double d => do
    beginPair key 9
    putRaw [doubleByte]
    putRaw (Bytes.bigEndian 8 d.bits.toNat)
  | .text s => writeSpan key .text (utf8 s)
  | .bytes bs => writeSpan key .bytes bs

end Emitting

/-! ## Calls -/

namespace Encoder

/-- The calls on an encoder that write. -/
inductive Call where
  | beginMap (count : UInt64)
  | write (property : Property)

/-- The steps of a call. -/
def Call.emitting : Call → Emitting Unit
  | beginMap count => Emitting.beginMap count
  | write p => Emitting.write p

/-- Makes one call. A call that stops has no result. -/
def step (e : Encoder) (call : Call) : Option (Except Fault Unit) × Encoder :=
  match call.emitting.run e with
  | none => (none, e)
  | some (result, next) => (some result, next)

end Encoder

end PropertyRecord
