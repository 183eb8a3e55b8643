import PropertyRecord.Wire.Reading

/-!
# Cursors over words

A `Reader` carries the bytes from its position on, so it cannot point outside of them. The cursor
of this module is a position and nothing else, and it is moved in words of 64 bits: a sum or a
difference that is not a word, an index behind the end of the bytes and a copy between lengths that
differ stop the computation, which then has neither a result nor a fault. A computation that moves
the cursor may do so before it fails, and the cursor stays where it was moved to.

The reads, the peeks and the skip are those of `Reader`, step by step; a `Decoding` is a `Reading`
with cursors. An argument is a word as lengths and counts are, so it becomes one as it is, and no
step is there for an argument that is too large to be one.
-/

namespace PropertyRecord

/-! ## Words and slices -/

/-- The sum of two words, if it is a word. -/
def Word.add? (m n : Nat) : Option Nat := if m + n < unsignedBound then some (m + n) else none

/-- The difference of two words, if it is a word. -/
def Word.sub? (m n : Nat) : Option Nat := if n ≤ m then some (m - n) else none

/-- The bytes from one index up to another, if both lie within the bytes. -/
def Bytes.slice? (start stop : Nat) (bytes : Bytes) : Option Bytes :=
  if start ≤ stop ∧ stop ≤ bytes.length then some ((bytes.take stop).drop start) else none

/-- The word that digits to base 256 are shifted into, most significant first. -/
def Bytes.shifted (digits : Bytes) : UInt64 :=
  digits.foldl (fun word digit => word <<< 8 ||| digit.toUInt64) 0

/-- A position in a byte string. -/
structure Cursor where
  data : Bytes
  pos : Nat

/-- The reader that a cursor stands for. -/
def Cursor.reader (c : Cursor) : Reader := ⟨c.pos, c.data.drop c.pos⟩

/-- A computation that moves nothing: a result or a fault, unless it stops. -/
abbrev Checked := ExceptT Fault Option

/-- A computation that changes a state, also where it fails, unless it stops. -/
abbrev Machine (σ : Type) := ExceptT Fault (StateT σ Option)

/-- A computation that moves a cursor. -/
abbrev Moving := Machine Cursor

/-- What was found; nothing found stops the computation. -/
def Checked.orStop {α : Type} (found : Option α) : Checked α := ExceptT.mk (found.map .ok)

/-- What was found; nothing found is a fault. -/
def Checked.orFault {α : Type} (fault : Fault) (found : Option α) : Checked α :=
  ExceptT.mk (some (match found with
    | some a => .ok a
    | none => .error fault))

/-- What the state shows, without changing it. -/
def Machine.look {σ α : Type} (seen : σ → Checked α) : Machine σ α :=
  ExceptT.mk fun s => (seen s).run.map fun result => (result, s)

/-- What a check comes to. The state has no part in it. -/
def Machine.check {σ α : Type} (checked : Checked α) : Machine σ α := look fun _ => checked

/-- Moves the cursor on. -/
def Moving.move (n : Nat) : Moving Unit :=
  ExceptT.mk fun c => (Word.add? c.pos n).map fun pos => (.ok (), { c with pos })

/-- Makes `count` moves, one after the other. -/
def Moving.repeatedly (one : Moving Unit) : (count : Nat) → Moving Unit
  | 0 => pure ()
  | count + 1 => do
    one
    repeatedly one count

namespace Cursor

open Checked Machine Moving

/-! ## Peeks -/

/-- Reads the header at the front of the bytes. -/
def parseHeader (bytes : Bytes) : Checked Header := do
  let initial ← orFault .malformed bytes.head?
  let major := MajorType.ofInitial initial
  let info := infoOf initial
  if info < 24 then return ⟨major, info, info, 1⟩
  else
    let width ← orFault .unsupported (Header.widthFor info)
    let size ← orStop (Word.add? 1 width)
    let digits ← orFault .malformed (bytes.slice? 1 size)
    return ⟨major, info, digits.shifted.toNat, size⟩

/-- The number of bytes left. -/
def remaining (c : Cursor) : Checked Nat := orStop (Word.sub? c.data.length c.pos)

/-- Whether bytes are left. -/
def hasNext (c : Cursor) : Bool := c.pos < c.data.length

/-- The initial byte of the item. -/
def peekByte (c : Cursor) : Checked UInt8 := orFault .malformed c.data[c.pos]?

/-- The kind of the item. -/
def peekMajor (c : Cursor) : Checked MajorType := do
  let initial ← c.peekByte
  return MajorType.ofInitial initial

/-- The header of the item. -/
def peekHeader (c : Cursor) : Checked Header := do
  let rest ← orStop (c.data.slice? c.pos c.data.length)
  parseHeader rest

/-- The header of the item, which must be of the given kind. -/
def peekHeaderOf (major : MajorType) (c : Cursor) : Checked Header := do
  let header ← c.peekHeader
  if header.major = major then return header else throw .malformed

/-- The length that the text or byte string at the position claims to have, which may be any
word. -/
def peekStringLength (c : Cursor) : Checked Nat := do
  let major ← c.peekMajor
  if major = .text ∨ major = .bytes then
    let header ← c.peekHeader
    return header.argument
  else throw .invalidState

/-- The header and the content of the text or byte string at the position. The claimed length is a
word, but the end of the content may be none; it then lies behind the bytes as well. -/
def peekString (major : MajorType) (c : Cursor) : Checked (Header × Bytes) := do
  let header ← c.peekHeaderOf major
  let start ← orStop (Word.add? c.pos header.size)
  let stop ← orFault .malformed (Word.add? start header.argument)
  let content ← orFault .malformed (c.data.slice? start stop)
  return (header, content)

/-! ## Reads -/

/-- The number of pairs that a map header announces, which may be any word. -/
def readMapHeader : Moving Nat := do
  let header ← look (peekHeaderOf .map)
  move header.size
  return header.argument

/-- A truth value. -/
def readBool : Moving Bool := do
  let initial ← look peekByte
  if initial = falseByte then
    move 1
    return false
  else if initial = trueByte then
    move 1
    return true
  else throw .malformed

/-- An integer that fits the signed type. -/
def readInt : Moving Int64 := do
  let header ← look peekHeader
  match header.major with
  | .unsigned =>
    if header.argument < signedBound then
      move header.size
      return Int64.ofInt header.argument
    else throw .outOfRange
  | .negative =>
    if header.argument < signedBound then
      move header.size
      return Int64.ofInt (-1 - header.argument)
    else throw .outOfRange
  | _ => throw .malformed

/-- An unsigned integer. -/
def readUInt : Moving UInt64 := do
  let header ← look (peekHeaderOf .unsigned)
  move header.size
  return UInt64.ofNat header.argument

/-- A double, or an integer that fits the signed type, rounded to the nearest double. -/
def readDouble : Moving Double := do
  let initial ← look peekByte
  match MajorType.ofInitial initial with
  | .unsigned | .negative =>
    let i ← readInt
    return Double.ofInt i.toInt
  | _ =>
    if initial = doubleByte then
      let header ← look peekHeader
      move header.size
      return ⟨UInt64.ofNat header.argument⟩
    else throw .malformed

/-- The content of a text or byte string, copied into `out` and then decoded. The cursor moves
last. -/
def readString {α : Type} (major : MajorType) (decode : Bytes → Except Fault α) (out : Bytes)
    (c : Cursor) : Option (Filled α × Cursor) :=
  match (c.peekString major).run with
  | none => none
  | some (.error fault) => some (⟨.error fault, out⟩, c)
  | some (.ok (header, content)) =>
    match out.slice? 0 content.length with
    | none => some (⟨.error .exhausted, out⟩, c)
    | some front =>
      if front.length = content.length then
        let filled := Bytes.overlay content out
        match decode content with
        | .error fault => some (⟨.error fault, filled⟩, c)
        | .ok a => do
          let length ← Word.add? header.size content.length
          let pos ← Word.add? c.pos length
          return (⟨.ok a, filled⟩, { c with pos })
      else none

/-- The text that bytes spell. -/
def decodeText (content : Bytes) : Except Fault String :=
  match ofUtf8? content with
  | some text => .ok text
  | none => .error .malformed

/-! ## Skipping an item -/

/-- Moves behind the item, which is nested in `depth` others. A claimed length is a word, and is
malformed only for want of so many bytes. -/
def skipNested (depth : Nat) : Moving Unit :=
  if maxNesting < depth then throw .exhausted
  else do
    let header ← look peekHeader
    move header.size
    match header.major with
    | .unsigned | .negative | .simple => return
    | .bytes | .text =>
      let left ← look remaining
      if left < header.argument then throw .malformed else move header.argument
    | .array => repeatedly (skipNested (depth + 1)) header.argument
    | .map =>
      repeatedly (do
        skipNested (depth + 1)
        skipNested (depth + 1)) header.argument
    | .tag => skipNested (depth + 1)
termination_by maxNesting + 1 - depth

/-- Moves behind the item. The cursor goes back to where it was if that fails. -/
def skipItem : Moving Unit :=
  ExceptT.mk fun c =>
    match (skipNested 0).run c with
    | none => none
    | some (.ok done, next) => some (.ok done, next)
    | some (.error fault, next) => some (.error fault, { next with pos := c.pos })

end Cursor

/-! ## Calls -/

/-- A cursor over a byte string, and the cursor last put aside. -/
structure Decoding where
  current : Cursor
  saved : Cursor

namespace Decoding

open Reading (Call Answer Reply)

/-- A decoding at the start of a byte string. -/
def ofBytes (source : Bytes) : Decoding := ⟨⟨source, 0⟩, ⟨source, 0⟩⟩

/-- The reading that a decoding stands for. -/
def reading (d : Decoding) : Reading where
  source := d.current.data
  current := d.current.reader
  saved := d.saved.reader

/-- The answer and the decoding after a read without a buffer. -/
def ofRead {α : Type} (d : Decoding) (answer : α → Answer) (read : Moving α) :
    Option Reply × Decoding :=
  match read.run d.current with
  | none => (none, d)
  | some (result, current) => (some ⟨result.map answer, none⟩, { d with current })

/-- The answer and the decoding after a read into a buffer. -/
def ofFilled {α : Type} (d : Decoding) (answer : α → Answer)
    (read : Cursor → Option (Filled α × Cursor)) : Option Reply × Decoding :=
  match read d.current with
  | none => (none, d)
  | some (filled, current) =>
    (some ⟨filled.result.map answer, some filled.out⟩, { d with current })

/-- The answer to a peek. -/
def ofPeek {α : Type} (d : Decoding) (answer : α → Answer) (peek : Cursor → Checked α) :
    Option Reply × Decoding :=
  ((peek d.current).run.map fun result => ⟨result.map answer, none⟩, d)

/-- Makes one call. A call that stops has no answer. -/
def step (d : Decoding) : Call → Option Reply × Decoding
  | .readMapHeader => d.ofRead .count Cursor.readMapHeader
  | .readBool => d.ofRead .bool Cursor.readBool
  | .readInt => d.ofRead .int Cursor.readInt
  | .readUInt => d.ofRead .uint Cursor.readUInt
  | .readDouble => d.ofRead .double Cursor.readDouble
  | .readText out => d.ofFilled .text (Cursor.readString .text Cursor.decodeText out)
  | .readBytes out => d.ofFilled .bytes (Cursor.readString .bytes .ok out)
  | .peekMajor => d.ofPeek .major Cursor.peekMajor
  | .peekByte => d.ofPeek .byte Cursor.peekByte
  | .peekStringLength => d.ofPeek .length Cursor.peekStringLength
  | .skipItem => d.ofRead (fun _ => .done) Cursor.skipItem
  | .save => (some ⟨.ok .done, none⟩, { d with saved := d.current })
  | .restore => (some ⟨.ok .done, none⟩, { d with current := d.saved })
  | .state =>
    d.ofPeek (fun left => .state d.current.pos left d.current.hasNext) Cursor.remaining
  | .describe => (some ⟨.ok (.described d.reading.describe), none⟩, d)

end Decoding

end PropertyRecord
