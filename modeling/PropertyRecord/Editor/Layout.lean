import PropertyRecord.Editor.PlacedTable

/-!
# Opening an editor in one buffer

An `Arena` keeps the bytes that it has handed out apart from those that it has not, so no copy can
get into the record. In a layout the record and the copies lie in one buffer, and only offsets from
its front tell them apart. The record is read from the bytes that stand at the front of the buffer
at that time, and a copy is written wherever its place is. A difference below zero, a sum that is
not a word, a range that is not in the buffer and an index that is not in the table stop the
computation.

The import is that of `openOver`, step by step. A layout also notes which places were handed out,
and which bytes were decoded.
-/

namespace PropertyRecord

/-! ## Handing out -/

/-- What is known of a buffer that is handed out from its end: its length, the number of bytes held
at its front and the number of bytes handed out. -/
structure Watermarks where
  length : Nat
  held : Nat
  used : Nat
  deriving DecidableEq

open Checked in
/-- The number of bytes handed out after `size` more, which must be at most half of the buffer and
none of those that are held. -/
def Watermarks.check (marks : Watermarks) (size : Nat) : Checked Nat := do
  let used ← orFault .exhausted (Word.add? marks.used size)
  if marks.length / 2 < used then throw .exhausted
  else
    let left ← orStop (Word.sub? marks.length used)
    if left < marks.held then throw .exhausted else return used

/-- A buffer with a record at its front and copies at its end. -/
structure Layout where
  buffer : Bytes
  marks : Watermarks
  table : PlacedTable
  /-- The offsets of the values that were passed over, the latest first. -/
  foreign : List Nat
  /-- The places that were handed out, the latest first. -/
  handed : List Place
  /-- The bytes that cursors were over, the latest first. -/
  decoded : List Bytes

/-- A computation that changes a layout. -/
abbrev Laying := Machine Layout

namespace Layout

variable {α : Type}

/-- A layout with nothing in it but the buffer. -/
def ofBuffer (buffer : Bytes) : Layout := ⟨buffer, ⟨buffer.length, 0, 0⟩, .empty, [], [], []⟩

/-- Hands out the `size` bytes below the lowest copy. -/
def alloc (size : Nat) : Laying Place :=
  ExceptT.mk fun layout =>
    match (layout.marks.check size).run with
    | none => none
    | some (.error fault) => some (.error fault, layout)
    | some (.ok used) => do
      let start ← Word.sub? layout.marks.length used
      return (.ok ⟨start, size⟩, { layout with
        marks := { layout.marks with used }
        handed := ⟨start, size⟩ :: layout.handed })

/-! ## The table -/

/-- The number of slots, vacant or not. -/
def allocated : Laying Nat := Machine.look fun layout => return layout.table.allocated

/-- Takes a slot for an entry, and answers with its index. -/
def claim (entry : PlacedEntry) : Laying Nat :=
  ExceptT.mk fun layout => do
    let (claimed, table) ← layout.table.claim? entry
    return (claimed, { layout with table })

/-- Replaces the value in a slot. -/
def setValue (index : Nat) (value : PlacedValue) : Laying Unit :=
  ExceptT.mk fun layout => do
    let table ← layout.table.setValue? index value
    return (.ok (), { layout with table })

/-! ## Importing

The part of the buffer up to `floor` is read, and the part from there on is written to. The record
is in the first `held` bytes.
-/

section

variable (floor held : Nat)

/-- Notes a value that is passed over. -/
def passOver (pos : Nat) : Laying Unit :=
  ExceptT.mk fun layout => some (.ok (), { layout with foreign := pos :: layout.foreign })

/-- A cursor over the record. -/
def cursor? (pos : Nat) (layout : Layout) : Option Cursor := do
  let input ← layout.buffer.slice? 0 floor
  let data ← input.slice? 0 held
  return ⟨data, pos⟩

/-- The part of the buffer that is written to. -/
def tail? (layout : Layout) : Option Bytes := layout.buffer.slice? floor layout.buffer.length

/-- Moves a cursor from a position, and answers with the position that it was moved to. -/
def decode (pos : Nat) (moves : Moving α) : Laying (α × Nat) :=
  ExceptT.mk fun layout => do
    let c ← layout.cursor? floor held pos
    let (result, next) ← moves.run c
    return (result.map fun a => (a, next.pos), { layout with decoded := c.data :: layout.decoded })

/-- What a cursor shows at a position. -/
def look (pos : Nat) (seen : Cursor → Checked α) : Laying α := do
  let (a, _) ← decode floor held pos (Machine.look seen)
  return a

/-- Reads a string at a position into a place, and answers with the position behind it. -/
def readInto (place : Place) (pos : Nat) (read : Bytes → Cursor → Option (Filled α × Cursor)) :
    Laying (α × Nat) :=
  ExceptT.mk fun layout => do
    let c ← layout.cursor? floor held pos
    let tail ← layout.tail? floor
    let (start, stop) ← place.rangeFrom? floor
    let out ← tail.slice? start stop
    let (filled, next) ← read out c
    return (filled.result.map fun a => (a, next.pos), { layout with
      buffer := layout.buffer.splice (floor + start) filled.out
      decoded := c.data :: layout.decoded })

/-- Hands out as many bytes as the string at a position claims to have, and reads it into them. -/
def copyString (pos : Nat) (read : Bytes → Cursor → Option (Filled α × Cursor)) :
    Laying (Place × Nat) := do
  let size ← look floor held pos Cursor.peekStringLength
  let place ← alloc size
  let (_, next) ← readInto floor held place pos read
  return (place, next)

/-- Reads one of the storable simple values or a double. -/
def readSimple (pos : Nat) : Laying (PlacedValue × Nat) := do
  let initial ← look floor held pos Cursor.peekByte
  if initial = falseByte ∨ initial = trueByte then
    let (b, next) ← decode floor held pos Cursor.readBool
    return (.bool b, next)
  else if initial = doubleByte then
    let (d, next) ← decode floor held pos Cursor.readDouble
    return (.double d, next)
  else
    let (_, next) ← decode floor held pos Cursor.skipItem
    return (.null, next)

/-- Reads a storable value, a text or a byte string into the buffer. -/
def copyValue (pos : Nat) : Laying (PlacedValue × Nat) := do
  match ← look floor held pos Cursor.peekMajor with
  | .unsigned =>
    let (u, next) ← decode floor held pos Cursor.readUInt
    return (.uint u, next)
  | .negative =>
    let (i, next) ← decode floor held pos Cursor.readInt
    return (.int i, next)
  | .text =>
    let (place, next) ← copyString floor held pos (Cursor.readString .text Cursor.decodeText)
    return (.text place, next)
  | .bytes =>
    let (place, next) ← copyString floor held pos (Cursor.readString .bytes .ok)
    return (.bytes place, next)
  | _ => readSimple floor held pos

/-- The slot of the key that lies at a place. -/
def findAt (key : Place) : Laying (Option Nat) :=
  Machine.look fun layout => Checked.orStop do
    let tail ← layout.tail? floor
    let (start, stop) ← key.rangeFrom? floor
    let name ← tail.slice? start stop
    layout.table.find? tail floor name

/-- Gives a key in the buffer its value: in the slot that it has already, or in a new one. -/
def assign (key : Place) (value : PlacedValue) : Laying Unit := do
  match ← findAt floor key with
  | some index => setValue index value
  | none =>
    let _ ← claim ⟨key, value⟩
    return

/-- Imports a pair whose value is storable, and answers with the position behind it. -/
def importProperty (pos : Nat) : Laying Nat := do
  let (key, atValue) ← copyString floor held pos (Cursor.readString .text Cursor.decodeText)
  let (value, next) ← copyValue floor held atValue
  assign floor key value
  return next

/-- Whether the item at the cursor is a value that an editor stores. -/
def atStorable (c : Cursor) : Checked Bool := do
  match ← c.peekMajor with
  | .unsigned | .negative | .bytes | .text => return true
  | .simple =>
    let initial ← c.peekByte
    return initial = falseByte ∨ initial = trueByte ∨ initial = nullByte ∨ initial = doubleByte
  | .array | .map | .tag => return false

/-- Imports or passes over one pair. The cursor that is led behind the key is another one. -/
def importPair (pos : Nat) : Laying Nat := do
  let (_, atValue) ← decode floor held pos Cursor.skipItem
  if ← look floor held atValue atStorable then importProperty floor held pos
  else
    passOver atValue
    let (_, next) ← decode floor held atValue Cursor.skipItem
    return next

/-- Imports up to `count` pairs. -/
def importPairs : (count pos : Nat) → Laying Unit
  | 0, _ => return
  | count + 1, pos => do
    if maxProperties ≤ (← allocated) then return
    else
      let next ← importPair floor held pos
      importPairs count next

/-- Imports the record. -/
def importRecord : Laying Unit := do
  let (count, next) ← decode floor held 0 Cursor.readMapHeader
  importPairs floor held count next

end

/-- Holds the first `n` bytes. -/
def holdFront (layout : Layout) (n : Nat) : Layout :=
  { layout with marks := { layout.marks with held := min n layout.marks.length } }

/-- Holds nothing any more. -/
def releaseFront (layout : Layout) : Layout :=
  { layout with marks := { layout.marks with held := 0 } }

/-- Opens an editor over a buffer whose first `existing` bytes are a record. The record is held
while it is imported. -/
def openOver (buffer : Bytes) (existing : Nat) : Option (Except Fault Unit × Layout) :=
  let held := min existing buffer.length
  let layout := ofBuffer buffer
  if 0 < held then do
    let half ← Word.sub? buffer.length (buffer.length / 2)
    let (result, imported) ← (importRecord (max held half) held).run (layout.holdFront held)
    return (result, imported.releaseFront)
  else some (.ok (), layout)

end Layout

end PropertyRecord
