import PropertyRecord.Editor.Basic
import PropertyRecord.Wire.Item

/-!
# Opening an editor over a record

The record lies at the front of the buffer and is held there while its properties are copied to
the arena. The import makes the best of what it finds. It passes over pairs whose value is of a
kind that an editor does not store, it stops without complaint at the sixteenth property, and at
the first fault it stops with everything imported until then. Space that was handed out for a copy
stays handed out even if the read of the copy fails.
-/

namespace PropertyRecord

/-- An editor just opened, and what its import came across. -/
structure Opening where
  editor : Editor
  /-- The offsets of the values that were passed over, in order. -/
  foreign : List Nat
  /-- The fault that ended the import. -/
  stop : Option Fault

/-- Whether the item at the position is a value that an editor stores. -/
def Reader.atStorable (r : Reader) : Except Fault Bool := do
  let initial ← r.peekByte
  match MajorType.ofInitial initial with
  | .unsigned | .negative | .bytes | .text => return true
  | .simple =>
    return initial = falseByte ∨ initial = trueByte ∨ initial = nullByte ∨ initial = doubleByte
  | .array | .map | .tag => return false

/-- Reads one of the storable simple values or a double. -/
def Reader.readSimple (r : Reader) : Except Fault (Stored × Reader) := do
  let initial ← r.peekByte
  if initial = falseByte ∨ initial = trueByte then
    let (b, next) ← r.readBool
    return (.bool b, next)
  else if initial = doubleByte then
    let (d, next) ← r.readDouble
    return (.double d, next)
  else
    let next ← r.skipItem
    return (.null, next)

namespace Arena

/-- Hands out as many bytes as the string at the position claims to have, and reads it into them. -/
def copyString {α : Type} (a : Arena) (limit : Nat) (r : Reader)
    (read : Reader → Bytes → Filled (α × Reader)) : Arena × Except Fault (Span × Reader) :=
  match r.peekStringLength with
  | .error fault => (a, .error fault)
  | .ok size =>
    if a.fits limit size then
      let extended := a.extend size
      let span := extended.newest size
      let filled := read r (extended.bytesAt span)
      (extended.fill filled.out, filled.result.map fun (_, next) => (span, next))
    else (a, .error .exhausted)

/-- Reads a storable value, a text or a byte string into the arena. -/
def copyValue (a : Arena) (limit : Nat) (r : Reader) : Arena × Except Fault (Stored × Reader) :=
  match r.peekMajor with
  | .error fault => (a, .error fault)
  | .ok .unsigned => (a, r.readUInt.map fun (u, next) => (.uint u, next))
  | .ok .negative => (a, r.readInt.map fun (i, next) => (.int i, next))
  | .ok .text =>
    let (copied, result) := a.copyString limit r Reader.readText
    (copied, result.map fun (span, next) => (.text span, next))
  | .ok .bytes =>
    let (copied, result) := a.copyString limit r Reader.readBytes
    (copied, result.map fun (span, next) => (.bytes span, next))
  | .ok _ => (a, r.readSimple)

end Arena

namespace Editor

/-- Gives a key in the arena its value: in the slot that it has already, or in a new one. -/
def assign (ed : Editor) (key : Span) (value : Stored) : Editor :=
  match ed.find? (ed.arena.bytesAt key) with
  | some index => { ed with slots := ed.slots.setValue index value }
  | none => { ed with slots := ed.slots.place ⟨key, value⟩ }

/-- Imports a pair whose value is storable: the editor afterwards, and the reader behind the pair.
-/
def importProperty (ed : Editor) (limit : Nat) (r : Reader) : Editor × Except Fault Reader :=
  match ed.arena.copyString limit r Reader.readText with
  | (arena, .error fault) => ({ ed with arena }, .error fault)
  | (keyed, .ok (key, atValue)) =>
    match keyed.copyValue limit atValue with
    | (arena, .error fault) => ({ ed with arena }, .error fault)
    | (arena, .ok (value, next)) => (assign { ed with arena } key value, .ok next)

/-- What came of one pair. -/
structure PairImport where
  editor : Editor
  /-- The offset of the value, if it was passed over. -/
  foreign : Option Nat
  /-- The reader behind the pair. -/
  next : Except Fault Reader

/-- Imports or passes over one pair. -/
def importPair (ed : Editor) (limit : Nat) (r : Reader) : PairImport :=
  match r.skipItem with
  | .error fault => ⟨ed, none, .error fault⟩
  | .ok atValue =>
    match atValue.atStorable with
    | .error fault => ⟨ed, none, .error fault⟩
    | .ok false => ⟨ed, some atValue.pos, atValue.skipItem⟩
    | .ok true =>
      let (imported, next) := ed.importProperty limit r
      ⟨imported, none, next⟩

/-- Imports up to `count` pairs. The offsets in `foreign` are the latest first. -/
def importPairs (limit : Nat) : (count : Nat) → Reader → Editor → (foreign : List Nat) → Opening
  | 0, _, ed, foreign => ⟨ed, foreign.reverse, none⟩
  | count + 1, r, ed, foreign =>
    if maxProperties ≤ ed.slots.length then ⟨ed, foreign.reverse, none⟩
    else
      let pair := ed.importPair limit r
      let passed := pair.foreign.toList ++ foreign
      match pair.next with
      | .error fault => ⟨pair.editor, passed.reverse, some fault⟩
      | .ok next => importPairs limit count next pair.editor passed

/-- The number of bytes that an import may copy: at most half of the buffer, and none of the first
`held` bytes. -/
def importLimit (buffer : Bytes) (held : Nat) : Nat :=
  min (buffer.length / 2) (buffer.length - held)

/-- Opens an editor over a buffer whose first `existing` bytes are a record. -/
def openOver (buffer : Bytes) (existing : Nat) : Opening :=
  let held := min existing buffer.length
  if held = 0 then ⟨empty buffer, [], none⟩
  else
    match (Reader.ofBytes (buffer.take held)).readMapHeader with
    | .error fault => ⟨empty buffer, [], some fault⟩
    | .ok (count, next) => importPairs (importLimit buffer held) count next (empty buffer) []

end Editor

end PropertyRecord
