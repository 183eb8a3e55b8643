import PropertyRecord.Editor.LayoutCalls
import PropertyRecord.Record.Basic
import PropertyRecord.Wire.Encoder

/-!
# Commits from one buffer

A commit divides the buffer at the lowest copy. The record is encoded into the part before it, and
the properties are read from the part behind it, in which every place is counted from there. A place
before the lowest copy would be none in that part, and a text that is none is a fault.
-/

namespace PropertyRecord

open Checked Machine

/-- Writes entries in order, up to the first that cannot be read, where `data` are the bytes of the
buffer from `base` on. -/
def emitEntries (data : Bytes) (base : Nat) : List PlacedEntry → Emitting Unit
  | [] => return
  | entry :: entries => do
    let found ← check (orStop (entry.propertyIn? data base))
    let property ← check (orFault .malformed found)
    Emitting.write property
    emitEntries data base entries

/-- Writes the properties: the header of a map, and the entries in the order of their slots. -/
def PlacedTable.emitLive (table : PlacedTable) (data : Bytes) (base : Nat) : Emitting Unit := do
  let count ← check (orStop table.liveCount?)
  Emitting.beginMap (UInt64.ofNat count)
  let live ← check (orStop table.live?)
  emitEntries data base live

/-- Encodes the properties and replaces the record with the result. -/
def Layout.commit {σ : Type} [RecordStore σ] (layout : Layout) (name : RecordName) (store : σ) :
    Option (Editor.Commit σ) := do
  let boundary ← Word.sub? layout.marks.length layout.marks.used
  let front ← layout.buffer.slice? 0 boundary
  let tail ← layout.buffer.slice? boundary layout.buffer.length
  let (encoded, encoder) ← (layout.table.emitLive tail boundary).run (.ofBuffer front)
  let buffer := encoder.buffer ++ tail
  match encoded with
  | .error fault => return ⟨.error fault, buffer, store⟩
  | .ok () =>
    let written ← encoder.written?
    let (result, next) := Record.write name store written
    return ⟨result, buffer, next⟩

end PropertyRecord
