import PropertyRecord.Editor.Calls
import PropertyRecord.Editor.Layout

/-!
# Calls on an editor in one buffer

The calls on an editor, on its layout. A key is compared with the bytes that stand at the places of
the table at that time, and a copy is written to its place over whatever is there. A call makes its
steps one after the other on the layout as the steps before have left it, also where one of them
fails. A range that is not in the buffer, an index that is not in the table and a number that is not
a word stop the computation.
-/

namespace PropertyRecord

/-! ## Reading places

Here `data` are the bytes of the buffer from `base` on. A place that is not among them has nothing to
be read, and neither has one without a text where a text is looked for.
-/

section

variable (data : Bytes) (base : Nat)

/-- The text at a place. -/
def Place.textIn? (place : Place) : Option (Option String) := do
  let found ← place.bytesIn? data base
  return found.bind ofUtf8?

/-- The value in a slot. -/
def PlacedValue.valueIn? : PlacedValue → Option (Option Value)
  | .null => some (some .null)
  | .bool b => some (some (.bool b))
  | .int i => some (some (.int i))
  | .uint u => some (some (.uint u))
  | .double d => some (some (.double d))
  | .text place => do
    let found ← place.textIn? data base
    return found.map .text
  | .bytes place => do
    let found ← place.bytesIn? data base
    return found.map .bytes

/-- The property in a slot. The value is read only if the key is. -/
def PlacedEntry.propertyIn? (entry : PlacedEntry) : Option (Option Property) := do
  match ← entry.key.textIn? data base with
  | none => return none
  | some key =>
    let found ← entry.value.valueIn? data base
    return found.map (Property.mk key)

end

namespace Layout

/-! ## Questions -/

/-- The slot of a key. -/
def find? (layout : Layout) (key : Bytes) : Option (Option Nat) :=
  layout.table.find? layout.buffer 0 key

/-- The value of a key. -/
def get? (layout : Layout) (key : String) : Option (Option Value) := do
  match ← layout.find? (utf8 key) with
  | none => return none
  | some index =>
    let entry ← layout.table.entry? index
    entry.value.valueIn? layout.buffer 0

/-- Whether there is a property with the key. -/
def contains? (layout : Layout) (key : String) : Option Bool := do
  let found ← layout.find? (utf8 key)
  return found.isSome

/-- The properties in the order of their slots. -/
def properties? (layout : Layout) : Option (List Property) := do
  let live ← layout.table.live?
  let shown ← live.mapM (PlacedEntry.propertyIn? layout.buffer 0)
  return shown.filterMap id

/-- The number of properties. -/
def count? (layout : Layout) : Option Nat := layout.table.liveCount?

/-- The number of bytes that may still be handed out. -/
def remaining? (layout : Layout) : Option Nat :=
  Word.sub? (layout.marks.length / 2) layout.marks.used

/-- The text that describes the editor of a record. -/
def describe? (layout : Layout) (record : String) : Option String := do
  let count ← layout.count?
  return Editor.description record count layout.marks.used layout.buffer.length

/-! ## Changes -/

open Checked

/-- The answer to a question. -/
def ask {α : Type} (question : Layout → Option α) : Laying α :=
  Machine.look fun layout => orStop (question layout)

/-- The slot of a key. -/
def find (key : Bytes) : Laying (Option Nat) := ask fun layout => layout.find? key

/-- Fails if `size` more bytes cannot be handed out. -/
def check (size : Nat) : Laying Unit := do
  let _ ← Machine.look fun layout => layout.marks.check size
  return

/-- Fails if two more copies of these sizes cannot be handed out. There is no room for a number of
bytes that is not a word. -/
def checkBoth (first second : Nat) : Laying Unit := do
  let total ← Machine.check (orFault .exhausted (Word.add? first second))
  check total

/-- Copies bytes to a place of their length. -/
def overwrite (place : Place) (bytes : Bytes) : Laying Unit :=
  ExceptT.mk fun layout => do
    let (start, stop) ← place.rangeFrom? 0
    let range ← layout.buffer.slice? start stop
    if range.length = bytes.length then
      return (.ok (), { layout with buffer := layout.buffer.splice start bytes })
    else none

/-- Copies bytes into space handed out for them, and answers with their place. -/
def stash (bytes : Bytes) : Laying Place := do
  let place ← alloc bytes.length
  overwrite place bytes
  return place

/-- Finds the slot of a key, or copies the key and takes a slot for it, for a value with `extra`
bytes of payload. Whether both copies fit is checked before either of them is made. -/
def slotFor (key : Bytes) (extra : Nat) : Laying Nat := do
  match ← find key with
  | some index =>
    check extra
    return index
  | none =>
    if ← ask fun layout => some layout.table.hasVacancy then
      checkBoth key.length extra
      let place ← stash key
      claim ⟨place, .null⟩
    else throw .exhausted

/-- Copies the payload of a value, if it is one that has a payload, and answers with the value as
it goes into a slot. -/
def storeValue : Value → Laying PlacedValue
  | .null => return .null
  | .bool b => return .bool b
  | .int i => return .int i
  | .uint u => return .uint u
  | .double d => return .double d
  | .text s => do
    let place ← stash (utf8 s)
    return .text place
  | .bytes bs => do
    let place ← stash bs
    return .bytes place

/-- Sets a property, and creates it if there is none with its key: first its slot, then the copy of
its payload. -/
def set (p : Property) : Laying Unit := do
  let index ← slotFor (utf8 p.key) p.value.payload.length
  let value ← storeValue p.value
  setValue index value

/-- Makes one slot vacant. -/
def vacate (index : Nat) : Laying Unit :=
  ExceptT.mk fun layout => do
    let table ← layout.table.remove? index
    return (.ok (), { layout with table })

/-- Removes the property with the key, if there is one. -/
def remove (key : String) : Laying Unit := do
  match ← find (utf8 key) with
  | some index => vacate index
  | none => return

/-- The steps of a call on the editor of a record. -/
def answering (record : String) : Editor.Call → Laying Editor.Answer
  | .set property => do
    set property
    return .done
  | .remove key => do
    remove key
    return .done
  | .get key => do
    let found ← ask fun layout => layout.get? key
    return .value found
  | .contains key => do
    let found ← ask fun layout => layout.contains? key
    return .bool found
  | .list => do
    let shown ← ask properties?
    return .properties shown
  | .describe => do
    let text ← ask fun layout => layout.describe? record
    return .described text

/-- Makes one call on the editor of a record. A call that stops has no answer. -/
def step (record : String) (layout : Layout) (call : Editor.Call) :
    Option (Except Fault Editor.Answer) × Layout :=
  match (answering record call).run layout with
  | none => (none, layout)
  | some (answer, next) => (some answer, next)

end Layout

end PropertyRecord
