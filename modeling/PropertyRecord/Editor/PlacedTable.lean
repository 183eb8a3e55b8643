import PropertyRecord.Editor.Slotted
import PropertyRecord.Limits
import PropertyRecord.Wire.Cursor

/-!
# A table over a buffer

In a buffer a key is a place, and so is a text or a byte string. The table has the entries in one
list, and in another one a bit for every slot that there may be, which is set when the entry of the
slot is removed. A removed entry stays in the list until its slot is taken again, and only its bit
tells it from the others.

Nothing about the two lists keeps them in step. A bit may be set behind the last entry, where there
is no slot: then a count of the bits is too large, and the slot that it names cannot be taken. An
index that is not in its list and a difference below zero stop a computation. That neither comes up
is a property of the calls that a table has seen, `PlacedTable.Sound`.
-/

namespace PropertyRecord

/-- A place in a buffer, counted from its front. -/
structure Place where
  start : Nat
  size : Nat
  deriving DecidableEq

/-- The range of a place in the part of the buffer from `base` on. -/
def Place.rangeFrom? (place : Place) (base : Nat) : Option (Nat × Nat) := do
  let start ← Word.sub? place.start base
  let stop ← Word.add? start place.size
  return (start, stop)

/-- The bytes at a place, if they are among `data`, the bytes of the buffer from `base` on. -/
def Place.bytesIn? (place : Place) (data : Bytes) (base : Nat) : Option (Option Bytes) := do
  let (start, stop) ← place.rangeFrom? base
  return data.slice? start stop

/-- A value in a slot. A text or a byte string is a place in the buffer. -/
inductive PlacedValue where
  | null
  | bool (b : Bool)
  | int (i : Int64)
  | uint (u : UInt64)
  | double (d : Double)
  | text (place : Place)
  | bytes (place : Place)
  deriving DecidableEq

/-- The content of a slot. -/
structure PlacedEntry where
  key : Place
  value : PlacedValue
  deriving DecidableEq

/-- A table of entries and of bits. -/
structure PlacedTable where
  /-- The entries of the slots that have been taken, those of vacant slots among them. -/
  entries : List PlacedEntry
  /-- For every slot that there may be, whether its entry was removed. -/
  removed : List Bool
  deriving DecidableEq

namespace PlacedTable

/-- A table without slots. -/
def empty : PlacedTable := ⟨[], List.replicate maxProperties false⟩

/-- The number of slots, vacant or not. -/
def allocated (table : PlacedTable) : Nat := table.entries.length

/-- The number of entries that were not removed. -/
def liveCount? (table : PlacedTable) : Option Nat :=
  Word.sub? table.entries.length (table.removed.count true)

/-- Whether there is a slot for one more entry. -/
def hasVacancy (table : PlacedTable) : Bool :=
  table.removed.any id || table.entries.length < maxProperties

/-- The index of the first entry with the key that was not removed, among those from an index on. -/
def findFrom? (removed : List Bool) (data : Bytes) (base : Nat) (key : Bytes) :
    (index : Nat) → List PlacedEntry → Option (Option Nat)
  | _, [] => some none
  | index, entry :: entries => do
    if ← removed[index]? then findFrom? removed data base key (index + 1) entries
    else
      let found ← entry.key.bytesIn? data base
      if found = some key then return some index
      else findFrom? removed data base key (index + 1) entries

/-- The index of the first entry with the key that was not removed, where `data` are the bytes of
the buffer from `base` on. -/
def find? (table : PlacedTable) (data : Bytes) (base : Nat) (key : Bytes) : Option (Option Nat) :=
  findFrom? table.removed data base key 0 table.entries

/-- Puts an entry into the first slot whose bit is set, or into a new one at the end if there may be
one, and answers with its index. -/
def claim? (table : PlacedTable) (entry : PlacedEntry) : Option (Except Fault Nat × PlacedTable) :=
  match table.removed.findIdx? id with
  | some index =>
    if index < table.entries.length then
      some (.ok index, ⟨table.entries.set index entry, table.removed.set index false⟩)
    else none
  | none =>
    if table.entries.length < maxProperties then do
      let longer : PlacedTable := { table with entries := table.entries ++ [entry] }
      let index ← Word.sub? longer.entries.length 1
      return (.ok index, longer)
    else some (.error .exhausted, table)

/-- The entry at an index. -/
def entry? (table : PlacedTable) (index : Nat) : Option PlacedEntry := table.entries[index]?

/-- Replaces the value of one entry. -/
def setValue? (table : PlacedTable) (index : Nat) (value : PlacedValue) : Option PlacedTable := do
  let entry ← table.entry? index
  return { table with entries := table.entries.set index { entry with value } }

/-- Sets one bit. Whether there is an entry with the index is not looked at. -/
def remove? (table : PlacedTable) (index : Nat) : Option PlacedTable :=
  if index < table.removed.length then some { table with removed := table.removed.set index true }
  else none

/-- Those of the entries from an index on that were not removed. -/
def liveFrom? (removed : List Bool) : (index : Nat) → List PlacedEntry → Option (List PlacedEntry)
  | _, [] => some []
  | index, entry :: entries => do
    let gone ← removed[index]?
    let later ← liveFrom? removed (index + 1) entries
    return if gone then later else entry :: later

/-- The entries that were not removed, in the order of their slots. -/
def live? (table : PlacedTable) : Option (List PlacedEntry) :=
  liveFrom? table.removed 0 table.entries

end PlacedTable

end PropertyRecord
