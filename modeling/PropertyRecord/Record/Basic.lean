import PropertyRecord.Editor.Import
import PropertyRecord.Note
import PropertyRecord.Record.Name
import PropertyRecord.Store.Basic
import PropertyRecord.Wire.Writer

/-!
# Records

A record in a store is read and written as a whole, and edited in a buffer. An edit loads the
record, opens an editor over it and at the end commits: the properties are encoded into the front
of the buffer, below the arena, and the result replaces the record. An editor that is not
committed leaves no trace.
-/

namespace PropertyRecord

variable {σ : Type} [RecordStore σ]

namespace Record

/-- Reads the record into a buffer and answers with its length. -/
def read (name : RecordName) (store : σ) (out : Bytes) : Filled Nat × σ :=
  RecordStore.read store name.text out

/-- Replaces the record. The largest size is checked before the store is asked. -/
def write (name : RecordName) (store : σ) (data : Bytes) : Except Fault Unit × σ :=
  if maxRecordSize < data.length then (.error .exhausted, store)
  else RecordStore.write store name.text data

/-- What came of loading a record for an edit. -/
structure Loading (σ : Type) where
  /-- The length of the record, which is zero if there is none. -/
  length : Except Fault Nat
  buffer : Bytes
  notes : List Note
  store : σ

/-- Loads the record into a buffer. A missing record is an empty one. -/
def load (name : RecordName) (store : σ) (buffer : Bytes) : Loading σ :=
  let (filled, store) := read name store buffer
  match filled.result with
  | .error .notFound => ⟨.ok 0, filled.out, [.missing name.text], store⟩
  | result => ⟨result, filled.out, [], store⟩

end Record

/-- What an editor just opened has to report. -/
def Opening.notes (opening : Opening) (name : RecordName) : List Note :=
  opening.foreign.map .foreign
    ++ opening.stop.toList.map fun fault =>
        .importStopped name.text opening.editor.count fault

namespace Editor

/-- Writes entries in order, up to the first that fails. -/
def writeEntries (arena : Arena) : List Entry → Writing Unit
  | [] => return
  | entry :: entries =>
    match arena.propertyAt entry with
    | none => throw .malformed
    | some property => do
      Writing.write property
      writeEntries arena entries

/-- Writes the properties: the header of a map, and the entries in the order of their slots. -/
def writeLive (ed : Editor) : Writing Unit := do
  Writing.beginMap ed.count
  writeEntries ed.arena (ed.slots.filterMap id)

/-- Encodes the properties into the buffer below the arena. -/
def encode (ed : Editor) : Except Fault Unit × Writer :=
  (Writer.ofBuffer ed.arena.front).run ed.writeLive

/-- What came of a commit. -/
structure Commit (σ : Type) where
  result : Except Fault Unit
  buffer : Bytes
  store : σ

/-- Encodes the properties and replaces the record with the result. -/
def commit (ed : Editor) (name : RecordName) (store : σ) : Commit σ :=
  let (encoded, writer) := ed.encode
  let buffer := writer.buffer ++ ed.arena.back
  match encoded with
  | .error fault => ⟨.error fault, buffer, store⟩
  | .ok () =>
    let (result, next) := Record.write name store writer.written
    ⟨result, buffer, next⟩

/-- What a commit has to report. -/
def Commit.notes (committed : Commit σ) (name : RecordName) : List Note :=
  match committed.result with
  | .error fault => [.commitFailed name.text fault]
  | .ok () => []

end Editor

end PropertyRecord
