import PropertyRecord.Editor.Calls
import PropertyRecord.Record.Basic

/-!
# An edit from opening to commit

An edit opens an editor over a buffer, makes a list of calls on it, and commits or drops it. Its
report says what was there at the start, what each call answered and how it ended.
-/

namespace PropertyRecord

/-- What an edit has to report. -/
structure EditReport where
  /-- The properties that were imported. -/
  imported : List Property
  opened : Editor.Gauge
  openNotes : List Note
  /-- The answer to each call, with the counters after it. -/
  calls : List (Except Fault Editor.Answer × Editor.Gauge)
  /-- The result of the commit, or `none` if the editor was dropped. -/
  ending : Option (Except Fault Unit)
  endNotes : List Note
  /-- The buffer at the end. -/
  buffer : Bytes

namespace Editor

/-- Makes the calls of an edit on an editor just opened, and commits it if asked to. -/
def carryOut {σ : Type} [RecordStore σ] (name : RecordName) (store : σ) (opening : Opening)
    (earlier : List Note) (calls : List Call) (commits : Bool) : EditReport × σ :=
  let start := opening.editor
  let openNotes := earlier ++ opening.notes name
  let (answers, last) := trace (step name.text) gauge start calls
  if commits then
    let committed := last.commit name store
    (⟨start.properties, start.gauge, openNotes, answers, some committed.result,
        committed.notes name, committed.buffer⟩, committed.store)
  else
    (⟨start.properties, start.gauge, openNotes, answers, none, [], last.arena.buffer⟩, store)

end Editor

end PropertyRecord
