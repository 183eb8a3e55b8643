import PropertyRecord.Editor.Basic
import PropertyRecord.Text.Quoted
import PropertyRecord.Trace

/-!
# Calls on an editor

The calls that an editor takes between its opening and its commit, and their answers.
-/

namespace PropertyRecord.Editor

/-- The calls on an editor. -/
inductive Call where
  | set (property : Property)
  | remove (key : String)
  | get (key : String)
  | contains (key : String)
  | list
  | describe

/-- What a call answers. -/
inductive Answer where
  | done
  | value (v : Option Value)
  | bool (b : Bool)
  | properties (ps : List Property)
  | described (text : String)

/-- The text that describes the editor of a record, by the numbers in it. -/
def description (record : String) (count used capacity : Nat) : String :=
  s!"PropertyStore \x7b record: {Quoted.render record}, properties: {count}, "
    ++ s!"arena_used: {used}, capacity: {capacity}, .. \x7d"

/-- The text that describes the editor of a record. -/
def describe (ed : Editor) (record : String) : String :=
  description record ed.count ed.arena.used ed.arena.capacity

/-- Makes one call on the editor of a record. -/
def step (record : String) (ed : Editor) : Call → Except Fault Answer × Editor
  | .set property =>
    let (next, result) := ed.set property
    (result.map fun () => .done, next)
  | .remove key => (.ok .done, ed.remove key)
  | .get key => (.ok (.value (ed.get? key)), ed)
  | .contains key => (.ok (.bool (ed.contains key)), ed)
  | .list => (.ok (.properties ed.properties), ed)
  | .describe => (.ok (.described (ed.describe record)), ed)

/-- The counters of an editor: its properties, and the bytes of its arena that are used and left. -/
structure Gauge where
  count : Nat
  used : Nat
  remaining : Nat
  deriving DecidableEq

/-- The counters of an editor. -/
def gauge (ed : Editor) : Gauge := ⟨ed.count, ed.arena.used, ed.arena.remaining⟩

end PropertyRecord.Editor
