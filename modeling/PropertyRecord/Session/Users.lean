import PropertyRecord.Session.Calls

/-!
# Users of one store

A user has a handle on one record of a store, and at times an editor over a buffer that it loaded
the record into. It looks the record up, reads and writes it, and edits it with one call after the
other: it opens an editor, makes calls on it, and commits or drops it. Several users of one store
take turns, in any order, and between two calls of one of them may be any calls of the others.
-/

namespace PropertyRecord

/-- Whether a call on a record is a whole edit, from the opening of its editor to the end. -/
def Session.RecordCall.isEdit : RecordCall → Bool
  | .edit _ _ _ | .editOver _ _ _ _ => true
  | _ => false

/-- A store as one of its users has it, with the editor that the user has open. -/
structure User (σ : Type) where
  store : σ
  editor : Option Editor

namespace User

/-- The calls of a user. -/
inductive Call where
  /-- A call on the record that is not an edit. -/
  | record (call : Session.RecordCall) (whole : call.isEdit = false)
  /-- Loads the record into the buffer and opens an editor over it. -/
  | edit (buffer : Bytes)
  /-- Opens an editor over a record that is in the buffer already. -/
  | editOver (buffer : Bytes) (existing : Nat)
  /-- A call on the editor. -/
  | change (call : Editor.Call)
  | commit
  | drop

/-- What a user is answered. -/
inductive Answer where
  | replied (reply : Session.Reply)
  /-- The properties that were imported, the counters and the notes of an editor just opened. -/
  | opened (imported : List Property) (gauge : Editor.Gauge) (notes : List Note)
  | changed (answer : Except Fault Editor.Answer) (gauge : Editor.Gauge)
  | committed (result : Except Fault Unit) (notes : List Note) (buffer : Bytes)
  | dropped (buffer : Bytes)
  | noEditor

/-- The answer for an editor just opened. -/
def Answer.ofOpening (name : RecordName) (opening : Opening) (earlier : List Note) : Answer :=
  .opened opening.editor.properties opening.editor.gauge (earlier ++ opening.notes name)

variable {σ : Type} [RecordStore σ]

/-- Makes one call of the user of a record. An editor that is opened takes the place of one that is
open. -/
def step (name : RecordName) (u : User σ) : Call → Answer × User σ
  | .record call _ =>
    let (reply, store) := Session.stepRecord name u.store call
    (.replied reply, { u with store })
  | .edit buffer =>
    let loading := Record.load name u.store buffer
    match loading.length with
    | .error fault =>
      (.replied (.failedOpening fault loading.notes loading.buffer), ⟨loading.store, none⟩)
    | .ok length =>
      let opening := Editor.openOver loading.buffer length
      (.ofOpening name opening loading.notes, ⟨loading.store, some opening.editor⟩)
  | .editOver buffer existing =>
    let opening := Editor.openOver buffer existing
    (.ofOpening name opening [], { u with editor := some opening.editor })
  | .change call =>
    match u.editor with
    | none => (.noEditor, u)
    | some ed =>
      let (answer, next) := Editor.step name.text ed call
      (.changed answer next.gauge, { u with editor := some next })
  | .commit =>
    match u.editor with
    | none => (.noEditor, u)
    | some ed =>
      let committed := ed.commit name u.store
      (.committed committed.result (committed.notes name) committed.buffer, ⟨committed.store, none⟩)
  | .drop =>
    match u.editor with
    | none => (.noEditor, u)
    | some ed => (.dropped ed.arena.buffer, { u with editor := none })

end User

/-- A store and the editors that its users have open. -/
structure Users (ι σ : Type) where
  store : σ
  editors : ι → Option Editor

namespace Users

variable {ι σ : Type}

/-- The users of a store before any of them has opened an editor. -/
def ofStore (store : σ) : Users ι σ := ⟨store, fun _ => none⟩

/-- The store as one of the users has it. -/
def as (s : Users ι σ) (user : ι) : User σ := ⟨s.store, s.editors user⟩

/-- One of the users makes a call. -/
structure Turn (ι : Type) where
  user : ι
  call : User.Call

variable [DecidableEq ι] [RecordStore σ]

/-- Makes the call of a turn. The users' records have the given names. -/
def step (names : ι → RecordName) (s : Users ι σ) (turn : Turn ι) : User.Answer × Users ι σ :=
  let (answer, next) := (s.as turn.user).step (names turn.user) turn.call
  (answer, ⟨next.store, fun user => if user = turn.user then next.editor else s.editors user⟩)

end Users

end PropertyRecord
