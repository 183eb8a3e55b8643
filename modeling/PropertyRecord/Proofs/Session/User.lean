import PropertyRecord.Proofs.Record.Commit
import PropertyRecord.Session.Users

/-!
# One user

Two stores that have the same record under a name are alike to the user of that record: a call that
hands the store nothing is answered the same over both, leaves both as they are and leads to the
same editor. Any other call is one write of the bytes that it offers, and what it is answered
depends on how the write ended.

Main statements: `step_of_quiet` and `step_of_offered` for a call, and `stepRecord_edit`, which says
that the calls of a user are those of a whole edit, taken apart.
-/

namespace PropertyRecord

/-- Two stores of which a read of the record gives the same, and which it leaves as they are. -/
def Alike {σ τ : Type} [RecordStore σ] [RecordStore τ] (name : RecordName) (a : σ) (b : τ) : Prop :=
  ∀ out, ∃ filled, Record.read name a out = (filled, a) ∧ Record.read name b out = (filled, b)

namespace Alike

variable {σ τ : Type} [RecordStore σ] [RecordStore τ] {name : RecordName} {a : σ} {b : τ}

/-! ## Lookups -/

theorem locate (alike : Alike name a b) (key : String) :
    ∃ found, Record.locate name a key = (found, a) ∧ Record.locate name b key = (found, b) := by
  rcases alike (List.replicate lookupWindow 0) with ⟨filled, left, right⟩
  rw [Record.locate, Record.locate, left, right]
  cases ended : filled.result with
  | error fault => exact ⟨none, by simp only [ended], by simp only [ended]⟩
  | ok length =>
    exact ⟨locateIn (filled.out.take length) key, by simp only [ended], by simp only [ended]⟩

/-- A lookup that is answered with what it makes of the value of a key. -/
theorem lookup (alike : Alike name a b) {α : Type} (key : String)
    (read : Reader → Except Fault (α × Reader)) (answer : Option α → Session.Reply) :
    ∃ reply, (Record.lookup? name a key read).map answer id = (reply, a)
      ∧ (Record.lookup? name b key read).map answer id = (reply, b) := by
  rcases alike.locate key with ⟨found, left, right⟩
  rw [Record.lookup?, Record.lookup?, left, right]
  exact ⟨_, rfl, rfl⟩

/-- A lookup that copies the value of a key. -/
theorem readInto (alike : Alike name a b) {α : Type} (key : String) (out : Bytes)
    (read : Reader → Bytes → Filled (α × Reader)) (answer : Filled α → Session.Reply) :
    ∃ reply, (Record.readInto name a key out read).map answer id = (reply, a)
      ∧ (Record.readInto name b key out read).map answer id = (reply, b) := by
  rcases alike.locate key with ⟨found, left, right⟩
  rw [Record.readInto, Record.readInto, left, right]
  cases found with
  | none => exact ⟨_, rfl, rfl⟩
  | some r => exact ⟨_, rfl, rfl⟩

theorem load (alike : Alike name a b) (buffer : Bytes) :
    ∃ length left notes, Record.load name a buffer = ⟨length, left, notes, a⟩
      ∧ Record.load name b buffer = ⟨length, left, notes, b⟩ := by
  rcases alike buffer with ⟨filled, left, right⟩
  rw [Record.load, Record.load, left, right]
  simp only
  split
  next => exact ⟨_, _, _, rfl, rfl⟩
  next => exact ⟨_, _, _, rfl, rfl⟩

/-- A call on the record that is neither a write nor an edit. -/
theorem stepRecord (alike : Alike name a b) {call : Session.RecordCall}
    (whole : call.isEdit = false) (notWrite : ∀ data, call ≠ .write data) :
    ∃ reply, Session.stepRecord name a call = (reply, a)
      ∧ Session.stepRecord name b call = (reply, b) := by
  cases call with
  | name => exact ⟨_, rfl, rfl⟩
  | write data => exact absurd rfl (notWrite data)
  | edit | editOver => cases whole
  | read out =>
    rcases alike out with ⟨filled, left, right⟩
    rw [Session.stepRecord, Session.stepRecord, left, right]
    exact ⟨_, rfl, rfl⟩
  | has key =>
    rcases alike.locate key with ⟨found, left, right⟩
    rw [Session.stepRecord, Session.stepRecord, Record.has, Record.has, left, right]
    exact ⟨_, rfl, rfl⟩
  | getBool key default =>
    exact alike.lookup key Reader.readBool fun b => .bool (b.getD default)
  | getInt32 key default =>
    exact alike.lookup key Reader.readInt fun i => .integer ((i.bind narrowInt).getD default).toInt
  | getInt64 key default =>
    exact alike.lookup key Reader.readInt fun i => .integer (i.getD default).toInt
  | getUInt32 key default =>
    exact alike.lookup key Reader.readUInt fun u =>
      .integer ((u.bind narrowUInt).getD default).toNat
  | getUInt64 key default =>
    exact alike.lookup key Reader.readUInt fun u => .integer (u.getD default).toNat
  | getDouble key default =>
    exact alike.lookup key Reader.readDouble fun d => .double (d.getD default)
  | getText key out => exact alike.readInto key out Reader.readText (.ofFilled .text)
  | getBytes key out => exact alike.readInto key out Reader.readBytes (.ofFilled .bytes)

end Alike

namespace User

variable {σ τ : Type} [RecordStore σ] [RecordStore τ] {name : RecordName} {a next : σ} {b after : τ}
  {editor : Option Editor} {call : Call} {data : Bytes}

/-- The bytes that a call hands to the store: those that it writes, or the canonical record of an
editor that has room to encode it. -/
def offered? (editor : Option Editor) : Call → Option Bytes
  | .record (.write data) _ => some data
  | .commit =>
    editor.bind fun ed => if ed.encode.1.isOk then some (encodeRecord ed.properties) else none
  | _ => none

/-- Whether the store took what a call handed to it. -/
def Answer.stored : Answer → Bool
  | .replied .done => true
  | .committed (.ok ()) _ _ => true
  | _ => false

/-- The editor that a user has open is coherent. -/
def Coherent (u : User σ) : Prop := ∀ ed, u.editor = some ed → ed.Coherent

theorem offered?_commit_ok {ed : Editor} (encoded : ed.encode.1 = .ok ()) :
    offered? (some ed) .commit = some (encodeRecord ed.properties) := by
  rw [offered?, Option.bind_some, encoded]
  rfl

theorem offered?_commit_error {ed : Editor} {fault : Fault} (encoded : ed.encode.1 = .error fault) :
    offered? (some ed) .commit = none := by
  rw [offered?, Option.bind_some, encoded]
  rfl

/-- A call that hands the store nothing. -/
theorem step_of_quiet (alike : Alike name a b) (quiet : offered? editor call = none) :
    ∃ answer left, step name ⟨a, editor⟩ call = (answer, ⟨a, left⟩)
      ∧ step name ⟨b, editor⟩ call = (answer, ⟨b, left⟩) := by
  cases call with
  | record call whole =>
    have notWrite : ∀ data, call ≠ .write data := by
      rintro data rfl
      cases quiet
    rcases alike.stepRecord whole notWrite with ⟨reply, left, right⟩
    rw [step, step, left, right]
    exact ⟨_, _, rfl, rfl⟩
  | edit buffer =>
    rcases alike.load buffer with ⟨length, held, notes, left, right⟩
    rw [step, step, left, right]
    cases length with
    | error fault => exact ⟨_, _, rfl, rfl⟩
    | ok length => exact ⟨_, _, rfl, rfl⟩
  | editOver buffer existing => exact ⟨_, _, rfl, rfl⟩
  | change call =>
    cases editor with
    | none => exact ⟨_, _, rfl, rfl⟩
    | some ed => exact ⟨_, _, rfl, rfl⟩
  | commit =>
    cases editor with
    | none => exact ⟨_, _, rfl, rfl⟩
    | some ed =>
      cases encoded : ed.encode.1 with
      | ok => cases (offered?_commit_ok encoded).symm.trans quiet
      | error fault =>
        simp only [step, Editor.commit, encoded]
        exact ⟨_, _, rfl, rfl⟩
  | drop =>
    cases editor with
    | none => exact ⟨_, _, rfl, rfl⟩
    | some ed => exact ⟨_, _, rfl, rfl⟩

/-- A call that hands bytes to the store. -/
theorem step_of_offered (coherent : Coherent ⟨a, editor⟩)
    (offered : offered? editor call = some data) {result : Except Fault Unit}
    (left : Record.write name a data = (result, next))
    (right : Record.write name b data = (result, after)) :
    ∃ answer held, step name ⟨a, editor⟩ call = (answer, ⟨next, held⟩)
      ∧ step name ⟨b, editor⟩ call = (answer, ⟨after, held⟩)
      ∧ answer.stored = result.isOk := by
  cases call with
  | record call whole =>
    cases call with
    | write bytes =>
      cases offered
      rw [step, step, Session.stepRecord, Session.stepRecord, left, right]
      refine ⟨_, _, rfl, rfl, ?_⟩
      cases result <;> rfl
    | _ => cases offered
  | commit =>
    cases editor with
    | none => cases offered
    | some ed =>
      cases encoded : ed.encode.1 with
      | error fault => cases (offered?_commit_error encoded).symm.trans offered
      | ok =>
        have canonical := ((coherent ed rfl).encode_ok encoded).1
        cases (offered?_commit_ok encoded).symm.trans offered
        simp only [step, Editor.commit, encoded, canonical, left, right]
        refine ⟨_, _, rfl, ?_, ?_⟩
        · cases result <;> rfl
        · cases result <;> rfl
  | edit | editOver | change | drop => cases offered

/-- Every call leaves the editor that is open coherent, if there is one. -/
theorem Coherent.step {u : User σ} (coherent : u.Coherent) (name : RecordName) (call : Call) :
    (step name u call).2.Coherent := by
  intro ed opened
  cases call with
  | record call whole => exact coherent ed opened
  | edit buffer =>
    simp only [User.step] at opened
    split at opened
    next => cases opened
    next =>
      cases opened
      exact (Editor.within_openOver _ _).coherent
  | editOver buffer existing =>
    cases opened
    exact (Editor.within_openOver _ _).coherent
  | change call =>
    rcases u with ⟨store, editor⟩
    cases editor with
    | none => cases opened
    | some before =>
      cases opened
      have within : before.Within before.arena.capacity := ⟨coherent before rfl, rfl⟩
      exact (within.step name.text call).coherent
  | commit | drop =>
    rcases u with ⟨store, editor⟩
    cases editor with
    | none => cases opened
    | some before => cases opened

/-! ## Whole edits -/

/-- The calls that a whole edit makes once its editor is open. -/
def Call.rest (calls : List Editor.Call) (commits : Bool) : List Call :=
  calls.map .change ++ [if commits then .commit else .drop]

/-- The answers that a user would have got to the calls of an edit that reports this. -/
def answersOf (report : EditReport) : List Answer :=
  .opened report.imported report.opened report.openNotes
    :: (report.calls.map fun call => .changed call.1 call.2)
    ++ [match report.ending with
      | some result => .committed result report.endNotes report.buffer
      | none => .dropped report.buffer]

theorem answers_changes (name : RecordName) (store : σ) (ed : Editor) (calls : List Editor.Call)
    (later : List Call) :
    answers (step name) ⟨store, some ed⟩ (calls.map .change ++ later)
        = ((trace (Editor.step name.text) Editor.gauge ed calls).1.map
            fun call => .changed call.1 call.2)
          ++ answers (step name) ⟨store, some (runFrom (Editor.step name.text) ed calls)⟩ later
      ∧ runFrom (step name) ⟨store, some ed⟩ (calls.map .change ++ later)
        = runFrom (step name) ⟨store, some (runFrom (Editor.step name.text) ed calls)⟩ later := by
  induction calls generalizing ed with
  | nil => exact ⟨rfl, rfl⟩
  | cons call calls ih =>
    rcases ih (Editor.step name.text ed call).2 with ⟨answered, left⟩
    exact ⟨congrArg (_ :: ·) answered, left⟩

theorem carryOut_eq (name : RecordName) (store : σ) (opening : Opening) (earlier : List Note)
    (calls : List Editor.Call) (commits : Bool) :
    let edited := Editor.carryOut name store opening earlier calls commits
    answersOf edited.1
        = .ofOpening name opening earlier
          :: answers (step name) ⟨store, some opening.editor⟩ (Call.rest calls commits)
      ∧ runFrom (step name) ⟨store, some opening.editor⟩ (Call.rest calls commits)
        = ⟨edited.2, none⟩ := by
  intro edited
  have last := trace_snd (Editor.step name.text) Editor.gauge opening.editor calls
  rcases answers_changes name store opening.editor calls
    [if commits then .commit else .drop] with ⟨answered, left⟩
  rw [Call.rest, answered, left]
  cases commits with
  | true =>
    simp only [edited, Editor.carryOut, last, if_true]
    exact ⟨rfl, rfl⟩
  | false =>
    simp only [edited, Editor.carryOut, last]
    exact ⟨rfl, rfl⟩

/-- A whole edit is the edit of a user whom nobody interrupts. -/
theorem stepRecord_edit {store next : σ} {buffer : Bytes} {calls : List Editor.Call}
    {commits : Bool} {report : EditReport}
    (edited : Session.stepRecord name store (.edit buffer calls commits) = (.edited report, next)) :
    answers (step name) ⟨store, none⟩ (.edit buffer :: Call.rest calls commits) = answersOf report
      ∧ runFrom (step name) ⟨store, none⟩ (.edit buffer :: Call.rest calls commits)
        = ⟨next, none⟩ := by
  rw [Session.stepRecord] at edited
  split at edited
  next => cases edited
  next length loaded =>
    rcases carryOut_eq name (Record.load name store buffer).store
      (Editor.openOver (Record.load name store buffer).buffer length)
      (Record.load name store buffer).notes calls commits with ⟨answered, left⟩
    cases edited
    rw [answers, moments, List.map_cons, runFrom_cons, step]
    simp only [loaded]
    exact ⟨answered.symm, left⟩

theorem stepRecord_editOver {store next : σ} {buffer : Bytes} {existing : Nat}
    {calls : List Editor.Call} {commits : Bool} {report : EditReport}
    (edited : Session.stepRecord name store (.editOver buffer existing calls commits)
      = (.edited report, next)) :
    answers (step name) ⟨store, none⟩ (.editOver buffer existing :: Call.rest calls commits)
        = answersOf report
      ∧ runFrom (step name) ⟨store, none⟩ (.editOver buffer existing :: Call.rest calls commits)
        = ⟨next, none⟩ := by
  rcases carryOut_eq name store (Editor.openOver buffer existing) [] calls commits with
    ⟨answered, left⟩
  cases edited
  exact ⟨answered.symm, left⟩

end User

end PropertyRecord
