import PropertyRecord.Proofs.Record.Lookup
import PropertyRecord.Session.Users

/-!
# Users of a shared store

While nobody has a shared store, its users have it as they would have the store itself: every call
is answered alike and does the same to the store. While somebody has it, they have a store that
refuses every access.

Main statements: `Users.step_free`, `Users.step_lent`, and `Record.answers_lent` for lookups.
-/

namespace PropertyRecord

variable {σ : Type} [RecordStore σ] {name : RecordName}

/-! ## Nobody has the store -/

section

variable (name : RecordName) (store : σ)

theorem Record.read_free (out : Bytes) :
    read name (SharedStore.free store) out = (read name store out).map id .free := rfl

theorem Record.write_free (data : Bytes) :
    write name (SharedStore.free store) data = (write name store data).map id .free := by
  rw [write, write]
  split
  next => rfl
  next => rfl

theorem Record.locate_free (key : String) :
    locate name (SharedStore.free store) key = (locate name store key).map id .free := by
  rw [locate, locate, read_free]
  simp only [Prod.map, id]
  split
  next => rfl
  next => rfl

/-- A lookup that is answered with what it makes of the value of a key. -/
theorem Record.lookup_free {α : Type} (key : String) (read : Reader → Except Fault (α × Reader))
    (answer : Option α → Session.Reply) :
    (lookup? name (SharedStore.free store) key read).map answer id
      = ((lookup? name store key read).map answer id).map id .free := by
  rw [lookup?, lookup?, locate_free]
  rfl

/-- A lookup that copies the value of a key. -/
theorem Record.readInto_free {α : Type} (key : String) (out : Bytes)
    (read : Reader → Bytes → Filled (α × Reader)) (answer : Filled α → Session.Reply) :
    (readInto name (SharedStore.free store) key out read).map answer id
      = ((readInto name store key out read).map answer id).map id .free := by
  rw [readInto, readInto, locate_free]
  simp only [Prod.map, id]
  split
  next => rfl
  next => rfl

theorem Record.load_free (buffer : Bytes) :
    load name (SharedStore.free store) buffer
      = { load name store buffer with store := .free (load name store buffer).store } := by
  rw [load, load, read_free]
  simp only [Prod.map, id]
  split
  next => rfl
  next => rfl

theorem Editor.commit_free (ed : Editor) :
    ed.commit name (SharedStore.free store)
      = { ed.commit name store with store := .free (ed.commit name store).store } := by
  rw [commit, commit]
  cases encoded : ed.encode.1 with
  | error fault => simp only [encoded]
  | ok =>
    simp only [encoded, Record.write_free]
    rfl

/-- A call on a record that is not an edit. -/
theorem Session.stepRecord_free {call : RecordCall} (whole : call.isEdit = false) :
    stepRecord name (SharedStore.free store) call
      = (stepRecord name store call).map id .free := by
  cases call with
  | name => rfl
  | read out => rfl
  | edit | editOver => cases whole
  | write data =>
    rw [stepRecord, stepRecord, Record.write_free]
    rfl
  | has key =>
    rw [stepRecord, stepRecord, Record.has, Record.has, Record.locate_free]
    rfl
  | getBool key default =>
    exact Record.lookup_free name store key Reader.readBool fun b => .bool (b.getD default)
  | getInt32 key default =>
    exact Record.lookup_free name store key Reader.readInt fun i =>
      .integer ((i.bind narrowInt).getD default).toInt
  | getInt64 key default =>
    exact Record.lookup_free name store key Reader.readInt fun i =>
      .integer (i.getD default).toInt
  | getUInt32 key default =>
    exact Record.lookup_free name store key Reader.readUInt fun u =>
      .integer ((u.bind narrowUInt).getD default).toNat
  | getUInt64 key default =>
    exact Record.lookup_free name store key Reader.readUInt fun u =>
      .integer (u.getD default).toNat
  | getDouble key default =>
    exact Record.lookup_free name store key Reader.readDouble fun d => .double (d.getD default)
  | getText key out =>
    exact Record.readInto_free name store key out Reader.readText (.ofFilled .text)
  | getBytes key out =>
    exact Record.readInto_free name store key out Reader.readBytes (.ofFilled .bytes)

end

/-- A user of the store, as a user of the shared store that nobody has. -/
def User.share (u : User σ) : User (SharedStore σ) := ⟨.free u.store, u.editor⟩

theorem User.step_free (u : User σ) (call : Call) :
    step name u.share call = (step name u call).map id share := by
  rcases u with ⟨store, editor⟩
  cases call with
  | record call whole =>
    rw [share, step, step, Session.stepRecord_free name store whole]
    rfl
  | edit buffer =>
    rw [share, step, step, Record.load_free]
    simp only
    split
    next => rfl
    next => rfl
  | editOver buffer existing => rfl
  | change call =>
    cases editor with
    | none => rfl
    | some ed => rfl
  | commit =>
    cases editor with
    | none => rfl
    | some ed =>
      simp only [share, step, Editor.commit_free]
      rfl
  | drop =>
    cases editor with
    | none => rfl
    | some ed => rfl

section

variable {ι : Type}

/-- The users of a store, as users of the shared store that nobody has. -/
def Users.share (s : Users ι σ) : Users ι (SharedStore σ) := ⟨.free s.store, s.editors⟩

theorem Users.step_free [DecidableEq ι] (names : ι → RecordName) (s : Users ι σ) (turn : Turn ι) :
    step names s.share turn = (step names s turn).map id share := by
  have as : s.share.as turn.user = (s.as turn.user).share := rfl
  rw [step, step, as, User.step_free]
  rfl

end

/-! ## Somebody has the store -/

/-- A store that answers as a shared one does while somebody has it. -/
def SharedStore.refusal : RefusingStore := ⟨.invalidState, .invalidState⟩

/-- Lookups find nothing. -/
theorem Record.answers_lent (name : RecordName) (key : String) :
    Answers name (SharedStore.lent : SharedStore σ) key none where
  has := rfl
  bool _ := rfl
  int32 _ := rfl
  int64 _ := rfl
  uint32 _ := rfl
  uint64 _ := rfl
  double _ := rfl
  text _ := rfl
  bytes _ := rfl

theorem Record.write_lent (name : RecordName) (data : Bytes) :
    write name (SharedStore.lent : SharedStore σ) data
      = (if maxRecordSize < data.length then .error .exhausted else .error .invalidState,
          .lent) := by
  rw [write]
  split
  next => rfl
  next => rfl

theorem User.step_lent (editor : Option Editor) (call : Call) :
    step name ⟨(SharedStore.lent : SharedStore σ), editor⟩ call
      = (step name ⟨SharedStore.refusal, editor⟩ call).map id
          fun next => ⟨.lent, next.editor⟩ := by
  cases call with
  | record call whole =>
    cases call with
    | edit | editOver => cases whole
    | write data =>
      simp only [step, Session.stepRecord, Record.write]
      split
      next => rfl
      next => rfl
    | name | read | has | getBool | getInt32 | getInt64 | getUInt32 | getUInt64 | getDouble
    | getText | getBytes => rfl
  | edit buffer => rfl
  | editOver buffer existing => rfl
  | change call =>
    cases editor with
    | none => rfl
    | some ed => rfl
  | commit =>
    cases editor with
    | none => rfl
    | some ed =>
      simp only [step, Editor.commit, Record.write]
      cases encoded : ed.encode.1 with
      | error fault => rfl
      | ok =>
        simp only
        split
        next => rfl
        next => rfl
  | drop =>
    cases editor with
    | none => rfl
    | some ed => rfl

theorem Users.step_lent {ι : Type} [DecidableEq ι] (names : ι → RecordName)
    (editors : ι → Option Editor) (turn : Turn ι) :
    step names ⟨(SharedStore.lent : SharedStore σ), editors⟩ turn
      = (step names ⟨SharedStore.refusal, editors⟩ turn).map id
          fun next => ⟨.lent, next.editors⟩ := by
  have as : as ⟨(SharedStore.lent : SharedStore σ), editors⟩ turn.user
      = ⟨.lent, editors turn.user⟩ := rfl
  rw [step, step, as, User.step_lent]
  rfl

end PropertyRecord
