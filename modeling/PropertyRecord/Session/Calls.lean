import PropertyRecord.Record.Lookup
import PropertyRecord.Session.Edit
import PropertyRecord.Session.Handle

/-!
# Sessions

A session makes calls on a store, on records in it and, while it has lent the store to a body of
calls, from inside that body. Every call gets a reply, and one that fails does not end the
session.
-/

namespace PropertyRecord.Session

/-- The calls on a record. Those that copy bring the buffer to copy into. -/
inductive RecordCall where
  | name
  | read (out : Bytes)
  | write (data : Bytes)
  | has (key : String)
  | getBool (key : String) (default : Bool)
  | getInt32 (key : String) (default : Int32)
  | getInt64 (key : String) (default : Int64)
  | getUInt32 (key : String) (default : UInt32)
  | getUInt64 (key : String) (default : UInt64)
  | getDouble (key : String) (default : Double)
  | getText (key : String) (out : Bytes)
  | getBytes (key : String) (out : Bytes)
  /-- Loads the record into the buffer and edits it there. -/
  | edit (buffer : Bytes) (calls : List Editor.Call) (commits : Bool)
  /-- Edits a record that is in the buffer already. -/
  | editOver (buffer : Bytes) (existing : Nat) (calls : List Editor.Call) (commits : Bool)

/-- The calls of a session. -/
inductive Call where
  | read (name : String) (out : Bytes)
  | write (name : String) (data : Bytes)
  | count
  | contains (name : String)
  | names
  | purge (name : String)
  | purgeAll
  /-- Starts to share the store. -/
  | share
  /-- Stops sharing the store. -/
  | unshare
  /-- Lends the store to a body, which makes calls through the shared handle. -/
  | lend (body : List Call)
  | describe
  | record (name : String) (call : RecordCall)

/-- The replies to calls. -/
inductive Reply where
  | done
  | failed (fault : Fault)
  /-- A failed call with a buffer, and the buffer afterwards. -/
  | failedFilling (fault : Fault) (out : Bytes)
  /-- An edit that could not load its record. -/
  | failedOpening (fault : Fault) (notes : List Note) (buffer : Bytes)
  | count (n : Nat)
  | bool (b : Bool)
  | integer (i : Int)
  | double (d : Double)
  | text (s : String)
  | bytes (bs : Bytes)
  | names (ns : List String)
  | edited (report : EditReport)
  | lent (replies : List Reply)

namespace Reply

/-- The reply for a result without content. -/
def ofUnit : Except Fault Unit → Reply
  | .ok () => done
  | .error fault => failed fault

/-- The reply for a result. -/
def ofResult {α : Type} (reply : α → Reply) : Except Fault α → Reply
  | .ok a => reply a
  | .error fault => failed fault

/-- The reply for a filled buffer. -/
def ofFilled {α : Type} (reply : α → Reply) (filled : Filled α) : Reply :=
  match filled.result with
  | .ok a => reply a
  | .error fault => failedFilling fault filled.out

/-- The reply for a record read into a buffer: its bytes. -/
def ofRead (filled : Filled Nat) : Reply :=
  ofFilled (fun length => bytes (filled.out.take length)) filled

end Reply

variable {σ : Type} [RecordStore σ]

/-- Makes one call on a record. -/
def stepRecord (name : RecordName) (store : σ) : RecordCall → Reply × σ
  | .name => (.text name.text, store)
  | .read out => (Record.read name store out).map .ofRead id
  | .write data => (Record.write name store data).map .ofUnit id
  | .has key => (Record.has name store key).map .bool id
  | .getBool key default => (Record.getBool name store key default).map .bool id
  | .getInt32 key default =>
    (Record.getInt32 name store key default).map (fun i => .integer i.toInt) id
  | .getInt64 key default =>
    (Record.getInt64 name store key default).map (fun i => .integer i.toInt) id
  | .getUInt32 key default =>
    (Record.getUInt32 name store key default).map (fun u => .integer u.toNat) id
  | .getUInt64 key default =>
    (Record.getUInt64 name store key default).map (fun u => .integer u.toNat) id
  | .getDouble key default => (Record.getDouble name store key default).map .double id
  | .getText key out => (Record.getText name store key out).map (.ofFilled .text) id
  | .getBytes key out => (Record.getBytes name store key out).map (.ofFilled .bytes) id
  | .edit buffer calls commits =>
    let loading := Record.load name store buffer
    match loading.length with
    | .error fault => (.failedOpening fault loading.notes loading.buffer, loading.store)
    | .ok length =>
      (Editor.carryOut name loading.store (Editor.openOver loading.buffer length) loading.notes
        calls commits).map .edited id
  | .editOver buffer existing calls commits =>
    (Editor.carryOut name store (Editor.openOver buffer existing) [] calls commits).map .edited id

mutual

/-- Makes one call. -/
def step (handle : Handle) : Call → Reply × Handle
  | .read name out => (RecordStore.read handle name out).map .ofRead id
  | .write name data => (RecordStore.write handle name data).map .ofUnit id
  | .count => (handle.ask fun store => (store.count, store)).map (.ofResult .count) id
  | .contains name =>
    (handle.ask fun store => (store.contains name, store)).map (.ofResult .bool) id
  | .names => (handle.ask fun store => (store.names, store)).map (.ofResult .names) id
  | .purge name => (handle.ask fun store => store.purge name).map (.ofResult .ofUnit) id
  | .purgeAll => (handle.ask fun store => ((), store.purgeAll)).map .ofUnit id
  | .share =>
    match handle with
    | .sole store => (.done, .shared (.free store))
    | .shared store => (.failed .invalidState, .shared store)
  | .unshare =>
    match handle with
    | .shared (.free store) => (.done, .sole store)
    | other => (.failed .invalidState, other)
  | .lend body =>
    match handle with
    | .sole store => (.failed .invalidState, .sole store)
    | .shared store =>
      let (replies, next) :=
        store.withStore fun inner outside => (steps (.shared outside) body, inner)
      (.ofResult .lent replies, .shared next)
  | .describe =>
    match handle with
    | .sole store => (.failed .invalidState, .sole store)
    | .shared store => (.text store.describe, .shared store)
  | .record name call =>
    match RecordName.ofString name with
    | .error fault => (.failed fault, handle)
    | .ok valid => stepRecord valid handle call

/-- Makes calls in order, and gathers the replies. -/
def steps (handle : Handle) : List Call → List Reply
  | [] => []
  | call :: calls =>
    let (reply, next) := step handle call
    reply :: steps next calls

end

end PropertyRecord.Session
