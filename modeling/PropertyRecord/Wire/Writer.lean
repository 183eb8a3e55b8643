import PropertyRecord.Trace
import PropertyRecord.Wire.Canonical

/-!
# Writing into a buffer

A writer fills a buffer from its front. A call makes its steps one after the other on the writer as
the steps before have left it, also where one of them fails: it first looks whether there is room
for all that it is going to write, the header of a map or a whole property, and then puts it there,
piece by piece.

Main statements: `run_beginMap` and `run_write`, a call appends its canonical bytes as one chunk, or
there is no room for them and nothing has changed.
-/

namespace PropertyRecord

/-! ## Pieces

The sizes that a call asks for and the pieces that it puts are worked out apart from each other. A
sum of sizes that is no number of the machine is more than any buffer has left.
-/

/-- The kind and the argument of the header of a signed integer. -/
def intHeader (i : Int64) : MajorType × Nat :=
  if 0 ≤ i.toInt then (.unsigned, i.toInt.toNat) else (.negative, (-1 - i.toInt).toNat)

/-- The room that a string of this length asks for. -/
def stringRoom (length : Nat) : Nat := Header.sizeFor length + length

/-- The pieces of a string. -/
def stringPieces (major : MajorType) (content : Bytes) : List Bytes :=
  [Header.encode major content.length, content]

/-- The room that a value asks for. -/
def Value.room : Value → Nat
  | null | bool _ => 1
  | int i => Header.sizeFor (intHeader i).2
  | uint u => Header.sizeFor u.toNat
  | double _ => 9
  | text s => stringRoom (utf8 s).length
  | bytes bs => stringRoom bs.length

/-- The pieces of a value. -/
def Value.pieces : Value → List Bytes
  | null => [[nullByte]]
  | bool b => [[if b then trueByte else falseByte]]
  | int i => [Header.encode (intHeader i).1 (intHeader i).2]
  | uint u => [Header.encode .unsigned u.toNat]
  | double d => [[doubleByte], Bytes.bigEndian 8 d.bits.toNat]
  | text s => stringPieces .text (utf8 s)
  | bytes bs => stringPieces .bytes bs

/-- The room that a property asks for. -/
def Property.room (p : Property) : Nat := stringRoom (utf8 p.key).length + p.value.room

/-- A buffer whose front has been written. -/
structure Writer where
  /-- The bytes written so far. -/
  written : Bytes
  /-- The bytes of the buffer after them, as they were. -/
  free : Bytes

namespace Writer

/-- A writer at the start of a buffer. -/
def ofBuffer (buffer : Bytes) : Writer := ⟨[], buffer⟩

/-- The number of bytes written. -/
def size (w : Writer) : Nat := w.written.length

/-- The number of bytes left. -/
def remaining (w : Writer) : Nat := w.free.length

/-- The whole buffer. -/
def buffer (w : Writer) : Bytes := w.written ++ w.free

/-- Whether so many bytes are left. -/
def hasRoom (w : Writer) (size : Nat) : Bool := Bytes.holds size w.free

/-- Puts a piece behind the bytes written. As many bytes must be left. -/
def put (w : Writer) (piece : Bytes) : Writer := ⟨w.written ++ piece, w.free.drop piece.length⟩

/-- The text that describes a writer. -/
def describe (w : Writer) : String :=
  s!"Encoder \x7b size: {w.size}, capacity: {w.size + w.remaining} \x7d"

end Writer

/-! ## Steps -/

/-- A computation that changes a writer, also where it fails. -/
abbrev Writing := ExceptT Fault (StateM Writer)

namespace Writing

/-- Fails if fewer than `size` bytes are left. -/
def ensure (size : Nat) : Writing Unit :=
  ExceptT.mk fun w => (if w.hasRoom size then .ok () else .error .exhausted, w)

/-- Puts a piece behind the bytes written. -/
def putRaw (piece : Bytes) : Writing Unit := ExceptT.mk fun w => (.ok (), w.put piece)

/-- Puts pieces one behind the other. -/
def putAll : List Bytes → Writing Unit
  | [] => return
  | piece :: pieces => do
    putRaw piece
    putAll pieces

/-- Starts a map with `count` pairs. -/
def beginMap (count : Nat) : Writing Unit := do
  ensure (Header.sizeFor count)
  putRaw (Header.encode .map count)

/-- Looks whether there is room for a key and for a value that asks for `room` bytes, and writes the
key. -/
def beginPair (key : Bytes) (room : Nat) : Writing Unit := do
  ensure (stringRoom key.length + room)
  putAll (stringPieces .text key)

/-- Writes a key and its value. -/
def write (p : Property) : Writing Unit := do
  beginPair (utf8 p.key) p.value.room
  putAll p.value.pieces

end Writing

namespace Writer

variable {α β : Type}

/-- What a computation on the writer comes to, and the writer that it leaves. -/
def run (w : Writer) (x : Writing α) : Except Fault α × Writer := x w

/-! ## Calls -/

/-- The calls on a writer. -/
inductive Call where
  | beginMap (count : Nat)
  | write (property : Property)
  | describe

/-- What a call answers. -/
inductive Answer where
  | done
  | described (text : String)

/-- Makes one call. -/
def step (w : Writer) (call : Call) : Except Fault Answer × Writer :=
  match call with
  | .beginMap count => (w.run (Writing.beginMap count)).map (Except.map fun _ => .done) id
  | .write property => (w.run (Writing.write property)).map (Except.map fun _ => .done) id
  | .describe => (.ok (.described w.describe), w)

end Writer

/-! ## Pieces and chunks

The pieces of a property are its canonical bytes, and the room that it asks for is their number.
So a call appends one chunk or nothing.
-/

theorem flatten_stringPieces (major : MajorType) (content : Bytes) :
    (stringPieces major content).flatten = encodeString major content := by
  simp [stringPieces, encodeString]

theorem length_encodeString (major : MajorType) (content : Bytes) :
    (encodeString major content).length = stringRoom content.length := by
  rw [encodeString, List.length_append, Header.length_encode, stringRoom]

theorem encode_intHeader (i : Int64) :
    Header.encode (intHeader i).1 (intHeader i).2 = (Value.int i).encode := by
  rw [intHeader, Value.encode]
  split <;> rfl

theorem Value.flatten_pieces (v : Value) : v.pieces.flatten = v.encode := by
  cases v with
  | null | bool => rfl
  | int i =>
    rw [pieces, List.flatten_singleton]
    exact encode_intHeader i
  | uint u => exact List.flatten_singleton
  | double d => simp [pieces, encode]
  | text s => exact flatten_stringPieces .text (utf8 s)
  | bytes bs => exact flatten_stringPieces .bytes bs

/-- A value takes exactly the room that it asks for. -/
theorem Value.length_encode (v : Value) : v.encode.length = v.room := by
  cases v with
  | null | bool => rfl
  | int i => rw [← encode_intHeader, Header.length_encode, room]
  | uint u => exact Header.length_encode .unsigned u.toNat
  | double d => rw [encode, List.length_cons, Bytes.length_bigEndian, room]
  | text s => exact length_encodeString .text (utf8 s)
  | bytes bs => exact length_encodeString .bytes bs

/-- A property takes exactly the room that it asks for. -/
theorem Property.length_encode (p : Property) : p.encode.length = p.room := by
  rw [encode, List.length_append, length_encodeString, Value.length_encode, room]

namespace Writer

variable {w next : Writer} {x : Writing α} {chunk : Bytes}

theorem run_bind_ok {a : α} (ran : w.run x = (.ok a, next)) (k : α → Writing β) :
    w.run (x >>= k) = next.run (k a) := by
  change (fun ended => ExceptT.bindCont k ended.1 ended.2) (w.run x) = _
  rw [ran]
  rfl

theorem run_bind_error {fault : Fault} (ran : w.run x = (.error fault, next)) (k : α → Writing β) :
    w.run (x >>= k) = (.error fault, next) := by
  change (fun ended => ExceptT.bindCont k ended.1 ended.2) (w.run x) = _
  rw [ran]
  rfl

/-- Appends a chunk that fits. -/
def append (w : Writer) (chunk : Bytes) : Except Fault Unit × Writer :=
  if chunk.length ≤ w.remaining then (.ok (), w.put chunk) else (.error .exhausted, w)

theorem append_of_le (fits : chunk.length ≤ w.remaining) : w.append chunk = (.ok (), w.put chunk) :=
  if_pos fits

theorem append_of_lt (large : w.remaining < chunk.length) :
    w.append chunk = (.error .exhausted, w) := if_neg (Nat.not_le_of_lt large)

theorem hasRoom_iff (w : Writer) (size : Nat) : w.hasRoom size = true ↔ size ≤ w.remaining :=
  Bytes.holds_iff size w.free

theorem put_nil (w : Writer) : w.put [] = w := by
  simp [put]

theorem put_put (w : Writer) (first second : Bytes) :
    (w.put first).put second = w.put (first ++ second) := by
  simp [put]

theorem run_ensure_of_le {size : Nat} (room : size ≤ w.remaining) :
    w.run (Writing.ensure size) = (.ok (), w) := by
  change (if w.hasRoom size then _ else _, w) = _
  rw [if_pos ((w.hasRoom_iff size).2 room)]

theorem run_ensure_of_lt {size : Nat} (full : w.remaining < size) :
    w.run (Writing.ensure size) = (.error .exhausted, w) := by
  change (if w.hasRoom size then _ else _, w) = _
  rw [if_neg (mt (w.hasRoom_iff size).1 (Nat.not_le_of_lt full))]

/-- Pieces that are put one behind the other are one chunk. -/
theorem run_putAll (w : Writer) (pieces : List Bytes) :
    w.run (Writing.putAll pieces) = (.ok (), w.put pieces.flatten) := by
  induction pieces generalizing w with
  | nil => rw [List.flatten_nil, put_nil]; rfl
  | cons piece pieces ih =>
    have first : w.run (Writing.putRaw piece) = (.ok (), w.put piece) := rfl
    rw [Writing.putAll, run_bind_ok first, ih, put_put, List.flatten_cons]

/-- Looking for the room of some pieces before they are put is appending them as one chunk. -/
theorem run_ensure_bind {x : Writing Unit} (ran : ∀ w : Writer, w.run x = (.ok (), w.put chunk)) :
    w.run (Writing.ensure chunk.length >>= fun _ => x) = w.append chunk := by
  by_cases room : chunk.length ≤ w.remaining
  · rw [run_bind_ok (run_ensure_of_le room), ran, append_of_le room]
  · have full := Nat.lt_of_not_le room
    rw [run_bind_error (run_ensure_of_lt full), append_of_lt full]

theorem run_beginMap (w : Writer) (count : Nat) :
    w.run (Writing.beginMap count) = w.append (encodeMapHeader count) := by
  have put (w : Writer) : w.run (Writing.putRaw (encodeMapHeader count))
      = (.ok (), w.put (encodeMapHeader count)) := rfl
  rw [← run_ensure_bind put, encodeMapHeader, Header.length_encode]
  rfl

theorem run_write (w : Writer) (p : Property) : w.run (Writing.write p) = w.append p.encode := by
  have put (w : Writer) : w.run (do
      Writing.putAll (stringPieces .text (utf8 p.key))
      Writing.putAll p.value.pieces) = (.ok (), w.put p.encode) := by
    rw [run_bind_ok (run_putAll w _), run_putAll, put_put, flatten_stringPieces,
      Value.flatten_pieces, Property.encode]
  rw [← run_ensure_bind put, Property.length_encode, Writing.write, Writing.beginPair, bind_assoc]
  rfl

end Writer

end PropertyRecord
