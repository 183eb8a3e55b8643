import PropertyRecord.Trace
import PropertyRecord.Wire.Item

/-!
# Calls on a reader

A reading is a reader over a byte string together with a second one that was put aside, to which
it can go back. This module has the calls on it and their answers.
-/

namespace PropertyRecord

/-- A reader over `source`, and the reader last put aside. -/
structure Reading where
  source : Bytes
  current : Reader
  saved : Reader

namespace Reading

/-- A reading at the start of a byte string. -/
def ofBytes (source : Bytes) : Reading := ⟨source, .ofBytes source, .ofBytes source⟩

/-- The calls on a reading. Those that copy bring the buffer to copy into. -/
inductive Call where
  | readMapHeader
  | readBool
  | readInt
  | readUInt
  | readDouble
  | readText (out : Bytes)
  | readBytes (out : Bytes)
  | peekMajor
  | peekByte
  | peekStringLength
  | skipItem
  | save
  | restore
  | state
  | describe

/-- What a call answers. -/
inductive Answer where
  | done
  | count (n : Nat)
  | bool (b : Bool)
  | int (i : Int64)
  | uint (u : UInt64)
  | double (d : Double)
  | text (s : String)
  | bytes (bs : Bytes)
  | major (m : MajorType)
  | byte (b : UInt8)
  | length (n : Nat)
  | state (pos remaining : Nat) (hasNext : Bool)
  | described (text : String)

/-- The answer to a call, and the caller's buffer afterwards if the call had one. -/
structure Reply where
  result : Except Fault Answer
  out : Option Bytes

/-- The text that describes a reading, with its bytes in decimal. -/
def describe (r : Reading) : String :=
  let data := ", ".intercalate (r.source.map fun b => toString b.toNat)
  s!"Decoder \x7b data: [{data}], pos: {r.current.pos} \x7d"

/-- The answer and the reading after a read without a buffer. -/
def ofRead {α : Type} (r : Reading) (answer : α → Answer) :
    Except Fault (α × Reader) → Reply × Reading
  | .ok (a, next) => (⟨.ok (answer a), none⟩, { r with current := next })
  | .error fault => (⟨.error fault, none⟩, r)

/-- The answer and the reading after a read into a buffer. -/
def ofFilled {α : Type} (r : Reading) (answer : α → Answer) (filled : Filled (α × Reader)) :
    Reply × Reading :=
  match filled.result with
  | .ok (a, next) => (⟨.ok (answer a), some filled.out⟩, { r with current := next })
  | .error fault => (⟨.error fault, some filled.out⟩, r)

/-- The answer to a peek. -/
def ofPeek {α : Type} (r : Reading) (answer : α → Answer) (result : Except Fault α) :
    Reply × Reading :=
  (⟨result.map answer, none⟩, r)

/-- Makes one call. A call that fails leaves the reading as it was. -/
def step (r : Reading) : Call → Reply × Reading
  | .readMapHeader => r.ofRead .count r.current.readMapHeader
  | .readBool => r.ofRead .bool r.current.readBool
  | .readInt => r.ofRead .int r.current.readInt
  | .readUInt => r.ofRead .uint r.current.readUInt
  | .readDouble => r.ofRead .double r.current.readDouble
  | .readText out => r.ofFilled .text (r.current.readText out)
  | .readBytes out => r.ofFilled .bytes (r.current.readBytes out)
  | .peekMajor => r.ofPeek .major r.current.peekMajor
  | .peekByte => r.ofPeek .byte r.current.peekByte
  | .peekStringLength => r.ofPeek .length r.current.peekStringLength
  | .skipItem => r.ofRead (fun _ => .done) (r.current.skipItem.map fun next => ((), next))
  | .save => (⟨.ok .done, none⟩, { r with saved := r.current })
  | .restore => (⟨.ok .done, none⟩, { r with current := r.saved })
  | .state =>
    (⟨.ok (.state r.current.pos r.current.remaining r.current.hasNext), none⟩, r)
  | .describe => (⟨.ok (.described r.describe), none⟩, r)

end Reading

end PropertyRecord
