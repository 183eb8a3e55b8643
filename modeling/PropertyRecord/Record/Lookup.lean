import PropertyRecord.Record.Basic

/-!
# Lookups

A lookup reads one property without an editor: it fetches the record into a window of 1024 bytes
and walks it up to the first pair with the key. A key longer than 32 bytes is passed over and
never found. A lookup with a default answers with the default whenever anything is in its way.
-/

namespace PropertyRecord

/-- The reader at the value of the first of `count` pairs that has the key. -/
def Reader.locate (key : String) : (count : Nat) → Reader → Option Reader
  | 0, _ => none
  | count + 1, r =>
    match (r.readText (List.replicate maxNameSize 0)).result with
    | .ok (found, next) =>
      if found = key then some next
      else
        match next.skipItem with
        | .ok after => locate key count after
        | .error _ => none
    | .error .exhausted =>
      match r.skipItem with
      | .ok next =>
        match next.skipItem with
        | .ok after => locate key count after
        | .error _ => none
      | .error _ => none
    | .error _ => none

/-- The reader at the value of a key in a record. -/
def locateIn (record : Bytes) (key : String) : Option Reader :=
  match (Reader.ofBytes record).readMapHeader with
  | .ok (count, next) => next.locate key count
  | .error _ => none

/-- An integer in the narrower signed type, if it fits. -/
def narrowInt (i : Int64) : Option Int32 :=
  if -0x80000000 ≤ i.toInt ∧ i.toInt < 0x80000000 then some (Int32.ofInt i.toInt) else none

/-- An integer in the narrower unsigned type, if it fits. -/
def narrowUInt (u : UInt64) : Option UInt32 :=
  if u.toNat < 0x100000000 then some (UInt32.ofNat u.toNat) else none

namespace Record

variable {σ : Type} [RecordStore σ]

/-- The reader at the value of a key. A lawful store answers with no more bytes than the window
has. -/
def locate (name : RecordName) (store : σ) (key : String) : Option Reader × σ :=
  let (filled, store) := read name store (List.replicate lookupWindow 0)
  match filled.result with
  | .ok length => (locateIn (filled.out.take length) key, store)
  | .error _ => (none, store)

/-- Whether the record has the key. -/
def has (name : RecordName) (store : σ) (key : String) : Bool × σ :=
  let (found, store) := locate name store key
  (found.isSome, store)

/-- What `read` makes of the value of a key. -/
def lookup? {α : Type} (name : RecordName) (store : σ) (key : String)
    (read : Reader → Except Fault (α × Reader)) : Option α × σ :=
  let (found, store) := locate name store key
  (found.bind fun r => (read r).toOption.map Prod.fst, store)

/-- A truth value, or the default. -/
def getBool (name : RecordName) (store : σ) (key : String) (default : Bool) : Bool × σ :=
  let (b, store) := lookup? name store key Reader.readBool
  (b.getD default, store)

/-- A signed integer of 32 bits, or the default. -/
def getInt32 (name : RecordName) (store : σ) (key : String) (default : Int32) : Int32 × σ :=
  let (i, store) := lookup? name store key Reader.readInt
  ((i.bind narrowInt).getD default, store)

/-- A signed integer of 64 bits, or the default. -/
def getInt64 (name : RecordName) (store : σ) (key : String) (default : Int64) : Int64 × σ :=
  let (i, store) := lookup? name store key Reader.readInt
  (i.getD default, store)

/-- An unsigned integer of 32 bits, or the default. -/
def getUInt32 (name : RecordName) (store : σ) (key : String) (default : UInt32) : UInt32 × σ :=
  let (u, store) := lookup? name store key Reader.readUInt
  ((u.bind narrowUInt).getD default, store)

/-- An unsigned integer of 64 bits, or the default. -/
def getUInt64 (name : RecordName) (store : σ) (key : String) (default : UInt64) : UInt64 × σ :=
  let (u, store) := lookup? name store key Reader.readUInt
  (u.getD default, store)

/-- A double, or the default. -/
def getDouble (name : RecordName) (store : σ) (key : String) (default : Double) : Double × σ :=
  let (d, store) := lookup? name store key Reader.readDouble
  (d.getD default, store)

/-- Reads the value of a key into a buffer, which stays as it is if the key is not there. -/
def readInto {α : Type} (name : RecordName) (store : σ) (key : String) (out : Bytes)
    (read : Reader → Bytes → Filled (α × Reader)) : Filled α × σ :=
  let (found, store) := locate name store key
  match found with
  | some r =>
    let filled := read r out
    (⟨filled.result.map Prod.fst, filled.out⟩, store)
  | none => (⟨.error .notFound, out⟩, store)

/-- Copies a text into a buffer. -/
def getText (name : RecordName) (store : σ) (key : String) (out : Bytes) : Filled String × σ :=
  readInto name store key out Reader.readText

/-- Copies a byte string into a buffer. -/
def getBytes (name : RecordName) (store : σ) (key : String) (out : Bytes) : Filled Bytes × σ :=
  readInto name store key out Reader.readBytes

end Record

end PropertyRecord
