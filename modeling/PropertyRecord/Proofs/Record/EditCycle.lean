import PropertyRecord.Proofs.Record.Lookup
import PropertyRecord.Proofs.Shrinking

/-!
# Edits without a change

An edit that changes nothing still writes the record anew, from what the import has kept of it. A
lookup reads the first pair with its key, and gives up at a key that it cannot read. The import
keeps the last value of a key, and passes over pairs whose value is foreign whatever their key is.
So a lookup is answered as before if the first pair with the key has the value that the editor
shows, and no key in front of it is one that a lookup gives up at; without either it may not be.

Main statements: `Reader.Finds.locate`, `sameLookups_commit` and `lookups_change`.
-/

namespace PropertyRecord

namespace Reader

variable {r next : Reader} {key : String} {v : Value} {count : Nat}

/-- What is read is read back as itself: an integer that is not negative was read as unsigned. -/
theorem reread_of_value (read : r.value = .ok (v, next)) : v.reread = v := by
  rcases reads_of_value read with ⟨header, parsed, reads⟩
  cases reads with
  | negative kind small =>
    have negative := toInt_negative small
    rw [Value.reread, if_neg]
    omega
  | unsigned | text | bytes | false | true | null | double => rfl

/-- A lookup among `count` pairs comes to the first one with the key, which is a property with the
value. -/
inductive Finds (key : String) (v : Value) : (count : Nat) → Reader → Prop where
  | here {count : Nat} {r next : Reader} (paired : r.pair = .ok (some ⟨key, v⟩, next)) :
      Finds key v (count + 1) r
  | behind {count : Nat} {r next : Reader} {found : Option Property} (passed : r.PassedBy key)
      (paired : r.pair = .ok (found, next)) (later : Finds key v count next) :
      Finds key v (count + 1) r

/-- So the lookup reads the value of that property. -/
theorem Finds.locate (finds : r.Finds key v count) (short : (utf8 key).length ≤ maxNameSize) :
    ∃ atValue, r.locate key count = some atValue ∧ v.IsAt atValue := by
  induction finds with
  | here paired =>
    rcases exists_of_pair_some paired with ⟨atValue, _, _, _, _, named, read⟩
    refine ⟨atValue, locate_of_text named short, ?_⟩
    rw [Value.IsAt, reread_of_value read]
    exact ⟨_, read⟩
  | behind passed paired _ ih =>
    rcases exists_of_pair paired with ⟨behind, skipped, after⟩
    rcases ih with ⟨atValue, located, here⟩
    exact ⟨atValue, (locate_of_passedBy passed skipped after).trans located, here⟩

end Reader

/-- A lookup of the key in the record comes to the first pair with it, which is a property with the
value. -/
def Finds (record : Bytes) (key : String) (v : Value) : Prop :=
  ∃ count next, (Reader.ofBytes record).readMapHeader = .ok (count, next) ∧ next.Finds key v count

theorem Finds.locateIn {record : Bytes} {key : String} {v : Value} (finds : Finds record key v)
    (short : (utf8 key).length ≤ maxNameSize) :
    ∃ atValue, locateIn record key = some atValue ∧ v.IsAt atValue := by
  rcases finds with ⟨count, next, header, finds⟩
  rw [PropertyRecord.locateIn, header]
  exact finds.locate short

/-! ## Lookups before and after -/

namespace Record

/-- Every lookup of a key is answered by two stores alike. -/
structure SameLookups {σ : Type} [RecordStore σ] (name : RecordName) (before after : σ)
    (key : String) : Prop where
  has : (has name before key).1 = (has name after key).1
  bool (default : Bool) :
    (getBool name before key default).1 = (getBool name after key default).1
  int32 (default : Int32) :
    (getInt32 name before key default).1 = (getInt32 name after key default).1
  int64 (default : Int64) :
    (getInt64 name before key default).1 = (getInt64 name after key default).1
  uint32 (default : UInt32) :
    (getUInt32 name before key default).1 = (getUInt32 name after key default).1
  uint64 (default : UInt64) :
    (getUInt64 name before key default).1 = (getUInt64 name after key default).1
  double (default : Double) :
    (getDouble name before key default).1 = (getDouble name after key default).1
  text (out : Bytes) : (getText name before key out).1 = (getText name after key out).1
  bytes (out : Bytes) : (getBytes name before key out).1 = (getBytes name after key out).1

/-- Lookups that are answered by one value are answered alike. -/
theorem Answers.sameLookups {σ : Type} [RecordStore σ] {name : RecordName} {before after : σ}
    {key : String} {found : Option Value} (first : Answers name before key found)
    (second : Answers name after key found) : SameLookups name before after key where
  has := by rw [first.has, second.has]
  bool default := by rw [first.bool, second.bool]
  int32 default := by rw [first.int32, second.int32]
  int64 default := by rw [first.int64, second.int64]
  uint32 default := by rw [first.uint32, second.uint32]
  uint64 default := by rw [first.uint64, second.uint64]
  double default := by rw [first.double, second.double]
  text out := by rw [first.text, second.text]
  bytes out := by rw [first.bytes, second.bytes]

end Record

namespace Editor

variable {recordLimit dataLimit : Nat}

/-- After a commit of at most the window, a lookup is answered as the editor answers. -/
theorem Coherent.answers {ed : Editor} (coherent : ed.Coherent) {name : RecordName}
    {store : MemoryStore recordLimit dataLimit} (done : (ed.commit name store).result = .ok ())
    (small : ed.encode.2.written.length ≤ lookupWindow) {key : String}
    (short : (utf8 key).length ≤ maxNameSize) :
    Record.Answers name (ed.commit name store).store key (ed.get? key) := by
  rcases commit_ok done with ⟨encoded, -, written⟩
  have stored := Record.get?_of_write written
  have canonical := (coherent.encode_ok encoded).1
  have addressable : (encodeRecord ed.properties).length < unsignedBound := by
    rw [← canonical]
    exact Nat.lt_of_le_of_lt small (by decide)
  have here := locateIn_encodeRecord addressable short
  rw [← canonical, properties_eq_listing, ← coherent.get?] at here
  exact Record.answers_of_locate (Record.locate_of_get? stored small key) here

/-- An edit without a change leaves the lookups of a key as they were, if the first pair with the
key has the value that the editor shows and no key in front of it stops a lookup. The record is at
most as long as the window, and nothing is asked of it or of the buffer beyond that. -/
theorem sameLookups_commit (store : MemoryStore recordLimit dataLimit) (name : RecordName)
    (record buffer : Bytes) (length : Nat) (key : String) (v : Value)
    (stored : store.get? name.text = some record) (small : record.length ≤ dataLimit)
    (window : record.length ≤ lookupWindow) (short : (utf8 key).length ≤ maxNameSize)
    (finds : Finds record key v) :
    let loading := Record.load name store buffer
    loading.length = .ok length →
    let ed := (openOver loading.buffer length).editor
    let committed := ed.commit name loading.store
    ed.get? key = some v →
    committed.result = .ok () ∧ Record.SameLookups name store committed.store key := by
  intro loading loaded
  have whole : loading = ⟨.ok record.length, Bytes.overlay record buffer, [], store⟩ :=
    (Record.load_of_get? stored loaded).2
  clear_value loading
  subst whole
  cases loaded
  intro ed committed live
  have nonempty : record ≠ [] := by
    rintro rfl
    rcases finds with ⟨count, next, header, -⟩
    cases header
  have shrunk : ed.Shrunk record := shrunk_openOver nonempty (buffer.drop record.length)
  have storable : record.length ≤ min dataLimit maxRecordSize :=
    Nat.le_min.2 ⟨small, Nat.le_trans window (by decide)⟩
  have done : committed.result = .ok () := (shrunk.commit stored storable).1
  have shorter := Nat.le_trans shrunk.encode.2.2 window
  have after := shrunk.coherent.answers done shorter short
  rw [live] at after
  rcases finds.locateIn short with ⟨atValue, located, here⟩
  have before : Record.Answers name store key (some v) :=
    Record.answers_of_locate ((Record.locate_of_get? stored window key).trans
      (congrArg (·, store) located)) (.some here)
  exact ⟨done, before.sameLookups after⟩

/-- The number is found behind an array, in a record that repeats it. -/
theorem sameLookups_commit_behind_array :
    let record : Bytes := [0xa3, 0x61, 0x61, 0x80, 0x61, 0x6b, 0x05, 0x61, 0x6b, 0x05]
    let name : RecordName := ⟨"r", by decide, by decide⟩
    let store : MemoryStore 1 64 := MemoryStore.empty.put ⟨"r", record⟩
    let loading := Record.load name store (List.replicate 32 0)
    let committed := (openOver loading.buffer 10).editor.commit name loading.store
    committed.result = .ok () ∧ Record.SameLookups name store committed.store "k" := by
  intro record name store loading committed
  have array : Reader.text ⟨1, record.drop 1⟩ = .ok ("a", ⟨3, record.drop 3⟩) := by
    decide +kernel
  have passed : Reader.pair ⟨1, record.drop 1⟩ = .ok (none, ⟨4, record.drop 4⟩) := by
    decide +kernel
  have number : Reader.pair ⟨4, record.drop 4⟩
      = .ok (some ⟨"k", .uint 5⟩, ⟨7, record.drop 7⟩) := by
    decide +kernel
  have finds : Finds record "k" (.uint 5) :=
    ⟨3, ⟨1, record.drop 1⟩, by decide +kernel, .behind (.other array (by decide)) passed
      (.here number)⟩
  exact sameLookups_commit store name record (List.replicate 32 0) 10 "k" (.uint 5)
    (by decide +kernel) (by decide) (by decide) (by decide) finds (by decide +kernel)
    (by decide +kernel)

end Editor

/-! ## What changes

Each of these records opens without a fault and with room for more properties.
-/

/-- A record with two values for one key. -/
def repeatedKey : Bytes := [0xa2, 0x61, 0x6b, 0x01, 0x61, 0x6b, 0x02]

/-- A record with an array and a number for one key. -/
def foreignFirst : Bytes := [0xa2, 0x61, 0x6b, 0x80, 0x61, 0x6b, 0x02]

/-- A record with a pair in front whose key is a number and whose value is an array. -/
def unreadableKey : Bytes := [0xa2, 0x01, 0x80, 0x61, 0x6b, 0x02]

/-- An edit of the record without a change imports all that it can, comes to its end, and changes
what a lookup of the key is answered. -/
def Record.Changes (record : Bytes) (key : String) : Prop :=
  let name : RecordName := ⟨"r", by decide, by decide⟩
  let store : MemoryStore 1 64 := MemoryStore.empty.put ⟨"r", record⟩
  let loading := Record.load name store (List.replicate 32 0)
  let opening := Editor.openOver loading.buffer record.length
  let committed := opening.editor.commit name loading.store
  (store.get? "r" = some record ∧ loading.length = .ok record.length
      ∧ record.length ≤ lookupWindow ∧ (utf8 key).length ≤ maxNameSize)
    ∧ (opening.stop = none ∧ opening.editor.slots.length < maxProperties
      ∧ opening.editor.contains key = true)
    ∧ committed.result = .ok () ∧ ¬ Record.SameLookups name store committed.store key

theorem lookups_change :
    Record.Changes repeatedKey "k" ∧ Record.Changes foreignFirst "k"
      ∧ Record.Changes unreadableKey "k" := by
  refine ⟨⟨by decide +kernel, by decide +kernel, by decide +kernel, fun same => ?_⟩,
    ⟨by decide +kernel, by decide +kernel, by decide +kernel, fun same => ?_⟩,
    ⟨by decide +kernel, by decide +kernel, by decide +kernel, fun same => ?_⟩⟩
  · exact absurd (same.uint64 0) (by decide +kernel)
  · exact absurd (same.uint64 0) (by decide +kernel)
  · exact absurd same.has (by decide +kernel)

end PropertyRecord
