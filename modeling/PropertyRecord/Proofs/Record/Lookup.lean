import PropertyRecord.Proofs.Editor.Encoding
import PropertyRecord.Proofs.Record.Locate
import PropertyRecord.Proofs.Wire.Size

/-!
# Lookups of what was committed

A lookup does not know the table of an editor. It walks the bytes that a commit has stored, over
keys that are too long for it, and then reads the value that it was asked for. It still answers what
the editor would have answered, read as the type that was asked for.

Main statement: `answers_commit`.
-/

namespace PropertyRecord

/-! ## The walk -/

/-- The value is the one that is read at the position. -/
def Value.IsAt (v : Value) (r : Reader) : Prop := ∃ next, r.value = .ok (v.reread, next)

namespace Reader

/-- A walk over properties finds the value of the first that has the key. -/
theorem locate_flatMap {ps : Listing} {key : String} (pos : Nat)
    (small : Listing.footprint ps < unsignedBound) (short : (utf8 key).length ≤ maxNameSize) :
    Option.Rel Value.IsAt (Listing.valueOf? ps key)
      ((⟨pos, ps.flatMap Property.encode⟩ : Reader).locate key ps.length) := by
  induction ps generalizing pos with
  | nil => exact .none
  | cons p ps ih =>
    rw [Listing.footprint_cons, Property.footprint] at small
    have keySmall : (utf8 p.key).length < unsignedBound := by omega
    have payloadSmall : p.value.payload.length < unsignedBound := by omega
    rcases exists_of_encode pos (ps.flatMap Property.encode) keySmall payloadSmall with
      ⟨atValue, initial, named, -, -, read⟩
    rw [List.flatMap_cons, List.length_cons]
    by_cases same : p.key = key
    · subst same
      rw [Listing.valueOf?_cons_self, locate_of_text named short]
      exact .some ⟨_, read⟩
    · rw [Listing.valueOf?_cons_of_ne same, locate_of_passedBy (.other named same)
        (skipItem_of_text named) (skipItem_of_value read)]
      exact ih _ (by omega)

end Reader

theorem locateIn_encodeRecord {ps : Listing} {key : String}
    (small : (encodeRecord ps).length < unsignedBound)
    (short : (utf8 key).length ≤ maxNameSize) :
    Option.Rel Value.IsAt (Listing.valueOf? ps key) (locateIn (encodeRecord ps) key) := by
  have count := Listing.length_le_length_encodeRecord ps
  have copies := Listing.footprint_le_length_encodeRecord ps
  have header : (Reader.ofBytes (encodeRecord ps)).readMapHeader = _ :=
    Reader.readMapHeader_encode 0 (ps.flatMap Property.encode) (Nat.lt_of_le_of_lt count small)
  rw [locateIn, header]
  exact Reader.locate_flatMap _ (Nat.lt_of_le_of_lt copies small) short

/-! ## The reads -/

/-- An integer is narrowed to the one with the same number, if there is one. -/
theorem narrowInt_eq_some_iff {i : Int64} {narrow : Int32} :
    narrowInt i = some narrow ↔ narrow.toInt = i.toInt := by
  rw [narrowInt]
  split
  next fits =>
    have kept : (Int32.ofInt i.toInt).toInt = i.toInt := Int32.toInt_ofInt_of_le fits.1 fits.2
    rw [Option.some.injEq, ← Int32.toInt_inj, kept, eq_comm]
  next large =>
    have least := narrow.le_toInt
    have greatest := narrow.toInt_lt
    constructor
    · intro none
      cases none
    · intro same
      rw [same] at least greatest
      exact absurd ⟨least, greatest⟩ large

theorem narrowUInt_eq_some_iff {u : UInt64} {narrow : UInt32} :
    narrowUInt u = some narrow ↔ narrow.toNat = u.toNat := by
  rw [narrowUInt]
  split
  next fits =>
    have kept : (UInt32.ofNat u.toNat).toNat = u.toNat := UInt32.toNat_ofNat_of_lt' fits
    rw [Option.some.injEq, ← UInt32.toNat_inj, kept, eq_comm]
  next large =>
    have greatest := narrow.toNat_lt
    constructor
    · intro none
      cases none
    · intro same
      rw [same] at greatest
      exact absurd greatest large

namespace Record

variable {σ α : Type} [RecordStore σ] {name : RecordName} {store : σ} {key : String}
  {found : Option Value} {located : Option Reader}

/-- What comes of copying the value of a key as a string: there may be no value, it may be none of
these strings, and the string may be too long. -/
def copied (found : Option Value) (ask : Value → Option α) (content : α → Bytes) (out : Bytes) :
    Filled α :=
  match found with
  | none => ⟨.error .notFound, out⟩
  | some v =>
    match ask v with
    | none => ⟨.error .malformed, out⟩
    | some a =>
      if (content a).length ≤ out.length then ⟨.ok a, Bytes.overlay (content a) out⟩
      else ⟨.error .exhausted, out⟩

/-- Every lookup of a key is answered as if the key had this value, and leaves the store alone. -/
structure Answers (name : RecordName) (store : σ) (key : String) (found : Option Value) :
    Prop where
  has : has name store key = (found.isSome, store)
  bool (default : Bool) :
    getBool name store key default = ((found.bind Value.bool?).getD default, store)
  int32 (default : Int32) :
    getInt32 name store key default
      = (((found.bind Value.int64?).bind narrowInt).getD default, store)
  int64 (default : Int64) :
    getInt64 name store key default = ((found.bind Value.int64?).getD default, store)
  uint32 (default : UInt32) :
    getUInt32 name store key default
      = (((found.bind Value.uint64?).bind narrowUInt).getD default, store)
  uint64 (default : UInt64) :
    getUInt64 name store key default = ((found.bind Value.uint64?).getD default, store)
  double (default : Double) :
    getDouble name store key default = ((found.bind Value.asDouble?).getD default, store)
  text (out : Bytes) : getText name store key out = (copied found Value.text? utf8 out, store)
  bytes (out : Bytes) : getBytes name store key out = (copied found Value.bytes? id out, store)

theorem lookup?_of_locate {read : Reader → Except Fault (α × Reader)} {ask : Value → Option α}
    (fault : Value → Fault) (walked : locate name store key = (located, store))
    (here : Option.Rel Value.IsAt found located)
    (typed : ∀ {r v next}, r.value = .ok (v, next) → read r = Reader.answer (ask v) (fault v) next)
    (again : ∀ v, ask v.reread = ask v) :
    lookup? name store key read = (found.bind ask, store) := by
  rw [lookup?, walked]
  cases here with
  | none => rfl
  | @some v r at_ =>
    rcases at_ with ⟨next, value⟩
    simp only [Option.bind_some, typed value, again]
    cases ask v <;> rfl

theorem readInto_of_locate {read : Reader → Bytes → Filled (α × Reader)} {ask : Value → Option α}
    {content : α → Bytes} (walked : locate name store key = (located, store))
    (here : Option.Rel Value.IsAt found located)
    (typed : ∀ {r v next}, r.value = .ok (v, next) →
      ∀ out, read r out = Reader.filling (ask v) content next out)
    (again : ∀ v, ask v.reread = ask v) (out : Bytes) :
    readInto name store key out read = (copied found ask content out, store) := by
  rw [readInto, walked]
  cases here with
  | none => rfl
  | @some v r at_ =>
    rcases at_ with ⟨next, value⟩
    simp only [typed value, again, copied]
    cases ask v with
    | none => rfl
    | some a =>
      by_cases fits : (content a).length ≤ out.length
      · simp only [Reader.filling, fits, if_true]
        rfl
      · simp only [Reader.filling, fits, if_false]
        rfl

theorem answers_of_locate (walked : locate name store key = (located, store))
    (here : Option.Rel Value.IsAt found located) : Answers name store key found := by
  have int := lookup?_of_locate Value.intFault walked here Reader.readInt_of_value
    Value.int64?_reread
  have uint := lookup?_of_locate (fun _ => .malformed) walked here Reader.readUInt_of_value
    Value.uint64?_reread
  constructor
  case has =>
    rw [has, walked]
    cases here <;> rfl
  case bool =>
    intro default
    rw [getBool, lookup?_of_locate (fun _ => .malformed) walked here Reader.readBool_of_value
      Value.bool?_reread]
  case int32 =>
    intro default
    rw [getInt32, int]
  case int64 =>
    intro default
    rw [getInt64, int]
  case uint32 =>
    intro default
    rw [getUInt32, uint]
  case uint64 =>
    intro default
    rw [getUInt64, uint]
  case double =>
    intro default
    rw [getDouble, lookup?_of_locate Value.intFault walked here Reader.readDouble_of_value
      Value.asDouble?_reread]
  case text =>
    exact readInto_of_locate walked here Reader.readText_of_value Value.text?_reread
  case bytes =>
    exact readInto_of_locate walked here Reader.readBytes_of_value Value.bytes?_reread

end Record

namespace Editor

/-- The lookups see what was committed. If an editor, whatever it was opened over and whatever was
done with it, has committed a record that fits in the window, every lookup of a key that is not too
long is answered as the editor answers for its value. -/
theorem answers_commit {recordLimit dataLimit : Nat} (store : MemoryStore recordLimit dataLimit)
    (name : RecordName) (buffer : Bytes) (existing : Nat) (calls : List Call) (key : String) :
    let ed := runFrom (step name.text) (openOver buffer existing).editor calls
    let committed := ed.commit name store
    committed.result = .ok () → ed.encode.2.written.length ≤ lookupWindow →
      (utf8 key).length ≤ maxNameSize →
      committed.store.get? name.text = some ed.encode.2.written
        ∧ Record.has name committed.store key = (ed.contains key, committed.store)
        ∧ Record.Answers name committed.store key (ed.get? key) := by
  intro ed committed done small short
  have coherent : ed.Coherent := (within_runFrom buffer existing name.text calls).coherent
  rcases commit_ok done with ⟨encoded, -, written⟩
  have stored := Record.get?_of_write written
  have canonical := (coherent.encode_ok encoded).1
  have addressable : (encodeRecord ed.properties).length < unsignedBound := by
    rw [← canonical]
    exact Nat.lt_of_le_of_lt small (by decide)
  have here := locateIn_encodeRecord addressable short
  rw [← canonical, properties_eq_listing, ← coherent.get?] at here
  have answers := Record.answers_of_locate (Record.locate_of_get? stored small key) here
  refine ⟨stored, ?_, answers⟩
  rw [answers.has, coherent.isSome_get?]

/-- The number is found behind a key that is too long to be looked for. -/
theorem answers_commit_behind_long_key :
    let name : RecordName := ⟨"r", by decide, by decide⟩
    let store : MemoryStore 1 64 := .empty
    let ed := runFrom (step "r") (openOver (List.replicate 96 0) 0).editor
      [.set ⟨"longer_than_the_longest_key_looked_for", .null⟩, .set ⟨"k", .int 5⟩]
    let committed := ed.commit name store
    committed.result = .ok () ∧ ed.encode.2.written.length = 45
      ∧ Record.getUInt32 name committed.store "k" 0 = (5, committed.store) := by
  intro name store ed committed
  have done : committed.result = .ok () := by decide +kernel
  have size : ed.encode.2.written.length = 45 := by decide +kernel
  have small : ed.encode.2.written.length ≤ lookupWindow := by
    rw [size]
    decide
  have opened : runFrom (step name.text) (openOver (List.replicate 96 0) 0).editor
      [.set ⟨"longer_than_the_longest_key_looked_for", .null⟩, .set ⟨"k", .int 5⟩] = ed := rfl
  have answers := answers_commit store name (List.replicate 96 0) 0
    [.set ⟨"longer_than_the_longest_key_looked_for", .null⟩, .set ⟨"k", .int 5⟩] "k"
  rw [opened] at answers
  refine ⟨done, size, ((answers done small (by decide)).2.2.uint32 0).trans ?_⟩
  exact congrArg (·, committed.store) (by decide +kernel)

end Editor

end PropertyRecord
