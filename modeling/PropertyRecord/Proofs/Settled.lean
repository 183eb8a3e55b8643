import PropertyRecord.Proofs.Reopen
import PropertyRecord.Proofs.Record.Memory
import PropertyRecord.Proofs.Wire.RoundTrip
import PropertyRecord.Proofs.Wire.Shortest

/-!
# Records that an edit leaves as they are

To open an editor over a record and to commit it again, with no call in between, is to write a
canonical record of the properties that were imported. A record that was encoded from few properties
with distinct keys is this record already, if there is room to import all of them and to encode them
beside their copies. A commit stores no other records, so the first edit of a record settles it,
whatever bytes it was before.

Main statement: `commit_settles`.
-/

namespace PropertyRecord

namespace Editor

variable {capacity : Nat} {ps : Listing} {record : Bytes}

/-- A record of properties with distinct keys, written to some buffer, for which there is room in a
buffer of this length: the copies of keys and payloads take no more than half of it, and they fit
beside the record. -/
structure Settled (capacity : Nat) (ps : Listing) (record : Bytes) : Prop where
  written : ∃ out w, Dialogue Writer.step (.ofBuffer out) ps.writes w ∧ w.written = record
  distinct : (Listing.keys ps).Nodup
  short : ps.length ≤ maxProperties
  fits : record.length ≤ capacity
  half : Listing.footprint ps ≤ capacity / 2
  beside : Listing.footprint ps ≤ capacity - record.length

namespace Settled

theorem canonical (settled : Settled capacity ps record) : record = encodeRecord ps := by
  rcases settled.written with ⟨out, w, dialogue, rfl⟩
  exact (Writer.written_of_dialogue_writes dialogue).1

theorem room (settled : Settled capacity ps record) :
    Listing.footprint ps ≤ Walk.limit capacity record := by
  rw [Walk.limit]
  exact Nat.le_min.2 ⟨settled.half, settled.beside⟩

/-- All the properties of a settled record are imported. -/
theorem imported {rest : Bytes} (settled : Settled (record ++ rest).length ps record)
    (small : record.length < unsignedBound) :
    (openOver (record ++ rest) record.length).stop = none
      ∧ (openOver (record ++ rest) record.length).editor.properties = ps.map Property.reread
      ∧ (openOver (record ++ rest) record.length).editor.arena.used = Listing.footprint ps := by
  have room := settled.room
  obtain rfl := settled.canonical
  have whole := (Walk.whole_encodeRecord_iff settled.distinct settled.short small).2 room
  exact ⟨(stop_openOver_append (encodeRecord ps) rest).2 whole,
    opens_encodeRecord rest settled.distinct settled.short small room⟩

/-- They are encoded to the same bytes: what was read back differently is written the same, and the
record was already in the place that it is encoded to. -/
theorem encode {rest : Bytes} (settled : Settled (record ++ rest).length ps record)
    (small : record.length < unsignedBound) :
    (openOver (record ++ rest) record.length).editor.encode.1 = .ok ()
      ∧ (openOver (record ++ rest) record.length).editor.encode.2.written = record := by
  rcases settled.imported small with ⟨-, properties, used⟩
  have opens := opens_openOver_append record rest
  have coherent := opens.refines.coherent
  have fits := settled.fits
  have beside := settled.beside
  have same :
      encodeRecord (openOver (record ++ rest) record.length).editor.properties = record := by
    rw [properties, encodeRecord_map_reread, settled.canonical]
  have encoded := coherent.encode_of_le (by rw [same, used, opens.capacity]; omega)
  exact ⟨encoded, (coherent.encode_ok encoded).1.trans same⟩

end Settled

/-- What an editor encodes is settled in every buffer as long as its own. -/
theorem Coherent.settled {ed : Editor} (coherent : ed.Coherent)
    (encoded : ed.encode.1 = .ok ()) (longer : ed.arena.capacity ≤ capacity) :
    Settled capacity ed.properties ed.encode.2.written := by
  rcases coherent.encode_ok encoded with ⟨written, beside⟩
  have room := coherent.footprint_le_limit longer beside
  rw [Walk.limit, Nat.le_min] at room
  constructor
  case written =>
    rw [written]
    exact ⟨_, _, Writer.dialogue_writes (Nat.le_refl _), rfl⟩
  case distinct =>
    rw [coherent.properties]
    exact coherent.distinct
  case short => exact coherent.length_properties_le
  case fits => exact Nat.le_trans (Nat.le_of_add_right_le beside) longer
  case half => exact room.1
  case beside => exact room.2

/-- A commit stores what is settled in every buffer as long as that of the edit. -/
theorem settled_of_commit {σ : Type} [RecordStore σ] {name : RecordName} {store : σ}
    {buffer : Bytes} {existing : Nat} {calls : List Call} :
    let ed := runFrom (step name.text) (openOver buffer existing).editor calls
    (ed.commit name store).result = .ok () →
      ed.encode.2.written.length < unsignedBound
        ∧ ∀ capacity, buffer.length ≤ capacity →
          Settled capacity ed.properties ed.encode.2.written := by
  intro ed done
  have within : ed.Within buffer.length := within_runFrom buffer existing name.text calls
  rcases commit_ok done with ⟨encoded, size, -⟩
  refine ⟨Nat.lt_of_le_of_lt size (by decide), fun capacity longer => ?_⟩
  exact within.coherent.settled encoded (within.capacity.symm ▸ longer)

/-! ## Editing in a store -/

variable {recordLimit dataLimit : Nat} {store : MemoryStore recordLimit dataLimit}
  {name : RecordName}

/-- An edit without a change leaves a store in memory as it is if the record that it holds is
settled in the buffer. -/
theorem Settled.edit {buffer : Bytes} (settled : Settled buffer.length ps record)
    (stored : store.get? name.text = some record)
    (small : record.length ≤ min dataLimit maxRecordSize) :
    let loading := Record.load name store buffer
    let committed := (openOver loading.buffer record.length).editor.commit name loading.store
    loading.length = .ok record.length ∧ committed.result = .ok () ∧ committed.store = store := by
  have loaded : Record.load name store buffer
      = ⟨.ok record.length, record ++ buffer.drop record.length, [], store⟩ := by
    rw [Record.load, Record.read_of_le stored settled.fits]
    rfl
  have length : (record ++ buffer.drop record.length).length = buffer.length :=
    Bytes.length_overlay settled.fits
  rw [← length] at settled
  have machine : record.length < unsignedBound :=
    Nat.lt_of_le_of_lt (Nat.le_trans small (Nat.min_le_right _ _)) (by decide)
  intro loading committed
  rcases settled.encode machine with ⟨encoded, same⟩
  have written := commit_of_encode name store encoded
  rw [same, Record.write_of_get? stored small, MemoryStore.put_of_get? stored] at written
  have there : loading = _ := loaded
  clear_value loading
  subst there
  exact ⟨rfl, congrArg Prod.fst written, congrArg Prod.snd written⟩

/-- An edit without a change makes a difference only once. An editor opened over a settled record
imports all its properties and encodes them to the same bytes; the length of a record is a number of
the machine, which a header has room for. A commit that succeeds has stored a record that is settled
in every buffer as long as its own, whatever bytes the editor was opened over and whatever was
called. So every edit after it finds the record that it would write, and leaves the store as it is.
-/
theorem commit_settles :
    (∀ (ps : Listing) (record rest : Bytes), record.length < unsignedBound →
        Settled (record ++ rest).length ps record →
      let opening := openOver (record ++ rest) record.length
      opening.stop = none ∧ opening.editor.properties = ps.map Property.reread
        ∧ opening.editor.count = ps.length
        ∧ opening.editor.encode.1 = .ok () ∧ opening.editor.encode.2.written = record)
      ∧ (∀ {σ : Type} [RecordStore σ] (name : RecordName) (store : σ) (buffer : Bytes)
          (existing : Nat) (calls : List Call),
        let ed := runFrom (step name.text) (openOver buffer existing).editor calls
        let record := ed.encode.2.written
        (ed.commit name store).result = .ok () →
          Record.write name store record = (.ok (), (ed.commit name store).store)
            ∧ (∀ capacity, buffer.length ≤ capacity → Settled capacity ed.properties record)
            ∧ ∀ rest : Bytes, buffer.length ≤ (record ++ rest).length →
              let again := (openOver (record ++ rest) record.length).editor.encode
              again.1 = .ok () ∧ again.2.written = record)
      ∧ ∀ {recordLimit dataLimit : Nat} (name : RecordName)
          (store : MemoryStore recordLimit dataLimit) (buffer : Bytes) (existing : Nat)
          (calls : List Call) (later : Bytes),
        let ed := runFrom (step name.text) (openOver buffer existing).editor calls
        let record := ed.encode.2.written
        let stored := (ed.commit name store).store
        (ed.commit name store).result = .ok () → buffer.length ≤ later.length →
          let loading := Record.load name stored later
          let again := (openOver loading.buffer record.length).editor.commit name loading.store
          loading.length = .ok record.length ∧ again.result = .ok () ∧ again.store = stored := by
  refine ⟨?_, ?_, ?_⟩
  · intro ps record rest small settled opening
    rcases settled.imported small with ⟨stop, properties, -⟩
    have coherent := (opens_openOver_append record rest).refines
    refine ⟨stop, properties, ?_, settled.encode small⟩
    rw [← coherent.length_properties, properties, List.length_map]
  · intro σ _ name store buffer existing calls ed record done
    rcases settled_of_commit done with ⟨small, settled⟩
    exact ⟨(commit_ok done).2.2, settled, fun rest longer => (settled _ longer).encode small⟩
  · intro recordLimit dataLimit name store buffer existing calls later ed record stored done longer
    rcases commit_ok done with ⟨-, -, written⟩
    exact ((settled_of_commit done).2 later.length longer).edit (Record.get?_of_write written)
      (Record.length_le_of_write written)

/-- A record with an integer in a wide header and an array. The first edit of it writes the integer
in a single byte and leaves out the array, and the next one finds its own record. -/
theorem commit_settles_array :
    let name : RecordName := ⟨"r", by decide, by decide⟩
    let buffer : Bytes := [0xa2, 0x61, 0x61, 0x18, 0x05, 0x61, 0x62, 0x80, 0, 0]
    let store : MemoryStore 1 64 := .empty
    let ed := runFrom (step name.text) (openOver buffer 8).editor []
    let record := ed.encode.2.written
    let stored := (ed.commit name store).store
    let loading := Record.load name stored (List.replicate 10 7)
    let canonical : Bytes := [0xa1, 0x61, 0x61, 0x05]
    (openOver (canonical ++ [0, 0]) canonical.length).editor.encode.2.written = canonical
      ∧ record = canonical ∧ (ed.commit name store).result = .ok ()
      ∧ Settled 12 ed.properties record
      ∧ ((openOver loading.buffer record.length).editor.commit name loading.store).store
        = stored := by
  intro name buffer store ed record stored loading canonical
  have done : (ed.commit name store).result = .ok () := by decide +kernel
  have written : record = canonical := by decide +kernel
  have settled : Settled 6 [⟨"a", .int 5⟩] canonical :=
    ⟨⟨List.replicate 4 0, _, Writer.dialogue_writes (by decide), by decide⟩, by decide, by decide,
      by decide, by decide, by decide⟩
  rcases commit_settles with ⟨unchanged, settles, again⟩
  have same := unchanged [⟨"a", .int 5⟩] canonical [0, 0] (by decide) settled
  have conditions := (settles name store buffer 8 [] done).2.1 12 (by decide)
  have kept := again name store buffer 8 [] (List.replicate 10 7) done (by decide)
  with_reducible exact ⟨same.2.2.2.2, written, done, conditions, kept.2.2⟩

end Editor

end PropertyRecord
