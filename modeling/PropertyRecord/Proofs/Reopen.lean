import PropertyRecord.Proofs.Editor.Encoding
import PropertyRecord.Proofs.Import.Canonical
import PropertyRecord.Store.Memory

/-!
# Commit and reopen

What an editor commits, the next editor opens: the same properties in the same order, whatever the
first one was opened over and whatever was done with it. The budget of half a buffer and the room
that the record leaves both suffice for the import, because the arena that held the properties
before lay in the same budget and beside the same record.

Main statement: `reopen_commit`.
-/

namespace PropertyRecord

namespace Editor

/-- A record in front of an arena leaves room for the copies of its properties. -/
theorem Coherent.footprint_le_limit {ed : Editor} {capacity : Nat} {record : Bytes}
    (coherent : ed.Coherent) (longer : ed.arena.capacity ≤ capacity)
    (beside : record.length + ed.arena.used ≤ ed.arena.capacity) :
    Listing.footprint ed.properties ≤ Walk.limit capacity record := by
  -- The live properties are among the bytes handed out, which lie in half of the old buffer and
  -- beside the record.
  have charged := coherent.charged
  have half := coherent.within
  rw [Arena.budget] at half
  rw [coherent.properties, Walk.limit]
  omega

/-- An editor opened over a canonical record for which there is room shows its properties and has
handed out nothing else. -/
theorem opens_encodeRecord {ps : Listing} (rest : Bytes) (distinct : (Listing.keys ps).Nodup)
    (short : ps.length ≤ maxProperties) (small : (encodeRecord ps).length < unsignedBound)
    (room : Listing.footprint ps
      ≤ Walk.limit (encodeRecord ps ++ rest).length (encodeRecord ps)) :
    let reopened := (openOver (encodeRecord ps ++ rest) (encodeRecord ps).length).editor
    reopened.properties = ps.map Property.reread
      ∧ reopened.arena.used = Listing.footprint ps := by
  intro reopened
  have opens := opens_openOver_append (encodeRecord ps) rest
  rw [Walk.ofRecord_encodeRecord distinct short small room] at opens
  have again : (Listing.keys (ps.map Property.reread)).Nodup := by
    rw [Listing.keys_map_reread]
    exact distinct
  constructor
  · rw [opens.refines.properties, Table.listing_map_some, Walk.properties,
      Listing.merge_of_nodup again]
  · rw [opens.charged, Listing.footprint_map_reread, Nat.add_zero]

/-- A commit that succeeds loses nothing. In any buffer at least as long as the one of the edit, an
editor opened over the record stored shows the properties that were committed, except that an
integer that is not negative has become unsigned, and it has handed out no more than their bytes. -/
theorem reopen_commit {σ : Type} [RecordStore σ] (name : RecordName) (store : σ) (buffer : Bytes)
    (existing : Nat) (calls : List Call) (rest : Bytes) :
    let ed := runFrom (step name.text) (openOver buffer existing).editor calls
    let record := ed.encode.2.written
    let reopened := (openOver (record ++ rest) record.length).editor
    (ed.commit name store).result = .ok () → buffer.length ≤ (record ++ rest).length →
      Record.write name store record = (.ok (), (ed.commit name store).store)
        ∧ record = encodeRecord ed.properties
        ∧ reopened.properties = ed.properties.map Property.reread
        ∧ reopened.arena.used = Listing.footprint ed.properties
        ∧ reopened.arena.used ≤ ed.arena.used := by
  intro ed record reopened committed longer
  have within : ed.Within buffer.length := within_runFrom buffer existing name.text calls
  have coherent := within.coherent
  rcases commit_ok committed with ⟨encoded, size, stored⟩
  rcases coherent.encode_ok encoded with ⟨written, beside⟩
  have canonical : record = encodeRecord ed.properties := written
  have distinct : (Listing.keys ed.properties).Nodup := by
    rw [coherent.properties]
    exact coherent.distinct
  have short : ed.properties.length ≤ maxProperties := by
    rw [coherent.properties]
    exact Nat.le_trans (Table.length_listing_le ed.table) coherent.short
  have small : record.length < unsignedBound := Nat.lt_of_le_of_lt size (by decide)
  have room : Listing.footprint ed.properties ≤ Walk.limit (record ++ rest).length record :=
    coherent.footprint_le_limit (within.capacity ▸ longer) beside
  have charged : Listing.footprint ed.properties ≤ ed.arena.used := by
    rw [coherent.properties]
    exact coherent.charged
  have opened := opens_encodeRecord rest distinct short (canonical ▸ small) (canonical ▸ room)
  rw [← canonical] at opened
  exact ⟨stored, canonical, opened.1, opened.2, opened.2.symm ▸ charged⟩

/-- One property, which was an integer and is unsigned when it comes back. -/
theorem reopen_commit_int :
    let name : RecordName := ⟨"r", by decide, by decide⟩
    let store : MemoryStore 1 64 := .empty
    let ed := runFrom (step "r") (openOver (List.replicate 16 0) 0).editor
      [.set ⟨"a", .text "x"⟩, .set ⟨"b", .int 5⟩, .remove "a"]
    let record := ed.encode.2.written
    (ed.commit name store).result = .ok ()
      ∧ (openOver (record ++ List.replicate 12 0) record.length).editor.properties
        = [⟨"b", .uint 5⟩] := by
  intro name store ed record
  have committed : (ed.commit name store).result = .ok () := by decide
  have reopened := reopen_commit name store (List.replicate 16 0) 0
    [.set ⟨"a", .text "x"⟩, .set ⟨"b", .int 5⟩, .remove "a"] (List.replicate 12 0) committed
    (by decide)
  exact ⟨committed, reopened.2.2.1.trans (by decide)⟩

end Editor

end PropertyRecord
