import PropertyRecord.Proofs.Editor.Reached
import PropertyRecord.Proofs.Wire.Writing
import PropertyRecord.Record.Basic

/-!
# What a commit stores

A commit that succeeds stores one record: the canonical one with the properties that the editor
shows. It was written in front of the arena, so record and arena fit into the buffer together, and
that they do is all that the encoding needs.

Main statements: `Coherent.writes_writeLive`, `Coherent.encode_ok`, `Coherent.encode_of_le` and
`commit_ok`.
-/

namespace PropertyRecord

namespace Editor

variable {ed : Editor}

/-- Entries are written as the properties that they hold. -/
theorem writes_writeEntries {a : Arena} {entries : List Entry} {ps : Listing}
    (held : List.Forall₂ a.Holds entries ps) :
    Writer.Writes (writeEntries a entries) (ps.flatMap Property.encode) := by
  induction held with
  | nil => exact .nothing
  | @cons entry p entries ps holds _ ih =>
    rw [writeEntries, holds.propertyAt, List.flatMap_cons]
    exact (Writer.Writes.write p).bind ih

namespace Coherent

/-- The properties are written as the canonical record. -/
theorem writes_writeLive (coherent : ed.Coherent) :
    Writer.Writes ed.writeLive (encodeRecord ed.properties) := by
  rw [encodeRecord, coherent.properties, ← coherent.count]
  exact (Writer.Writes.beginMap ed.count).bind (writes_writeEntries coherent.shows.entries)

theorem remaining_front (a : Arena) :
    (Writer.ofBuffer a.front).remaining = a.capacity - a.used := by
  rw [Writer.remaining, Writer.ofBuffer, Arena.length_front, Arena.capacity, Arena.used,
    Nat.add_sub_cancel]

/-- The properties are encoded if the canonical record fits in front of the arena. -/
theorem encode_of_le (coherent : ed.Coherent)
    (room : (encodeRecord ed.properties).length + ed.arena.used ≤ ed.arena.capacity) :
    ed.encode.1 = .ok () := by
  have fits := Nat.le_sub_of_add_le room
  rw [← remaining_front] at fits
  rw [encode, coherent.writes_writeLive.of_le _ fits]

/-- The properties are not encoded if the canonical record does not fit in front of the arena. -/
theorem encode_of_lt (coherent : ed.Coherent)
    (large : ed.arena.capacity < (encodeRecord ed.properties).length + ed.arena.used) :
    ed.encode.1 = .error .exhausted := by
  apply coherent.writes_writeLive.of_lt
  have inside : ed.arena.used ≤ ed.arena.capacity := Nat.le_add_left ..
  rw [remaining_front]
  omega

/-- Whether the canonical record fits in front of the arena is all that decides an encoding. -/
theorem encode_eq (coherent : ed.Coherent) :
    ed.encode.1 = if (encodeRecord ed.properties).length + ed.arena.used ≤ ed.arena.capacity
      then .ok () else .error .exhausted := by
  split
  next fits => exact coherent.encode_of_le fits
  next large => exact coherent.encode_of_lt (Nat.lt_of_not_le large)

/-- The bytes in front of the arena after an encoding are the canonical record. -/
theorem encode_ok (coherent : ed.Coherent) (done : ed.encode.1 = .ok ()) :
    ed.encode.2.written = encodeRecord ed.properties
      ∧ ed.encode.2.written.length + ed.arena.used ≤ ed.arena.capacity := by
  have room : (encodeRecord ed.properties).length + ed.arena.used ≤ ed.arena.capacity := by
    by_contra large
    rw [coherent.encode_of_lt (Nat.lt_of_not_le large)] at done
    cases done
  have fits := Nat.le_sub_of_add_le room
  rw [← remaining_front] at fits
  have encoded : ed.encode.2.written = encodeRecord ed.properties := by
    rw [encode, coherent.writes_writeLive.of_le _ fits]
    rfl
  exact ⟨encoded, encoded.symm ▸ room⟩

end Coherent

/-- After an encoding that succeeded a commit is the write of the record. -/
theorem commit_of_encode {σ : Type} [RecordStore σ] (name : RecordName) (store : σ)
    (encoded : ed.encode.1 = .ok ()) :
    ((ed.commit name store).result, (ed.commit name store).store)
      = Record.write name store ed.encode.2.written := by
  simp only [commit, encoded]

/-- A commit that succeeds has stored what it encoded, and that is not too long for a record. -/
theorem commit_ok {σ : Type} [RecordStore σ] {name : RecordName} {store : σ}
    (done : (ed.commit name store).result = .ok ()) :
    ed.encode.1 = .ok () ∧ ed.encode.2.written.length ≤ maxRecordSize
      ∧ Record.write name store ed.encode.2.written = (.ok (), (ed.commit name store).store) := by
  simp only [commit] at done ⊢
  cases encoded : ed.encode.1 with
  | error fault =>
    simp only [encoded] at done
    cases done
  | ok =>
    simp only [encoded] at done ⊢
    refine ⟨trivial, ?_, ?_⟩
    · by_contra long
      rw [Record.write, if_pos (Nat.lt_of_not_le long)] at done
      cases done
    · exact Prod.ext done rfl

end Editor

end PropertyRecord
