import PropertyRecord.Proofs.Editor.Encoding
import PropertyRecord.Proofs.Record.Memory
import PropertyRecord.Session.Calls

/-!
# A commit is all or nothing

The record is encoded in front of the arena and only then handed to the store. So an encoding that
does not fit, wherever among the properties it stops, and a record that the store does not take
leave the store as it was; every other commit stores the whole record.

Main statements: `Coherent.commit_cases` says what a commit to a store in memory comes to, and
`commit_all_or_nothing` says it of every editor that calls can reach.
-/

namespace PropertyRecord

namespace Editor

variable {ed : Editor}

namespace Coherent

/-- A commit to a store in memory either has all the room that the record needs and stores it, or it
fails and changes nothing. -/
theorem commit_cases {recordLimit dataLimit : Nat} (coherent : ed.Coherent) (name : RecordName)
    (store : MemoryStore recordLimit dataLimit) :
    let record := encodeRecord ed.properties
    let room := record.length ≤ ed.arena.capacity - ed.arena.used
      ∧ record.length ≤ min dataLimit maxRecordSize
      ∧ (store.contains name.text = true ∨ store.count < recordLimit)
    (room ∧ (ed.commit name store).result = .ok ()
        ∧ (ed.commit name store).store = store.put ⟨name.text, record⟩)
      ∨ (¬ room ∧ (ed.commit name store).result = .error .exhausted
        ∧ (ed.commit name store).store = store) := by
  intro record room
  have inside : ed.arena.used ≤ ed.arena.capacity := Nat.le_add_left ..
  by_cases front : record.length + ed.arena.used ≤ ed.arena.capacity
  · have encoded := coherent.encode_of_le front
    have written := commit_of_encode name store encoded
    rw [(coherent.encode_ok encoded).1, Record.write_eq] at written
    have before : record.length ≤ ed.arena.capacity - ed.arena.used := by omega
    split at written
    next fits => exact .inl ⟨⟨before, fits⟩, Prod.mk.inj written⟩
    next refused => exact .inr ⟨fun fits => refused fits.2, Prod.mk.inj written⟩
  · have stopped := coherent.encode_of_lt (Nat.lt_of_not_le front)
    have behind : ¬ record.length ≤ ed.arena.capacity - ed.arena.used := by omega
    refine .inr ⟨fun fits => behind fits.1, ?_⟩
    simp only [commit, stopped, and_self]

end Coherent

end Editor

/-! ## Dropping -/

section Dropping

variable {recordLimit dataLimit : Nat}

/-- Loading a record leaves a store in memory as it is. -/
theorem Record.store_load (name : RecordName) (store : MemoryStore recordLimit dataLimit)
    (buffer : Bytes) : (load name store buffer).store = store := by
  have reading : read name store buffer = (store.read name.text buffer, store) := rfl
  rw [load, reading]
  simp only
  split <;> rfl

/-- An editor that is dropped leaves no trace. -/
theorem Session.stepRecord_edit_dropped (name : RecordName)
    (store : MemoryStore recordLimit dataLimit) (buffer : Bytes) (calls : List Editor.Call) :
    (stepRecord name store (.edit buffer calls false)).2 = store := by
  have kept := Record.store_load name store buffer
  rw [stepRecord]
  cases loaded : (Record.load name store buffer).length with
  | error fault => exact kept
  | ok length => exact kept

end Dropping

/-- A commit writes exactly the live properties or nothing. Whatever buffer an editor was opened
over and whatever calls were made on it, its commit succeeds exactly if the map header and the
encoded properties fit in front of the arena, are not too long for a record, and the record is there
or has a place. Then they are the record, and no other record changes; otherwise, and if the editor
is dropped, the store is what it was. -/
theorem commit_all_or_nothing {recordLimit dataLimit : Nat}
    (store : MemoryStore recordLimit dataLimit) (name : RecordName) (buffer : Bytes)
    (existing : Nat) (calls : List Editor.Call) :
    let ed := runFrom (Editor.step name.text) (Editor.openOver buffer existing).editor calls
    let record := encodeMapHeader ed.count ++ ed.properties.flatMap Property.encode
    let committed := ed.commit name store
    (committed.result = .ok () ↔
        record.length ≤ buffer.length - ed.arena.used
          ∧ record.length ≤ min dataLimit maxRecordSize
          ∧ (store.contains name.text = true ∨ store.count < recordLimit))
      ∧ (committed.result = .ok () →
          committed.store.get? name.text = some record
            ∧ ∀ other, other ≠ name.text → committed.store.get? other = store.get? other)
      ∧ (committed.result ≠ .ok () →
          committed.result = .error .exhausted ∧ committed.store = store)
      ∧ (Session.stepRecord name store (.edit buffer calls false)).2 = store
      ∧ (Session.stepRecord name store (.editOver buffer existing calls false)).2 = store := by
  intro ed record committed
  have within := Editor.within_runFrom buffer existing name.text calls
  have coherent : ed.Coherent := within.coherent
  have capacity : ed.arena.capacity = buffer.length := within.capacity
  have canonical : encodeRecord ed.properties = record := by
    rw [encodeRecord, coherent.properties, ← coherent.count, ← coherent.properties]
  have dropped := Session.stepRecord_edit_dropped name store buffer calls
  have outcome := coherent.commit_cases name store
  simp only [canonical, capacity] at outcome
  rcases outcome with ⟨room, done, stored⟩ | ⟨noRoom, failed, kept⟩
  · refine ⟨iff_of_true done room, fun _ => ?_, fun fails => absurd done fails, dropped, rfl⟩
    rw [show committed.store = _ from stored]
    exact ⟨MemoryStore.get?_put_self store ⟨name.text, record⟩,
      fun _ apart => MemoryStore.get?_put_of_ne store apart⟩
  · have fails : committed.result ≠ .ok () := by
      intro done
      rw [show committed.result = _ from failed] at done
      cases done
    exact ⟨iff_of_false fails noRoom, fun done => absurd done fails, fun _ => ⟨failed, kept⟩,
      dropped, rfl⟩

end PropertyRecord
