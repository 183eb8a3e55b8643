import PropertyRecord.Record.Lookup
import PropertyRecord.Store.Memory

/-!
# Records in memory

What the calls on a record come to in a store in memory. A valid name is never in the way, so a
write succeeds if the record is there already and the data is not too long, and what was written is
what the next call reads.

Main statements: `write_eq`, `load_of_get?`, `write_of_get?`, `get?_of_write` and `locate_of_get?`.
-/

namespace PropertyRecord

variable {recordLimit dataLimit : Nat} {store next : MemoryStore recordLimit dataLimit}
  {record data out : Bytes}

/-- Putting what is there already changes nothing. -/
theorem MemoryStore.put_of_get? {name : String} (stored : store.get? name = some data) :
    store.put ⟨name, data⟩ = store := by
  obtain ⟨records⟩ := store
  have same : place ⟨name, data⟩ records = records := by
    induction records with
    | nil => cases stored
    | cons old records ih =>
      rw [place]
      rw [get?, List.find?_cons] at stored
      by_cases named : old.name = name
      · rw [beq_iff_eq.2 named] at stored
        cases stored
        rw [if_pos named, ← named]
      · rw [beq_eq_false_iff_ne.2 named] at stored
        rw [if_neg named, ih stored]
  exact congrArg MemoryStore.mk same

namespace Record

variable {name : RecordName}

theorem read_of_le (stored : store.get? name.text = some record)
    (fits : record.length ≤ out.length) :
    read name store out = (⟨.ok record.length, Bytes.overlay record out⟩, store) := by
  have filled : store.read name.text out = ⟨.ok record.length, Bytes.overlay record out⟩ := by
    rw [MemoryStore.read, stored]
    exact if_pos fits
  exact congrArg (·, store) filled

theorem read_of_lt (stored : store.get? name.text = some record)
    (large : out.length < record.length) :
    read name store out = (⟨.error .exhausted, out⟩, store) := by
  have filled : store.read name.text out = ⟨.error .exhausted, out⟩ := by
    rw [MemoryStore.read, stored]
    exact if_neg (Nat.not_le_of_lt large)
  exact congrArg (·, store) filled

/-- A record that could be loaded is at the front of the buffer. -/
theorem load_of_get? {length : Nat} (stored : store.get? name.text = some record)
    (loaded : (load name store out).length = .ok length) :
    record.length ≤ out.length
      ∧ load name store out = ⟨.ok record.length, Bytes.overlay record out, [], store⟩ := by
  by_cases fits : record.length ≤ out.length
  · refine ⟨fits, ?_⟩
    rw [load, read_of_le stored fits]
  · rw [load, read_of_lt stored (Nat.lt_of_not_le fits)] at loaded
    cases loaded

/-- A record is replaced or added if it is not too long and has a place. A valid name is never in
the way. -/
theorem write_eq (name : RecordName) (store : MemoryStore recordLimit dataLimit) (data : Bytes) :
    write name store data
      = if data.length ≤ min dataLimit maxRecordSize
            ∧ (store.contains name.text = true ∨ store.count < recordLimit) then
          (.ok (), store.put ⟨name.text, data⟩)
        else (.error .exhausted, store) := by
  have valid : ¬ (name.text = "" ∨ maxNameSize < (utf8 name.text).length) :=
    not_or.2 ⟨name.nonempty, Nat.not_lt_of_le name.short⟩
  have written : RecordStore.write store name.text data = store.write name.text data := rfl
  by_cases small : data.length ≤ min dataLimit maxRecordSize
  · have short : ¬ maxRecordSize < data.length := by omega
    rw [write, if_neg short, written, MemoryStore.write_eq, if_neg valid,
      if_neg (Nat.not_lt_of_le small)]
    cases store.contains name.text with
    | true => simp [small]
    | false =>
      by_cases full : recordLimit ≤ store.count
      · simp [full, Nat.not_lt_of_le full]
      · simp [full, small, Nat.lt_of_not_le full]
  · rw [if_neg fun fits => small fits.1, write]
    split
    next => rfl
    next =>
      rw [written, MemoryStore.write_eq, if_neg valid, if_pos (Nat.lt_of_not_le small)]

/-- A record that is there can be replaced by any that is not too long. -/
theorem write_of_get? (stored : store.get? name.text = some record)
    (small : data.length ≤ min dataLimit maxRecordSize) :
    write name store data = (.ok (), store.put ⟨name.text, data⟩) := by
  have contained : store.contains name.text = true := by
    rw [MemoryStore.contains_eq_isSome_get?, stored, Option.isSome_some]
  rw [write_eq, if_pos ⟨small, .inl contained⟩]

/-- A write that succeeded has stored the data under the name. -/
theorem get?_of_write (written : write name store data = (.ok (), next)) :
    next.get? name.text = some data := by
  rw [write_eq] at written
  split at written
  next =>
    cases written
    exact MemoryStore.get?_put_self store ⟨name.text, data⟩
  next => cases written

theorem length_le_of_write (written : write name store data = (.ok (), next)) :
    data.length ≤ min dataLimit maxRecordSize := by
  rw [write_eq] at written
  split at written
  next fits => exact fits.1
  next => cases written

/-- A lookup walks the whole record if it fits in the window. -/
theorem locate_of_get? (stored : store.get? name.text = some record)
    (small : record.length ≤ lookupWindow) (key : String) :
    locate name store key = (locateIn record key, store) := by
  have window : record.length ≤ (List.replicate lookupWindow (0 : UInt8)).length := by
    rw [List.length_replicate]
    exact small
  rw [locate, read_of_le stored window]
  simp only [Bytes.overlay, List.take_left]

end Record

end PropertyRecord
