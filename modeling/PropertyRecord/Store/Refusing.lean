import PropertyRecord.Store.Basic

/-!
# A store that refuses

Every read and every write of this store fails, each with a cause of its own. Buffers stay as they
are.
-/

namespace PropertyRecord

/-- A store that refuses every access. -/
structure RefusingStore where
  onRead : Fault
  onWrite : Fault

instance : RecordStore RefusingStore where
  read store _ out := (⟨.error store.onRead, out⟩, store)
  write store _ _ := (.error store.onWrite, store)

instance : LawfulRecordStore RefusingStore where
  length_read _ _ _ := rfl
  le_of_read _ _ _ _ read := by cases read

end PropertyRecord
