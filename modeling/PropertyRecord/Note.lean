import PropertyRecord.Fault

/-!
# Notes

What an edit reports on the side: that it started without a record, which values it passed over,
where the import ended, and that a commit failed.
-/

namespace PropertyRecord

/-- The things that an edit reports. -/
inductive Note where
  | missing (record : String)
  | foreign (offset : Nat)
  | importStopped (record : String) (count : Nat) (fault : Fault)
  | commitFailed (record : String) (fault : Fault)
  deriving DecidableEq

/-- The text of a note, with its level in front. -/
def Note.render : Note → String
  | missing record => s!"DEBUG record {record} not found, starting empty"
  | foreign offset => s!"TRACE skipping foreign value at offset {offset}"
  | importStopped record count fault =>
    s!"DEBUG import of {record} stopped after {count} properties: {fault.message}"
  | commitFailed record fault => s!"WARN commit of {record} failed: {fault.message}"

end PropertyRecord
