import PropertyRecord.Limits
import PropertyRecord.Text

/-!
# Record names

A record name has 1 to 32 bytes.
-/

namespace PropertyRecord

/-- A valid record name. -/
structure RecordName where
  text : String
  nonempty : text ≠ ""
  short : (utf8 text).length ≤ maxNameSize

namespace RecordName

/-- A text as a record name. -/
def ofString (text : String) : Except Fault RecordName :=
  if nonempty : text ≠ "" then
    if short : (utf8 text).length ≤ maxNameSize then .ok ⟨text, nonempty, short⟩
    else .error .badName
  else .error .badName

end RecordName

end PropertyRecord
