import PropertyRecord.Limits
import PropertyRecord.Wire.Reader

/-!
# Skipping an item

An item of any kind can be skipped without knowing what it means: a header, then the bytes of a
string, the items of a container, or the one item of a tag. Nesting is bounded, and a container
that claims more items than there are bytes fails as soon as the bytes run out.
-/

namespace PropertyRecord.Reader

/-- Makes `count` steps, each from where the one before it ended. -/
def repeatedly (advanceOne : Reader → Except Fault Reader) :
    (count : Nat) → Reader → Except Fault Reader
  | 0, r => .ok r
  | count + 1, r =>
    match advanceOne r with
    | .ok next => repeatedly advanceOne count next
    | .error fault => .error fault

/-- The reader after the item, of which no more than `levels` levels may be nested in each other.
The number of levels is looked at before the header. A string may claim any word as its length, and
is malformed only for want of so many bytes. -/
def skipLevels : (levels : Nat) → Reader → Except Fault Reader
  | 0, _ => .error .exhausted
  | levels + 1, r => do
    let header ← r.peekHeader
    let content := r.advance header.size
    match header.major with
    | .unsigned | .negative | .simple => return content
    | .bytes | .text =>
      if Bytes.holds header.argument content.rest then return content.advance header.argument
      else .error .malformed
    | .array => repeatedly (skipLevels levels) header.argument content
    | .map => repeatedly (skipLevels levels) (2 * header.argument) content
    | .tag => skipLevels levels content

/-- The reader after the item, which may have `maxNesting` levels below its outermost one. -/
def skipItem (r : Reader) : Except Fault Reader := skipLevels (maxNesting + 1) r

end PropertyRecord.Reader
