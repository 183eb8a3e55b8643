import PropertyRecord.Proofs.Import.Opening
import PropertyRecord.Proofs.Wire.Position

/-!
# What an import can find

The walk over a record takes its properties from the record alone. Each is read at some position:
its key is an item there, and its value is of a kind that a record keeps, so a foreign value is
never taken for a property, and null never stands for anything but null.

Main statement: `properties_openOver`.
-/

namespace PropertyRecord

/-- The property is that of a pair somewhere in the record: an item that is its key, and behind the
item a value that a record keeps. -/
def ComesFrom (record : Bytes) (p : Property) : Prop :=
  ∃ (r atValue next : Reader) (initial : UInt8), r.Over record
    ∧ r.skipItem = .ok atValue ∧ r.text = .ok (p.key, atValue)
    ∧ atValue.peekByte = .ok initial ∧ storable initial = true
    ∧ atValue.value = .ok (p.value, next) ∧ (p.value = .null ↔ initial = nullByte)

namespace Reader.Over

variable {record : Bytes} {r next : Reader}

theorem pair {found : Option Property} (inside : Over record r)
    (paired : r.pair = .ok (found, next)) : Over record next := by
  cases found with
  | none =>
    rcases exists_of_pair_none paired with ⟨atValue, initial, skipped, -, -, passed⟩
    exact (inside.skipItem skipped).skipItem passed
  | some p =>
    rcases exists_of_pair_some paired with ⟨atValue, initial, skipped, -, -, -, read⟩
    exact (inside.skipItem skipped).skipItem (skipItem_of_value read)

theorem comesFrom {p : Property} (inside : Over record r)
    (paired : r.pair = .ok (some p, next)) : ComesFrom record p := by
  rcases exists_of_pair_some paired with ⟨atValue, initial, skipped, peeked, kept, named, read⟩
  exact ⟨r, atValue, next, initial, inside, skipped, named, peeked, kept, read,
    value_eq_null_iff read peeked⟩

end Reader.Over

namespace Walk

theorem comesFrom_ofPairs {record : Bytes} {limit count : Nat} {r : Reader} {imported : Listing}
    (inside : r.Over record) (known : ∀ p ∈ imported, ComesFrom record p) :
    ∀ p ∈ (ofPairs limit count r imported).imported, ComesFrom record p := by
  fun_induction ofPairs limit count r imported with
  | case1 r imported => exact known
  | case2 count r imported full => exact known
  | case3 count r imported vacant next paired ih => exact ih (inside.pair paired) known
  | case4 count r imported vacant p next paired fits ih =>
    apply ih (inside.pair paired)
    intro q member
    rw [List.mem_append, List.mem_singleton] at member
    rcases member with earlier | rfl
    · exact known q earlier
    · exact inside.comesFrom paired
  | case5 count r imported vacant p next paired large => exact known
  | case6 count r imported vacant fault broken => exact known

theorem comesFrom_ofRecord {capacity : Nat} {record : Bytes} {p : Property}
    (member : p ∈ (ofRecord capacity record).properties) : ComesFrom record p := by
  have imported := Listing.mem_of_mem_merge member
  rw [ofRecord] at imported
  split at imported
  next => contradiction
  next count next header =>
    have inside := (Reader.Over.ofBytes record).readMapHeader header
    exact comesFrom_ofPairs inside (fun _ none => absurd none List.not_mem_nil) p imported

end Walk

namespace Editor

/-- What an editor shows when it is opened, over whatever bytes, are the properties that the walk
over the record comes to, and each of them is one of the record's. -/
theorem properties_openOver (buffer : Bytes) (existing : Nat) :
    let record := buffer.take (min existing buffer.length)
    let opened := (openOver buffer existing).editor
    opened.properties = (Walk.ofRecord buffer.length record).properties
      ∧ ∀ p ∈ opened.properties, ComesFrom record p := by
  intro record opened
  have shown : opened.properties = (Walk.ofRecord buffer.length record).properties := by
    rw [(opens_openOver buffer existing).refines.properties, Table.listing_map_some]
  refine ⟨shown, ?_⟩
  intro p member
  rw [shown] at member
  exact Walk.comesFrom_ofRecord member

end Editor

end PropertyRecord
