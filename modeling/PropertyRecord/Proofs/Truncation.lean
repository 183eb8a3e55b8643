import PropertyRecord.Proofs.Import.Canonical
import PropertyRecord.Proofs.Wire.Grammar
import PropertyRecord.Proofs.Wire.RoundTrip

/-!
# Truncated records

A canonical record of which only the first bytes are left still has its complete pairs, and an
editor shows these and no others. The import walks over them as it would over the whole record, and
a pair that was cut is no pair: if its bytes could be skipped as a key and a value, then so could
they in the whole record, where they end behind the cut.

Main statement: `properties_openOver_take`.
-/

namespace PropertyRecord

/-! ## Pairs in front of a cut -/

namespace Listing

/-- The length of a record with these properties up to the end of the pair at an index. -/
def endOf (ps : Listing) (index : Nat) : Nat :=
  (encodeMapHeader ps.length).length + ((ps.take (index + 1)).flatMap Property.encode).length

/-- The number of pairs of a record with these properties that lie in its first `size` bytes. -/
def completeWithin (ps : Listing) (size : Nat) : Nat :=
  (List.range ps.length).countP fun index => ps.endOf index ≤ size

/-- The number of properties, one encoded behind the other, that lie in the first `size` bytes. -/
def wholeIn (size : Nat) : Listing → Nat
  | [] => 0
  | p :: ps => if p.encode.length ≤ size then wholeIn (size - p.encode.length) ps + 1 else 0

theorem countP_range_eq_wholeIn (size : Nat) (ps : Listing) :
    ((List.range ps.length).countP fun index =>
        ((ps.take (index + 1)).flatMap Property.encode).length ≤ size)
      = wholeIn size ps := by
  induction ps generalizing size with
  | nil => rfl
  | cons p ps ih =>
    rw [List.length_cons, List.range_succ_eq_map, List.countP_cons, List.countP_map, wholeIn]
    simp only [Function.comp_def, List.take_succ_cons, List.flatMap_cons, List.length_append,
      Nat.succ_eq_add_one, List.take_zero, List.flatMap_nil, List.length_nil, Nat.add_zero]
    by_cases whole : p.encode.length ≤ size
    · have shifted (n : Nat) : p.encode.length + n ≤ size ↔ n ≤ size - p.encode.length := by omega
      simp only [shifted, ih, whole, if_true, decide_true]
    · have beyond (n : Nat) : ¬ p.encode.length + n ≤ size := by omega
      simp only [beyond, whole, if_false, decide_false, List.countP_false, Bool.false_eq_true]
      rfl

theorem completeWithin_eq {ps : Listing} {size : Nat}
    (header : (encodeMapHeader ps.length).length ≤ size) :
    ps.completeWithin size = wholeIn (size - (encodeMapHeader ps.length).length) ps := by
  have shifted (n : Nat) : (encodeMapHeader ps.length).length + n ≤ size
      ↔ n ≤ size - (encodeMapHeader ps.length).length := by omega
  simp only [completeWithin, endOf, shifted, countP_range_eq_wholeIn]

theorem completeWithin_of_lt {ps : Listing} {size : Nat}
    (header : size < (encodeMapHeader ps.length).length) : ps.completeWithin size = 0 := by
  have beyond (n : Nat) : ¬ (encodeMapHeader ps.length).length + n ≤ size := by omega
  simp only [completeWithin, endOf, beyond, decide_false, List.countP_false]
  rfl

end Listing

/-! ## The walk up to a cut -/

/-- The first bytes of a pair are not a pair. -/
theorem Reader.pair_take_ne_ok {p : Property} {size : Nat} (cut : size < p.encode.length)
    (keySmall : (utf8 p.key).length < unsignedBound)
    (payloadSmall : p.value.payload.length < unsignedBound) (pos : Nat)
    (found : Option Property) (next : Reader) :
    (⟨pos, p.encode.take size⟩ : Reader).pair ≠ .ok (found, next) := by
  intro paired
  rcases exists_of_pair paired with ⟨atValue, key, value⟩
  -- With the bytes behind the cut the same two items are skipped, which leave these bytes over.
  have key' := skipItem_append key (p.encode.drop size)
  have value' := skipItem_append value (p.encode.drop size)
  have whole := pair_encode pos [] keySmall payloadSmall
  rw [List.append_nil] at whole
  rcases exists_of_pair whole with ⟨atValue', skipped, last⟩
  simp only [List.take_append_drop] at key'
  cases key'.symm.trans skipped
  have same := Except.ok.inj (value'.symm.trans last)
  have left : next.rest ++ p.encode.drop size = [] := congrArg Reader.rest same
  have nothing := List.drop_eq_nil_iff.1 (List.append_eq_nil_iff.1 left).2
  exact Nat.not_lt_of_le nothing cut

namespace Walk

variable {limit : Nat} {done ps : Listing}

/-- A pair that is not complete ends a walk. -/
theorem imported_ofPairs_of_broken {count : Nat} {r : Reader} {imported : Listing}
    (broken : ∀ found next, r.pair ≠ .ok (found, next)) :
    (ofPairs limit count r imported).imported = imported := by
  cases count with
  | zero => rfl
  | succ count =>
    rw [ofPairs]
    split
    next => rfl
    next =>
      cases paired : r.pair with
      | error => rfl
      | ok found => exact absurd paired (broken found.1 found.2)

/-- The pairs in front of the cut are imported one by one, and at the cut the walk ends. -/
theorem imported_ofPairs_take (pos size : Nat) (short : done.length + ps.length ≤ maxProperties)
    (distinct : (Listing.keys (done ++ ps.map Property.reread)).Nodup)
    (room : Listing.footprint done + Listing.footprint ps ≤ limit)
    (small : Listing.footprint ps < unsignedBound) :
    (ofPairs limit ps.length ⟨pos, (ps.flatMap Property.encode).take size⟩ done).imported
      = done ++ (ps.take (ps.wholeIn size)).map Property.reread := by
  -- On the properties still to be read, with the bytes that are left of them.
  induction ps generalizing done pos size with
  | nil => simp [ofPairs]
  | cons p ps ih =>
    rw [List.length_cons] at short
    rw [Listing.footprint_cons] at room small
    rw [Property.footprint] at small
    rw [Listing.wholeIn, List.flatMap_cons, List.length_cons]
    by_cases whole : p.encode.length ≤ size
    · have vacant := vacant_of_nodup distinct (by omega)
      have paired := Reader.pair_encode pos
        ((ps.flatMap Property.encode).take (size - p.encode.length)) (p := p) (by omega) (by omega)
      have fits : Listing.footprint done + p.reread.footprint ≤ limit := by
        rw [p.footprint_reread]
        omega
      have longer : (done ++ [p.reread]).length + ps.length ≤ maxProperties := by
        rw [List.length_append, List.length_singleton]
        omega
      have later : Listing.footprint (done ++ [p.reread]) + Listing.footprint ps ≤ limit := by
        rw [Listing.footprint_concat_reread]
        omega
      rw [Listing.append_map_reread_cons] at distinct
      rw [List.take_append, List.take_of_length_le whole, if_pos whole, ofPairs, if_neg vacant,
        paired, List.take_succ_cons, Listing.append_map_reread_cons]
      simp only [fits, if_true]
      exact ih _ _ longer distinct later (by omega)
    · have broken := Reader.pair_take_ne_ok (p := p) (Nat.lt_of_not_le whole) (by omega) (by omega)
        pos
      rw [if_neg whole, List.take_append_of_le_length (by omega), List.take_zero, List.map_nil,
        List.append_nil]
      exact imported_ofPairs_of_broken broken

section

variable {capacity : Nat} (distinct : (Listing.keys ps).Nodup) (short : ps.length ≤ maxProperties)
  (small : (encodeRecord ps).length < unsignedBound)

include distinct short small

/-- The properties of a canonical record that was cut, in a buffer that has room for all of them. -/
theorem properties_ofRecord_take {size : Nat} (cut : size ≤ (encodeRecord ps).length)
    (room : Listing.footprint ps ≤ Walk.limit capacity ((encodeRecord ps).take size)) :
    (ofRecord capacity ((encodeRecord ps).take size)).properties
      = (ps.take (ps.completeWithin size)).map Property.reread := by
  have imported : (ofRecord capacity ((encodeRecord ps).take size)).imported
      = (ps.take (ps.completeWithin size)).map Property.reread := by
    by_cases header : (encodeMapHeader ps.length).length ≤ size
    · have again : (Listing.keys ([] ++ ps.map Property.reread)).Nodup := by
        rw [List.nil_append, Listing.keys_map_reread]
        exact distinct
      have record : (encodeRecord ps).take size = encodeMapHeader ps.length
          ++ (ps.flatMap Property.encode).take (size - (encodeMapHeader ps.length).length) := by
        rw [encodeRecord, List.take_append, List.take_of_length_le header]
      have inline : ps.length < unsignedBound := Nat.lt_of_le_of_lt short (by decide)
      have announced := Reader.readMapHeader_encode 0
        ((ps.flatMap Property.encode).take (size - (encodeMapHeader ps.length).length)) inline
      rw [ofRecord, record, Reader.ofBytes, announced, Listing.completeWithin_eq header]
      rw [record] at room
      exact imported_ofPairs_take _ _ (by rwa [List.length_nil, Nat.zero_add]) again
        (by rwa [Listing.footprint_nil, Nat.zero_add])
        (Nat.lt_of_le_of_lt (Listing.footprint_le_length_encodeRecord ps) small)
    · -- The header of a record this short is one byte, so that nothing is left.
      have single := Listing.length_encodeMapHeader short
      obtain rfl : size = 0 := by omega
      rw [Listing.completeWithin_of_lt (Nat.lt_of_not_le header)]
      rfl
  have again : (Listing.keys ((ps.take (ps.completeWithin size)).map Property.reread)).Nodup := by
    rw [Listing.keys_map_reread, Listing.keys, List.map_take]
    exact distinct.take
  rw [properties, imported, Listing.merge_of_nodup again]

end

end Walk

namespace Editor

/-- A truncated record still has its complete pairs. Take a record of properties with distinct keys
that was written to some buffer, and another buffer in which it is imported without a fault.
Wherever it is cut, in a buffer no shorter than that the editor shows the properties of the pairs in
front of the cut, as they are read back, and nothing else. The length of a buffer is a number of the
machine, which a header has room for. -/
theorem properties_openOver_take {ps : Listing} {out : Bytes} {w : Writer} (tail rest : Bytes)
    (size : Nat) (written : Dialogue Writer.step (.ofBuffer out) ps.writes w)
    (machine : out.length < unsignedBound) (distinct : (Listing.keys ps).Nodup)
    (short : ps.length ≤ maxProperties)
    (whole : (openOver (w.written ++ tail) w.written.length).stop = none)
    (cut : size ≤ w.written.length)
    (longer : (w.written ++ tail).length ≤ (w.written.take size ++ rest).length) :
    (openOver (w.written.take size ++ rest) size).editor.properties
      = (ps.take (ps.completeWithin size)).map Property.reread := by
  rcases Writer.written_of_dialogue_writes written with ⟨canonical, fits⟩
  rw [canonical] at whole cut longer ⊢
  have small := Nat.lt_of_le_of_lt fits machine
  have room := (Walk.whole_encodeRecord_iff distinct short small).1
    ((stop_openOver_append (encodeRecord ps) tail).1 whole)
  have held : ((encodeRecord ps).take size).length = size := List.length_take_of_le cut
  -- A shorter record in a longer buffer leaves more room beside it.
  have wider : Walk.limit (encodeRecord ps ++ tail).length (encodeRecord ps)
      ≤ Walk.limit ((encodeRecord ps).take size ++ rest).length ((encodeRecord ps).take size) := by
    rw [Walk.limit, Walk.limit, held]
    omega
  have opens := opens_openOver_append ((encodeRecord ps).take size) rest
  rw [held] at opens
  rw [opens.refines.properties, Table.listing_map_some]
  exact Walk.properties_ofRecord_take distinct short small cut (Nat.le_trans room wider)

/-- Two pairs in the same buffer, the second of which is cut between its key and its value. -/
theorem properties_openOver_take_two :
    let ps : Listing := [⟨"a", .int 5⟩, ⟨"b", .text "xy"⟩]
    let record : Bytes := [0xa2, 0x61, 0x61, 0x05, 0x61, 0x62, 0x62, 0x78, 0x79]
    ps.completeWithin 6 = 1
      ∧ (openOver (record ++ List.replicate 8 0) 6).editor.properties = [⟨"a", .uint 5⟩] := by
  intro ps record
  have written : Dialogue Writer.step (.ofBuffer record) ps.writes ⟨encodeRecord ps, []⟩ :=
    Writer.dialogue_writes (by decide)
  have cut := properties_openOver_take (List.replicate 8 0) (record.drop 6 ++ List.replicate 8 0) 6
    written (by decide) (by decide) (by decide) (by decide +kernel) (by decide) (by decide)
  have complete : ps.completeWithin 6 = 1 := by decide
  exact ⟨complete, cut⟩

end Editor

end PropertyRecord
