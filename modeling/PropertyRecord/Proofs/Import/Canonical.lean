import PropertyRecord.Proofs.Import.Complete
import PropertyRecord.Proofs.Wire.Size

/-!
# Walking a canonical record

The walk over a canonical record comes to its properties, each as it is read back, exactly if there
is room for all of them.

Main statements: `Walk.whole_encodeRecord_iff` and `Walk.ofRecord_encodeRecord`.
-/

namespace PropertyRecord

/-! ## Properties as they are read back -/

theorem Value.payload_reread (v : Value) : v.reread.payload = v.payload := by
  cases v with
  | int i =>
    rw [reread]
    split
    next => rfl
    next => rfl
  | null | bool | uint | double | text | bytes => rfl

theorem Property.footprint_reread (p : Property) : p.reread.footprint = p.footprint := by
  rw [footprint, footprint, reread, Value.payload_reread]

namespace Listing

theorem keys_map_reread (ps : Listing) : keys (ps.map Property.reread) = keys ps := by
  rw [keys, List.map_map, keys]
  rfl

theorem footprint_map_reread (ps : Listing) :
    footprint (ps.map Property.reread) = footprint ps := by
  induction ps with
  | nil => rfl
  | cons p ps ih => rw [List.map_cons, footprint_cons, ih, p.footprint_reread, footprint_cons]

theorem append_map_reread_cons (done : Listing) (p : Property) (ps : Listing) :
    done ++ (p :: ps).map Property.reread = (done ++ [p.reread]) ++ ps.map Property.reread := by
  rw [List.map_cons, List.append_assoc, List.singleton_append]

theorem footprint_concat_reread (done : Listing) (p : Property) :
    footprint (done ++ [p.reread]) = footprint done + p.footprint := by
  rw [footprint_append, footprint_cons, p.footprint_reread, footprint_nil, Nat.add_zero]

end Listing

/-! ## The walk -/

namespace Walk

variable {limit capacity : Nat} {done ps result : Listing}

/-- As long as not all slots are taken, listed properties with distinct keys leave one for the
next. -/
theorem vacant_of_nodup {later : Listing} (distinct : (Listing.keys (done ++ later)).Nodup)
    (short : done.length < maxProperties) : ¬ maxProperties ≤ (Listing.merge done).length := by
  rw [Listing.keys_append, List.nodup_append] at distinct
  rw [Listing.merge_of_nodup distinct.1]
  exact Nat.not_le_of_lt short

/-- The pairs of a canonical record are imported one by one, behind those imported before, exactly
if there is room for all of them. -/
theorem completes_encode_iff (pos : Nat) (short : done.length + ps.length ≤ maxProperties)
    (distinct : (Listing.keys (done ++ ps.map Property.reread)).Nodup)
    (within : Listing.footprint done ≤ limit) (small : Listing.footprint ps < unsignedBound) :
    Completes limit ps.length ⟨pos, ps.flatMap Property.encode⟩ done result
      ↔ result = done ++ ps.map Property.reread
        ∧ Listing.footprint done + Listing.footprint ps ≤ limit := by
  -- On the properties still to be read; those in `done` fix how much room is left.
  induction ps generalizing done pos with
  | nil =>
    rw [List.map_nil, List.append_nil, Listing.footprint_nil, Nat.add_zero]
    constructor
    · rintro ⟨⟩
      exact ⟨rfl, within⟩
    · rintro ⟨rfl, -⟩
      exact .done _ _
  | cons p ps ih =>
    rw [List.length_cons] at short
    rw [Listing.footprint_cons, Property.footprint] at small
    have vacant := vacant_of_nodup distinct (by omega)
    have paired := Reader.pair_encode pos (ps.flatMap Property.encode)
      (p := p) (by omega) (by omega)
    rw [Listing.append_map_reread_cons] at distinct ⊢
    rw [List.length_cons, List.flatMap_cons, completes_property_iff vacant paired,
      p.footprint_reread, Listing.footprint_cons, ← Nat.add_assoc,
      ← Listing.footprint_concat_reread]
    have longer : (done ++ [p.reread]).length + ps.length ≤ maxProperties := by
      rw [List.length_append, List.length_singleton]
      omega
    constructor
    · rintro ⟨fits, later⟩
      exact (ih _ longer distinct fits (by omega)).1 later
    · rintro ⟨whole, room⟩
      have fits := Nat.le_of_add_right_le room
      exact ⟨fits, (ih _ longer distinct fits (by omega)).2 ⟨whole, room⟩⟩

/-- The header of a canonical record. -/
theorem readMapHeader_encodeRecord (short : ps.length ≤ maxProperties) :
    (Reader.ofBytes (encodeRecord ps)).readMapHeader
      = .ok (ps.length, ⟨0 + Header.sizeFor ps.length, ps.flatMap Property.encode⟩) :=
  Reader.readMapHeader_encode 0 (ps.flatMap Property.encode)
    (Nat.lt_of_le_of_lt short (by decide))

section

variable (distinct : (Listing.keys ps).Nodup) (short : ps.length ≤ maxProperties)
  (small : (encodeRecord ps).length < unsignedBound)

include distinct short small

/-- A walk over a canonical record of distinct keys stops at no pair if it has room for all of
them, and then imports them in full. -/
theorem completes_encodeRecord_iff :
    Completes limit ps.length ⟨0 + Header.sizeFor ps.length, ps.flatMap Property.encode⟩ [] result
      ↔ result = ps.map Property.reread ∧ Listing.footprint ps ≤ limit := by
  have again : (Listing.keys ([] ++ ps.map Property.reread)).Nodup := by
    rw [List.nil_append, Listing.keys_map_reread]
    exact distinct
  rw [completes_encode_iff _ (by rwa [List.length_nil, Nat.zero_add]) again (Nat.zero_le _)
    (Nat.lt_of_le_of_lt (Listing.footprint_le_length_encodeRecord ps) small), List.nil_append,
    Listing.footprint_nil, Nat.zero_add]

theorem whole_encodeRecord_iff :
    Whole capacity (encodeRecord ps)
      ↔ Listing.footprint ps ≤ Walk.limit capacity (encodeRecord ps) := by
  have nonempty : encodeRecord ps ≠ [] := by simp [encodeRecord, encodeMapHeader, Header.encode]
  have header := readMapHeader_encodeRecord short
  rw [Whole]
  constructor
  · rintro (nothing | ⟨count, next, result, same, completes⟩)
    · exact absurd nothing nonempty
    · cases header.symm.trans same
      exact ((completes_encodeRecord_iff distinct short small).1 completes).2
  · intro room
    exact .inr ⟨_, _, _, header,
      (completes_encodeRecord_iff distinct short small).2 ⟨rfl, room⟩⟩

/-- A canonical record of distinct keys, for which there is room, is imported in full. -/
theorem ofRecord_encodeRecord
    (room : Listing.footprint ps ≤ Walk.limit capacity (encodeRecord ps)) :
    ofRecord capacity (encodeRecord ps) = ⟨ps.map Property.reread, 0⟩ := by
  have completes := (completes_encodeRecord_iff distinct short small).2 ⟨rfl, room⟩
  rw [ofRecord, readMapHeader_encodeRecord short]
  exact completes.ofPairs_eq

end

end Walk

end PropertyRecord
