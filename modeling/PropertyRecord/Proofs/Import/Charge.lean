import PropertyRecord.Proofs.Import.Reference

/-!
# What an import costs

An import hands out space for a key before it reads the key, and for a payload before it reads the
payload. What was handed out is not taken back if the read fails or if there is no space for the
rest of the pair, so besides the imported pairs an editor pays for the pair that ended its import.
It does not pay for the pairs that were passed over.

Main statements: `used_openOver`, and `not_used_eq_footprint` for the payment that remains.
-/

namespace PropertyRecord

namespace Walk

/-- How a walk ends: with all pairs or slots used up, and then nothing is lost, or at a pair that
cannot be imported, which costs the bytes set aside for it. -/
inductive Ends (limit : Nat) (record : Bytes) : Walk → Prop where
  | complete (imported : Listing) : Ends limit record ⟨imported, 0⟩
  | stopped (imported : Listing) (r : Reader) (inside : r.Over record)
      (refused : r.Refused limit (Listing.footprint imported)) :
      Ends limit record ⟨imported, r.lost limit (Listing.footprint imported)⟩

theorem ends_ofPairs {record : Bytes} {limit : Nat} (count : Nat) {r : Reader}
    (inside : r.Over record) (imported : Listing) :
    (ofPairs limit count r imported).Ends limit record := by
  fun_induction ofPairs limit count r imported with
  | case1 r imported => exact .complete imported
  | case2 count r imported full => exact .complete imported
  | case3 count r imported vacant next paired ih => exact ih (inside.pair paired)
  | case4 count r imported vacant p next paired fits ih => exact ih (inside.pair paired)
  | case5 count r imported vacant p next paired large =>
    exact .stopped imported r inside (Reader.refused_of_large paired large)
  | case6 count r imported vacant fault broken =>
    exact .stopped imported r inside (Reader.refused_of_error broken)

theorem ends_ofRecord (capacity : Nat) (record : Bytes) :
    (ofRecord capacity record).Ends (limit capacity record) record := by
  rw [ofRecord]
  split
  next => exact .complete []
  next count next header =>
    exact ends_ofPairs count ((Reader.Over.ofBytes record).readMapHeader header) []

end Walk

namespace Editor

/-- What an editor just opened has handed out are the bytes of the imported pairs, repeated keys
included, and those of the pair that ended the import. The rest of its half of the buffer is there
to be used. -/
theorem used_openOver (buffer : Bytes) (existing : Nat) :
    let record := buffer.take (min existing buffer.length)
    let opened := (openOver buffer existing).editor
    let walk := Walk.ofRecord buffer.length record
    opened.properties = Listing.merge walk.imported
      ∧ opened.arena.used = Listing.footprint walk.imported + walk.lost
      ∧ walk.Ends (Walk.limit buffer.length record) record
      ∧ ∀ p : Property, opened.contains p.key = false → opened.count < maxProperties →
        p.footprint ≤ buffer.length / 2 - opened.arena.used → (opened.set p).2 = .ok () := by
  intro record opened walk
  have opens := opens_openOver buffer existing
  have refines := opens.refines
  refine ⟨?_, opens.charged, Walk.ends_ofRecord _ _, ?_⟩
  · rw [refines.properties, Table.listing_map_some]
    rfl
  · intro p absent vacant fits
    rw [← Bool.not_eq_true, refines.contains_iff] at absent
    have fresh := Table.slotOf?_eq_none_iff.2 absent
    rw [refines.count] at vacant
    have room : p.footprint ≤ opened.arena.remaining := by
      rw [Arena.remaining, Arena.budget, opens.capacity]
      exact fits
    rcases refines.set_new fresh vacant room with ⟨next, accepted, -⟩
    rw [accepted]

/-- A text that claims two bytes and has none: the import takes nothing from the record, and yet
three bytes are gone, so that a property that would fill the empty half is refused. -/
theorem not_used_eq_footprint :
    ¬ (∀ (buffer : Bytes) (existing : Nat),
        (openOver buffer existing).editor.arena.used
          = Listing.footprint (Walk.ofRecord buffer.length
              (buffer.take (min existing buffer.length))).imported)
      ∧ ¬ (∀ (buffer : Bytes) (existing : Nat) (p : Property),
        let opened := (openOver buffer existing).editor
        opened.contains p.key = false → opened.count < maxProperties →
        p.footprint ≤ buffer.length / 2
          - Listing.footprint (Walk.ofRecord buffer.length
              (buffer.take (min existing buffer.length))).imported →
        (opened.set p).2 = .ok ()) := by
  constructor
  · intro free
    have used := free ([0xa1, 0x61, 0x61, 0x62] ++ List.replicate 12 0) 4
    revert used
    decide
  · intro free
    have accepted := free ([0xa1, 0x61, 0x61, 0x62] ++ List.replicate 12 0) 4
      ⟨"k", .text "1234567"⟩ (by decide) (by decide) (by decide)
    revert accepted
    decide

end Editor

end PropertyRecord
