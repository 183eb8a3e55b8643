import PropertyRecord.Proofs.Import.Complete
import Mathlib.Data.List.Infix

/-!
# How far an import gets

Two imports of the same bytes that differ in what they may copy go the same way up to the first copy
that only one of them may make. The other one goes on from there, so what the first one has imported
is the front of what the second one imports. A repeated key is copied again and takes space, but it
stays in its slot and only its value changes. So the keys are a front of the other keys as well.

Main statement: `keys_openOver_isPrefix`.
-/

namespace PropertyRecord

namespace Listing

theorem keys_isPrefix_put (p : Property) (ps : Listing) : keys ps <+: keys (put p ps) := by
  induction ps with
  | nil => exact List.nil_prefix
  | cons q ps ih =>
    rw [put]
    split
    next same => rw [keys_cons, keys_cons, same]
    next => exact (List.prefix_cons_inj q.key).2 ih

theorem keys_merge_isPrefix (ps qs : Listing) : keys (merge ps) <+: keys (merge (ps ++ qs)) := by
  induction qs using List.reverseRecOn with
  | nil => rw [List.append_nil]
  | append_singleton qs q ih =>
    rw [← List.append_assoc, merge_concat]
    exact ih.trans (keys_isPrefix_put q _)

end Listing

namespace Walk

variable {limit larger capacity : Nat}

/-- A walk keeps what was imported before it. -/
theorem isPrefix_ofPairs (limit count : Nat) (r : Reader) (imported : Listing) :
    imported <+: (ofPairs limit count r imported).imported := by
  fun_induction ofPairs limit count r imported with
  | case1 | case2 | case5 | case6 => exact List.prefix_rfl
  | case3 count r imported vacant next paired ih => exact ih
  | case4 count r imported vacant p next paired fits ih =>
    exact (List.prefix_append imported [p]).trans ih

/-- A walk that may copy more imports what the other one does, and goes on from there. -/
theorem ofPairs_isPrefix (wider : limit ≤ larger) (count : Nat) (r : Reader) (imported : Listing) :
    (ofPairs limit count r imported).imported <+: (ofPairs larger count r imported).imported := by
  -- Along the walk that may copy less: as long as it goes on, the other one is at the same pair.
  fun_induction ofPairs limit count r imported with
  | case1 r imported => exact List.prefix_rfl
  | case2 count r imported full => rw [ofPairs, if_pos full]
  | case3 count r imported vacant next paired ih =>
    rw [ofPairs, if_neg vacant, paired]
    exact ih
  | case4 count r imported vacant p next paired fits ih =>
    rw [ofPairs, if_neg vacant, paired]
    simp only [Nat.le_trans fits wider, if_true]
    exact ih
  | case5 count r imported | case6 count r imported => exact isPrefix_ofPairs larger _ _ _

theorem ofRecord_isPrefix (record : Bytes) (longer : capacity ≤ larger) :
    (ofRecord capacity record).imported <+: (ofRecord larger record).imported := by
  rw [ofRecord, ofRecord]
  cases (Reader.ofBytes record).readMapHeader with
  | error => exact List.prefix_rfl
  | ok announced =>
    exact ofPairs_isPrefix (limit_mono record longer) announced.1 announced.2 []

end Walk

namespace Editor

theorem keys_openOver (record rest : Bytes) :
    Listing.keys (openOver (record ++ rest) record.length).editor.properties
      = Listing.keys (Listing.merge (Walk.ofRecord (record ++ rest).length record).imported) := by
  rw [(opens_openOver_append record rest).refines.properties, Table.listing_map_some]
  rfl

/-- A longer buffer never imports fewer keys. Whatever bytes a record is, the keys that an editor
shows when it is opened over them, in the order of its slots, are the first of the keys that an
editor shows that is opened over them in a buffer that is at least as long. -/
theorem keys_openOver_isPrefix (record rest more : Bytes)
    (longer : (record ++ rest).length ≤ (record ++ more).length) :
    Listing.keys (openOver (record ++ rest) record.length).editor.properties
      <+: Listing.keys (openOver (record ++ more) record.length).editor.properties := by
  rw [keys_openOver, keys_openOver]
  rcases Walk.ofRecord_isPrefix record longer with ⟨later, whole⟩
  rw [← whole]
  exact Listing.keys_merge_isPrefix _ later

/-- A record whose first key is repeated, and then has no room left for the next one unless the
buffer is longer. -/
theorem keys_openOver_isPrefix_repeated :
    let record : Bytes := [0xa3, 0x61, 0x61, 0x05, 0x61, 0x61, 0x42, 0x01, 0x02, 0x61, 0x62, 0xf6]
    let opened := (openOver (record ++ List.replicate 4 0) record.length).editor
    let longer := (openOver (record ++ List.replicate 5 0) record.length).editor
    Listing.keys opened.properties = ["a"] ∧ Listing.keys longer.properties = ["a", "b"]
      ∧ Listing.keys opened.properties <+: Listing.keys longer.properties := by
  intro record opened longer
  exact ⟨by decide +kernel, by decide +kernel,
    keys_openOver_isPrefix record (List.replicate 4 0) (List.replicate 5 0) (by decide)⟩

end Editor

end PropertyRecord
