import PropertyRecord.Proofs.Editor.BoundedMap
import PropertyRecord.Proofs.Editor.Encoding
import PropertyRecord.Proofs.Record.Memory
import PropertyRecord.Proofs.Wire.Size

/-!
# Edits that only shrink

As long as nothing is set, an editor can always be committed, and the record does not grow. No pair
is written in more bytes than it was read from, so the properties fit where the record was. None of
these bytes is handed out by an import, not even for the pair at which it fails.

Main statement: `commit_of_shrunk`.
-/

namespace PropertyRecord

/-! ## What a walk takes and leaves -/

namespace Walk

theorem footprint_add_lost_ofPairs_le {limit count : Nat} {r : Reader} {imported : Listing}
    (within : Listing.footprint imported ≤ limit) :
    Listing.footprint (ofPairs limit count r imported).imported
      + (ofPairs limit count r imported).lost ≤ limit := by
  fun_induction ofPairs limit count r imported with
  | case1 r imported => exact within
  | case2 count r imported full => exact within
  | case3 count r imported vacant next paired ih => exact ih within
  | case4 count r imported vacant p next paired fits ih =>
    apply ih
    rw [Listing.footprint_append, Listing.footprint_cons, Listing.footprint_nil, Nat.add_zero]
    exact fits
  | case5 count r imported vacant p next paired large => exact r.lost_le limit within
  | case6 count r imported vacant fault broken => exact r.lost_le limit within

theorem footprint_add_lost_ofRecord_le (capacity : Nat) (record : Bytes) :
    Listing.footprint (ofRecord capacity record).imported + (ofRecord capacity record).lost
      ≤ limit capacity record := by
  rw [ofRecord]
  split
  next => exact Nat.zero_le _
  next => exact footprint_add_lost_ofPairs_le (Nat.zero_le _)

/-- The pairs imported take no more bytes than the walk has passed. -/
theorem length_flatMap_ofPairs_le (limit count : Nat) (r : Reader) (imported : Listing) :
    ((ofPairs limit count r imported).imported.flatMap Property.encode).length
      ≤ (imported.flatMap Property.encode).length + r.remaining := by
  fun_induction ofPairs limit count r imported with
  | case1 r imported => exact Nat.le_add_right _ _
  | case2 count r imported full => exact Nat.le_add_right _ _
  | case3 count r imported vacant next paired ih =>
    have passed := Reader.length_encode_le_of_pair paired
    omega
  | case4 count r imported vacant p next paired fits ih =>
    have passed := Reader.length_encode_le_of_pair paired
    rw [Option.toList_some] at passed
    rw [List.flatMap_append, List.length_append] at ih
    omega
  | case5 count r imported vacant p next paired large => exact Nat.le_add_right _ _
  | case6 count r imported vacant fault broken => exact Nat.le_add_right _ _

theorem length_flatMap_ofRecord_lt (capacity : Nat) {record : Bytes} (nonempty : record ≠ []) :
    ((ofRecord capacity record).imported.flatMap Property.encode).length < record.length := by
  rw [ofRecord]
  split
  next => exact List.length_pos_iff.2 nonempty
  next count next header =>
    have passed := Reader.remaining_lt_of_readMapHeader header
    have imported := length_flatMap_ofPairs_le (limit capacity record) count next []
    rw [List.flatMap_nil, List.length_nil, Nat.zero_add] at imported
    exact Nat.lt_of_le_of_lt imported passed

end Walk

/-! ## Editors in which nothing was set -/

namespace Editor

variable {ed : Editor} {record : Bytes}

/-- The properties take no more bytes than a record for which there is still room beside the
arena. -/
structure Shrunk (record : Bytes) (ed : Editor) : Prop where
  coherent : ed.Coherent
  smaller : (encodeRecord ed.properties).length ≤ record.length
  beside : record.length + ed.arena.used ≤ ed.arena.capacity

theorem shrunk_openOver (nonempty : record ≠ []) (rest : Bytes) :
    (openOver (record ++ rest) record.length).editor.Shrunk record := by
  have opens := opens_openOver_append record rest
  have coherent := opens.refines.coherent
  refine ⟨coherent, ?_, ?_⟩
  · have merged := Listing.length_flatMap_merge_le
      (Walk.ofRecord (record ++ rest).length record).imported
    have passed := Walk.length_flatMap_ofRecord_lt (record ++ rest).length nonempty
    rw [Listing.length_encodeRecord opens.refines.length_properties_le, opens.refines.properties,
      Table.listing_map_some, Walk.properties]
    omega
  · have handedOut := Walk.footprint_add_lost_ofRecord_le (record ++ rest).length record
    have longer : record.length ≤ (record ++ rest).length := by
      rw [List.length_append]
      exact Nat.le_add_right _ _
    rw [Walk.limit] at handedOut
    rw [opens.charged, opens.capacity]
    omega

/-- Whatever is called but a set, the properties take no more bytes than before. -/
theorem Shrunk.step (shrunk : ed.Shrunk record) (name : String) {call : Call}
    (unset : ∀ p, call ≠ .set p) : (step name ed call).2.Shrunk record := by
  cases call with
  | set p => exact absurd rfl (unset p)
  | remove key =>
    rcases shrunk.coherent.remove key with ⟨coherent, -, arena⟩
    have removed := shrunk.coherent.hasRemoved key
    have short := shrunk.coherent.length_properties_le
    refine ⟨coherent, ?_, ?_⟩
    · rw [Editor.step, removed.properties]
      exact Nat.le_trans (Listing.length_encodeRecord_le_of_sublist List.filter_sublist short)
        shrunk.smaller
    · rw [Editor.step, arena]
      exact shrunk.beside
  | get | contains | list | describe => exact shrunk

theorem Shrunk.runFrom (shrunk : ed.Shrunk record) (name : String) {calls : List Call}
    (unset : ∀ p, Call.set p ∉ calls) : (runFrom (Editor.step name) ed calls).Shrunk record := by
  induction calls generalizing ed with
  | nil => exact shrunk
  | cons call calls ih =>
    have first : ∀ p, call ≠ .set p := fun p same => unset p (same ▸ List.mem_cons_self)
    exact ih (shrunk.step name first) fun p member => unset p (List.mem_cons_of_mem call member)

/-- The properties are encoded as their canonical record. -/
theorem Shrunk.encode (shrunk : ed.Shrunk record) :
    ed.encode.1 = .ok () ∧ ed.encode.2.written = encodeRecord ed.properties
      ∧ ed.encode.2.written.length ≤ record.length := by
  have room : (encodeRecord ed.properties).length + ed.arena.used ≤ ed.arena.capacity :=
    Nat.le_trans (Nat.add_le_add_right shrunk.smaller _) shrunk.beside
  have done := shrunk.coherent.encode_of_le room
  have canonical := (shrunk.coherent.encode_ok done).1
  refine ⟨done, canonical, ?_⟩
  rw [canonical]
  exact shrunk.smaller

/-- The record is replaced by what was encoded, and no other record changes. -/
theorem Shrunk.commit {recordLimit dataLimit : Nat} {store : MemoryStore recordLimit dataLimit}
    {name : RecordName} (shrunk : ed.Shrunk record) (stored : store.get? name.text = some record)
    (small : record.length ≤ min dataLimit maxRecordSize) :
    (ed.commit name store).result = .ok ()
      ∧ (ed.commit name store).store.get? name.text = some ed.encode.2.written
      ∧ ∀ other, other ≠ name.text →
        (ed.commit name store).store.get? other = store.get? other := by
  rcases shrunk.encode with ⟨encoded, -, shorter⟩
  have written := commit_of_encode name store encoded
  rw [Record.write_of_get? stored (Nat.le_trans shorter small)] at written
  have done : (ed.commit name store).result = .ok () := congrArg Prod.fst written
  have after : (ed.commit name store).store = _ := congrArg Prod.snd written
  rw [after]
  exact ⟨done, MemoryStore.get?_put_self store ⟨name.text, ed.encode.2.written⟩,
    fun _ apart => MemoryStore.get?_put_of_ne store apart⟩

/-- If nothing is set, a commit cannot fail and the record does not grow. Over any bytes that an
editor was opened over, whether or not they are a record, the properties that the editor shows are
encoded as their canonical record, in no more bytes. So a commit to a store in memory, which held
those bytes within its limits, replaces them with that record and changes no other one. -/
theorem commit_of_shrunk (calls : List Call) (unset : ∀ p, Call.set p ∉ calls) :
    (∀ (record rest : Bytes) (name : String), record ≠ [] →
        let ed := runFrom (step name) (openOver (record ++ rest) record.length).editor calls
        ed.encode.1 = .ok () ∧ ed.encode.2.written = encodeRecord ed.properties
          ∧ ed.encode.2.written.length ≤ record.length)
      ∧ ∀ {recordLimit dataLimit : Nat} (store : MemoryStore recordLimit dataLimit)
          (name : RecordName) (record buffer : Bytes) (length : Nat),
        store.get? name.text = some record → record ≠ [] →
          record.length ≤ min dataLimit maxRecordSize →
        let loading := Record.load name store buffer
        loading.length = .ok length →
        let ed := runFrom (step name.text) (openOver loading.buffer length).editor calls
        let committed := ed.commit name loading.store
        committed.result = .ok ()
          ∧ ∃ now, committed.store.get? name.text = some now
            ∧ now = ed.encode.2.written ∧ now = encodeRecord ed.properties
            ∧ now.length ≤ record.length
            ∧ ∀ other, other ≠ name.text → committed.store.get? other = store.get? other := by
  have shrunk : ∀ (record rest : Bytes) (name : String), record ≠ [] →
      (runFrom (step name) (openOver (record ++ rest) record.length).editor calls).Shrunk
        record :=
    fun record rest name nonempty => (shrunk_openOver nonempty rest).runFrom name unset
  refine ⟨fun record rest name nonempty => (shrunk record rest name nonempty).encode, ?_⟩
  intro recordLimit dataLimit store name record buffer length stored nonempty small loading loaded
  have whole : loading = ⟨.ok record.length, Bytes.overlay record buffer, [], store⟩ :=
    (Record.load_of_get? stored loaded).2
  clear_value loading
  subst whole
  cases loaded
  -- The record lies at the front of the buffer that was loaded.
  have left := shrunk record (buffer.drop record.length) name.text nonempty
  rcases left.encode with ⟨-, canonical, shorter⟩
  rcases left.commit stored small with ⟨done, now, others⟩
  exact ⟨done, _, now, rfl, canonical, shorter, others⟩

/-- A record with an integer in a wide header, which is removed, and an array, which is passed over:
what is left is an empty map, in one byte instead of eight. -/
theorem commit_of_shrunk_array :
    let record : Bytes := [0xa2, 0x61, 0x61, 0x18, 0x05, 0x61, 0x62, 0x80]
    let name : RecordName := ⟨"r", by decide, by decide⟩
    let store : MemoryStore 2 64 := (MemoryStore.empty.put ⟨"r", record⟩).put ⟨"s", [0xa0]⟩
    let ed := runFrom (step "r") (openOver (record ++ List.replicate 8 0) 8).editor [.remove "a"]
    ed.encode.1 = .ok () ∧ ed.encode.2.written = [0xa0]
      ∧ (ed.commit name store).result = .ok ()
      ∧ (ed.commit name store).store.get? "r" = some [0xa0]
      ∧ (ed.commit name store).store.get? "s" = some [0xa0] := by
  intro record name store ed
  have shrunk := commit_of_shrunk [.remove "a"] (by simp)
  have nothing : encodeRecord ed.properties = [0xa0] := by decide +kernel
  rcases shrunk.1 record (List.replicate 8 0) "r" (by decide) with ⟨encoded, canonical, -⟩
  rcases shrunk.2 store name record (List.replicate 16 0) 8 (by decide) (by decide) (by decide)
    (by decide) with ⟨done, now, stored, -, left, -, others⟩
  refine ⟨encoded, canonical.trans nothing, done, ?_, ?_⟩
  · rw [← nothing]
    exact stored.trans (congrArg some left)
  · exact (others "s" (by decide)).trans (by decide)

end Editor

end PropertyRecord
