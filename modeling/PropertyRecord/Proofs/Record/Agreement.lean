import PropertyRecord.Proofs.Import.Opening
import PropertyRecord.Proofs.Record.EditCycle

/-!
# Lookups and imports of one record

A lookup and an import walk the same bytes, each in its own way: the lookup reads each key into a
buffer of its own and stops at the first one that is the same, the import skips a key before it
copies it, passes over foreign values whatever their key is, and stops at the first pair that it
cannot copy. On a record that repeats no key the two agree on every property that the import came
to, whatever is wrong with the bytes behind it.

Main statements: `Imports.finds` and `answers_openOver`.
-/

namespace PropertyRecord

/-- The pairs have texts as their keys, no two of them the same. -/
def HaveDistinctKeys (pairs : List Reader) : Prop :=
  ∃ keys : List String, keys.Nodup
    ∧ List.Forall₂ (fun r key => ∃ atValue, r.text = .ok (key, atValue)) pairs keys

namespace Editor

/-- The pairs that an import goes past, in order: those that it copies and those with a foreign
value, without the pair that ends it. -/
def walkedPairs (limit : Nat) : (count : Nat) → Reader → Editor → List Reader
  | 0, _, _ => []
  | count + 1, r, ed =>
    if maxProperties ≤ ed.slots.length then []
    else
      let pair := ed.importPair limit r
      match pair.next with
      | .error _ => []
      | .ok next => r :: walkedPairs limit count next pair.editor

/-- The pairs that an import goes past in a buffer whose first `existing` bytes are a record. -/
def walkedOver (buffer : Bytes) (existing : Nat) : List Reader :=
  let held := min existing buffer.length
  match (Reader.ofBytes (buffer.take held)).readMapHeader with
  | .error _ => []
  | .ok (count, next) => walkedPairs (importLimit buffer held) count next (empty buffer)

variable {ed : Editor} {limit count : Nat} {imported : Listing} {r next : Reader}
  {found : Option Property} {p : Property}

theorem walkedPairs_of_ok (vacant : ¬ maxProperties ≤ ed.slots.length)
    (passed : (ed.importPair limit r).next = .ok next) :
    walkedPairs limit (count + 1) r ed
      = r :: walkedPairs limit count next (ed.importPair limit r).editor := by
  rw [walkedPairs, if_neg vacant]
  simp only [passed]

/-- What a lookup finds behind a pair with another key it finds from that pair on. -/
theorem finds_behind {keys : List String} {first : String} {atValue : Reader}
    (distinct : (first :: keys).Nodup) (named : r.text = .ok (first, atValue))
    (paired : r.pair = .ok (found, next))
    (later : p.key ∈ keys ∧ next.Finds p.key p.value count) :
    p.key ∈ first :: keys ∧ r.Finds p.key p.value (count + 1) := by
  have apart : first ≠ p.key := by
    rintro rfl
    exact (List.nodup_cons.1 distinct).1 later.1
  exact ⟨.tail _ later.1, .behind (.other named apart) paired later.2⟩

/-- If the pairs that an import goes past have distinct keys, a lookup finds each of their
properties. -/
theorem Imports.finds (imports : ed.Imports limit imported) {keys : List String}
    (distinct : keys.Nodup)
    (named : List.Forall₂ (fun r key => ∃ atValue, r.text = .ok (key, atValue))
      (walkedPairs limit count r ed) keys)
    (member : p ∈ (Walk.ofPairs limit count r imported).imported) :
    p ∈ imported ∨ p.key ∈ keys ∧ r.Finds p.key p.value count := by
  -- On the announced count, as the loop of the import: the invariant says what each pair comes to.
  induction count generalizing r ed imported keys with
  | zero => exact .inl member
  | succ count ih =>
    rw [Walk.ofPairs] at member
    split at member
    next => exact .inl member
    next vacant =>
      have room : ¬ maxProperties ≤ ed.slots.length := by rwa [imports.length]
      split at member
      next next paired =>
        rcases importPair_foreign ed limit paired with ⟨editor, passed⟩
        rw [walkedPairs_of_ok room passed, editor] at named
        cases named with
        | cons first rest =>
          rcases first with ⟨atValue, first⟩
          have later := ih imports (List.nodup_cons.1 distinct).2 rest member
          exact later.imp_right (finds_behind distinct first paired)
      next q next paired =>
        split at member
        next fits =>
          obtain ⟨imports', passed, -⟩ :=
            imports.importPair_ok (Nat.lt_of_not_le vacant) paired fits
          rw [walkedPairs_of_ok room passed] at named
          cases named with
          | cons first rest =>
            rcases first with ⟨atValue, first⟩
            rcases ih imports' (List.nodup_cons.1 distinct).2 rest member with earlier | later
            · rcases List.mem_append.1 earlier with earlier | new
              · exact .inl earlier
              · cases List.mem_singleton.1 new
                rcases Reader.exists_of_pair_some paired with ⟨_, _, _, _, _, own, -⟩
                cases first.symm.trans own
                exact .inr ⟨.head _, .here paired⟩
            · exact .inr (finds_behind distinct first paired later)
        next => exact .inl member
      next => exact .inl member

/-- So a lookup finds what an editor just opened holds. -/
theorem finds_of_openOver {buffer : Bytes} {existing : Nat}
    (distinct : HaveDistinctKeys (walkedOver buffer existing))
    (held : p ∈ (openOver buffer existing).editor.properties) :
    Finds (buffer.take (min existing buffer.length)) p.key p.value := by
  have opens := opens_openOver buffer existing
  rw [opens.refines.properties, Table.listing_map_some] at held
  have imported := Listing.mem_of_mem_merge held
  rw [Walk.ofRecord, ← importLimit_eq] at imported
  rcases distinct with ⟨keys, distinct, named⟩
  rw [walkedOver] at named
  cases header : (Reader.ofBytes (buffer.take (min existing buffer.length))).readMapHeader with
  | error fault =>
    simp only [header] at imported
    contradiction
  | ok announced =>
    simp only [header] at imported named
    have start : (empty buffer).Imports (importLimit buffer (min existing buffer.length)) [] :=
      imports_empty (Nat.min_le_left _ _)
    have found := (start.finds distinct named imported).resolve_left List.not_mem_nil
    exact ⟨announced.1, announced.2, header, found.2⟩

/-- A lookup agrees with an editor that was just opened over the record, whatever the buffer. If the
pairs that the import went past have texts as their keys and repeat none, then each property that
the editor holds is the one that every lookup of its key is answered by, as long as the record fits
in the window and the key is not too long. -/
theorem answers_openOver {recordLimit dataLimit : Nat} (store : MemoryStore recordLimit dataLimit)
    (name : RecordName) (record buffer : Bytes) (length : Nat) (key : String) (v : Value)
    (stored : store.get? name.text = some record) (window : record.length ≤ lookupWindow)
    (short : (utf8 key).length ≤ maxNameSize) :
    let loading := Record.load name store buffer
    loading.length = .ok length →
    HaveDistinctKeys (walkedOver loading.buffer length) →
    (openOver loading.buffer length).editor.get? key = some v →
    Record.Answers name loading.store key (some v) := by
  intro loading loaded distinct live
  have whole : loading = ⟨.ok record.length, Bytes.overlay record buffer, [], store⟩ :=
    (Record.load_of_get? stored loaded).2
  clear_value loading
  subst whole
  cases loaded
  have coherent := (opens_openOver (Bytes.overlay record buffer) record.length).refines.coherent
  have finds := finds_of_openOver distinct ((coherent.get?_eq_some_iff key v).1 live)
  have front : (Bytes.overlay record buffer).take
      (min record.length (Bytes.overlay record buffer).length) = record := by
    rw [Bytes.overlay, List.length_append, Nat.min_eq_left (Nat.le_add_right _ _), List.take_left]
  rw [front] at finds
  rcases finds.locateIn short with ⟨atValue, located, here⟩
  refine Record.answers_of_locate ((Record.locate_of_get? stored window key).trans ?_) (.some here)
  rw [located]

/-- The number is found behind an array, with wider headers than it needs, and in front of a pair
that is cut off. -/
theorem answers_openOver_behind_array :
    let record : Bytes := [0xa4, 0x61, 0x61, 0x80, 0x78, 0x01, 0x6b, 0x18, 0x05, 0x61, 0x62, 0x62]
    let name : RecordName := ⟨"r", by decide, by decide⟩
    let store : MemoryStore 1 64 := MemoryStore.empty.put ⟨"r", record⟩
    let loading := Record.load name store (List.replicate 32 0)
    (openOver loading.buffer 12).editor.get? "k" = some (.uint 5)
      ∧ Record.Answers name loading.store "k" (some (.uint 5)) := by
  intro record name store loading
  have live : (openOver loading.buffer 12).editor.get? "k" = some (.uint 5) := by
    decide +kernel
  have walked : walkedOver loading.buffer 12 = [⟨1, record.drop 1⟩, ⟨4, record.drop 4⟩] := by
    decide +kernel
  have array : Reader.text ⟨1, record.drop 1⟩ = .ok ("a", ⟨3, record.drop 3⟩) := by
    decide +kernel
  have number : Reader.text ⟨4, record.drop 4⟩ = .ok ("k", ⟨7, record.drop 7⟩) := by
    decide +kernel
  have distinct : HaveDistinctKeys (walkedOver loading.buffer 12) :=
    ⟨["a", "k"], by decide, walked ▸ .cons ⟨_, array⟩ (.cons ⟨_, number⟩ .nil)⟩
  exact ⟨live, answers_openOver store name record (List.replicate 32 0) 12 "k" (.uint 5)
    (by decide +kernel) (by decide) (by decide) (by decide +kernel) distinct live⟩

end Editor

end PropertyRecord
