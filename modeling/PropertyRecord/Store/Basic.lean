import PropertyRecord.Bytes

/-!
# Stores

A store keeps whole records under names. It is the only place that outlives an edit: reading fills a
caller's buffer with a record, and writing replaces one.

A store of any make may be used, and nothing is asked of it. The bytes of a record are those that a
read says it has copied, as many as there are in the buffer; of a `LawfulRecordStore` it is known
that they are all there.
-/

namespace PropertyRecord

/-- Whole records under names. -/
class RecordStore (σ : Type) where
  /-- Copies a record to the front of `out` and answers with its length, or fails with `notFound`.
  -/
  read : σ → (name : String) → (out : Bytes) → Filled Nat × σ
  /-- Replaces a record, and creates it if there is none with that name. -/
  write : σ → (name : String) → (data : Bytes) → Except Fault Unit × σ

/-- What a store promises of its reads. -/
class LawfulRecordStore (σ : Type) [RecordStore σ] : Prop where
  /-- A read leaves a buffer as long as it was. -/
  length_read (store : σ) (name : String) (out : Bytes) :
    (RecordStore.read store name out).1.out.length = out.length
  /-- The record that a read answers with the length of has been copied whole. -/
  le_of_read (store : σ) (name : String) (out : Bytes) (length : Nat) :
    (RecordStore.read store name out).1.result = .ok length → length ≤ out.length

end PropertyRecord
