import PropertyRecord.Proofs.Listing
import PropertyRecord.Proofs.Wire.Pair

/-!
# Walking a record

The reference for an import: a walk over the pairs of a record that knows neither an arena nor
slots. It carries the pairs imported so far, repeated keys included. What an editor shows is these
pairs merged, and what its arena has handed out is their bytes, with one exception: the pair at
which the walk stops may have had bytes set aside for it, and these stay lost.
-/

namespace PropertyRecord

namespace Reader

/-- The bytes that are set aside for a string before it is read: as many as it claims to have, if
these and the `used` ones stay within the limit. -/
def setAside (limit used : Nat) (r : Reader) : Nat :=
  match r.peekStringLength with
  | .ok size => if used + size ≤ limit then size else 0
  | .error _ => 0

/-- The bytes that are set aside for a pair that is not imported: none if its key is not complete or
its value is foreign, those for its key, and if the key can be read those for its value. -/
def lost (limit used : Nat) (r : Reader) : Nat :=
  match r.skipItem with
  | .error _ => 0
  | .ok atValue =>
    match atValue.peekByte with
    | .error _ => 0
    | .ok initial =>
      if storable initial then
        match r.text with
        | .error _ => r.setAside limit used
        | .ok (key, _) =>
          let size := (utf8 key).length
          if used + size ≤ limit then size + atValue.setAside limit (used + size) else 0
      else 0

/-- The pair at the position cannot be imported: it is not complete, or its copies do not stay
within the limit. -/
def Refused (limit used : Nat) (r : Reader) : Prop :=
  ∀ found next, r.pair = .ok (found, next) → ∃ p, found = some p ∧ limit < used + p.footprint

theorem refused_of_error {r : Reader} {limit used : Nat} {fault : Fault}
    (broken : r.pair = .error fault) : r.Refused limit used := by
  intro found next paired
  rw [broken] at paired
  cases paired

theorem refused_of_large {r next : Reader} {limit used : Nat} {p : Property}
    (paired : r.pair = .ok (some p, next)) (large : ¬ used + p.footprint ≤ limit) :
    r.Refused limit used := by
  intro found behind again
  rw [paired] at again
  cases again
  exact ⟨p, rfl, Nat.lt_of_not_le large⟩

theorem setAside_le (r : Reader) (limit : Nat) {used : Nat} (within : used ≤ limit) :
    used + r.setAside limit used ≤ limit := by
  rw [setAside]
  split
  next =>
    split
    next fits => exact fits
    next => exact within
  next => exact within

theorem lost_le (r : Reader) (limit : Nat) {used : Nat} (within : used ≤ limit) :
    used + r.lost limit used ≤ limit := by
  rw [lost]
  split
  next => exact within
  next atValue _ =>
    split
    next => exact within
    next =>
      split
      next =>
        split
        next => exact r.setAside_le limit within
        next key _ _ =>
          simp only
          split
          next fits =>
            rw [← Nat.add_assoc]
            exact atValue.setAside_le limit fits
          next => exact within
      next => exact within

end Reader

/-- What a walk came to: the pairs that were imported, in order, and the bytes lost on the pair that
ended it. -/
structure Walk where
  imported : Listing
  lost : Nat

namespace Walk

/-- Walks up to `count` pairs, with some imported before. -/
def ofPairs (limit : Nat) : (count : Nat) → Reader → (imported : Listing) → Walk
  | 0, _, imported => ⟨imported, 0⟩
  | count + 1, r, imported =>
    if maxProperties ≤ (Listing.merge imported).length then ⟨imported, 0⟩
    else
      match r.pair with
      | .ok (none, next) => ofPairs limit count next imported
      | .ok (some p, next) =>
        if Listing.footprint imported + p.footprint ≤ limit then
          ofPairs limit count next (imported ++ [p])
        else ⟨imported, r.lost limit (Listing.footprint imported)⟩
      | .error _ => ⟨imported, r.lost limit (Listing.footprint imported)⟩

/-- The bytes that may be copied beside a record that lies at the front of a buffer: at most half of
the buffer, and none of the record. -/
def limit (capacity : Nat) (record : Bytes) : Nat :=
  min (capacity / 2) (capacity - record.length)

/-- Walks a record at the front of a buffer of `capacity` bytes. -/
def ofRecord (capacity : Nat) (record : Bytes) : Walk :=
  match (Reader.ofBytes record).readMapHeader with
  | .error _ => ⟨[], 0⟩
  | .ok (count, next) => ofPairs (limit capacity record) count next []

/-- The properties that the record is seen to have. -/
def properties (walk : Walk) : Listing := Listing.merge walk.imported

end Walk

end PropertyRecord
