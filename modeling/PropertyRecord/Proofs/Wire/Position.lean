import PropertyRecord.Proofs.Wire.Pair

/-!
# Positions

A reader over a source has the bytes of the source from its position on, and stays so when it reads
or skips. Two readers at the same position can part ways only if one of them skips what the other
one reads, and for the values that a record keeps they do not.

Main statements: `skipItem_of_value` and `Over.skipItem`.
-/

namespace PropertyRecord

namespace Reader

variable {source : Bytes} {r next : Reader}

/-! ## Skipping what is read -/

/-- An item without content ends with its header. -/
theorem skipItem_of_inline {header : Header} (parsed : r.peekHeader = .ok header)
    (kind : header.major = .unsigned ∨ header.major = .negative ∨ header.major = .simple) :
    r.skipItem = .ok (r.advance header.size) := by
  rw [skipItem, skipLevels, parsed]
  rcases kind with kind | kind | kind
  · simp [kind, bind, Except.bind, pure, Except.pure]
  · simp [kind, bind, Except.bind, pure, Except.pure]
  · simp [kind, bind, Except.bind, pure, Except.pure]

/-- What a value that is read consists of, by the kind of its header. -/
inductive Reads (r : Reader) (header : Header) : Value → Reader → Prop where
  | unsigned (kind : header.major = .unsigned) :
      Reads r header (.uint (UInt64.ofNat header.argument)) (r.advance header.size)
  | negative (kind : header.major = .negative) (small : header.argument < signedBound) :
      Reads r header (.int (Int64.ofInt (-1 - header.argument))) (r.advance header.size)
  | text {s : String} {next : Reader} (read : r.text = .ok (s, next)) :
      Reads r header (.text s) next
  | bytes {bs : Bytes} {next : Reader} (read : r.payload .bytes = .ok (bs, next)) :
      Reads r header (.bytes bs) next
  | false (peeked : r.peekByte = .ok falseByte) :
      Reads r header (.bool false) (r.advance header.size)
  | true (peeked : r.peekByte = .ok trueByte) :
      Reads r header (.bool true) (r.advance header.size)
  | null (peeked : r.peekByte = .ok nullByte) : Reads r header .null (r.advance header.size)
  | double (peeked : r.peekByte = .ok doubleByte) :
      Reads r header (.double ⟨UInt64.ofNat header.argument⟩) (r.advance header.size)

theorem reads_of_value {v : Value} (read : r.value = .ok (v, next)) :
    ∃ header, r.peekHeader = .ok header ∧ r.Reads header v next := by
  rcases exists_of_bind_ok read with ⟨header, parsed, read⟩
  refine ⟨header, parsed, ?_⟩
  split at read
  next kind =>
    cases read
    exact .unsigned kind
  next kind =>
    split at read
    next small =>
      cases read
      exact .negative kind small
    next => cases read
  next =>
    rcases exists_of_bind_ok read with ⟨⟨s, after⟩, named, read⟩
    cases read
    exact .text named
  next =>
    rcases exists_of_bind_ok read with ⟨⟨bs, after⟩, complete, read⟩
    cases read
    exact .bytes complete
  next =>
    rcases exists_of_bind_ok read with ⟨initial, peeked, read⟩
    simp only at read
    split at read
    next same =>
      cases read
      exact .false (same ▸ peeked)
    next =>
      split at read
      next same =>
        cases read
        exact .true (same ▸ peeked)
      next =>
        split at read
        next same =>
          cases read
          exact .null (same ▸ peeked)
        next =>
          split at read
          next same =>
            cases read
            exact .double (same ▸ peeked)
          next => cases read

/-- A value is skipped exactly as it is read. -/
theorem skipItem_of_value {v : Value} (read : r.value = .ok (v, next)) :
    r.skipItem = .ok next := by
  rcases reads_of_value read with ⟨header, parsed, reads⟩
  cases reads with
  | unsigned kind => exact skipItem_of_inline parsed (.inl kind)
  | negative kind => exact skipItem_of_inline parsed (.inr (.inl kind))
  | text named => exact skipItem_of_text named
  | bytes complete => exact skipItem_of_payload (.inr rfl) complete
  | false peeked | true peeked | null peeked | double peeked =>
    exact skipItem_of_inline parsed (.inr (.inr (major_of_peekHeader peeked parsed)))

/-- A complete pair is its key and its value, whatever its value is. -/
theorem exists_of_pair {found : Option Property} (paired : r.pair = .ok (found, next)) :
    ∃ atValue, r.skipItem = .ok atValue ∧ atValue.skipItem = .ok next := by
  cases found with
  | none =>
    rcases exists_of_pair_none paired with ⟨atValue, _, skipped, _, _, passed⟩
    exact ⟨atValue, skipped, passed⟩
  | some p =>
    rcases exists_of_pair_some paired with ⟨atValue, _, skipped, _, _, _, read⟩
    exact ⟨atValue, skipped, skipItem_of_value read⟩

/-- Only the initial byte of null is read as null, and it is read as nothing else. -/
theorem value_eq_null_iff {v : Value} {initial : UInt8} (read : r.value = .ok (v, next))
    (peeked : r.peekByte = .ok initial) : v = .null ↔ initial = nullByte := by
  rcases reads_of_value read with ⟨header, parsed, reads⟩
  have major := major_of_peekHeader peeked parsed
  -- The initial byte of null is not one of any other kind of value.
  have apart {kind : MajorType} (found : header.major = kind) (other : kind ≠ .simple) :
      initial ≠ nullByte := by
    rintro rfl
    exact other (found.symm.trans major)
  cases reads with
  | unsigned kind => exact iff_of_false (by simp) (apart kind (by decide))
  | negative kind => exact iff_of_false (by simp) (apart kind (by decide))
  | text named =>
    have kind := major_of_payload parsed (text_eq_ok named)
    exact iff_of_false (by simp) (apart kind (by decide))
  | bytes complete =>
    have kind := major_of_payload parsed complete
    exact iff_of_false (by simp) (apart kind (by decide))
  | false found | true found | double found =>
    rw [peeked] at found
    cases found
    exact iff_of_false (by simp) (by decide)
  | null found =>
    rw [peeked] at found
    cases found
    exact iff_of_true rfl rfl

/-- Only strings have a payload. -/
theorem payload_of_value {v : Value} {initial : UInt8} (read : r.value = .ok (v, next))
    (peeked : r.peekByte = .ok initial) (notText : MajorType.ofInitial initial ≠ .text)
    (notBytes : MajorType.ofInitial initial ≠ .bytes) : v.payload = [] := by
  rcases reads_of_value read with ⟨header, parsed, reads⟩
  have major := major_of_peekHeader peeked parsed
  cases reads with
  | text named =>
    exact absurd (major.symm.trans (major_of_payload parsed (text_eq_ok named))) notText
  | bytes complete => exact absurd (major.symm.trans (major_of_payload parsed complete)) notBytes
  | unsigned | negative | false | true | null | double => rfl

/-! ## Readers over a source -/

/-- A reader that has the bytes of the source from its position on. -/
def Over (source : Bytes) (r : Reader) : Prop := r.rest = source.drop r.pos

namespace Over

theorem ofBytes (source : Bytes) : Over source (Reader.ofBytes source) := rfl

theorem advance (inside : Over source r) (n : Nat) : Over source (r.advance n) := by
  rw [Over, Reader.advance, inside, List.drop_drop]

theorem readMapHeader (inside : Over source r) {count : Nat}
    (read : r.readMapHeader = .ok (count, next)) : Over source next := by
  rcases exists_of_bind_ok read with ⟨header, -, read⟩
  cases read
  exact inside.advance _

/-- Steps that each lead from the source to the source do so together. -/
theorem repeatedly {one : Reader → Except Fault Reader}
    (step : ∀ {r next : Reader}, Over source r → one r = .ok next → Over source next)
    {count : Nat} (inside : Over source r) (passed : repeatedly one count r = .ok next) :
    Over source next := by
  induction count generalizing r with
  | zero =>
    cases passed
    exact inside
  | succ count ih =>
    rw [Reader.repeatedly] at passed
    split at passed
    next found => exact ih (step inside found) passed
    next => cases passed

theorem skipLevels {levels : Nat} (inside : Over source r)
    (skipped : skipLevels levels r = .ok next) : Over source next := by
  induction levels generalizing r next with
  | zero => cases skipped
  | succ levels ih =>
    rcases exists_of_bind_ok skipped with ⟨header, -, skipped⟩
    have content := inside.advance header.size
    simp only at skipped
    split at skipped
    case h_1 | h_2 | h_3 =>
      cases skipped
      exact content
    case h_4 | h_5 =>
      split at skipped
      next =>
        cases skipped
        exact content.advance _
      next => cases skipped
    case h_6 => exact content.repeatedly ih skipped
    case h_7 => exact content.repeatedly ih skipped
    case h_8 => exact ih content skipped

theorem skipItem (inside : Over source r) (skipped : r.skipItem = .ok next) : Over source next :=
  inside.skipLevels skipped

end Over

end Reader

end PropertyRecord
