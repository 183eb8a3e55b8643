import PropertyRecord.Proofs.Wire.Position

/-!
# Typed reads

A value can be read as whatever it is, or by a read that asks for one type. The two agree: a typed
read answers with what the value is as that type and stops behind the value, and if it is nothing
as that type, or too large for the caller's buffer, the read fails.

Main statements: `readBool_of_value`, `readInt_of_value`, `readUInt_of_value`,
`readDouble_of_value`, `readText_of_value` and `readBytes_of_value`.
-/

namespace PropertyRecord

namespace Value

/-- The double, or an integer that fits the signed type, rounded to the nearest double. -/
def asDouble? : Value → Option Double
  | double d => some d
  | v => v.int64?.map fun i => Double.ofInt i.toInt

/-- Why a value that is not an integer of the signed type is not read as one. -/
def intFault : Value → Fault
  | uint _ => .outOfRange
  | _ => .malformed

/-! ## What a value is when it is read back -/

/-- Only an integer that is not negative is read back as another value. -/
theorem reread_cases (v : Value) :
    v.reread = v
      ∨ ∃ i : Int64, v = .int i ∧ 0 ≤ i.toInt ∧ v.reread = .uint (UInt64.ofNat i.toInt.toNat) := by
  cases v with
  | int i =>
    rw [reread]
    split
    next positive => exact .inr ⟨i, rfl, positive, rfl⟩
    next => exact .inl rfl
  | null | bool | uint | double | text | bytes => exact .inl rfl

theorem bool?_reread (v : Value) : v.reread.bool? = v.bool? := by
  rcases reread_cases v with same | ⟨i, rfl, -, unsigned⟩
  · rw [same]
  · rw [unsigned]
    rfl

theorem int64?_reread (v : Value) : v.reread.int64? = v.int64? := by
  rcases reread_cases v with same | ⟨i, rfl, positive, unsigned⟩
  · rw [same]
  · have greatest := i.toInt_lt
    have number : (UInt64.ofNat i.toInt.toNat).toNat = i.toInt.toNat := by
      apply UInt64.toNat_ofNat_of_lt'
      rw [UInt64.size]
      omega
    have small : i.toInt.toNat < signedBound := by
      rw [signedBound]
      omega
    rw [unsigned]
    simp only [int64?, number, small, if_true, ← Int64.ofInt_eq_ofNat,
      Int.toNat_of_nonneg positive, Int64.ofInt_toInt]

theorem uint64?_reread (v : Value) : v.reread.uint64? = v.uint64? := by
  rcases reread_cases v with same | ⟨i, rfl, positive, unsigned⟩
  · rw [same]
  · rw [unsigned, uint64?, uint64?, if_pos positive]

theorem asDouble?_reread (v : Value) : v.reread.asDouble? = v.asDouble? := by
  rcases reread_cases v with same | ⟨i, rfl, -, unsigned⟩
  · rw [same]
  · have integer := int64?_reread (.int i)
    rw [unsigned] at integer ⊢
    simp only [asDouble?, integer]

theorem text?_reread (v : Value) : v.reread.text? = v.text? := by
  rcases reread_cases v with same | ⟨i, rfl, -, unsigned⟩
  · rw [same]
  · rw [unsigned]
    rfl

theorem bytes?_reread (v : Value) : v.reread.bytes? = v.bytes? := by
  rcases reread_cases v with same | ⟨i, rfl, -, unsigned⟩
  · rw [same]
  · rw [unsigned]
    rfl

end Value

namespace Reader

/-- What a typed read comes to: what was found, with the reader behind it, or a fault. -/
def answer {α : Type} (found : Option α) (fault : Fault) (next : Reader) :
    Except Fault (α × Reader) :=
  match found with
  | some a => .ok (a, next)
  | none => .error fault

/-- What a typed read into a buffer comes to: a string that was found is copied if it fits. -/
def filling {α : Type} (found : Option α) (content : α → Bytes) (next : Reader) (out : Bytes) :
    Filled (α × Reader) :=
  match found with
  | some a =>
    if (content a).length ≤ out.length then ⟨.ok (a, next), Bytes.overlay (content a) out⟩
    else ⟨.error .exhausted, out⟩
  | none => ⟨.error .malformed, out⟩

theorem filling_of_le {α : Type} {a : α} {content : α → Bytes} {next : Reader} {out : Bytes}
    (fits : (content a).length ≤ out.length) :
    filling (some a) content next out = ⟨.ok (a, next), Bytes.overlay (content a) out⟩ :=
  if_pos fits

variable {r next : Reader} {header : Header} {v : Value}

/-! ## Headers and values -/

theorem argument_lt (parsed : r.peekHeader = .ok header) : header.argument < unsignedBound :=
  (Header.le_length_of_parse parsed).2.2.2

theorem toNat_argument (parsed : r.peekHeader = .ok header) :
    (UInt64.ofNat header.argument).toNat = header.argument :=
  UInt64.toNat_ofNat_of_lt' (argument_lt parsed)

theorem toInt_negative {argument : Nat} (small : argument < signedBound) :
    (Int64.ofInt (-1 - argument)).toInt = -1 - argument := by
  simp only [signedBound] at small
  apply Int64.toInt_ofInt_of_le
  · omega
  · omega

/-- A value has the kind of its header. -/
theorem Reads.major (parsed : r.peekHeader = .ok header) (reads : r.Reads header v next) :
    header.major = v.major := by
  cases reads with
  | unsigned kind => exact kind
  | negative kind small =>
    have negative : (Int64.ofInt (-1 - header.argument)).toInt < 0 := by
      rw [toInt_negative small]
      omega
    rw [kind, Value.major, if_pos negative]
  | text read => exact major_of_payload parsed (text_eq_ok read)
  | bytes read => exact major_of_payload parsed read
  | false peeked | true peeked | null peeked | double peeked =>
    exact major_of_peekHeader peeked parsed

theorem peekHeaderOf_of_ne {major : MajorType} (parsed : r.peekHeader = .ok header)
    (other : header.major ≠ major) : r.peekHeaderOf major = .error .malformed := by
  rw [peekHeaderOf, parsed]
  exact if_neg other

theorem payload_of_ne {major : MajorType} (parsed : r.peekHeader = .ok header)
    (other : header.major ≠ major) : r.payload major = .error .malformed := by
  rw [payload, peekHeaderOf_of_ne parsed other]
  rfl

/-! ## Truth values -/

theorem readBool_of_peekByte {initial : UInt8} (peeked : r.peekByte = .ok initial)
    (notFalse : initial ≠ falseByte) (notTrue : initial ≠ trueByte) :
    r.readBool = .error .malformed := by
  rw [readBool, peeked]
  simp only [bind, Except.bind, notFalse, notTrue, if_false]

theorem readBool_of_major (parsed : r.peekHeader = .ok header) (other : header.major ≠ .simple) :
    r.readBool = .error .malformed := by
  rcases peekByte_of_peekHeader parsed with ⟨initial, peeked, major, -⟩
  have apart (simple : UInt8) (kind : MajorType.ofInitial simple = .simple) : initial ≠ simple := by
    rintro rfl
    exact other (major.symm.trans kind)
  exact readBool_of_peekByte peeked (apart falseByte (by decide)) (apart trueByte (by decide))

theorem readBool_of_value (read : r.value = .ok (v, next)) :
    r.readBool = answer v.bool? .malformed next := by
  rcases reads_of_value read with ⟨header, parsed, reads⟩
  have major := reads.major parsed
  cases reads with
  | false peeked =>
    have inline := peekHeader_inline peeked (by decide)
    rw [parsed] at inline
    cases inline
    rw [readBool, peeked]
    rfl
  | true peeked =>
    have inline := peekHeader_inline peeked (by decide)
    rw [parsed] at inline
    cases inline
    rw [readBool, peeked]
    rfl
  | null peeked => exact readBool_of_peekByte peeked (by decide) (by decide)
  | double peeked => exact readBool_of_peekByte peeked (by decide) (by decide)
  | unsigned kind => exact readBool_of_major parsed (by simp [kind])
  | negative kind => exact readBool_of_major parsed (by simp [kind])
  | text | bytes => exact readBool_of_major parsed (by simp [major, Value.major])

/-! ## Integers -/

theorem readInt_of_major (parsed : r.peekHeader = .ok header)
    (notUnsigned : header.major ≠ .unsigned) (notNegative : header.major ≠ .negative) :
    r.readInt = .error .malformed := by
  rw [readInt, parsed]
  simp only [bind, Except.bind]

theorem readInt_of_value (read : r.value = .ok (v, next)) :
    r.readInt = answer v.int64? v.intFault next := by
  rcases reads_of_value read with ⟨header, parsed, reads⟩
  have major := reads.major parsed
  cases reads with
  | unsigned kind =>
    rw [readInt, parsed]
    simp only [bind, Except.bind, kind, Value.int64?, toNat_argument parsed, Int64.ofInt_eq_ofNat]
    split <;> rfl
  | negative kind small =>
    rw [readInt, parsed]
    simp only [bind, Except.bind, kind, small, if_true]
    rfl
  | text | bytes | false | true | null | double =>
    exact readInt_of_major parsed (by simp [major, Value.major]) (by simp [major, Value.major])

theorem readUInt_of_value (read : r.value = .ok (v, next)) :
    r.readUInt = answer v.uint64? .malformed next := by
  rcases reads_of_value read with ⟨header, parsed, reads⟩
  have major := reads.major parsed
  have failed (other : header.major ≠ .unsigned) : r.readUInt = .error .malformed := by
    rw [readUInt, peekHeaderOf_of_ne parsed other]
    rfl
  cases reads with
  | unsigned kind =>
    rw [readUInt, peekHeaderOf, parsed]
    simp only [bind, Except.bind, kind, if_true]
    rfl
  | negative kind small =>
    have negative : ¬ 0 ≤ (Int64.ofInt (-1 - header.argument)).toInt := by
      rw [toInt_negative small]
      omega
    rw [failed (by simp [kind]), Value.uint64?, if_neg negative]
    rfl
  | text | bytes | false | true | null | double => exact failed (by simp [major, Value.major])

/-! ## Doubles -/

theorem readDouble_of_integer {initial : UInt8} (peeked : r.peekByte = .ok initial)
    (kind : MajorType.ofInitial initial = .unsigned ∨ MajorType.ofInitial initial = .negative) :
    r.readDouble = r.readInt.map fun (i, next) => (Double.ofInt i.toInt, next) := by
  rw [readDouble, peeked]
  rcases kind with kind | kind
  · simp only [bind, Except.bind, kind]
    cases r.readInt <;> rfl
  · simp only [bind, Except.bind, kind]
    cases r.readInt <;> rfl

theorem readDouble_of_other {initial : UInt8} (peeked : r.peekByte = .ok initial)
    (notUnsigned : MajorType.ofInitial initial ≠ .unsigned)
    (notNegative : MajorType.ofInitial initial ≠ .negative) (notDouble : initial ≠ doubleByte) :
    r.readDouble = .error .malformed := by
  rw [readDouble, peeked]
  simp only [bind, Except.bind, notDouble, if_false]

theorem readDouble_of_value (read : r.value = .ok (v, next)) :
    r.readDouble = answer v.asDouble? v.intFault next := by
  rcases reads_of_value read with ⟨header, parsed, reads⟩
  rcases peekByte_of_peekHeader parsed with ⟨initial, peeked, same, -⟩
  have major := reads.major parsed
  have integer := readInt_of_value read
  cases reads with
  | unsigned kind =>
    have widened : Value.asDouble? (.uint (UInt64.ofNat header.argument))
        = (Value.int64? (.uint (UInt64.ofNat header.argument))).map
            fun i => Double.ofInt i.toInt := rfl
    rw [readDouble_of_integer peeked (.inl (same.trans kind)), integer, widened]
    cases Value.int64? (.uint (UInt64.ofNat header.argument)) <;> rfl
  | negative kind =>
    rw [readDouble_of_integer peeked (.inr (same.trans kind)), integer]
    rfl
  | double found =>
    rw [readDouble, found]
    simp only [bind, Except.bind, parsed]
    rfl
  | false found | true found | null found =>
    exact readDouble_of_other found (by decide) (by decide) (by decide)
  | text | bytes =>
    have notDouble : initial ≠ doubleByte := by
      rintro rfl
      have simple : MajorType.ofInitial doubleByte = .simple := by decide
      simp [← same, simple, Value.major] at major
    exact readDouble_of_other peeked (by simp [same, major, Value.major])
      (by simp [same, major, Value.major]) notDouble

/-! ## Strings -/

/-- A text is read with its bytes copied to the front of a buffer that has room for them. -/
theorem readText_eq_filling {s : String} (read : r.text = .ok (s, next)) (out : Bytes) :
    r.readText out = filling (some s) utf8 next out := by
  rw [readText, text_eq_ok read]
  simp only [Bytes.holds_iff, ofUtf8?_utf8]
  rfl

theorem readText_of_value (read : r.value = .ok (v, next)) (out : Bytes) :
    r.readText out = filling v.text? utf8 next out := by
  rcases reads_of_value read with ⟨header, parsed, reads⟩
  have major := reads.major parsed
  have failed (other : header.major ≠ .text) : r.readText out = ⟨.error .malformed, out⟩ := by
    rw [readText, payload_of_ne parsed other]
  cases reads with
  | text named => exact readText_eq_filling named out
  | negative kind => exact failed (by simp [kind])
  | unsigned | bytes | false | true | null | double =>
    exact failed (by simp [major, Value.major])

theorem readBytes_of_value (read : r.value = .ok (v, next)) (out : Bytes) :
    r.readBytes out = filling v.bytes? id next out := by
  rcases reads_of_value read with ⟨header, parsed, reads⟩
  have major := reads.major parsed
  have failed (other : header.major ≠ .bytes) : r.readBytes out = ⟨.error .malformed, out⟩ := by
    rw [readBytes, payload_of_ne parsed other]
  cases reads with
  | bytes complete =>
    rw [readBytes, complete]
    simp only [Bytes.holds_iff]
    rfl
  | negative kind => exact failed (by simp [kind])
  | unsigned | text | false | true | null | double =>
    exact failed (by simp [major, Value.major])

end Reader

end PropertyRecord
