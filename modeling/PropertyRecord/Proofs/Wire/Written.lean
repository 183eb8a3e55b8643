import PropertyRecord.Proofs.Wire.RoundTrip

/-!
# Typed reads of a written value

A value that was written may be asked for as any type. Whatever bytes come to stand behind it, the
peeks tell its kind and the length of its payload, and every typed read answers what the value is as
this type, across the one encoding that the signed and the unsigned integers share. A read that
succeeds ends behind the value.

Main statements: `Reader.answers_of_value`, for whatever value is at the position, and
`answers_of_write`.
-/

namespace PropertyRecord

namespace Value

/-- The length of the payload of a text or a byte string. Nothing else has one to be asked for. -/
def payloadLength : Value → Except Fault Nat
  | text s => .ok (utf8 s).length
  | bytes bs => .ok bs.length
  | _ => .error .invalidState

/-- What the peeks and the typed reads answer at a value that ends in front of `next`. -/
structure Answers (v : Value) (r next : Reader) : Prop where
  major : r.peekMajor = .ok v.major
  length : r.peekStringLength = v.payloadLength
  bool : r.readBool = Reader.answer v.bool? .malformed next
  int : r.readInt = Reader.answer v.int64? v.intFault next
  uint : r.readUInt = Reader.answer v.uint64? .malformed next
  double : r.readDouble = Reader.answer v.asDouble? v.intFault next
  text (out : Bytes) : r.readText out = Reader.filling v.text? utf8 next out
  bytes (out : Bytes) : r.readBytes out = Reader.filling v.bytes? id next out

theorem major_reread (v : Value) : v.reread.major = v.major := by
  rcases reread_cases v with same | ⟨i, rfl, positive, unsigned⟩
  · rw [same]
  · rw [unsigned, major, major, if_neg (Int.not_lt.2 positive)]

theorem payloadLength_reread (v : Value) : v.reread.payloadLength = v.payloadLength := by
  rcases reread_cases v with same | ⟨i, rfl, -, unsigned⟩
  · rw [same]
  · rw [unsigned]
    rfl

/-- An integer of the signed type is read as one, so it does not matter that it would have another
fault once it was read back. -/
theorem answer_int64?_reread (v : Value) (next : Reader) :
    Reader.answer v.reread.int64? v.reread.intFault next
      = Reader.answer v.int64? v.intFault next := by
  rcases reread_cases v with same | ⟨i, rfl, -, -⟩
  · rw [same]
  · rw [int64?_reread]
    rfl

theorem answer_asDouble?_reread (v : Value) (next : Reader) :
    Reader.answer v.reread.asDouble? v.reread.intFault next
      = Reader.answer v.asDouble? v.intFault next := by
  rcases reread_cases v with same | ⟨i, rfl, -, -⟩
  · rw [same]
  · rw [asDouble?_reread]
    rfl

/-- What is answered for a value as it is read back is answered for the value. -/
theorem Answers.of_reread {v : Value} {r next : Reader} (answers : v.reread.Answers r next) :
    v.Answers r next where
  major := v.major_reread ▸ answers.major
  length := v.payloadLength_reread ▸ answers.length
  bool := v.bool?_reread ▸ answers.bool
  int := v.answer_int64?_reread next ▸ answers.int
  uint := v.uint64?_reread ▸ answers.uint
  double := v.answer_asDouble?_reread next ▸ answers.double
  text := v.text?_reread ▸ answers.text
  bytes := v.bytes?_reread ▸ answers.bytes

end Value

namespace Reader

variable {r next : Reader} {v : Value}

theorem peekMajor_of_value (read : r.value = .ok (v, next)) : r.peekMajor = .ok v.major := by
  rcases reads_of_value read with ⟨header, parsed, reads⟩
  exact (peekMajor_eq_ok_iff parsed).2 (reads.major parsed)

theorem peekStringLength_of_value (read : r.value = .ok (v, next)) :
    r.peekStringLength = v.payloadLength := by
  have major := peekMajor_of_value read
  rcases reads_of_value read with ⟨header, parsed, reads⟩
  have other (notText : v.major ≠ .text) (notBytes : v.major ≠ .bytes) :
      r.peekStringLength = .error .invalidState := by
    rw [peekStringLength, major]
    simp only [bind, Except.bind, notText, notBytes, or_self, if_false]
  cases reads with
  | text named => exact peekStringLength_of_payload (.inl rfl) (text_eq_ok named)
  | bytes complete => exact peekStringLength_of_payload (.inr rfl) complete
  | negative kind small =>
    have same := (Reads.negative kind small).major parsed
    exact other (by rw [← same, kind]; decide) (by rw [← same, kind]; decide)
  | unsigned | false | true | null | double =>
    exact other (by simp [Value.major]) (by simp [Value.major])

/-- Whatever value is read at a position, it answers all that can be asked there. -/
theorem answers_of_value (read : r.value = .ok (v, next)) : v.Answers r next where
  major := peekMajor_of_value read
  length := peekStringLength_of_value read
  bool := readBool_of_value read
  int := readInt_of_value read
  uint := readUInt_of_value read
  double := readDouble_of_value read
  text := readText_of_value read
  bytes := readBytes_of_value read

end Reader

/-- Typed reads agree with what a written value is as each type. Behind the bytes that were written
before and the key, which can be skipped, there are those of the value. Whatever bytes come to stand
behind these, the value answers all that can be asked there, and ends where the written bytes end.
The length of a buffer is a number of the machine, which a header has room for. -/
theorem answers_of_write {w next : Writer} {p : Property} (trailing : Bytes)
    (machine : w.buffer.length < unsignedBound)
    (written : w.step (.write p) = (.ok .done, next)) :
    ∃ atValue : Reader,
      ((Reader.ofBytes (next.written ++ trailing)).advance w.size).skipItem = .ok atValue
        ∧ atValue.rest = p.value.encode ++ trailing
        ∧ p.value.Answers atValue ⟨next.size, trailing⟩ := by
  by_cases room : p.encode.length ≤ w.remaining
  · have put : w.step (.write p) = (.ok .done, w.put p.encode) := Writer.step_of_le room
    cases put.symm.trans written
    have small : p.footprint < unsignedBound := by
      have inside := p.footprint_le
      rw [Writer.buffer, List.length_append] at machine
      rw [Writer.remaining] at room
      omega
    rw [Property.footprint] at small
    have here : (Reader.ofBytes ((w.put p.encode).written ++ trailing)).advance w.size
        = ⟨w.size, p.encode ++ trailing⟩ := by
      have advanced := Reader.advance_append 0 w.written (p.encode ++ trailing)
      rwa [← List.append_assoc, Nat.zero_add] at advanced
    have named := Reader.text_encodeString (s := p.key) w.size (p.value.encode ++ trailing)
      (by omega)
    have read := Reader.value_encode (v := p.value)
      (w.size + (encodeString .text (utf8 p.key)).length) trailing (by omega)
    have stop : w.size + (encodeString .text (utf8 p.key)).length + p.value.encode.length
        = (w.put p.encode).size := by
      rw [Writer.size_put, Property.encode, List.length_append, Nat.add_assoc]
    rw [stop] at read
    refine ⟨_, ?_, rfl, (Reader.answers_of_value read).of_reread⟩
    rw [here, Property.encode, List.append_assoc]
    exact Reader.skipItem_of_text named
  · have refused : w.step (.write p) = (.error .exhausted, w) :=
      Writer.step_of_lt (Nat.lt_of_not_le room)
    cases refused.symm.trans written

/-- The least integer, behind the header of a map and in front of another byte. -/
theorem answers_of_write_least :
    let w : Writer := ⟨[0xa1], List.replicate 11 0⟩
    let least : Bytes := [0x3b, 0x7f, 0xff, 0xff, 0xff, 0xff, 0xff, 0xff, 0xff]
    ∃ next : Writer, w.step (.write ⟨"n", .int Int64.minValue⟩) = (.ok .done, next)
      ∧ ∃ atValue : Reader,
        ((Reader.ofBytes (next.written ++ [7])).advance 1).skipItem = .ok atValue
          ∧ atValue.rest = least ++ [7]
          ∧ (Value.int Int64.minValue).Answers atValue ⟨12, [7]⟩ := by
  intro w least
  have written : w.step (.write ⟨"n", .int Int64.minValue⟩)
      = (.ok .done, ⟨[0xa1, 0x61, 0x6e] ++ least, []⟩) := rfl
  have small : w.buffer.length < unsignedBound := by decide
  exact ⟨_, written, answers_of_write [7] small written⟩

end PropertyRecord
