import PropertyRecord.Wire.Canonical
import PropertyRecord.Wire.Item

/-!
# Pairs

A record is a sequence of pairs, and this module says what one pair is, apart from any buffer that
its key and value may be copied to: an item that is the key, and a value. A value of a kind that a
record does not keep is foreign; the pair is then passed over, whatever its key is.

Main statements: `skipItem_of_payload`, reading a string and skipping it end at the same place, and
`pair_encode`, the canonical bytes of a property are a pair with that property.
-/

namespace PropertyRecord

theorem exists_of_bind_ok {ε α β : Type} {x : Except ε α} {f : α → Except ε β} {b : β}
    (done : (x >>= f) = .ok b) : ∃ a, x = .ok a ∧ f a = .ok b := by
  cases x with
  | error fault => contradiction
  | ok a => exact ⟨a, rfl, done⟩

theorem exists_of_map_ok {ε α β : Type} {x : Except ε α} {f : α → β} {b : β}
    (done : x.map f = .ok b) : ∃ a, x = .ok a ∧ f a = b := by
  cases x with
  | error fault => cases done
  | ok a =>
    cases done
    exact ⟨a, rfl, rfl⟩

/-- A value as it is read back: the wire does not tell an integer that is not negative from an
unsigned one. -/
def Value.reread : Value → Value
  | .int i => if 0 ≤ i.toInt then .uint (UInt64.ofNat i.toInt.toNat) else .int i
  | v => v

/-- A property as it is read back. -/
def Property.reread (p : Property) : Property := ⟨p.key, p.value.reread⟩

/-- Whether an initial byte starts a value that a record keeps: an integer, a text, a byte string,
or one of four initial bytes. -/
def storable (initial : UInt8) : Bool :=
  MajorType.ofInitial initial ∈ [MajorType.unsigned, .negative, .bytes, .text]
    || initial ∈ [falseByte, trueByte, nullByte, doubleByte]

theorem Header.parse_ne_exhausted {bytes : Bytes} : Header.parse bytes ≠ .error .exhausted := by
  intro refused
  cases bytes with
  | nil => cases refused
  | cons initial rest =>
    simp only [Header.parse] at refused
    split at refused
    next => cases refused
    next =>
      split at refused
      next => cases refused
      next =>
        split at refused
        next => cases refused
        next => cases refused

namespace Reader

/-- The text at the position. -/
def text (r : Reader) : Except Fault (String × Reader) := do
  let (content, next) ← r.payload .text
  match ofUtf8? content with
  | some s => return (s, next)
  | none => .error .malformed

/-- The value at the position. -/
def value (r : Reader) : Except Fault (Value × Reader) := do
  let header ← r.peekHeader
  match header.major with
  | .unsigned => return (.uint (UInt64.ofNat header.argument), r.advance header.size)
  | .negative =>
    if header.argument < signedBound then
      return (.int (Int64.ofInt (-1 - header.argument)), r.advance header.size)
    else .error .outOfRange
  | .text =>
    let (s, next) ← r.text
    return (.text s, next)
  | .bytes =>
    let (bs, next) ← r.payload .bytes
    return (.bytes bs, next)
  | _ =>
    let initial ← r.peekByte
    let next := r.advance header.size
    if initial = falseByte then return (.bool false, next)
    else if initial = trueByte then return (.bool true, next)
    else if initial = nullByte then return (.null, next)
    else if initial = doubleByte then return (.double ⟨UInt64.ofNat header.argument⟩, next)
    else .error .malformed

/-- The property of the pair at the position, or `none` if its value is foreign. -/
def pair (r : Reader) : Except Fault (Option Property × Reader) := do
  let atValue ← r.skipItem
  let initial ← atValue.peekByte
  if storable initial then
    let (key, _) ← r.text
    let (v, next) ← atValue.value
    return (some ⟨key, v⟩, next)
  else
    let next ← atValue.skipItem
    return (none, next)

theorem peekHeader_of_peekHeaderOf {r : Reader} {major : MajorType} {header : Header}
    (found : r.peekHeaderOf major = .ok header) :
    r.peekHeader = .ok header ∧ header.major = major := by
  rcases exists_of_bind_ok found with ⟨other, parsed, kind⟩
  split at kind
  next same =>
    cases kind
    exact ⟨parsed, same⟩
  next => cases kind

/-! ## Strings -/

/-- What a complete string at the position consists of. -/
theorem payload_eq_ok {r next : Reader} {major : MajorType} {content : Bytes}
    (read : r.payload major = .ok (content, next)) :
    ∃ header rest, r.peekHeader = .ok header ∧ header.major = major
      ∧ content.length = header.argument ∧ (r.advance header.size).rest = content ++ rest
      ∧ next = (r.advance header.size).advance header.argument := by
  rcases exists_of_bind_ok read with ⟨header, found, read⟩
  rcases peekHeader_of_peekHeaderOf found with ⟨parsed, same⟩
  split at read
  next cut =>
    cases read
    rcases Bytes.cut?_eq_some_iff.1 cut with ⟨split, length⟩
    exact ⟨header, _, parsed, same, length, split, rfl⟩
  next => cases read

/-- Only a lack of room is reported as such: whatever is wrong with a string has another fault. -/
theorem payload_ne_exhausted {r : Reader} {major : MajorType} :
    r.payload major ≠ .error .exhausted := by
  intro refused
  cases parsed : r.peekHeader with
  | error fault =>
    rw [payload, peekHeaderOf, parsed] at refused
    cases refused
    exact Header.parse_ne_exhausted parsed
  | ok header =>
    rw [payload, peekHeaderOf, parsed] at refused
    by_cases kind : header.major = major
    · simp only [bind, Except.bind, kind, if_true, pure, Except.pure] at refused
      split at refused
      next => cases refused
      next => cases refused
    · simp only [bind, Except.bind, kind, if_false] at refused
      cases refused

/-- A header has the kind and the additional information of its initial byte. -/
theorem peekByte_of_peekHeader {r : Reader} {header : Header} (read : r.peekHeader = .ok header) :
    ∃ initial, r.peekByte = .ok initial ∧ MajorType.ofInitial initial = header.major
      ∧ infoOf initial = header.info := by
  rcases r with ⟨pos, rest⟩
  cases rest with
  | nil => cases read
  | cons initial rest =>
    refine ⟨initial, rfl, ?_⟩
    simp only [peekHeader, Header.parse] at read
    split at read
    next => cases read; exact ⟨rfl, rfl⟩
    next =>
      split at read
      next => cases read
      next =>
        split at read
        next => cases read
        next => cases read; exact ⟨rfl, rfl⟩

theorem peekHeader_inline {r : Reader} {initial : UInt8} (peeked : r.peekByte = .ok initial)
    (small : infoOf initial < 24) :
    r.peekHeader
      = .ok ⟨MajorType.ofInitial initial, infoOf initial, infoOf initial, 1⟩ := by
  rcases r with ⟨pos, rest⟩
  cases rest with
  | nil => cases peeked
  | cons first rest =>
    cases peeked
    exact if_pos small

theorem major_of_peekHeader {r : Reader} {header : Header} {initial : UInt8}
    (peeked : r.peekByte = .ok initial) (parsed : r.peekHeader = .ok header) :
    header.major = MajorType.ofInitial initial := by
  rcases peekByte_of_peekHeader parsed with ⟨first, found, major, -⟩
  rw [peeked] at found
  cases found
  exact major.symm

theorem peekMajor_of_peekByte {r : Reader} {initial : UInt8} (peeked : r.peekByte = .ok initial) :
    r.peekMajor = .ok (MajorType.ofInitial initial) := by
  rw [peekMajor, peeked]
  rfl

theorem peekMajor_eq_ok_iff {r : Reader} {header : Header} {major : MajorType}
    (parsed : r.peekHeader = .ok header) : r.peekMajor = .ok major ↔ header.major = major := by
  rcases peekByte_of_peekHeader parsed with ⟨initial, peeked, same, -⟩
  rw [peekMajor_of_peekByte peeked, same, Except.ok.injEq]

/-- A map header that is read is a header of this kind, with the count as its argument. -/
theorem exists_of_readMapHeader {r next : Reader} {count : Nat}
    (read : r.readMapHeader = .ok (count, next)) :
    ∃ header, r.peekHeader = .ok header ∧ header.major = .map ∧ header.argument = count
      ∧ next = r.advance header.size := by
  rcases exists_of_bind_ok read with ⟨header, found, read⟩
  rcases peekHeader_of_peekHeaderOf found with ⟨parsed, same⟩
  cases read
  exact ⟨header, parsed, same, rfl, rfl⟩

/-- A string that is read has its kind in its header. -/
theorem major_of_payload {r next : Reader} {header : Header} {major : MajorType} {content : Bytes}
    (parsed : r.peekHeader = .ok header) (read : r.payload major = .ok (content, next)) :
    header.major = major := by
  rcases payload_eq_ok read with ⟨found, -, again, kind, -⟩
  rw [parsed] at again
  cases again
  exact kind

/-- A string is skipped exactly as it is read. -/
theorem skipItem_of_payload {r next : Reader} {major : MajorType} {content : Bytes}
    (string : major = .text ∨ major = .bytes) (read : r.payload major = .ok (content, next)) :
    r.skipItem = .ok next := by
  rcases payload_eq_ok read with ⟨header, rest, parsed, kind, length, split, rfl⟩
  have complete : Bytes.holds header.argument (r.advance header.size).rest = true := by
    rw [Bytes.holds_iff, split, List.length_append, length]
    exact Nat.le_add_right _ _
  rw [skipItem, skipLevels, parsed]
  cases string with
  | inl text =>
    rw [text] at kind
    simp [kind, complete, bind, Except.bind, pure, Except.pure]
  | inr bytes =>
    rw [bytes] at kind
    simp [kind, complete, bind, Except.bind, pure, Except.pure]

/-- The length that a complete string claims is that of its content. -/
theorem peekStringLength_of_payload {r next : Reader} {major : MajorType} {content : Bytes}
    (string : major = .text ∨ major = .bytes) (read : r.payload major = .ok (content, next)) :
    r.peekStringLength = .ok content.length := by
  rcases payload_eq_ok read with ⟨header, rest, parsed, kind, length, -, -⟩
  rcases peekByte_of_peekHeader parsed with ⟨initial, first, major, -⟩
  have named : header.major = .text ∨ header.major = .bytes := by
    rw [kind]
    exact string
  simp [peekStringLength, peekMajor, first, major, parsed, named, length, bind, Except.bind,
    pure, Except.pure]

theorem text_eq_ok {r next : Reader} {s : String} (read : r.text = .ok (s, next)) :
    r.payload .text = .ok (utf8 s, next) := by
  rcases exists_of_bind_ok read with ⟨⟨content, after⟩, complete, read⟩
  simp only at read
  split at read
  next valid =>
    cases read
    rw [complete, eq_utf8_of_ofUtf8? valid]
  next => cases read

theorem skipItem_of_text {r next : Reader} {s : String} (read : r.text = .ok (s, next)) :
    r.skipItem = .ok next :=
  skipItem_of_payload (.inl rfl) (text_eq_ok read)

/-- Where a text ends is where it is skipped to. -/
theorem eq_of_text_of_skipItem {r next after : Reader} {s : String}
    (read : r.text = .ok (s, after)) (skipped : r.skipItem = .ok next) : next = after := by
  have same := (skipItem_of_text read).symm.trans skipped
  cases same
  rfl

/-! ## What a pair consists of -/

theorem exists_of_pair_none {r next : Reader} (foreign : r.pair = .ok (none, next)) :
    ∃ atValue initial, r.skipItem = .ok atValue ∧ atValue.peekByte = .ok initial
      ∧ storable initial = false ∧ atValue.skipItem = .ok next := by
  rcases exists_of_bind_ok foreign with ⟨atValue, skipped, foreign⟩
  rcases exists_of_bind_ok foreign with ⟨initial, peeked, foreign⟩
  refine ⟨atValue, initial, skipped, peeked, ?_⟩
  split at foreign
  next =>
    rcases exists_of_bind_ok foreign with ⟨key, -, foreign⟩
    rcases exists_of_bind_ok foreign with ⟨v, -, foreign⟩
    cases foreign
  next other =>
    rcases exists_of_bind_ok foreign with ⟨after, passed, foreign⟩
    cases foreign
    exact ⟨Bool.eq_false_iff.2 other, passed⟩

theorem exists_of_pair_some {r next : Reader} {p : Property}
    (found : r.pair = .ok (some p, next)) :
    ∃ atValue initial, r.skipItem = .ok atValue ∧ atValue.peekByte = .ok initial
      ∧ storable initial = true ∧ r.text = .ok (p.key, atValue)
      ∧ atValue.value = .ok (p.value, next) := by
  rcases exists_of_bind_ok found with ⟨atValue, skipped, found⟩
  rcases exists_of_bind_ok found with ⟨initial, peeked, found⟩
  refine ⟨atValue, initial, skipped, peeked, ?_⟩
  split at found
  next kept =>
    rcases exists_of_bind_ok found with ⟨⟨key, after⟩, named, found⟩
    rcases exists_of_bind_ok found with ⟨⟨v, behind⟩, read, found⟩
    cases found
    obtain rfl := eq_of_text_of_skipItem named skipped
    exact ⟨kept, named, read⟩
  next =>
    rcases exists_of_bind_ok found with ⟨after, -, found⟩
    cases found

/-! ## Canonical bytes -/

theorem advance_append (pos : Nat) (front rest : Bytes) :
    (⟨pos, front ++ rest⟩ : Reader).advance front.length = ⟨pos + front.length, rest⟩ := by
  rw [advance, List.drop_left]

theorem peekHeader_encode {major : MajorType} {argument : Nat} (pos : Nat) (rest : Bytes)
    (small : argument < unsignedBound) :
    (⟨pos, Header.encode major argument ++ rest⟩ : Reader).peekHeader
      = .ok ⟨major, Header.infoFor argument, argument, Header.sizeFor argument⟩ :=
  Header.parse_encode rest small

theorem advance_encode (major : MajorType) (argument pos : Nat) (rest : Bytes) :
    (⟨pos, Header.encode major argument ++ rest⟩ : Reader).advance (Header.sizeFor argument)
      = ⟨pos + Header.sizeFor argument, rest⟩ := by
  have advanced := advance_append pos (Header.encode major argument) rest
  rwa [Header.length_encode] at advanced

theorem readMapHeader_encode {count : Nat} (pos : Nat) (rest : Bytes)
    (small : count < unsignedBound) :
    (⟨pos, encodeMapHeader count ++ rest⟩ : Reader).readMapHeader
      = .ok (count, ⟨pos + Header.sizeFor count, rest⟩) := by
  rw [readMapHeader, peekHeaderOf, encodeMapHeader, peekHeader_encode pos rest small]
  simp only [bind, Except.bind, if_true, pure, Except.pure, advance_encode]

theorem peekHeader_encodeString (major : MajorType) {content : Bytes} (pos : Nat) (rest : Bytes)
    (small : content.length < unsignedBound) :
    (⟨pos, encodeString major content ++ rest⟩ : Reader).peekHeader
      = .ok ⟨major, Header.infoFor content.length, content.length,
          Header.sizeFor content.length⟩ := by
  rw [encodeString, List.append_assoc]
  exact peekHeader_encode pos (content ++ rest) small

theorem payload_encodeString (major : MajorType) {content : Bytes} (pos : Nat) (rest : Bytes)
    (small : content.length < unsignedBound) :
    (⟨pos, encodeString major content ++ rest⟩ : Reader).payload major
      = .ok (content, ⟨pos + (encodeString major content).length, rest⟩) := by
  have cut : Bytes.cut? content.length (content ++ rest) = some (content, rest) :=
    Bytes.cut?_eq_some_iff.2 ⟨rfl, rfl⟩
  have behind := advance_append (pos + Header.sizeFor content.length) content rest
  rw [encodeString, List.append_assoc, payload, peekHeaderOf, peekHeader_encode _ _ small]
  simp only [bind, Except.bind, if_true, pure, Except.pure, advance_encode, cut, behind,
    List.length_append, Header.length_encode, Nat.add_assoc]

theorem text_encodeString {s : String} (pos : Nat) (rest : Bytes)
    (small : (utf8 s).length < unsignedBound) :
    (⟨pos, encodeString .text (utf8 s) ++ rest⟩ : Reader).text
      = .ok (s, ⟨pos + (encodeString .text (utf8 s)).length, rest⟩) := by
  rw [text, payload_encodeString .text pos rest small]
  simp only [bind, Except.bind, ofUtf8?_utf8, pure, Except.pure]

theorem peekByte_cons (pos : Nat) (initial : UInt8) (rest : Bytes) :
    (⟨pos, initial :: rest⟩ : Reader).peekByte = .ok initial := rfl

/-- The canonical item of a value starts with a byte that says so. -/
theorem storable_encode (v : Value) :
    ∃ initial tail, v.encode = initial :: tail ∧ storable initial = true := by
  have first (major : MajorType) (argument : Nat) :
      MajorType.ofInitial (initialByte major (Header.infoFor argument)) = major :=
    ofInitial_initialByte _ _ (Nat.lt_trans (Header.infoFor_lt argument) (by decide))
  cases v with
  | null => exact ⟨_, _, rfl, by decide⟩
  | bool b => cases b <;> exact ⟨_, _, rfl, by decide⟩
  | int i =>
    rw [Value.encode]
    split <;> exact ⟨_, _, rfl, by simp [storable, first]⟩
  | uint u => exact ⟨_, _, rfl, by simp [storable, first]⟩
  | double d => exact ⟨_, _, rfl, by decide⟩
  | text s => exact ⟨_, _, rfl, by simp [storable, first]⟩
  | bytes bs => exact ⟨_, _, rfl, by simp [storable, first]⟩

theorem value_encode_unsigned {argument : Nat} (pos : Nat) (rest : Bytes)
    (small : argument < unsignedBound) :
    (⟨pos, Header.encode .unsigned argument ++ rest⟩ : Reader).value
      = .ok (.uint (UInt64.ofNat argument),
          ⟨pos + (Header.encode .unsigned argument).length, rest⟩) := by
  rw [value, peekHeader_encode _ _ small]
  simp only [bind, Except.bind, pure, Except.pure, advance_encode, Header.length_encode]

theorem value_encode_negative {i : Int64} (pos : Nat) (rest : Bytes) (negative : i.toInt < 0) :
    (⟨pos, Header.encode .negative (-1 - i.toInt).toNat ++ rest⟩ : Reader).value
      = .ok (.int i, ⟨pos + (Header.encode .negative (-1 - i.toInt).toNat).length, rest⟩) := by
  have least := i.le_toInt
  have fits : (-1 - i.toInt).toNat < signedBound := by
    simp only [signedBound]
    omega
  have small : (-1 - i.toInt).toNat < unsignedBound := by
    simp only [signedBound, unsignedBound] at fits ⊢
    omega
  have back : -1 - ((-1 - i.toInt).toNat : Int) = i.toInt := by omega
  rw [value, peekHeader_encode _ _ small]
  simp only [bind, Except.bind, pure, Except.pure, advance_encode, Header.length_encode, fits,
    if_true, back, Int64.ofInt_toInt]

theorem peekHeader_double (d : Double) (pos : Nat) (rest : Bytes) :
    (⟨pos, doubleByte :: (Bytes.bigEndian 8 d.bits.toNat ++ rest)⟩ : Reader).peekHeader
      = .ok ⟨.simple, 27, d.bits.toNat, 9⟩ := by
  have cut : Bytes.cut? 8 (Bytes.bigEndian 8 d.bits.toNat ++ rest)
      = some (Bytes.bigEndian 8 d.bits.toNat, rest) :=
    Bytes.cut?_eq_some_iff.2 ⟨rfl, Bytes.length_bigEndian _ _⟩
  have small : d.bits.toNat < Bytes.scale 8 := d.bits.toNat_lt
  have major : MajorType.ofInitial doubleByte = .simple := by decide
  have info : infoOf doubleByte = 27 := by decide
  rw [peekHeader, Header.parse]
  simp only [major, info, Header.widthFor, cut, Bytes.ofBigEndian_bigEndian,
    Nat.mod_eq_of_lt small]
  rfl

/-- A value is read back from the front of any bytes that its item was written to. -/
theorem value_encode {v : Value} (pos : Nat) (rest : Bytes)
    (small : v.payload.length < unsignedBound) :
    (⟨pos, v.encode ++ rest⟩ : Reader).value
      = .ok (v.reread, ⟨pos + v.encode.length, rest⟩) := by
  cases v with
  | null => rfl
  | bool b => cases b <;> rfl
  | int i =>
    have greatest := i.toInt_lt
    rw [Value.encode, Value.reread]
    split
    next =>
      apply value_encode_unsigned
      simp only [unsignedBound]
      omega
    next negative => exact value_encode_negative pos rest (by omega)
  | uint u =>
    have read := value_encode_unsigned pos rest u.toNat_lt
    rwa [UInt64.ofNat_toNat] at read
  | double d =>
    have advanced := advance_append pos (doubleByte :: Bytes.bigEndian 8 d.bits.toNat) rest
    rw [List.length_cons, Bytes.length_bigEndian] at advanced
    have other : doubleByte ≠ falseByte ∧ doubleByte ≠ trueByte ∧ doubleByte ≠ nullByte := by
      decide
    rw [Value.encode, List.length_cons, Bytes.length_bigEndian, ← advanced, List.cons_append,
      value, peekHeader_double]
    simp only [bind, Except.bind, peekByte_cons, other, if_false, if_true, UInt64.ofNat_toNat]
    rfl
  | text s =>
    have header := peekHeader_encodeString .text pos rest small
    have read := text_encodeString pos rest small
    rw [Value.encode, value]
    simp only [Value.payload] at header
    simp only [header, read, bind, Except.bind, pure, Except.pure, Value.reread]
  | bytes bs =>
    have header := peekHeader_encodeString .bytes pos rest small
    have read := payload_encodeString .bytes pos rest small
    rw [Value.encode, value]
    simp only [Value.payload] at header read
    simp only [header, read, bind, Except.bind, pure, Except.pure, Value.reread]

/-- The canonical bytes of a property are the item of its key and then the one of its value. -/
theorem exists_of_encode {p : Property} (pos : Nat) (rest : Bytes)
    (keySmall : (utf8 p.key).length < unsignedBound)
    (payloadSmall : p.value.payload.length < unsignedBound) :
    ∃ atValue initial, (⟨pos, p.encode ++ rest⟩ : Reader).text = .ok (p.key, atValue)
      ∧ atValue.peekByte = .ok initial ∧ storable initial = true
      ∧ atValue.value = .ok (p.value.reread, ⟨pos + p.encode.length, rest⟩) := by
  rcases storable_encode p.value with ⟨initial, tail, first, kept⟩
  have named := text_encodeString (s := p.key) pos (p.value.encode ++ rest) keySmall
  have read := value_encode (pos + (encodeString .text (utf8 p.key)).length) rest payloadSmall
  rw [Property.encode, List.append_assoc, List.length_append, ← Nat.add_assoc]
  refine ⟨_, initial, named, ?_, kept, read⟩
  rw [first, List.cons_append, peekByte_cons]

/-- The canonical bytes of a property are a pair with that property. -/
theorem pair_encode {p : Property} (pos : Nat) (rest : Bytes)
    (keySmall : (utf8 p.key).length < unsignedBound)
    (payloadSmall : p.value.payload.length < unsignedBound) :
    (⟨pos, p.encode ++ rest⟩ : Reader).pair
      = .ok (some p.reread, ⟨pos + p.encode.length, rest⟩) := by
  rcases exists_of_encode pos rest keySmall payloadSmall with
    ⟨atValue, initial, named, peeked, kept, read⟩
  rw [pair, skipItem_of_text named]
  simp only [bind, Except.bind, peeked, kept, if_true, named, read, pure, Except.pure,
    Property.reread]

end Reader

end PropertyRecord
