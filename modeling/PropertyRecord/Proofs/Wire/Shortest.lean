import PropertyRecord.Proofs.Import.Copying
import PropertyRecord.Proofs.Wire.RoundTrip

/-!
# The canonical encoding is the shortest

A record can be read from many byte strings, because a header may be wider than its argument needs.
Written again, what was read never takes more bytes, and it takes as many, which are then the same
ones, exactly if no header was wider than it had to be. Doubles have but one size.

Main statements: `Spells.shortens` for a header, `shortens_of_value` and `shortens_of_pairs` for
what is read behind it, and `encodeRecord_shortest`.
-/

namespace PropertyRecord

/-! ## What a record is read as -/

namespace Reader

/-- The value at the position, by the read that its initial byte chooses. A string is read into
`out`. -/
def chosenValue (r : Reader) (out : Bytes) : Except Fault (Value × Reader) := do
  let initial ← r.peekByte
  match MajorType.ofInitial initial with
  | .unsigned => r.readUInt.map (Prod.map .uint id)
  | .negative => r.readInt.map (Prod.map .int id)
  | .text => (r.readText out).result.map (Prod.map .text id)
  | .bytes => (r.readBytes out).result.map (Prod.map .bytes id)
  | _ =>
    if initial = falseByte ∨ initial = trueByte then r.readBool.map (Prod.map .bool id)
    else if initial = nullByte then r.skipItem.map fun next => (.null, next)
    else if initial = doubleByte then r.readDouble.map (Prod.map .double id)
    else .error .malformed

/-- The properties are read from the first position to the last, each into buffers that have room
for it. -/
inductive ReadsPairs : Reader → Listing → Reader → Prop where
  | nil (r : Reader) : ReadsPairs r [] r
  | cons {r atValue next last : Reader} {p : Property} {ps : Listing} {keyOut out : Bytes}
      (key : (r.readText keyOut).result = .ok (p.key, atValue))
      (value : atValue.chosenValue out = .ok (p.value, next)) (rest : ReadsPairs next ps last) :
      ReadsPairs r (p :: ps) last

/-- The positions of `count` items one behind the other, as far as there are items. -/
def items : (count : Nat) → Reader → List Reader
  | 0, _ => []
  | count + 1, r =>
    r :: match r.skipItem with
      | .ok next => items count next
      | .error _ => []

/-- The header at the position, unless it is that of a double, is as short as a header of its kind
with its argument can be. -/
def Smallest (r : Reader) : Prop :=
  ∀ header, r.peekHeader = .ok header → r.peekByte ≠ .ok doubleByte →
    ∀ head, Spells header.major header.argument head → header.size ≤ head.length

end Reader

/-- The bytes, from the first to the last, are read as a map header that announces these properties,
and the properties. -/
def IsReadAs (record : Bytes) (ps : Listing) : Prop :=
  ∃ first last : Reader, (Reader.ofBytes record).readMapHeader = .ok (ps.length, first)
    ∧ first.ReadsPairs ps last ∧ last.hasNext = false

/-- The positions of the headers of a record: of the map, and of each key and each value. -/
def headerPositions (record : Bytes) : List Reader :=
  .ofBytes record ::
    match (Reader.ofBytes record).readMapHeader with
    | .ok (count, first) => first.items (2 * count)
    | .error _ => []

/-! ## Shorter encodings -/

/-- The encoding is no longer than the bytes, and it is the bytes exactly if it is as long, which is
if nothing in them is larger than it must be. -/
structure Shortens (encoding bytes : Bytes) (smallest : Prop) : Prop where
  le : encoding.length ≤ bytes.length
  tight : bytes.length ≤ encoding.length → smallest
  eq : smallest → encoding = bytes

namespace Shortens

variable {encoding bytes : Bytes} {smallest : Prop}

theorem refl (bytes : Bytes) : Shortens bytes bytes True :=
  ⟨Nat.le_refl _, fun _ => trivial, fun _ => rfl⟩

theorem eq_iff (shortens : Shortens encoding bytes smallest) : encoding = bytes ↔ smallest := by
  constructor
  · rintro rfl
    exact shortens.tight (Nat.le_refl _)
  · exact shortens.eq

theorem append {more others : Bytes} {also : Prop} (first : Shortens encoding bytes smallest)
    (second : Shortens more others also) :
    Shortens (encoding ++ more) (bytes ++ others) (smallest ∧ also) where
  le := by
    have left := first.le
    have right := second.le
    rw [List.length_append, List.length_append]
    omega
  tight := by
    intro long
    have left := first.le
    have right := second.le
    rw [List.length_append, List.length_append] at long
    exact ⟨first.tight (by omega), second.tight (by omega)⟩
  eq := by
    rintro ⟨left, right⟩
    rw [first.eq left, second.eq right]

theorem congr {other : Prop} (shortens : Shortens encoding bytes smallest)
    (same : smallest ↔ other) : Shortens encoding bytes other :=
  ⟨shortens.le, same.1 ∘ shortens.tight, shortens.eq ∘ same.2⟩

end Shortens

/-! ## Headers -/

namespace Spells

variable {major : MajorType} {argument : Nat} {head : Bytes}

theorem sizeFor_le (spells : Spells major argument head) :
    Header.sizeFor argument ≤ head.length ∧ argument < unsignedBound := by
  rcases spells.parse [] with ⟨info, parsed⟩
  exact (Header.le_length_of_parse parsed).2.2

theorem encode (small : argument < unsignedBound) :
    Spells major argument (Header.encode major argument) := by
  rcases exists_spells_of_parse (Header.parse_encode [] small) with
    ⟨head, rest, split, size, spells⟩
  rw [List.append_nil] at split
  have length := congrArg List.length split
  rw [Header.length_encode, List.length_append, size] at length
  have nothing : rest = [] := List.eq_nil_of_length_eq_zero (Nat.left_eq_add.1 length)
  rw [split, nothing, List.append_nil]
  exact spells

/-- The header of the least size is the canonical one. -/
theorem eq_encode (spells : Spells major argument head)
    (size : head.length = Header.sizeFor argument) : Header.encode major argument = head := by
  cases spells with
  | inline argument small =>
    have inline : argument ≤ 23 := by omega
    simp [Header.encode, Header.infoFor, Header.sizeFor, inline, Bytes.bigEndian]
  | wide info digits announced =>
    rw [List.length_cons] at size
    have width : Header.sizeFor (Bytes.ofBigEndian digits) - 1 = digits.length := by omega
    have positive : 0 < digits.length := by
      simp only [List.mem_cons, Prod.mk.injEq, List.not_mem_nil, or_false] at announced
      omega
    have wide : 23 < Bytes.ofBigEndian digits := by
      by_contra inline
      rw [Header.sizeFor, if_pos (Nat.le_of_not_lt inline)] at size
      omega
    have same : Header.infoFor (Bytes.ofBigEndian digits) = info := by
      have found := widthFor_eq_some_iff.1 (width ▸ Header.widthFor_infoFor wide)
      simp only [List.mem_cons, Prod.mk.injEq, List.not_mem_nil, or_false] at announced found
      omega
    rw [Header.encode, width, Bytes.bigEndian_ofBigEndian, same]

/-- The canonical header shortens any other one with its argument. -/
theorem shortens (spells : Spells major argument head) :
    Shortens (Header.encode major argument) head
      (∀ other, Spells major argument other → head.length ≤ other.length) where
  le := by
    rw [Header.length_encode]
    exact spells.sizeFor_le.1
  tight := by
    intro long other spelled
    rw [Header.length_encode] at long
    exact Nat.le_trans long spelled.sizeFor_le.1
  eq := by
    intro least
    have short := least _ (encode spells.sizeFor_le.2)
    rw [Header.length_encode] at short
    exact spells.eq_encode (Nat.le_antisymm short spells.sizeFor_le.1)

/-- A header of nine bytes has the eight digits of its argument behind the initial byte. -/
theorem eq_of_length {initial : UInt8} (spells : Spells major argument head)
    (nine : head.length = 9) (first : head.head? = some initial) :
    head = initial :: Bytes.bigEndian 8 argument := by
  cases spells with
  | inline => cases nine
  | wide info digits announced =>
    have eight : digits.length = 8 := Nat.succ.inj nine
    cases first
    rw [← eight, Bytes.bigEndian_ofBigEndian]

end Spells

namespace Reader

variable {r next : Reader} {header : Header} {v : Value}

/-! ## Reading what the initial byte announces -/

theorem text_of_readText {s : String} {out : Bytes}
    (read : (r.readText out).result = .ok (s, next)) :
    r.text = .ok (s, next) ∧ (utf8 s).length ≤ out.length := by
  cases found : r.text with
  | error fault =>
    rcases readText_of_text_error out found with ⟨other, failed⟩
    rw [read] at failed
    cases failed
  | ok answer =>
    rcases answer with ⟨t, after⟩
    rw [readText_eq_filling found, filling] at read
    split at read
    next fits =>
      cases read
      exact ⟨rfl, fits⟩
    next => cases read

/-- A text that is refused for want of room is longer than the buffer. -/
theorem payload_of_readText_exhausted {out : Bytes}
    (refused : (r.readText out).result = .error .exhausted) :
    ∃ content next, r.payload .text = .ok (content, next) ∧ out.length < content.length := by
  rw [readText] at refused
  split at refused
  next fault failed =>
    cases refused
    exact absurd failed payload_ne_exhausted
  next content next complete =>
    split at refused
    next =>
      split at refused
      next => cases refused
      next => cases refused
    next large =>
      rw [Bytes.holds_iff] at large
      exact ⟨content, next, complete, Nat.lt_of_not_le large⟩

theorem payload_of_readBytes {content out : Bytes}
    (read : (r.readBytes out).result = .ok (content, next)) :
    r.payload .bytes = .ok (content, next) := by
  rw [readBytes] at read
  split at read
  next => cases read
  next complete =>
    split at read
    next =>
      cases read
      exact complete
    next => cases read

/-- The chosen read finds the value that is at the position. -/
theorem value_of_chosenValue {out : Bytes} (read : r.chosenValue out = .ok (v, next)) :
    r.value = .ok (v, next) := by
  rcases exists_of_bind_ok read with ⟨initial, peeked, read⟩
  split at read
  case h_1 kind =>
    rw [value_unsigned peeked kind]
    exact read
  case h_2 kind =>
    rw [value_negative peeked kind]
    exact read
  case h_3 kind =>
    rcases exists_of_map_ok read with ⟨⟨s, after⟩, found, same⟩
    rw [value_text peeked kind, (text_of_readText found).1]
    exact congrArg Except.ok same
  case h_4 kind =>
    rcases exists_of_map_ok read with ⟨⟨bs, after⟩, found, same⟩
    rw [value_bytes peeked kind, payload_of_readBytes found]
    exact congrArg Except.ok same
  case h_5 =>
    split at read
    next truth =>
      rw [value_bool peeked truth]
      exact read
    next =>
      split at read
      next null =>
        rw [value_null (null ▸ peeked)]
        exact read
      next =>
        split at read
        next double =>
          rw [value_double (double ▸ peeked)]
          exact read
        next => cases read

/-- A value is found by the chosen read, into a buffer that has room for its payload. -/
theorem chosenValue_of_value {out : Bytes} (read : r.value = .ok (v, next))
    (fits : v.payload.length ≤ out.length) : r.chosenValue out = .ok (v, next) := by
  rcases reads_of_value read with ⟨header, parsed, reads⟩
  rcases peekByte_of_peekHeader parsed with ⟨initial, peeked, same, -⟩
  have major := same.trans (reads.major parsed)
  rw [chosenValue, peeked]
  cases reads with
  | unsigned kind =>
    simp only [bind, Except.bind, same.trans kind, readUInt_of_value read]
    rfl
  | negative kind =>
    simp only [bind, Except.bind, same.trans kind, readInt_of_value read]
    rfl
  | text named =>
    have filled : filling (some _) utf8 next out = _ := filling_of_le fits
    simp only [bind, Except.bind, major, Value.major, readText_of_value read]
    rw [Value.text?, filled]
    rfl
  | bytes complete =>
    have filled : filling (some _) id next out = _ := filling_of_le fits
    simp only [bind, Except.bind, major, Value.major, readBytes_of_value read]
    rw [Value.bytes?, filled]
    rfl
  | false found | true found =>
    rw [peeked] at found
    cases found
    simp only [bind, Except.bind, major, Value.major, readBool_of_value read]
    rfl
  | null found =>
    rw [peeked] at found
    cases found
    simp only [bind, Except.bind, major, Value.major, skipItem_of_value read]
    rfl
  | double found =>
    rw [peeked] at found
    cases found
    simp only [bind, Except.bind, major, Value.major, readDouble_of_value read]
    rfl

/-! ## Writing again what was read -/

theorem Passes.length_eq {head : Bytes} {n : Nat} (passes : Passes head r (r.advance n)) :
    head.length = n :=
  Nat.add_left_cancel passes.pos.symm

theorem shortens_of_peekHeader (parsed : r.peekHeader = .ok header)
    (single : r.peekByte ≠ .ok doubleByte) :
    ∃ head, Passes head r (r.advance header.size)
      ∧ Shortens (Header.encode header.major header.argument) head r.Smallest := by
  rcases exists_passes_of_peekHeader parsed with ⟨head, spells, passes⟩
  refine ⟨head, passes, spells.shortens.congr ?_⟩
  constructor
  · intro least found again _ other spelled
    rw [parsed] at again
    cases again
    exact passes.length_eq ▸ least other spelled
  · intro smallest other spelled
    exact passes.length_eq ▸ smallest header parsed single other spelled

/-- Only the header of a simple value or a double has the initial byte of a double. -/
theorem peekByte_ne_of_major (parsed : r.peekHeader = .ok header) (other : header.major ≠ .simple) :
    r.peekByte ≠ .ok doubleByte := by
  intro peeked
  have simple : MajorType.ofInitial doubleByte = .simple := by decide
  exact other ((major_of_peekHeader peeked parsed).trans simple)

theorem shortens_of_payload {major : MajorType} {content : Bytes}
    (string : major = .text ∨ major = .bytes) (read : r.payload major = .ok (content, next)) :
    ∃ bytes, Passes bytes r next ∧ Shortens (encodeString major content) bytes r.Smallest := by
  rcases payload_eq_ok read with ⟨header, rest, parsed, kind, length, split, rfl⟩
  have single : r.peekByte ≠ .ok doubleByte := by
    apply peekByte_ne_of_major parsed
    rcases string with rfl | rfl
    · simp [kind]
    · simp [kind]
  rcases shortens_of_peekHeader parsed single with ⟨head, passes, shortens⟩
  have behind : Passes content (r.advance header.size)
      ((r.advance header.size).advance header.argument) := by
    refine ⟨?_, ?_⟩
    · rw [split, advance, split, ← length, List.drop_left]
    · rw [length]
      rfl
  refine ⟨head ++ content, passes.trans behind, ?_⟩
  rw [encodeString, length, ← kind]
  exact (shortens.append (.refl content)).congr (and_iff_left trivial)

/-- A double has one encoding. -/
theorem shortens_of_double (peeked : r.peekByte = .ok doubleByte)
    (parsed : r.peekHeader = .ok header) :
    ∃ bytes, Passes bytes r (r.advance header.size)
      ∧ Shortens (Value.double ⟨UInt64.ofNat header.argument⟩).encode bytes r.Smallest := by
  rcases exists_passes_of_peekHeader parsed with ⟨head, spells, passes⟩
  have nine := passes.length_eq.trans (size_of_doubleByte peeked parsed)
  have only : r.Smallest := fun _ _ single => absurd peeked single
  have first : head.head? = some doubleByte := by
    cases head with
    | nil => cases nine
    | cons initial digits =>
      rw [peekByte, passes.rest] at peeked
      cases peeked
      rfl
  have same : (Value.double ⟨UInt64.ofNat header.argument⟩).encode = head := by
    rw [Value.encode, toNat_argument parsed]
    exact (spells.eq_of_length nine first).symm
  refine ⟨head, passes, ?_⟩
  rw [same]
  exact (Shortens.refl head).congr (iff_of_true trivial only)

/-- A value that was read is written in no more bytes, and in the same ones if its header could not
be smaller. -/
theorem shortens_of_value (read : r.value = .ok (v, next)) :
    ∃ bytes, Passes bytes r next ∧ Shortens v.encode bytes r.Smallest := by
  rcases reads_of_value read with ⟨header, parsed, reads⟩
  -- Null and the truth values have their number in the initial byte.
  have inline {initial : UInt8} (peeked : r.peekByte = .ok initial)
      (small : infoOf initial < 24) (notDouble : initial ≠ doubleByte)
      (whole : Header.encode (MajorType.ofInitial initial) (infoOf initial) = [initial]) :
      ∃ bytes, Passes bytes r (r.advance header.size) ∧ Shortens [initial] bytes r.Smallest := by
    have known := peekHeader_inline peeked small
    have single : r.peekByte ≠ .ok doubleByte := by
      rw [peeked]
      exact fun same => notDouble (Except.ok.inj same)
    rw [parsed] at known
    cases known
    rw [← whole]
    exact shortens_of_peekHeader parsed single
  cases reads with
  | unsigned kind =>
    rw [Value.encode, toNat_argument parsed, ← kind]
    exact shortens_of_peekHeader parsed (peekByte_ne_of_major parsed (by simp [kind]))
  | negative kind small =>
    have integer := toInt_negative small
    have negative : ¬ 0 ≤ (Int64.ofInt (-1 - header.argument)).toInt := by omega
    have argument : (-1 - (Int64.ofInt (-1 - header.argument)).toInt).toNat = header.argument := by
      omega
    rw [Value.encode, if_neg negative, argument, ← kind]
    exact shortens_of_peekHeader parsed (peekByte_ne_of_major parsed (by simp [kind]))
  | text named => exact shortens_of_payload (.inl rfl) (text_eq_ok named)
  | bytes complete => exact shortens_of_payload (.inr rfl) complete
  | false peeked => exact inline peeked (by decide) (by decide) (by decide)
  | true peeked => exact inline peeked (by decide) (by decide) (by decide)
  | null peeked => exact inline peeked (by decide) (by decide) (by decide)
  | double peeked => exact shortens_of_double peeked parsed

theorem items_of_skipItem {atValue : Reader} (count : Nat) (first : r.skipItem = .ok atValue)
    (second : atValue.skipItem = .ok next) :
    r.items (2 * (count + 1)) = r :: atValue :: next.items (2 * count) := by
  rw [Nat.mul_succ, items, first]
  simp only [items, second]

/-- The same of any number of pairs. -/
theorem shortens_of_pairs {last : Reader} {ps : Listing} (read : r.ReadsPairs ps last) :
    ∃ bytes, Passes bytes r last
      ∧ Shortens (ps.flatMap Property.encode) bytes
          (∀ item ∈ r.items (2 * ps.length), item.Smallest) := by
  induction read with
  | nil r => exact ⟨[], .nil r, (Shortens.refl []).congr (by simp [items])⟩
  | @cons r atValue next last p ps keyOut out key value _ ih =>
    have named := (text_of_readText key).1
    have valued := value_of_chosenValue value
    rcases shortens_of_payload (.inl rfl) (text_eq_ok named) with ⟨keyBytes, keyPasses, keyShort⟩
    rcases shortens_of_value valued with ⟨valueBytes, valuePasses, valueShort⟩
    rcases ih with ⟨bytes, passes, short⟩
    refine ⟨_, (keyPasses.trans valuePasses).trans passes, ?_⟩
    rw [List.flatMap_cons, Property.encode, List.length_cons,
      items_of_skipItem ps.length (skipItem_of_text named) (skipItem_of_value valued)]
    exact ((keyShort.append valueShort).append short).congr (by simp [and_assoc])

/-! ## Reading what was written -/

theorem readsPairs_encode {ps : Listing} (pos : Nat) (rest : Bytes)
    (small : (ps.flatMap Property.encode).length < unsignedBound) :
    (⟨pos, ps.flatMap Property.encode ++ rest⟩ : Reader).ReadsPairs (ps.map Property.reread)
      ⟨pos + (ps.flatMap Property.encode).length, rest⟩ := by
  induction ps generalizing pos with
  | nil => exact .nil _
  | cons p ps ih =>
    rw [List.flatMap_cons, List.length_append] at small
    have footprint := p.footprint_le
    rw [Property.footprint] at footprint
    have keySmall : (utf8 p.key).length < unsignedBound := by omega
    have payloadSmall : p.value.payload.length < unsignedBound := by omega
    rcases exists_of_encode pos (ps.flatMap Property.encode ++ rest) keySmall payloadSmall with
      ⟨atValue, initial, named, -, -, valued⟩
    rw [List.flatMap_cons, List.append_assoc, List.length_append, ← Nat.add_assoc, List.map_cons]
    have key : ((⟨pos, p.encode ++ (ps.flatMap Property.encode ++ rest)⟩ : Reader).readText
        (utf8 p.key)).result = .ok (p.key, atValue) := by
      rw [readText_eq_filling named, filling_of_le (Nat.le_refl _)]
    exact .cons key (chosenValue_of_value valued (Nat.le_refl _)) (ih _ (by omega))

end Reader

/-! ## Records -/

theorem Value.encode_reread (v : Value) : v.reread.encode = v.encode := by
  rcases v.reread_cases with same | ⟨i, rfl, positive, unsigned⟩
  · rw [same]
  · have greatest := i.toInt_lt
    have number : (UInt64.ofNat i.toInt.toNat).toNat = i.toInt.toNat := by
      apply UInt64.toNat_ofNat_of_lt'
      rw [UInt64.size]
      omega
    rw [unsigned, encode, encode, if_pos positive, number]

/-- What is read back from a canonical record is written as the same record. -/
theorem encodeRecord_map_reread (ps : Listing) :
    encodeRecord (ps.map Property.reread) = encodeRecord ps := by
  have same (p : Property) : p.reread.encode = p.encode := by
    rw [Property.encode, Property.reread, p.value.encode_reread, Property.encode]
  simp only [encodeRecord, List.length_map, List.flatMap_map, same]

namespace IsReadAs

variable {record : Bytes} {ps : Listing}

/-- A record that was read is written in no more bytes, and in the same ones exactly if its headers
could not be smaller. -/
theorem shortens (read : IsReadAs record ps) :
    Shortens (encodeRecord ps) record (∀ r ∈ headerPositions record, r.Smallest) := by
  rcases read with ⟨first, last, counted, pairs, done⟩
  rcases Reader.exists_of_readMapHeader counted with ⟨header, parsed, kind, count, rfl⟩
  have single := Reader.peekByte_ne_of_major parsed (by simp [kind])
  rcases Reader.shortens_of_peekHeader parsed single with ⟨head, headPasses, headShort⟩
  rcases Reader.shortens_of_pairs pairs with ⟨bytes, passes, short⟩
  have nothing : last.rest = [] := by simpa [Reader.hasNext] using done
  have whole : record = head ++ bytes := by
    have split := (headPasses.trans passes).rest
    rwa [nothing, List.append_nil] at split
  rw [kind, count] at headShort
  have joined := headShort.append short
  rw [← whole] at joined
  refine joined.congr ?_
  simp only [headerPositions, counted, List.forall_mem_cons]

theorem encode (small : (encodeRecord ps).length < unsignedBound) :
    IsReadAs (encodeRecord ps) (ps.map Property.reread) := by
  have count := Nat.lt_of_le_of_lt (Listing.length_le_length_encodeRecord ps) small
  have header := Reader.readMapHeader_encode 0 (ps.flatMap Property.encode) count
  have items : (ps.flatMap Property.encode).length < unsignedBound := by
    rw [encodeRecord, List.length_append] at small
    omega
  have pairs := Reader.readsPairs_encode (0 + Header.sizeFor ps.length) [] items
  rw [List.append_nil] at pairs
  refine ⟨_, _, ?_, pairs, rfl⟩
  rw [List.length_map]
  exact header

end IsReadAs

/-- The canonical encoding is the shortest. Whatever bytes are read, from the first to the last, as
a record with some properties, writing these properties takes no more bytes, and the same ones
exactly if no header was wider than its argument needs. So whatever is read back from a record that
was written is written as that record again. -/
theorem encodeRecord_shortest :
    (∀ (record : Bytes) (ps : Listing), IsReadAs record ps →
        ∀ buffer : Bytes, record.length ≤ buffer.length →
          ∃ w : Writer, Dialogue Writer.step (.ofBuffer buffer) ps.writes w
            ∧ w.size ≤ record.length
            ∧ (w.written = record ↔ ∀ r ∈ headerPositions record, r.Smallest))
      ∧ ∀ (ps : Listing) (buffer : Bytes), buffer.length < unsignedBound →
          (encodeRecord ps).length ≤ buffer.length →
          ∃ w : Writer, Dialogue Writer.step (.ofBuffer buffer) ps.writes w
            ∧ (∃ qs, IsReadAs w.written qs)
            ∧ ∀ qs, IsReadAs w.written qs →
                ∃ again : Writer, Dialogue Writer.step (.ofBuffer buffer) qs.writes again
                  ∧ again.written = w.written := by
  refine ⟨?_, ?_⟩
  · intro record ps read buffer long
    have shortens := read.shortens
    exact ⟨_, Writer.dialogue_writes (Nat.le_trans shortens.le long), shortens.le, shortens.eq_iff⟩
  · intro ps buffer machine room
    have read : IsReadAs (encodeRecord ps) (ps.map Property.reread) :=
      .encode (Nat.lt_of_le_of_lt room machine)
    have smallest := read.shortens.eq_iff.1 (encodeRecord_map_reread ps)
    refine ⟨_, Writer.dialogue_writes room, ⟨_, read⟩, ?_⟩
    intro qs other
    have same : encodeRecord qs = encodeRecord ps := other.shortens.eq smallest
    exact ⟨_, Writer.dialogue_writes (same ▸ room), same⟩

/-- A number below 24 may be read behind a header with an argument of its own, and takes a byte less
when it is written. -/
theorem encodeRecord_shortest_wider :
    let record : Bytes := [0xa1, 0x61, 0x6b, 0x18, 0x05]
    let ps : Listing := [⟨"k", .uint 5⟩]
    IsReadAs record ps
      ∧ (∃ w : Writer, Dialogue Writer.step (.ofBuffer record) ps.writes w
        ∧ w.size ≤ record.length ∧ w.written ≠ record)
      ∧ encodeRecord ps = [0xa1, 0x61, 0x6b, 0x05] := by
  intro record ps
  have key : (Reader.readText ⟨1, record.drop 1⟩ [0]).result
      = .ok ("k", ⟨3, record.drop 3⟩) := by decide +kernel
  have value : Reader.chosenValue ⟨3, record.drop 3⟩ [] = .ok (.uint 5, ⟨5, []⟩) := by
    decide +kernel
  have read : IsReadAs record ps :=
    ⟨⟨1, record.drop 1⟩, ⟨5, []⟩, by decide +kernel, .cons key value (.nil _), rfl⟩
  have wide : ¬ Reader.Smallest ⟨3, record.drop 3⟩ := by
    intro smallest
    have parsed : Reader.peekHeader ⟨3, record.drop 3⟩ = .ok ⟨.unsigned, 24, 5, 2⟩ := by
      decide +kernel
    have spelled : Spells .unsigned 5 [initialByte .unsigned 5] := .inline 5 (by decide)
    exact absurd (smallest _ parsed (by decide +kernel) _ spelled) (by decide)
  rcases encodeRecord_shortest.1 record ps read record (Nat.le_refl _) with
    ⟨w, written, shorter, same⟩
  refine ⟨read, ⟨w, written, shorter, fun equal => ?_⟩, by decide⟩
  exact wide (same.1 equal _ (by decide +kernel))

end PropertyRecord
