import Mathlib.Data.List.Flatten
import PropertyRecord.Proofs.Listing
import PropertyRecord.Proofs.Wire.Grammar
import PropertyRecord.Proofs.Wire.Typed

/-!
# Sizes

How long canonical bytes are, compared with the copies that an import makes of them and with the
bytes that a property was read from. A header is never read from fewer bytes than it is written in,
so neither is a value or a pair.

Main statements: `Listing.footprint_le_length_encodeRecord`, and `Reader.length_encode_le_of_pair`,
which says that writing what was read takes no more bytes.
-/

namespace PropertyRecord

/-! ## Copies -/

/-- The bytes of a payload stand in the canonical item of the value. -/
theorem Value.length_payload_le (v : Value) : v.payload.length ≤ v.encode.length := by
  cases v with
  | text s =>
    rw [payload, encode, encodeString, List.length_append]
    exact Nat.le_add_left _ _
  | bytes bs =>
    rw [payload, encode, encodeString, List.length_append]
    exact Nat.le_add_left _ _
  | null | bool | int | uint | double => exact Nat.zero_le _

theorem Property.footprint_le (p : Property) : p.footprint ≤ p.encode.length := by
  have payload := p.value.length_payload_le
  rw [footprint, encode, encodeString, List.length_append, List.length_append]
  omega

namespace Listing

theorem footprint_le_length_flatMap (ps : Listing) :
    footprint ps ≤ (ps.flatMap Property.encode).length := by
  induction ps with
  | nil => exact Nat.le_refl 0
  | cons p ps ih =>
    have first := p.footprint_le
    rw [footprint_cons, List.flatMap_cons, List.length_append]
    omega

theorem footprint_le_length_encodeRecord (ps : Listing) :
    footprint ps ≤ (encodeRecord ps).length := by
  rw [encodeRecord, List.length_append]
  exact Nat.le_add_left_of_le (footprint_le_length_flatMap ps)

/-! ## Records -/

theorem length_le_length_encodeRecord (ps : Listing) : ps.length ≤ (encodeRecord ps).length := by
  have items : ps.length ≤ (ps.flatMap Property.encode).length := by
    induction ps with
    | nil => exact Nat.le_refl 0
    | cons p ps ih =>
      have header := Header.sizeFor_pos (utf8 p.key).length
      rw [List.flatMap_cons, List.length_append, Property.encode, encodeString,
        List.length_append, List.length_append, Header.length_encode, List.length_cons]
      omega
  rw [encodeRecord, List.length_append]
  exact Nat.le_add_left_of_le items

/-- A short record has a map header of one byte. -/
theorem length_encodeMapHeader {ps : Listing} (short : ps.length ≤ maxProperties) :
    (encodeMapHeader ps.length).length = 1 := by
  have inline : ps.length ≤ 23 := Nat.le_trans short (by decide)
  rw [encodeMapHeader, Header.length_encode, Header.sizeFor, if_pos inline]

theorem length_encodeRecord {ps : Listing} (short : ps.length ≤ maxProperties) :
    (encodeRecord ps).length = 1 + (ps.flatMap Property.encode).length := by
  rw [encodeRecord, List.length_append, length_encodeMapHeader short]

/-- Leaving properties out makes a record shorter. -/
theorem length_encodeRecord_le_of_sublist {ps qs : Listing} (fewer : ps.Sublist qs)
    (short : qs.length ≤ maxProperties) : (encodeRecord ps).length ≤ (encodeRecord qs).length := by
  rw [length_encodeRecord short, length_encodeRecord (Nat.le_trans fewer.length_le short)]
  exact Nat.add_le_add_left (fewer.flatMap Property.encode).length_le 1

theorem length_flatMap_put_le (p : Property) (ps : Listing) :
    ((put p ps).flatMap Property.encode).length
      ≤ (ps.flatMap Property.encode).length + p.encode.length := by
  induction ps with
  | nil =>
    rw [put, List.flatMap_singleton]
    exact Nat.le_add_left _ _
  | cons q ps ih =>
    rw [put]
    split
    next =>
      rw [List.flatMap_cons, List.flatMap_cons, List.length_append, List.length_append]
      omega
    next =>
      rw [List.flatMap_cons, List.flatMap_cons, List.length_append, List.length_append]
      omega

/-- Of the pairs with one key, merging keeps no more than one. -/
theorem length_flatMap_merge_le (ps : Listing) :
    ((merge ps).flatMap Property.encode).length ≤ (ps.flatMap Property.encode).length := by
  induction ps using List.reverseRecOn with
  | nil => exact Nat.le_refl _
  | append_singleton ps p ih =>
    have last := length_flatMap_put_le p (merge ps)
    rw [merge_concat, List.flatMap_append, List.flatMap_singleton, List.length_append]
    omega

end Listing

/-! ## Items -/

theorem Spells.length_pos {major : MajorType} {argument : Nat} {head : Bytes}
    (spells : Spells major argument head) : 0 < head.length := by
  cases spells with
  | inline => exact Nat.one_pos
  | wide => exact Nat.succ_pos _

/-- No item is empty. -/
theorem IsItem.length_pos {levels : Nat} {item : Bytes} (isItem : IsItem levels item) :
    0 < item.length := by
  cases isItem with
  | plain _ spells => exact spells.length_pos
  | string _ spells | array spells | map spells | tag spells =>
    rw [List.length_append]
    exact Nat.add_pos_left spells.length_pos _

/-! ## What is read -/

namespace Reader

variable {r next : Reader} {header : Header}

theorem remaining_advance (r : Reader) (n : Nat) : (r.advance n).remaining = r.remaining - n :=
  List.length_drop

theorem Passes.remaining {bytes : Bytes} (passes : Passes bytes r next) :
    r.remaining = bytes.length + next.remaining := by
  rw [Reader.remaining, passes.rest, List.length_append, Reader.remaining]

/-- A header takes at least as many bytes as the smallest one with its argument. -/
theorem sizeFor_le_of_peekHeader (parsed : r.peekHeader = .ok header) :
    0 < header.size ∧ Header.sizeFor header.argument ≤ header.size
      ∧ header.size + (r.advance header.size).remaining = r.remaining := by
  rcases Header.le_length_of_parse parsed with ⟨positive, inside, smallest, -⟩
  refine ⟨positive, smallest, ?_⟩
  rw [remaining_advance]
  exact Nat.add_sub_cancel' inside

theorem length_encodeString_le_of_payload {major : MajorType} {content : Bytes}
    (read : r.payload major = .ok (content, next)) :
    (encodeString major content).length + next.remaining ≤ r.remaining := by
  rcases payload_eq_ok read with ⟨header, rest, parsed, -, length, split, rfl⟩
  rcases sizeFor_le_of_peekHeader parsed with ⟨-, smallest, size⟩
  have behind : (r.advance header.size).remaining = content.length + rest.length := by
    rw [remaining, split, List.length_append]
  rw [encodeString, List.length_append, Header.length_encode, remaining_advance]
  rw [length] at behind ⊢
  omega

theorem size_of_doubleByte (peeked : r.peekByte = .ok doubleByte)
    (parsed : r.peekHeader = .ok header) : header.size = 9 := by
  rcases r with ⟨pos, rest⟩
  cases rest with
  | nil => cases peeked
  | cons first rest =>
    cases peeked
    have announced : Header.widthFor (infoOf doubleByte) = some 8 := by decide
    have outside : ¬ infoOf doubleByte < 24 := by decide
    simp only [peekHeader, Header.parse, outside, if_false, announced] at parsed
    split at parsed
    next => cases parsed
    next =>
      cases parsed
      rfl

/-- A value takes at least as many bytes as its canonical item. -/
theorem length_encode_le_of_value {v : Value} (read : r.value = .ok (v, next)) :
    v.encode.length + next.remaining ≤ r.remaining := by
  rcases reads_of_value read with ⟨header, parsed, reads⟩
  rcases sizeFor_le_of_peekHeader parsed with ⟨positive, smallest, size⟩
  cases reads with
  | unsigned =>
    rw [Value.encode, toNat_argument parsed, Header.length_encode]
    omega
  | negative kind small =>
    have integer := toInt_negative small
    have negative : ¬ 0 ≤ (Int64.ofInt (-1 - header.argument)).toInt := by omega
    have argument : (-1 - (Int64.ofInt (-1 - header.argument)).toInt).toNat = header.argument := by
      omega
    rw [Value.encode, if_neg negative, argument, Header.length_encode]
    omega
  | text named =>
    exact length_encodeString_le_of_payload (text_eq_ok named)
  | bytes complete => exact length_encodeString_le_of_payload complete
  | false | true | null =>
    rw [Value.encode, List.length_singleton]
    omega
  | double peeked =>
    have nine := size_of_doubleByte peeked parsed
    rw [Value.encode, List.length_cons, Bytes.length_bigEndian]
    omega

theorem remaining_lt_of_skipLevels {levels : Nat} (skipped : skipLevels levels r = .ok next) :
    next.remaining < r.remaining := by
  cases levels with
  | zero => cases skipped
  | succ levels =>
    rcases skipLevels_eq_ok_iff.1 skipped with ⟨item, isItem, passes⟩
    have positive := isItem.length_pos
    rw [passes.remaining]
    omega

/-- A pair takes at least as many bytes as the canonical items of its property, if it has one. -/
theorem length_encode_le_of_pair {found : Option Property} (paired : r.pair = .ok (found, next)) :
    (found.toList.flatMap Property.encode).length + next.remaining ≤ r.remaining := by
  cases found with
  | none =>
    rcases exists_of_pair_none paired with ⟨atValue, initial, skipped, -, -, passed⟩
    have key := remaining_lt_of_skipLevels skipped
    have value := remaining_lt_of_skipLevels passed
    rw [Option.toList_none, List.flatMap_nil, List.length_nil]
    omega
  | some p =>
    rcases exists_of_pair_some paired with ⟨atValue, initial, -, -, -, named, read⟩
    have key := length_encodeString_le_of_payload (text_eq_ok named)
    have value := length_encode_le_of_value read
    rw [Option.toList_some, List.flatMap_singleton, Property.encode, List.length_append]
    omega

theorem remaining_lt_of_readMapHeader {count : Nat} (read : r.readMapHeader = .ok (count, next)) :
    next.remaining < r.remaining := by
  rcases exists_of_readMapHeader read with ⟨header, parsed, -, -, rfl⟩
  rcases sizeFor_le_of_peekHeader parsed with ⟨positive, -, size⟩
  omega

end Reader

end PropertyRecord
