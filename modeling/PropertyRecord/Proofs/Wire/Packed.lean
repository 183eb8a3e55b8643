import Mathlib.Algebra.Group.Nat.Defs
import PropertyRecord.Proofs.Wire.Cursor
import PropertyRecord.Proofs.Wire.Shortest
import PropertyRecord.Wire.Packed

/-!
# Headers, packed and parsed

A packed header is the smallest one, digit for digit: narrowing the argument to the bytes of its
size loses nothing, because the size is chosen so. Parsing undoes packing whatever bytes follow. The
other way round a header that is parsed need not be the smallest one, and it is exactly if it has
the size that packing gives it. A parse fails for two causes, and each has its own kind of input.

Main statements: `pack_eq`, `parse_eq_error_iff` and `packs_and_parses`.
-/

namespace PropertyRecord

/-! ## Words -/

theorem Bytes.scale_eq_two_pow (width : Nat) : scale width = 2 ^ (8 * width) := by
  induction width with
  | zero => rfl
  | succ width ih =>
    rw [scale, ih]
    exact (Nat.pow_add 2 (8 * width) 8).symm

theorem Bytes.bigEndian_eq_map (width n : Nat) :
    bigEndian width n = (List.range width).reverse.map fun i => UInt8.ofNat (n / scale i) := by
  induction width with
  | zero => rfl
  | succ width ih =>
    rw [bigEndian, List.range_succ, List.reverse_append, List.map_append, ih]
    rfl

namespace Word

theorem toNat_extract_narrow {width i : Nat} (inside : i < width) (word : UInt64) :
    ((narrow width word).extractLsb' (8 * i) 8).toNat = word.toNat / Bytes.scale i % 2 ^ 8 := by
  have higher : 8 * width = 8 * i + 8 * (width - i) := by omega
  have divides : 2 ^ 8 ∣ 2 ^ (8 * (width - i)) := Nat.pow_dvd_pow 2 (by omega)
  calc ((narrow width word).extractLsb' (8 * i) 8).toNat
      = word.toNat % (2 ^ (8 * i) * 2 ^ (8 * (width - i))) / 2 ^ (8 * i) % 2 ^ 8 := by
        rw [BitVec.extractLsb'_toNat, narrow, BitVec.toNat_setWidth, Nat.shiftRight_eq_div_pow,
          UInt64.toNat_toBitVec, ← Nat.pow_add, ← higher]
    _ = word.toNat / 2 ^ (8 * i) % 2 ^ 8 := by
        rw [Nat.mod_mul_right_div_self, Nat.mod_mod_of_dvd _ divides]
    _ = word.toNat / Bytes.scale i % 2 ^ 8 := by rw [Bytes.scale_eq_two_pow]

/-- A word is narrowed to its lowest digits. -/
theorem digits_narrow (width : Nat) (word : UInt64) :
    digits (narrow width word) = Bytes.bigEndian width word.toNat := by
  rw [digits, Bytes.bigEndian_eq_map]
  refine List.map_congr_left fun i listed => UInt8.toNat.inj ?_
  have inside : i < width := List.mem_range.1 (List.mem_reverse.1 listed)
  rw [UInt8.toNat_ofBitVec, toNat_extract_narrow inside, UInt8.toNat_ofNat']

end Word

theorem MajorType.bits_or (major : MajorType) {info : UInt8} (small : info.toNat < 32) :
    major.bits ||| info = initialByte major info.toNat := by
  have code := major.code_lt
  have bits : major.bits.toNat = 2 ^ 5 * major.code := by
    rw [MajorType.bits, UInt8.toNat_ofNat']
    omega
  apply UInt8.toNat.inj
  rw [UInt8.toNat_or, bits, ← Nat.two_pow_add_eq_or_of_lt small, toNat_initialByte major _ small]

namespace Header

/-! ## Packing -/

theorem wide_eq (major : MajorType) {info : UInt8} (small : info.toNat < 32) (width : Nat)
    (argument : UInt64) :
    wide major info width argument
      = initialByte major info.toNat :: Bytes.bigEndian width argument.toNat := by
  rw [wide, major.bits_or small, Word.digits_narrow]

/-- The sizes of headers, with the additional information that goes with each. -/
theorem sizeFor_cases (argument : Nat) :
    (argument ≤ 23 ∧ sizeFor argument = 1 ∧ infoFor argument = argument)
      ∨ sizeFor argument = 2 ∧ infoFor argument = 24
      ∨ sizeFor argument = 3 ∧ infoFor argument = 25
      ∨ sizeFor argument = 5 ∧ infoFor argument = 26
      ∨ sizeFor argument = 9 ∧ infoFor argument = 27 := by
  unfold sizeFor infoFor
  repeat' split
  all_goals simp_all

/-- A packed header is the smallest one for its argument, with zeros behind it. -/
theorem pack_eq (major : MajorType) (argument : UInt64) :
    pack major argument = ⟨padded major argument.toNat, sizeFor argument.toNat⟩ := by
  rw [padded, encode]
  rcases sizeFor_cases argument.toNat with
    ⟨small, size, info⟩ | ⟨size, info⟩ | ⟨size, info⟩ | ⟨size, info⟩ | ⟨size, info⟩
  · have whole : argument.toUInt8.toNat = argument.toNat := by
      rw [UInt64.toNat_toUInt8]
      omega
    have initial := major.bits_or (whole.symm ▸ Nat.lt_of_le_of_lt small (by decide))
    simp only [pack, size, info, initial, whole]
    rfl
  all_goals
    simp only [pack, size, info]
    rw [wide_eq major (by decide)]
    rfl

theorem header_pack (major : MajorType) (argument : UInt64) :
    (pack major argument).header = encode major argument.toNat := by
  rw [pack_eq, Packed.header, padded, Bytes.overlay, ← length_encode major]
  exact List.take_left

/-! ## Parsing -/

/-- The initial byte has additional information that is not supported. -/
def Reserved (bytes : Bytes) : Prop :=
  ∃ initial rest, bytes = initial :: rest ∧ 28 ≤ infoOf initial

/-- There is no initial byte, or there are fewer bytes behind it than it announces. -/
def Cut (bytes : Bytes) : Prop :=
  bytes = [] ∨ ∃ initial rest width, bytes = initial :: rest
    ∧ (infoOf initial, width) ∈ [(24, 1), (25, 2), (26, 4), (27, 8)] ∧ rest.length < width

/-- What a parse of the bytes comes to. -/
structure ParsesAs (bytes : Bytes) (result : Except Fault Header) : Prop where
  /-- A header is parsed exactly if it is spelled at the front of the bytes. -/
  ok_iff : ∀ major argument size, (∃ info, result = .ok ⟨major, info, argument, size⟩)
    ↔ ∃ head rest, bytes = head ++ rest ∧ head.length = size ∧ Spells major argument head
  /-- It is no shorter than a packed header, and is one exactly if it is not longer. -/
  packed : ∀ header, result = .ok header → ∃ argument : UInt64, header.argument = argument.toNat
    ∧ header.size ≤ bytes.length
    ∧ (pack header.major argument).size ≤ header.size
    ∧ (bytes.take header.size = (pack header.major argument).header
      ↔ header.size = (pack header.major argument).size)
  unsupported_iff : result = .error .unsupported ↔ Reserved bytes
  malformed_iff : result = .error .malformed ↔ Cut bytes
  error_cases : ∀ fault, result = .error fault → fault = .malformed ∨ fault = .unsupported

theorem reserved_cons {initial : UInt8} {rest : Bytes} :
    Reserved (initial :: rest) ↔ 28 ≤ infoOf initial := by
  constructor
  · rintro ⟨first, behind, split, reserved⟩
    cases split
    exact reserved
  · exact fun reserved => ⟨initial, rest, rfl, reserved⟩

theorem cut_cons {initial : UInt8} {rest : Bytes} :
    Cut (initial :: rest) ↔ ∃ width, widthFor (infoOf initial) = some width ∧ rest.length < width := by
  constructor
  · rintro (split | ⟨first, behind, width, split, announced, short⟩)
    · cases split
    · cases split
      exact ⟨width, widthFor_eq_some_iff.2 announced, short⟩
  · rintro ⟨width, announced, short⟩
    exact .inr ⟨initial, rest, width, rfl, widthFor_eq_some_iff.1 announced, short⟩

theorem widthFor_eq_none_iff {info : Nat} : widthFor info = none ↔ info < 24 ∨ 28 ≤ info := by
  unfold widthFor
  split
  case h_5 one two four eight =>
    refine iff_of_true rfl (or_iff_not_imp_left.2 fun wide => ?_)
    simp only [imp_false] at one two four eight
    omega
  all_goals simp

/-- A parse fails for one of two causes, and each has its own inputs. -/
theorem parse_eq_error_iff {bytes : Bytes} {fault : Fault} : parse bytes = .error fault
    ↔ fault = .unsupported ∧ Reserved bytes ∨ fault = .malformed ∧ Cut bytes := by
  cases bytes with
  | nil =>
    have reserved : ¬ Reserved [] := by
      rintro ⟨initial, rest, split, -⟩
      cases split
    simp [parse, reserved, Cut, eq_comm]
  | cons initial rest =>
    rw [reserved_cons, cut_cons, parse]
    by_cases inline : infoOf initial < 24
    · have none := widthFor_eq_none_iff.2 (.inl inline)
      simp [inline, none]
      omega
    · cases announced : widthFor (infoOf initial) with
      | none =>
        have reserved := (widthFor_eq_none_iff.1 announced).resolve_left inline
        simp [inline, reserved, eq_comm]
      | some width =>
        have supported : ¬ 28 ≤ infoOf initial := fun reserved => by
          rw [widthFor_eq_none_iff.2 (.inr reserved)] at announced
          cases announced
        cases cut : Bytes.cut? width rest with
        | none =>
          have short := Bytes.cut?_eq_none_iff.1 cut
          simp [inline, supported, cut, short, eq_comm]
        | some parts =>
          have long : ¬ rest.length < width := fun short => by
            rw [Bytes.cut?_eq_none_iff.2 short] at cut
            cases cut
          simp [inline, supported, cut, Nat.le_of_not_lt long]

theorem parsesAs_parse (bytes : Bytes) : ParsesAs bytes (parse bytes) where
  ok_iff major argument size := by
    constructor
    · rintro ⟨info, parsed⟩
      exact exists_spells_of_parse parsed
    · rintro ⟨head, rest, rfl, rfl, spells⟩
      exact spells.parse rest
  packed header parsed := by
    rcases exists_spells_of_parse parsed with ⟨head, rest, rfl, size, spells⟩
    rcases spells.sizeFor_le with ⟨smallest, small⟩
    have word : (UInt64.ofNat header.argument).toNat = header.argument :=
      UInt64.toNat_ofNat_of_lt' small
    refine ⟨UInt64.ofNat header.argument, word.symm, ?_, ?_, ?_⟩
    · rw [← size, List.length_append]
      exact Nat.le_add_right ..
    · rw [pack_eq, word, ← size]
      exact smallest
    · rw [header_pack, pack_eq, word, ← size, List.take_left]
      constructor
      · intro same
        rw [same, length_encode]
      · exact fun least => (spells.eq_encode least).symm
  unsupported_iff := by
    rw [parse_eq_error_iff]
    simp
  malformed_iff := by
    rw [parse_eq_error_iff]
    simp
  error_cases fault failed := by
    rcases parse_eq_error_iff.1 failed with ⟨rfl, -⟩ | ⟨rfl, -⟩
    · exact .inr rfl
    · exact .inl rfl

end Header

open Header in
/-- Packing a header and parsing one undo each other as far as they can. Whatever the kind and the
argument are, the header that is packed is the smallest one, and it is parsed back from the front of
any bytes. Whatever the bytes are, a parse of them does not stop; if there is a header it lies
within the bytes, is no smaller than the packed one with its argument, and is that one exactly if it
is not larger. Else either its additional information is not supported, or it is missing or cut, and
the fault tells which. -/
theorem packs_and_parses (major : MajorType) (argument : UInt64) (rest bytes : Bytes) :
    let packed := pack major argument
    packed = ⟨padded major argument.toNat, sizeFor argument.toNat⟩
      ∧ packed.header.length = packed.size
      ∧ (Cursor.parseHeader (packed.header ++ rest)).run
        = some (.ok ⟨major, infoFor argument.toNat, argument.toNat, packed.size⟩)
      ∧ ∃ result, (Cursor.parseHeader bytes).run = some result ∧ result = parse bytes
        ∧ ParsesAs bytes result := by
  intro packed
  refine ⟨pack_eq major argument, ?_, ?_, parse bytes, ?_, rfl, parsesAs_parse bytes⟩
  · rw [header_pack, length_encode]
    rfl
  · rw [Cursor.parseHeader_eq, Checked.run_ofExcept, header_pack,
      parse_encode rest argument.toNat_lt]
    rfl
  · rw [Cursor.parseHeader_eq, Checked.run_ofExcept]

/-- The last argument of two bytes, in a header of three and in one of five. -/
example : (Header.pack .text 0xffff).header = [0x79, 0xff, 0xff]
    ∧ Header.parse [0x7a, 0, 0, 0xff, 0xff] = .ok ⟨.text, 26, 0xffff, 5⟩ := by decide

end PropertyRecord
