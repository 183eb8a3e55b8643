import PropertyRecord.Proofs.Wire.Size
import PropertyRecord.Wire.Cursor

/-!
# Bounds of a cursor

A cursor within the bounds of its bytes never stops. What it sees is what a reader at its position
sees, and a computation that moves it comes to what the read of the reader comes to: `Lands` for
the reads, which move last, and `Strides` for the steps of a skip, which may move and then fail.

The header is the only place that a length comes from, and it may be any word; each lemma on a
string or a skip shows that the length is compared with the bytes left before it is added.

Main statements: `parseHeader_eq`, `lands_readInt` and its like for the other reads,
`fills_readString` and `lands_skipItem`.
-/

namespace PropertyRecord

/-! ## Words and slices -/

namespace Word

theorem add?_of_lt {m n : Nat} (word : m + n < unsignedBound) : add? m n = some (m + n) :=
  if_pos word

theorem add?_of_le {m n : Nat} (large : unsignedBound ≤ m + n) : add? m n = none :=
  if_neg (Nat.not_lt_of_le large)

theorem sub?_of_le {m n : Nat} (ordered : n ≤ m) : sub? m n = some (m - n) := if_pos ordered

end Word

namespace Bytes

theorem slice?_of_le {start stop : Nat} {bytes : Bytes} (ordered : start ≤ stop)
    (inside : stop ≤ bytes.length) :
    bytes.slice? start stop = some ((bytes.take stop).drop start) :=
  if_pos ⟨ordered, inside⟩

theorem slice?_of_lt {start stop : Nat} {bytes : Bytes} (outside : bytes.length < stop) :
    bytes.slice? start stop = none :=
  if_neg fun within => Nat.not_lt_of_le within.2 outside

theorem slice?_one (first : UInt8) (rest : Bytes) (n : Nat) :
    slice? 1 (1 + n) (first :: rest) = (cut? n rest).map Prod.fst := by
  by_cases enough : n ≤ rest.length
  · rw [slice?_of_le (Nat.le_add_right 1 n) (by rw [List.length_cons]; omega), cut?_of_le enough,
      Nat.add_comm]
    rfl
  · rw [slice?_of_lt (by rw [List.length_cons]; omega),
      cut?_eq_none_iff.2 (Nat.lt_of_not_le enough)]
    rfl

/-- Digits that are shifted into a word are not shifted out of it. -/
theorem toNat_shifted {digits : Bytes} (word : digits.length ≤ 8) :
    (shifted digits).toNat = ofBigEndian digits := by
  induction digits using List.reverseRecOn with
  | nil => rfl
  | append_singleton digits digit ih =>
    rw [List.length_append, List.length_singleton] at word
    have room : ofBigEndian digits < 2 ^ 56 :=
      Nat.lt_of_lt_of_le (ofBigEndian_lt digits)
        ((by decide : ∀ n < 8, scale n ≤ 2 ^ 56) digits.length (by omega))
    have higher := ih (by omega)
    have last : shifted (digits ++ [digit]) = shifted digits <<< 8 ||| digit.toUInt64 := by
      simp only [shifted, List.foldl_append, List.foldl_cons, List.foldl_nil]
    have value : ofBigEndian (digits ++ [digit]) = 256 * ofBigEndian digits + digit.toNat := by
      simp only [ofBigEndian, List.foldl_append, List.foldl_cons, List.foldl_nil]
    have byte := digit.toNat_lt
    rw [last, value, UInt64.toNat_or, UInt64.toNat_shiftLeft, higher, UInt8.toNat_toUInt64]
    have low : (8 : UInt64).toNat % 64 = 8 := rfl
    rw [low, Nat.mod_eq_of_lt (by rw [Nat.shiftLeft_eq]; omega),
      ← Nat.shiftLeft_add_eq_or_of_lt byte, Nat.shiftLeft_eq]
    omega

end Bytes

theorem Header.widthFor_le {info width : Nat} (announced : widthFor info = some width) :
    width ≤ 8 := by
  unfold widthFor at announced
  split at announced
  all_goals cases announced
  all_goals decide

theorem Reader.advance_advance (r : Reader) (n m : Nat) :
    (r.advance n).advance m = r.advance (n + m) := by
  rw [advance, advance, advance, Nat.add_assoc, List.drop_drop]

/-- Making two steps again and again is making twice as many steps. -/
theorem Reader.repeatedly_two_mul (one : Reader → Except Fault Reader) (count : Nat) (r : Reader) :
    repeatedly one (2 * count) r = repeatedly (repeatedly one 2) count r := by
  induction count generalizing r with
  | zero => rfl
  | succ count ih =>
    simp only [Nat.mul_succ, repeatedly]
    cases one r with
    | error fault => rfl
    | ok between =>
      simp only
      cases one between with
      | error fault => rfl
      | ok next => exact ih next

/-- The content of a text or byte string, copied into `out` and then decoded. -/
def Reader.readString {α : Type} (major : MajorType) (decode : Bytes → Except Fault α) (r : Reader)
    (out : Bytes) : Filled (α × Reader) :=
  match r.payload major with
  | .error fault => ⟨.error fault, out⟩
  | .ok (content, next) =>
    if Bytes.holds content.length out then
      match decode content with
      | .ok a => ⟨.ok (a, next), Bytes.overlay content out⟩
      | .error fault => ⟨.error fault, Bytes.overlay content out⟩
    else ⟨.error .exhausted, out⟩

theorem Reader.readText_eq (r : Reader) (out : Bytes) :
    r.readText out = r.readString .text Cursor.decodeText out := by
  rw [readText, readString]
  cases r.payload .text with
  | error fault => rfl
  | ok found =>
    rcases found with ⟨content, next⟩
    simp only [Cursor.decodeText]
    cases ofUtf8? content <;> rfl

theorem Reader.readBytes_eq (r : Reader) (out : Bytes) :
    r.readBytes out = r.readString .bytes .ok out := rfl

/-! ## Running a computation -/

namespace Checked

variable {α β : Type}

/-- A computation that does not stop. -/
def ofExcept (result : Except Fault α) : Checked α := ExceptT.mk (some result)

theorem run_ofExcept (result : Except Fault α) : (ofExcept result).run = some result := rfl

theorem ofExcept_bind (result : Except Fault α) (next : α → Except Fault β) :
    (ofExcept result >>= fun a => ofExcept (next a)) = ofExcept (result >>= next) := by
  cases result <;> rfl

theorem ofExcept_ok_bind (a : α) (k : α → Checked β) : (ofExcept (.ok a) >>= k) = k a := rfl

theorem orStop_some (a : α) : orStop (some a) = ofExcept (.ok a) := rfl

theorem orFault_some (fault : Fault) (a : α) : orFault fault (some a) = ofExcept (.ok a) := rfl

end Checked

/-- The cursor `n` bytes further on. -/
def Cursor.moved (c : Cursor) (n : Nat) : Cursor := { c with pos := c.pos + n }

namespace Machine

variable {α β σ : Type} {s next : σ} {x : Machine σ α}

theorem run_bind_ok {a : α} (ran : x.run s = some (.ok a, next)) (k : α → Machine σ β) :
    (x >>= k).run s = (k a).run next := by
  change (x.run s).bind (fun ended => ExceptT.bindCont k ended.1 ended.2) = _
  rw [ran]
  rfl

theorem run_bind_error {fault : Fault} (ran : x.run s = some (.error fault, next))
    (k : α → Machine σ β) : (x >>= k).run s = some (.error fault, next) := by
  change (x.run s).bind (fun ended => ExceptT.bindCont k ended.1 ended.2) = _
  rw [ran]
  rfl

theorem run_look {seen : σ → Checked α} {result : Except Fault α}
    (same : seen s = Checked.ofExcept result) : (look seen).run s = some (result, s) := by
  change (seen s).run.map (fun result => (result, s)) = _
  rw [same]
  rfl

theorem run_check {checked : Checked α} {result : Except Fault α}
    (same : checked = Checked.ofExcept result) : (check checked).run s = some (result, s) :=
  run_look same

end Machine

namespace Moving

variable {c : Cursor}

theorem run_move {n : Nat} (word : c.pos + n < unsignedBound) :
    (move n).run c = some (.ok (), c.moved n) := by
  change (Word.add? c.pos n).map (fun pos => (Except.ok (), ({ c with pos } : Cursor))) = _
  rw [Word.add?_of_lt word]
  rfl

/-- Making a move twice is making two moves. -/
theorem repeatedly_two (x : Moving Unit) : repeatedly x 2 = (x >>= fun _ => x) := by
  simp [repeatedly]

end Moving

namespace Cursor

open Checked Machine Moving

/-! ## Peeks -/

theorem parseHeader_eq (bytes : Bytes) : parseHeader bytes = ofExcept (Header.parse bytes) := by
  cases bytes with
  | nil => rfl
  | cons initial rest =>
    have first : orFault .malformed (initial :: rest).head? = ofExcept (.ok initial) := rfl
    rw [parseHeader, first, Header.parse]
    change (if infoOf initial < 24 then _ else _) = _
    split
    next => rfl
    next =>
      cases announced : Header.widthFor (infoOf initial) with
      | none => rfl
      | some width =>
        have narrow := Header.widthFor_le announced
        have size : Word.add? 1 width = some (1 + width) :=
          Word.add?_of_lt (by rw [unsignedBound]; omega)
        rw [orFault_some, ofExcept_ok_bind, size, orStop_some, ofExcept_ok_bind, Bytes.slice?_one]
        cases cut : Bytes.cut? width rest with
        | none =>
          simp only [cut]
          rfl
        | some parts =>
          have word : parts.1.length ≤ 8 := (Bytes.cut?_eq_some_iff.1 cut).2 ▸ narrow
          simp only [cut]
          rw [Option.map_some, orFault_some, ofExcept_ok_bind, Bytes.toNat_shifted word]
          rfl

/-- A cursor over a byte string, within its bounds. -/
structure Inside (source : Bytes) (c : Cursor) : Prop where
  data : c.data = source
  le : c.pos ≤ source.length

variable {source : Bytes} {c : Cursor}

theorem peekHeader_eq (inside : c.Inside source) : c.peekHeader = ofExcept c.reader.peekHeader := by
  have within : c.pos ≤ c.data.length := by
    rw [inside.data]
    exact inside.le
  rw [peekHeader, Bytes.slice?_of_le within (Nat.le_refl _), List.take_length, orStop_some]
  exact parseHeader_eq _

theorem peekHeaderOf_eq (inside : c.Inside source) (major : MajorType) :
    c.peekHeaderOf major = ofExcept (c.reader.peekHeaderOf major) := by
  rw [peekHeaderOf, peekHeader_eq inside, Reader.peekHeaderOf, ← ofExcept_bind]
  congr 1
  funext header
  split <;> rfl

theorem peekByte_eq (c : Cursor) : c.peekByte = ofExcept c.reader.peekByte := by
  rw [peekByte, Reader.peekByte, reader, ← List.head?_drop]
  cases c.data.drop c.pos <;> rfl

theorem peekMajor_eq (c : Cursor) : c.peekMajor = ofExcept c.reader.peekMajor := by
  rw [peekMajor, peekByte_eq, Reader.peekMajor, ← ofExcept_bind]
  rfl

theorem peekStringLength_eq (inside : c.Inside source) :
    c.peekStringLength = ofExcept c.reader.peekStringLength := by
  rw [peekStringLength, peekMajor_eq, Reader.peekStringLength, ← ofExcept_bind]
  congr 1
  funext major
  split
  next =>
    rw [peekHeader_eq inside, ← ofExcept_bind]
    rfl
  next => rfl

theorem remaining_eq (inside : c.Inside source) :
    c.remaining = ofExcept (.ok c.reader.remaining) := by
  have within : c.pos ≤ c.data.length := by
    rw [inside.data]
    exact inside.le
  rw [remaining, Word.sub?_of_le within, orStop_some, Reader.remaining, reader, List.length_drop]

theorem hasNext_eq (c : Cursor) : c.hasNext = c.reader.hasNext := by
  rw [hasNext, Reader.hasNext, reader, Bool.eq_iff_iff, decide_eq_true_iff, Bool.not_eq_true',
    List.isEmpty_eq_false_iff, ne_eq, List.drop_eq_nil_iff, Nat.not_le]

/-! ## Moving -/

theorem reader_moved (c : Cursor) (n : Nat) : (c.moved n).reader = c.reader.advance n := by
  rw [reader, moved, Reader.advance, reader, List.drop_drop]

theorem moved_moved (c : Cursor) (n m : Nat) : (c.moved n).moved m = c.moved (n + m) :=
  congrArg (Cursor.mk c.data) (Nat.add_assoc c.pos n m)

theorem Inside.moved (inside : c.Inside source) {n : Nat} (fits : c.pos + n ≤ source.length) :
    (c.moved n).Inside source := ⟨inside.data, fits⟩

theorem Inside.remaining (inside : c.Inside source) :
    c.pos + c.reader.remaining = source.length := by
  rw [Reader.remaining, reader, List.length_drop, inside.data]
  exact Nat.add_sub_cancel' inside.le

theorem Inside.initial (inside : c.Inside source) {initial : UInt8}
    (peeked : c.reader.peekByte = .ok initial) : c.pos + 1 ≤ source.length := by
  have whole := inside.remaining
  rw [Reader.peekByte] at peeked
  split at peeked
  next => cases peeked
  next first rest split =>
    rw [Reader.remaining, split, List.length_cons] at whole
    omega

/-- A header lies within the bytes. -/
theorem Inside.header (inside : c.Inside source) {header : Header}
    (parsed : c.reader.peekHeader = .ok header) :
    0 < header.size ∧ c.pos + header.size ≤ source.length := by
  rcases Reader.sizeFor_le_of_peekHeader parsed with ⟨positive, -, size⟩
  have whole := inside.remaining
  exact ⟨positive, by omega⟩

/-! ## Reads -/

/-- What a computation of a cursor comes to is what the read comes to: it stands behind what it
read, which lies within the source, or it failed and stands where it stood. -/
def Lands {α : Type} (source : Bytes) (c : Cursor) (read : Except Fault (α × Reader))
    (ran : Option (Except Fault α × Cursor)) : Prop :=
  (∃ a n, 0 < n ∧ c.pos + n ≤ source.length ∧ read = .ok (a, c.reader.advance n)
      ∧ ran = some (.ok a, c.moved n))
    ∨ ∃ fault, read = .error fault ∧ ran = some (.error fault, c)

namespace Lands

variable {α β : Type}

theorem throw (fault : Fault) :
    Lands source c (.error fault) ((MonadExcept.throw fault : Moving α).run c) :=
  .inr ⟨fault, rfl, rfl⟩

theorem move (machine : source.length < unsignedBound) {n : Nat} (positive : 0 < n)
    (fits : c.pos + n ≤ source.length) (a : α) :
    Lands source c (.ok (a, c.reader.advance n)) ((do Moving.move n; return a : Moving α).run c) :=
  .inl ⟨a, n, positive, fits, rfl,
    run_bind_ok (run_move (Nat.lt_of_le_of_lt fits machine)) fun _ => pure a⟩

theorem look {seen : Cursor → Checked β} {peek : Except Fault β} (same : seen c = ofExcept peek)
    {read : β → Except Fault (α × Reader)} {k : β → Moving α}
    (later : ∀ b, peek = .ok b → Lands source c (read b) ((k b).run c)) :
    Lands source c (peek >>= read) ((Machine.look seen >>= k).run c) := by
  cases peek with
  | error fault => exact .inr ⟨fault, rfl, run_bind_error (run_look same) k⟩
  | ok b =>
    rw [run_bind_ok (run_look same) k]
    exact later b rfl

theorem map {read : Except Fault (α × Reader)} {x : Moving α}
    (landed : Lands source c read (x.run c)) (f : α → β) :
    Lands source c (read >>= fun (a, next) => .ok (f a, next)) ((do return f (← x)).run c) := by
  rcases landed with ⟨a, n, positive, fits, rfl, ran⟩ | ⟨fault, rfl, ran⟩
  · exact .inl ⟨f a, n, positive, fits, rfl, run_bind_ok ran fun a => pure (f a)⟩
  · exact .inr ⟨fault, rfl, run_bind_error ran fun a => pure (f a)⟩

end Lands

section

variable (machine : source.length < unsignedBound) (inside : c.Inside source)

include machine inside

theorem lands_readMapHeader :
    Lands source c c.reader.readMapHeader (readMapHeader.run c) := by
  refine .look (peekHeaderOf_eq inside .map) fun header found => ?_
  rcases inside.header (Reader.peekHeader_of_peekHeaderOf found).1 with ⟨positive, fits⟩
  exact .move machine positive fits header.argument

theorem lands_readUInt : Lands source c c.reader.readUInt (readUInt.run c) := by
  refine .look (peekHeaderOf_eq inside .unsigned) fun header found => ?_
  rcases inside.header (Reader.peekHeader_of_peekHeaderOf found).1 with ⟨positive, fits⟩
  exact .move machine positive fits (UInt64.ofNat header.argument)

theorem lands_readBool : Lands source c c.reader.readBool (readBool.run c) := by
  refine .look (peekByte_eq c) fun initial peeked => ?_
  have fits := inside.initial peeked
  split
  next => exact .move machine Nat.one_pos fits false
  next =>
    split
    next => exact .move machine Nat.one_pos fits true
    next => exact .throw .malformed

theorem lands_readInt : Lands source c c.reader.readInt (readInt.run c) := by
  refine .look (peekHeader_eq inside) fun header parsed => ?_
  rcases inside.header parsed with ⟨positive, fits⟩
  cases header.major with
  | unsigned =>
    simp only
    split
    next => exact .move machine positive fits (Int64.ofInt header.argument)
    next => exact .throw .outOfRange
  | negative =>
    simp only
    split
    next => exact .move machine positive fits (Int64.ofInt (-1 - header.argument))
    next => exact .throw .outOfRange
  | bytes | text | array | map | tag | simple => exact .throw .malformed

theorem lands_readDouble : Lands source c c.reader.readDouble (readDouble.run c) := by
  refine .look (peekByte_eq c) fun initial peeked => ?_
  cases MajorType.ofInitial initial with
  | unsigned | negative => exact (lands_readInt machine inside).map fun i => Double.ofInt i.toInt
  | bytes | text | array | map | tag | simple =>
    simp only
    split
    next =>
      refine .look (peekHeader_eq inside) fun header parsed => ?_
      rcases inside.header parsed with ⟨positive, fits⟩
      exact .move machine positive fits (Double.mk (UInt64.ofNat header.argument))
    next => exact .throw .malformed

/-! ## Strings -/

/-- Lands, and leaves the caller's buffer as the read does. -/
def Fills {α : Type} (source : Bytes) (c : Cursor) (read : Filled (α × Reader))
    (ran : Option (Filled α × Cursor)) : Prop :=
  ∃ moved, Lands source c read.result moved
    ∧ ran = moved.map (Prod.map (fun result => ⟨result, read.out⟩) id)

/-- A string that is read is complete, with its content behind its header. -/
theorem peekString_cases (major : MajorType) :
    (∃ header content, c.peekString major = ofExcept (.ok (header, content)) ∧ 0 < header.size
        ∧ c.pos + (header.size + content.length) ≤ source.length
        ∧ c.reader.payload major
          = .ok (content, c.reader.advance (header.size + content.length)))
      ∨ ∃ fault, c.peekString major = ofExcept (.error fault)
        ∧ c.reader.payload major = .error fault := by
  rw [peekString, peekHeaderOf_eq inside, Reader.payload]
  cases found : c.reader.peekHeaderOf major with
  | error fault => exact .inr ⟨fault, rfl, rfl⟩
  | ok header =>
    rcases inside.header (Reader.peekHeader_of_peekHeaderOf found).1 with ⟨positive, fits⟩
    have start := Word.add?_of_lt (Nat.lt_of_le_of_lt fits machine)
    have length : c.data.length = source.length := congrArg List.length inside.data
    have behind : (c.reader.advance header.size).rest = c.data.drop (c.pos + header.size) :=
      congrArg Reader.rest (reader_moved c header.size).symm
    rw [ofExcept_ok_bind, start, orStop_some, ofExcept_ok_bind]
    by_cases complete : c.pos + header.size + header.argument ≤ source.length
    · have stop := Word.add?_of_lt (Nat.lt_of_le_of_lt complete machine)
      have content := Bytes.slice?_of_le (Nat.le_add_right (c.pos + header.size) header.argument)
        (length ▸ complete)
      rw [List.drop_take, Nat.add_sub_cancel_left] at content
      have enough : header.argument ≤ (c.data.drop (c.pos + header.size)).length := by
        rw [List.length_drop]
        omega
      have cut := Bytes.cut?_of_le enough
      refine .inl ⟨header, (c.data.drop (c.pos + header.size)).take header.argument, ?_, positive,
        ?_, ?_⟩
      · rw [stop, orFault_some, ofExcept_ok_bind, content]
        rfl
      · rw [List.length_take_of_le enough]
        omega
      · rw [List.length_take_of_le enough, ← Reader.advance_advance]
        simp only [bind, Except.bind, behind, cut]
        rfl
    · refine .inr ⟨.malformed, ?_, ?_⟩
      · by_cases word : c.pos + header.size + header.argument < unsignedBound
        · rw [Word.add?_of_lt word, orFault_some, ofExcept_ok_bind,
            Bytes.slice?_of_lt (length ▸ Nat.lt_of_not_le complete)]
          rfl
        · rw [Word.add?_of_le (Nat.le_of_not_lt word)]
          rfl
      · have cut : Bytes.cut? header.argument (c.data.drop (c.pos + header.size)) = none := by
          rw [Bytes.cut?_eq_none_iff, List.length_drop]
          omega
        simp only [bind, Except.bind, behind, cut]

/-- A read into a buffer leaves it as the read of the reader does, and lands as that one does. -/
theorem fills_readString {α : Type} (major : MajorType) (decode : Bytes → Except Fault α)
    (out : Bytes) :
    Fills source c (c.reader.readString major decode out) (readString major decode out c) := by
  rw [readString, Reader.readString]
  rcases peekString_cases machine inside major with
    ⟨header, content, seen, positive, fits, read⟩ | ⟨fault, seen, read⟩
  · rw [seen, read]
    simp only [run_ofExcept]
    by_cases room : content.length ≤ out.length
    · have front := Bytes.slice?_of_le (Nat.zero_le _) room
      have whole : ((out.take content.length).drop 0).length = content.length :=
        List.length_take_of_le room
      have holds := (Bytes.holds_iff _ _).2 room
      have word := Nat.le_trans (Nat.le_add_left (header.size + content.length) c.pos) fits
      have length := Word.add?_of_lt (Nat.lt_of_le_of_lt word machine)
      have moved := Word.add?_of_lt (Nat.lt_of_le_of_lt fits machine)
      rw [front]
      simp only [whole, if_true, holds]
      cases decoded : decode content with
      | error fault => exact ⟨_, .inr ⟨fault, rfl, rfl⟩, rfl⟩
      | ok a =>
        refine ⟨_, .inl ⟨a, _, Nat.add_pos_left positive _, fits, rfl, rfl⟩, ?_⟩
        simp only [length, bind, Option.bind, moved]
        rfl
    · have short : out.slice? 0 content.length = none :=
        Bytes.slice?_of_lt (Nat.lt_of_not_le room)
      have refused := Bool.eq_false_iff.2 (mt (Bytes.holds_iff content.length out).1 room)
      rw [short]
      simp only [refused]
      exact ⟨_, .inr ⟨.exhausted, rfl, rfl⟩, rfl⟩
  · rw [seen, read]
    exact ⟨_, .inr ⟨fault, rfl, rfl⟩, rfl⟩

end

/-! ## Skips -/

/-- What moves of a cursor come to is what a skip comes to: they lead it on by no less than
`least`, within the source. If they fail they may have led it on as well. -/
def Strides (source : Bytes) (c : Cursor) (least : Nat) (skip : Except Fault Reader)
    (ran : Option (Except Fault Unit × Cursor)) : Prop :=
  ∃ n, c.pos + n ≤ source.length
    ∧ ((least ≤ n ∧ skip = .ok (c.reader.advance n) ∧ ran = some (.ok (), c.moved n))
      ∨ ∃ fault, skip = .error fault ∧ ran = some (.error fault, c.moved n))

namespace Strides

variable {skip : Except Fault Reader} {ran : Option (Except Fault Unit × Cursor)} {least : Nat}

theorem stay (inside : c.Inside source) : Strides source c 0 (.ok c.reader) (some (.ok (), c)) :=
  ⟨0, inside.le, .inl ⟨Nat.le_refl 0, rfl, rfl⟩⟩

theorem throw (inside : c.Inside source) (fault : Fault) :
    Strides source c least (.error fault) (some (.error fault, c)) :=
  ⟨0, inside.le, .inr ⟨fault, rfl, rfl⟩⟩

theorem move (machine : source.length < unsignedBound) {n : Nat}
    (fits : c.pos + n ≤ source.length) :
    Strides source c 0 (.ok (c.reader.advance n)) ((Moving.move n).run c) :=
  ⟨n, fits, .inl ⟨Nat.zero_le n, rfl, run_move (Nat.lt_of_le_of_lt fits machine)⟩⟩

theorem look {α : Type} (inside : c.Inside source) {seen : Cursor → Checked α}
    {peek : Except Fault α} (same : seen c = ofExcept peek) {next : α → Except Fault Reader}
    {k : α → Moving Unit}
    (later : ∀ a, peek = .ok a → Strides source c least (next a) ((k a).run c)) :
    Strides source c least (peek >>= next) ((Machine.look seen >>= k).run c) := by
  cases peek with
  | error fault =>
    rw [run_bind_error (run_look same) k]
    exact .throw inside fault
  | ok a =>
    rw [run_bind_ok (run_look same) k]
    exact later a rfl

/-- Moves that are made further on. -/
theorem after {n : Nat} (strides : Strides source (c.moved n) least skip ran) :
    Strides source c (n + least) skip ran := by
  rcases strides with ⟨m, fits, ended⟩
  rw [reader_moved, Reader.advance_advance, moved_moved] at ended
  refine ⟨n + m, (Nat.add_assoc c.pos n m) ▸ fits, ?_⟩
  rcases ended with ⟨more, done⟩ | failed
  · exact .inl ⟨Nat.add_le_add_left more n, done⟩
  · exact .inr failed

theorem weaken {fewer : Nat} (le : fewer ≤ least) (strides : Strides source c least skip ran) :
    Strides source c fewer skip ran := by
  rcases strides with ⟨m, fits, ⟨more, done⟩ | failed⟩
  · exact ⟨m, fits, .inl ⟨Nat.le_trans le more, done⟩⟩
  · exact ⟨m, fits, .inr failed⟩

/-- Moves one after the other. -/
theorem repeatedly {x : Moving Unit} {one : Reader → Except Fault Reader}
    (each : ∀ {c : Cursor}, c.Inside source → Strides source c 0 (one c.reader) (x.run c))
    (count : Nat) {c : Cursor} (inside : c.Inside source) :
    Strides source c 0 (Reader.repeatedly one count c.reader)
      ((Moving.repeatedly x count).run c) := by
  induction count generalizing c with
  | zero => exact .stay inside
  | succ count ih =>
    rcases each inside with ⟨n, fits, ⟨-, skipped, ran⟩ | ⟨fault, skipped, ran⟩⟩
    · rw [Reader.repeatedly, skipped, Moving.repeatedly, run_bind_ok ran, ← reader_moved]
      exact (ih (inside.moved fits)).after.weaken (Nat.zero_le n)
    · rw [Reader.repeatedly, skipped, Moving.repeatedly, run_bind_error ran]
      exact ⟨n, fits, .inr ⟨fault, rfl, rfl⟩⟩

/-- Moves two by two. -/
theorem pairs {x : Moving Unit} {one : Reader → Except Fault Reader}
    (each : ∀ {c : Cursor}, c.Inside source → Strides source c 0 (one c.reader) (x.run c))
    (count : Nat) {c : Cursor} (inside : c.Inside source) :
    Strides source c 0 (Reader.repeatedly one (2 * count) c.reader)
      ((Moving.repeatedly (x >>= fun _ => x) count).run c) := by
  rw [Reader.repeatedly_two_mul, ← Moving.repeatedly_two]
  exact repeatedly (repeatedly each 2) count inside

end Strides

section

variable (machine : source.length < unsignedBound)

include machine

/-- A skip of the content of a string, which must be complete. -/
theorem strides_content (inside : c.Inside source) (n : Nat) :
    Strides source c 0
      (if Bytes.holds n c.reader.rest then .ok (c.reader.advance n) else .error .malformed)
      ((do
        let left ← Machine.look remaining
        if left < n then throw .malformed else Moving.move n : Moving Unit).run c) := by
  have whole := inside.remaining
  rw [run_bind_ok (run_look (remaining_eq inside))]
  by_cases complete : n ≤ c.reader.remaining
  · rw [if_pos ((Bytes.holds_iff n _).2 complete), if_neg (Nat.not_lt_of_le complete)]
    exact .move machine (by omega)
  · rw [if_neg (mt (Bytes.holds_iff n _).1 complete), if_pos (Nat.lt_of_not_le complete)]
    exact .throw inside .malformed

/-- A skip of what is nested in `depth` items, with room for `levels` levels. -/
theorem strides_skipNested {depth levels : Nat} (room : depth + levels = maxNesting + 1)
    {c : Cursor} (inside : c.Inside source) :
    Strides source c 1 (Reader.skipLevels levels c.reader) ((skipNested depth).run c) := by
  induction levels generalizing depth c with
  | zero =>
    rw [skipNested, if_pos (by omega)]
    exact .throw inside .exhausted
  | succ levels ih =>
    rw [skipNested, if_neg (by omega), Reader.skipLevels]
    refine .look inside (peekHeader_eq inside) fun header parsed => ?_
    rcases inside.header parsed with ⟨positive, fits⟩
    have content := inside.moved fits
    have below {c : Cursor} (inside : c.Inside source) :=
      (@ih (depth + 1) (by omega) c inside).weaken (Nat.zero_le 1)
    rw [run_bind_ok (run_move (Nat.lt_of_le_of_lt fits machine)), ← reader_moved]
    refine (Strides.after (?_ : Strides source (c.moved header.size) 0 _ _)).weaken positive
    cases header.major with
    | unsigned | negative | simple => exact .stay content
    | bytes | text => exact strides_content machine content header.argument
    | array => exact .repeatedly below header.argument content
    | map => exact .pairs below header.argument content
    | tag => exact below content

/-- A skip that fails puts the cursor back. -/
theorem lands_skipItem (inside : c.Inside source) :
    Lands source c (c.reader.skipItem.map fun next => ((), next)) (skipItem.run c) := by
  have nested := strides_skipNested machine (Nat.zero_add (maxNesting + 1)) inside
  rcases nested with ⟨n, fits, ⟨positive, skipped, ran⟩ | ⟨fault, skipped, ran⟩⟩
  · rw [Reader.skipItem, skipped, skipItem, ExceptT.run_mk]
    simp only [ran]
    exact .inl ⟨(), n, positive, fits, rfl, rfl⟩
  · rw [Reader.skipItem, skipped, skipItem, ExceptT.run_mk]
    simp only [ran]
    exact .inr ⟨fault, rfl, rfl⟩

end

end Cursor

end PropertyRecord
