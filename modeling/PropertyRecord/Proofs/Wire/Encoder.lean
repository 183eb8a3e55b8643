import PropertyRecord.Proofs.Wire.Packed
import PropertyRecord.Proofs.Wire.Writing
import PropertyRecord.Wire.Encoder

/-!
# Runs of an encoder

A step of an encoder may write and then fail, and it may stop. No call does either: the size that it
looks for first is that of the bytes which its steps put one behind the other, so if there is room
for it, no step leaves the buffer, and if there is not, the first step is the last.

Main statements: `Emits.bind` for steps in a row, `grants_pair` for a call, `exists_makes` for what
it comes to, and `exact_runFrom` for runs.
-/

namespace PropertyRecord

namespace Bytes

variable {bytes front : Bytes} {start : Nat}

theorem take_splice (inside : start ≤ bytes.length) :
    (bytes.splice start front).take (start + front.length) = bytes.take start ++ front := by
  have before : (bytes.take start ++ front).length = start + front.length := by
    rw [List.length_append, List.length_take_of_le inside]
  rw [splice, overlay, ← List.append_assoc]
  exact List.take_left' before

theorem drop_splice (inside : start ≤ bytes.length) :
    (bytes.splice start front).drop (start + front.length)
      = bytes.drop (start + front.length) := by
  have before : (bytes.take start ++ front).length = start + front.length := by
    rw [List.length_append, List.length_take_of_le inside]
  rw [splice, overlay, ← List.append_assoc, List.drop_left' before, List.drop_drop]

theorem length_splice (fits : start + front.length ≤ bytes.length) :
    (bytes.splice start front).length = bytes.length := by
  rw [splice, List.length_append, length_overlay (by rw [List.length_drop]; omega),
    List.length_take, List.length_drop]
  omega

/-- Two chunks behind each other are one. -/
theorem splice_splice (more : Bytes) (inside : start ≤ bytes.length) :
    (bytes.splice start front).splice (start + front.length) more
      = bytes.splice start (front ++ more) := by
  rw [splice, take_splice inside, drop_splice inside, splice, overlay, overlay, List.drop_drop,
    List.drop_drop, List.length_append, List.append_assoc, List.append_assoc, Nat.add_assoc]

end Bytes

namespace Encoder

variable {e : Encoder} {bytes chunk more : Bytes}

/-- The writer that an encoder stands for. -/
def writer (e : Encoder) : Writer := ⟨e.buffer.take e.pos, e.buffer.drop e.pos⟩

/-- The number of bytes left. -/
def left (e : Encoder) : Nat := e.buffer.length - e.pos

/-- The encoder with bytes put at its position. -/
def put (e : Encoder) (bytes : Bytes) : Encoder :=
  ⟨e.buffer.splice e.pos bytes, e.pos + bytes.length⟩

theorem pos_put (e : Encoder) (bytes : Bytes) : (e.put bytes).pos = e.pos + bytes.length := rfl

theorem remaining_writer (e : Encoder) : e.writer.remaining = e.left := List.length_drop

/-- An encoder within the bounds of its buffer. -/
structure Inside (e : Encoder) : Prop where
  machine : e.buffer.length < unsignedBound
  le : e.pos ≤ e.buffer.length

namespace Inside

theorem pos_add_left (inside : e.Inside) : e.pos + e.left = e.buffer.length :=
  Nat.add_sub_cancel' inside.le

theorem length_put (inside : e.Inside) (fits : bytes.length ≤ e.left) :
    (e.put bytes).buffer.length = e.buffer.length := by
  apply Bytes.length_splice
  rw [← inside.pos_add_left]
  exact Nat.add_le_add_left fits e.pos

theorem put (inside : e.Inside) (fits : bytes.length ≤ e.left) : (e.put bytes).Inside where
  machine := inside.length_put fits ▸ inside.machine
  le := by
    rw [inside.length_put fits, pos_put, ← inside.pos_add_left]
    exact Nat.add_le_add_left fits e.pos

theorem left_put (inside : e.Inside) (fits : bytes.length ≤ e.left) :
    (e.put bytes).left = e.left - bytes.length := by
  rw [left, inside.length_put fits, pos_put, left, Nat.sub_add_eq]

theorem put_put (inside : e.Inside) (bytes more : Bytes) :
    (e.put bytes).put more = e.put (bytes ++ more) := by
  rw [Encoder.put, Encoder.put, Encoder.put, Bytes.splice_splice more inside.le, List.length_append,
    Nat.add_assoc]

theorem writer_put (inside : e.Inside) (bytes : Bytes) :
    (e.put bytes).writer = e.writer.put bytes := by
  rw [writer, writer, Encoder.put, Writer.put, Bytes.take_splice inside.le,
    Bytes.drop_splice inside.le, List.drop_drop]

theorem remaining_eq (inside : e.Inside) : e.remaining = Checked.ofExcept (.ok e.left) := by
  rw [remaining, Word.sub?_of_le inside.le, Checked.orStop_some, left]

theorem written?_eq (inside : e.Inside) : e.written? = some e.writer.written := by
  rw [written?, Bytes.slice?_of_le (Nat.zero_le _) inside.le, List.drop_zero, writer]

end Inside

/-! ## Steps that put bytes -/

/-- A computation that puts the bytes if there is room for them. -/
def Emits (x : Emitting Unit) (bytes : Bytes) : Prop :=
  ∀ e : Encoder, e.Inside → bytes.length ≤ e.left → x.run e = some (.ok (), e.put bytes)

theorem Emits.bind {x y : Emitting Unit} (first : Emits x chunk) (second : Emits y more) :
    Emits (x >>= fun _ => y) (chunk ++ more) := by
  intro e inside fits
  rw [List.length_append] at fits
  have room : chunk.length ≤ e.left := Nat.le_of_add_right_le fits
  have behind : more.length ≤ (e.put chunk).left := by
    rw [inside.left_put room]
    exact Nat.le_sub_of_add_le' fits
  rw [Machine.run_bind_ok (first e inside room), second _ (inside.put room) behind, inside.put_put]

theorem emits_putRaw (bytes : Bytes) : Emits (Emitting.putRaw bytes) bytes := by
  intro e inside fits
  have within := inside.le
  have machine := inside.machine
  rw [left] at fits
  have stop : Word.add? e.pos bytes.length = some (e.pos + bytes.length) :=
    Word.add?_of_lt (by omega)
  have range : e.buffer.slice? e.pos (e.pos + bytes.length) = _ :=
    Bytes.slice?_of_le (Nat.le_add_right ..) (by omega)
  have length : ((e.buffer.take (e.pos + bytes.length)).drop e.pos).length = bytes.length := by
    rw [List.length_drop, List.length_take]
    omega
  rw [Emitting.putRaw, ExceptT.run_mk, stop]
  simp only [bind, Option.bind, range, length, if_true]
  rfl

/-- A header is copied out of the array that it was packed into. -/
theorem emits_putHeader (major : MajorType) (argument : UInt64) :
    Emits (Emitting.putHeader major argument) (Header.encode major argument.toNat) := by
  intro e inside fits
  have size : (Header.pack major argument).size ≤ (Header.pack major argument).array.length := by
    rw [Header.pack_eq, Header.padded, Bytes.overlay, List.length_append, Header.length_encode]
    exact Nat.le_add_right ..
  have header : (Header.pack major argument).array.slice? 0 (Header.pack major argument).size
      = some (Header.encode major argument.toNat) := by
    rw [Bytes.slice?_of_le (Nat.zero_le _) size, List.drop_zero, ← Header.header_pack]
    rfl
  have copied := congrArg Checked.orStop header
  rw [Checked.orStop_some] at copied
  rw [Emitting.putHeader, Machine.run_bind_ok (Machine.run_check copied)]
  exact emits_putRaw _ e inside fits

/-! ## Calls -/

/-- A computation that puts the bytes, or finds that there is no room for them before it has put
any. -/
def Grants (x : Emitting Unit) (bytes : Bytes) : Prop :=
  ∀ e : Encoder, e.Inside →
    x.run e = some (if bytes.length ≤ e.left then (.ok (), e.put bytes) else (.error .exhausted, e))

theorem run_ensure_of_le (inside : e.Inside) {needed : Nat} (room : needed ≤ e.left) :
    (Emitting.ensure needed).run e = some (.ok (), e) := by
  rw [Emitting.ensure, Machine.run_bind_ok (Machine.run_look inside.remaining_eq),
    if_neg (Nat.not_lt_of_le room)]
  rfl

theorem run_ensure_of_lt (inside : e.Inside) {needed : Nat} (full : e.left < needed) :
    (Emitting.ensure needed).run e = some (.error .exhausted, e) := by
  rw [Emitting.ensure, Machine.run_bind_ok (Machine.run_look inside.remaining_eq), if_pos full]
  rfl

/-- Steps that put as many bytes as were looked for before them. -/
theorem Emits.grants {x : Emitting Unit} (emits : Emits x chunk) :
    Grants (Emitting.ensure chunk.length >>= fun _ => x) chunk := by
  intro e inside
  by_cases room : chunk.length ≤ e.left
  · rw [if_pos room, Machine.run_bind_ok (run_ensure_of_le inside room), emits e inside room]
  · have full := Nat.lt_of_not_le room
    rw [if_neg room, Machine.run_bind_error (run_ensure_of_lt inside full)]

theorem grants_beginMap (count : UInt64) :
    Grants (Emitting.beginMap count) (encodeMapHeader count.toNat) := by
  have granted := (emits_putHeader .map count).grants
  rw [Header.length_encode] at granted
  exact granted

theorem stringSize_eq (length : Nat) :
    Emitting.stringSize length = if stringRoom length < unsignedBound then
        Checked.ofExcept (.ok (stringRoom length))
      else Checked.ofExcept (.error .exhausted) := by
  rw [Emitting.stringSize]
  split
  next word =>
    have small : length < unsignedBound := Nat.lt_of_le_of_lt (Nat.le_add_left ..) word
    rw [UInt64.toNat_ofNat_of_lt' small, Word.add?_of_lt word, Checked.orFault_some, stringRoom]
  next large =>
    -- A length that is not a word leaves no room for a header, whichever it is.
    have none : Word.add? (Header.sizeFor (UInt64.ofNat length).toNat) length = none := by
      apply Word.add?_of_le
      by_cases small : length < unsignedBound
      · rw [UInt64.toNat_ofNat_of_lt' small]
        exact Nat.le_of_not_lt large
      · omega
    rw [none]
    rfl

/-- A key is not begun unless there is room for it and for the value. -/
theorem run_beginPair_of_lt (inside : e.Inside) {key : Bytes} {size : Nat}
    (full : e.left < stringRoom key.length + size) :
    (Emitting.beginPair key size).run e = some (.error .exhausted, e) := by
  have sized := stringSize_eq key.length
  rw [Emitting.beginPair]
  split at sized
  next word =>
    rw [Machine.run_bind_ok (Machine.run_check sized)]
    by_cases total : stringRoom key.length + size < unsignedBound
    · have needed : Checked.orFault .exhausted (Word.add? (stringRoom key.length) size)
          = Checked.ofExcept (.ok (stringRoom key.length + size)) := by
        rw [Word.add?_of_lt total, Checked.orFault_some]
      rw [Machine.run_bind_ok (Machine.run_check needed)]
      exact Machine.run_bind_error (run_ensure_of_lt inside full) _
    · have none : Checked.orFault .exhausted (Word.add? (stringRoom key.length) size)
          = Checked.ofExcept (.error .exhausted) := by
        rw [Word.add?_of_le (Nat.le_of_not_lt total)]
        rfl
      exact Machine.run_bind_error (Machine.run_check none) _
  next => exact Machine.run_bind_error (Machine.run_check sized) _

/-- Where there is room for a key and a value, the key is put. -/
theorem run_beginPair_of_le (inside : e.Inside) {key : Bytes} {size : Nat}
    (room : stringRoom key.length + size ≤ e.left) :
    (Emitting.beginPair key size).run e = some (.ok (), e.put (encodeString .text key)) := by
  have bound := inside.pos_add_left
  have machine := inside.machine
  have word : stringRoom key.length < unsignedBound := by omega
  have small : key.length < unsignedBound := Nat.lt_of_le_of_lt (Nat.le_add_left ..) word
  have sized := stringSize_eq key.length
  rw [if_pos word] at sized
  have needed : Checked.orFault .exhausted (Word.add? (stringRoom key.length) size)
      = Checked.ofExcept (.ok (stringRoom key.length + size)) := by
    rw [Word.add?_of_lt (by omega), Checked.orFault_some]
  have emits := (emits_putHeader .text (UInt64.ofNat key.length)).bind (emits_putRaw key)
  rw [UInt64.toNat_ofNat_of_lt' small] at emits
  have fits : (encodeString .text key).length ≤ e.left := by
    rw [length_encodeString]
    omega
  rw [Emitting.beginPair, Machine.run_bind_ok (Machine.run_check sized),
    Machine.run_bind_ok (Machine.run_check needed),
    Machine.run_bind_ok (run_ensure_of_le inside room)]
  exact emits e inside fits

/-- A key and a value are put together or not at all. -/
theorem grants_pair {x : Emitting Unit} (key : Bytes) (emits : Emits x chunk) :
    Grants (Emitting.beginPair key chunk.length >>= fun _ => x)
      (encodeString .text key ++ chunk) := by
  intro e inside
  rw [List.length_append, length_encodeString]
  by_cases room : stringRoom key.length + chunk.length ≤ e.left
  · have keyFits : (encodeString .text key).length ≤ e.left := by
      rw [length_encodeString]
      omega
    have fits : chunk.length ≤ (e.put (encodeString .text key)).left := by
      rw [inside.left_put keyFits, length_encodeString]
      omega
    rw [if_pos room, Machine.run_bind_ok (run_beginPair_of_le inside room),
      emits _ (inside.put keyFits) fits, inside.put_put]
  · have full := Nat.lt_of_not_le room
    rw [if_neg room, Machine.run_bind_error (run_beginPair_of_lt inside full)]

/-- A string is put with its key, or not at all. -/
theorem grants_writeSpan (key : Bytes) (major : MajorType) (content : Bytes) :
    Grants (Emitting.writeSpan key major content)
      (encodeString .text key ++ encodeString major content) := by
  have sized := stringSize_eq content.length
  intro e inside
  rw [Emitting.writeSpan]
  split at sized
  next word =>
    have small : content.length < unsignedBound := Nat.lt_of_le_of_lt (Nat.le_add_left ..) word
    have emits := (emits_putHeader major (UInt64.ofNat content.length)).bind (emits_putRaw content)
    rw [UInt64.toNat_ofNat_of_lt' small] at emits
    have granted := grants_pair key emits
    have length : (Header.encode major content.length ++ content).length
        = stringRoom content.length := length_encodeString major content
    rw [length] at granted
    rw [Machine.run_bind_ok (Machine.run_check sized)]
    exact granted e inside
  next large =>
    have bound := inside.pos_add_left
    have machine := inside.machine
    rw [Machine.run_bind_error (Machine.run_check sized), if_neg]
    rw [List.length_append, length_encodeString major]
    omega

theorem toNat_toUInt64 {i : Int64} (positive : 0 ≤ i.toInt) :
    i.toUInt64.toNat = i.toInt.toNat := by
  have bits : i.toInt = i.toBitVec.toInt := rfl
  have word : i.toUInt64.toNat = i.toBitVec.toNat := rfl
  have small := i.toBitVec.isLt
  rw [bits, BitVec.toInt_eq_toNat_cond] at positive ⊢
  rw [word]
  split at positive
  next low => rw [if_pos low, Int.toNat_natCast]
  next high => omega

/-- The complement of a negative number is a number of the signed type again. -/
theorem toInt_complement {i : Int64} (negative : i.toInt < 0) : (-1 - i).toInt = -1 - i.toInt := by
  have least := i.le_toInt
  have one : (-1 : Int64).toInt = -1 := rfl
  rw [Int64.toInt_sub, one]
  apply Int.bmod_eq_of_le
  all_goals omega

/-- The argument of a signed integer is the same in words. -/
theorem intHeader_eq (i : Int64) : intHeader i = ((intArgument i).1, (intArgument i).2.toNat) := by
  have ordered : 0 ≤ i ↔ 0 ≤ i.toInt := Int64.le_iff_toInt_le
  rw [intHeader, intArgument]
  by_cases positive : 0 ≤ i.toInt
  · rw [if_pos positive, if_pos (ordered.2 positive), toNat_toUInt64 positive]
  · have complement := toInt_complement (Int.lt_of_not_ge positive)
    have above : 0 ≤ (-1 - i).toInt := by omega
    rw [if_neg positive, if_neg (mt ordered.1 positive), ← complement, toNat_toUInt64 above]

/-- A property is put whole or not at all. -/
theorem grants_write (p : Property) : Grants (Emitting.write p) p.encode := by
  rcases p with ⟨key, value⟩
  cases value with
  | null =>
    have granted := grants_pair (utf8 key) (emits_putRaw [nullByte])
    exact granted
  | bool b =>
    have granted := grants_pair (utf8 key) (emits_putRaw [if b then trueByte else falseByte])
    exact granted
  | int i =>
    have emits := emits_putHeader (intArgument i).1 (intArgument i).2
    have granted := grants_pair (utf8 key) emits
    have header := encode_intHeader i
    rw [intHeader_eq] at header
    rw [Header.length_encode, header] at granted
    exact granted
  | uint u =>
    have granted := grants_pair (utf8 key) (emits_putHeader .unsigned u)
    rw [Header.length_encode] at granted
    exact granted
  | double d =>
    have emits := (emits_putRaw [doubleByte]).bind (emits_putRaw (Bytes.bigEndian 8 d.bits.toNat))
    have granted := grants_pair (utf8 key) emits
    rw [List.length_append, Bytes.length_bigEndian] at granted
    exact granted
  | text s => exact grants_writeSpan (utf8 key) .text (utf8 s)
  | bytes bs => exact grants_writeSpan (utf8 key) .bytes bs

/-- The same call on a writer. -/
def Call.writing : Call → Writer.Call
  | beginMap count => .beginMap count.toNat
  | write p => .write p

/-- The canonical bytes that a call stands for. -/
def Call.canonical (call : Call) : Bytes := call.writing.canonical

theorem grants_emitting (call : Call) : Grants call.emitting call.canonical := by
  cases call with
  | beginMap count => exact grants_beginMap count
  | write p => exact grants_write p

theorem step_of_le (inside : e.Inside) {call : Call} (room : call.canonical.length ≤ e.left) :
    e.step call = (some (.ok ()), e.put call.canonical) := by
  rw [step, grants_emitting call e inside, if_pos room]

theorem step_of_lt (inside : e.Inside) {call : Call} (large : e.left < call.canonical.length) :
    e.step call = (some (.error .exhausted), e) := by
  rw [step, grants_emitting call e inside, if_neg (Nat.not_le_of_lt large)]

theorem Inside.step (inside : e.Inside) (call : Call) : (e.step call).2.Inside := by
  by_cases room : call.canonical.length ≤ e.left
  · rw [step_of_le inside room]
    exact inside.put room
  · rw [step_of_lt inside (Nat.lt_of_not_le room)]
    exact inside

/-- What a call on an encoder comes to. -/
structure Makes (e : Encoder) (call : Call) (result : Except Fault Unit) (next : Encoder) :
    Prop where
  /-- It does not stop: every range is in the buffer, and every sum and difference is a word. -/
  step_eq : e.step call = (some result, next)
  ok_iff : result = .ok () ↔ call.canonical.length ≤ e.left
  /-- What it has put is its canonical bytes, at the position, and nothing else. -/
  appended : result = .ok () → next.pos = e.pos + call.canonical.length
    ∧ next.buffer = e.buffer.take e.pos ++ call.canonical ++ e.buffer.drop next.pos
  unchanged : result ≠ .ok () → result = .error .exhausted ∧ next = e
  writer_eq : e.writer.step call.writing = (result.map fun _ => .done, next.writer)

theorem exists_makes (inside : e.Inside) (call : Call) :
    ∃ result next, e.Makes call result next := by
  have answer : e.writer.answer call.writing = .done := by
    cases call <;> rfl
  by_cases room : call.canonical.length ≤ e.left
  · have writes : call.writing.canonical.length ≤ e.writer.remaining := remaining_writer e ▸ room
    refine ⟨.ok (), e.put call.canonical, step_of_le inside room, iff_of_true rfl room,
      fun _ => ⟨rfl, ?_⟩, fun fails => absurd rfl fails, ?_⟩
    · rw [pos_put, put, Bytes.splice, Bytes.overlay, List.drop_drop, List.append_assoc]
    · rw [Writer.step_of_le writes, inside.writer_put, answer]
      rfl
  · have large := Nat.lt_of_not_le room
    have refuses : e.writer.remaining < call.writing.canonical.length := remaining_writer e ▸ large
    have failed : (.error .exhausted : Except Fault Unit) ≠ .ok () := by
      intro equal
      cases equal
    refine ⟨.error .exhausted, e, step_of_lt inside large, iff_of_false failed room,
      fun done => absurd done failed, fun _ => ⟨rfl, rfl⟩, ?_⟩
    rw [Writer.step_of_lt refuses]
    rfl

/-! ## Runs -/

/-- The calls of a run that succeed. -/
def granted (e : Encoder) (calls : List Call) : List Call :=
  ((moments step e calls).filter fun moment =>
    (moment.state.step moment.call).1.any Except.isOk).map Moment.call

theorem granted_cons_of_le (inside : e.Inside) {call : Call} (calls : List Call)
    (room : call.canonical.length ≤ e.left) :
    granted e (call :: calls) = call :: granted (e.put call.canonical) calls := by
  rw [granted, moments, step_of_le inside room, List.filter_cons_of_pos]
  · rfl
  · rw [step_of_le inside room]
    rfl

theorem granted_cons_of_lt (inside : e.Inside) {call : Call} (calls : List Call)
    (large : e.left < call.canonical.length) :
    granted e (call :: calls) = granted e calls := by
  rw [granted, moments, step_of_lt inside large, List.filter_cons_of_neg]
  · rfl
  · rw [step_of_lt inside large]
    exact Bool.false_ne_true

theorem put_nil (e : Encoder) : e.put [] = e := by
  rw [put, Bytes.splice, Bytes.overlay, List.nil_append, List.length_nil, List.drop_zero,
    List.take_append_drop, Nat.add_zero]

/-- A run has the canonical bytes of its granted calls put, and they fit. -/
theorem runFrom_eq (inside : e.Inside) (calls : List Call) :
    runFrom step e calls = e.put ((granted e calls).flatMap Call.canonical)
      ∧ ((granted e calls).flatMap Call.canonical).length ≤ e.left := by
  induction calls generalizing e with
  | nil => exact ⟨(put_nil e).symm, Nat.zero_le _⟩
  | cons call calls ih =>
    rw [runFrom_cons]
    by_cases room : call.canonical.length ≤ e.left
    · rcases ih (inside.put room) with ⟨appended, fits⟩
      rw [inside.left_put room] at fits
      rw [step_of_le inside room, granted_cons_of_le inside calls room, List.flatMap_cons,
        ← inside.put_put, List.length_append]
      exact ⟨appended, Nat.add_le_of_le_sub' room fits⟩
    · have large := Nat.lt_of_not_le room
      rw [step_of_lt inside large, granted_cons_of_lt inside calls large]
      exact ih inside

theorem writer_runFrom (inside : e.Inside) (calls : List Call) :
    (runFrom step e calls).writer = runFrom Writer.step e.writer (calls.map Call.writing) := by
  induction calls generalizing e with
  | nil => rfl
  | cons call calls ih =>
    rcases exists_makes inside call with ⟨result, next, makes⟩
    have within := inside.step call
    rw [makes.step_eq] at within
    rw [List.map_cons, runFrom_cons, runFrom_cons, makes.step_eq, makes.writer_eq]
    exact ih within

/-- Runs of an encoder are exact, and each of its calls is made whole or not at all. Whatever calls
were made on a buffer, the bytes written are the canonical ones of the calls that succeeded, the
bytes behind them are as they were, and the encoder is a writer on which the same calls were made.
Whatever call is made next does not stop: no range is out of the buffer, and no sum is not a word.
It succeeds exactly if its canonical bytes are no more than the bytes left, and then they are
appended and nothing else changes. Otherwise there is no room, and position and buffer are what they
were, although nothing but the order of the steps sees to that. -/
theorem exact_runFrom {buffer : Bytes} (machine : buffer.length < unsignedBound)
    (calls : List Call) :
    let e := runFrom step (ofBuffer buffer) calls
    e.written? = some ((granted (ofBuffer buffer) calls).flatMap Call.canonical)
      ∧ (e.remaining.run = some (.ok e.left) ∧ e.pos + e.left = buffer.length)
      ∧ (e.buffer.length = buffer.length ∧ e.buffer.drop e.pos = buffer.drop e.pos)
      ∧ e.writer = runFrom Writer.step (.ofBuffer buffer) (calls.map Call.writing)
      ∧ ∀ call, ∃ result next, e.Makes call result next := by
  intro e
  have start : (ofBuffer buffer).Inside := ⟨machine, Nat.zero_le _⟩
  have inside : e.Inside := runFrom_induction (fun e call within => within.step call) start calls
  rcases runFrom_eq start calls with ⟨appended, fits⟩
  have whole : e = (ofBuffer buffer).put _ := appended
  have capacity : e.buffer.length = buffer.length := by
    rw [whole]
    exact start.length_put fits
  have written : e.writer.written = (granted (ofBuffer buffer) calls).flatMap Call.canonical := by
    rw [whole, start.writer_put]
    rfl
  have behind : e.buffer.drop e.pos = buffer.drop e.pos := by
    rw [whole]
    exact Bytes.drop_splice (Nat.zero_le _)
  refine ⟨written ▸ inside.written?_eq, ⟨?_, capacity ▸ inside.pos_add_left⟩, ⟨capacity, behind⟩,
    writer_runFrom start calls, exists_makes inside⟩
  rw [inside.remaining_eq, Checked.run_ofExcept]

/-- A double does not fit behind the header of a map, and its key is not left without it: a truth
value is written where it would have been. -/
theorem exact_runFrom_refused :
    let buffer : Bytes := List.replicate 8 0
    let double : Call := .write ⟨"d", .double ⟨0⟩⟩
    let begun := runFrom step (ofBuffer buffer) [.beginMap 1]
    let e := runFrom step (ofBuffer buffer) [.beginMap 1, double, .write ⟨"b", .bool true⟩]
    buffer.length < unsignedBound
      ∧ begun.step double = (some (.error .exhausted), begun)
      ∧ e.written? = some [0xa1, 0x61, 0x62, 0xf5]
      ∧ e.buffer = [0xa1, 0x61, 0x62, 0xf5, 0, 0, 0, 0] := by
  intro buffer double begun e
  have machine : buffer.length < unsignedBound := by decide
  refine ⟨machine, ?_, ?_, by decide +kernel⟩
  · rcases exact_runFrom machine [.beginMap 1] with ⟨-, -, -, -, makes⟩
    rcases makes double with ⟨result, next, made⟩
    have large : ¬ double.canonical.length ≤ begun.left := by decide +kernel
    rcases made.unchanged (mt made.ok_iff.1 large) with ⟨rfl, rfl⟩
    exact made.step_eq
  · have written := (exact_runFrom machine [.beginMap 1, double, .write ⟨"b", .bool true⟩]).1
    exact written.trans (congrArg some (by decide +kernel))

end Encoder

end PropertyRecord
