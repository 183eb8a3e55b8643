import PropertyRecord.Editor.Import
import PropertyRecord.Proofs.Import.Walk
import PropertyRecord.Proofs.Wire.Position

/-!
# Copying strings and values

What an import does to the arena for a key or a value, in terms of what can be read there: a string
that is read becomes a copy of its bytes, and one that cannot be read leaves as many bytes set aside
as it claimed. So every attempt, failed or not, is one more copy in the arena, and nothing that was
there before is touched.

Main statements: `copyString_ok` and `copyString_error`, from which those on keys and values follow.
-/

namespace PropertyRecord

namespace Reader

@[simp] theorem length_out_readText (r : Reader) (out : Bytes) :
    (r.readText out).out.length = out.length := by
  rw [readText]
  split
  next => rfl
  next =>
    split
    next fits =>
      have room := (Bytes.holds_iff _ _).1 fits
      split <;> exact Bytes.length_overlay room
    next => rfl

@[simp] theorem length_out_readBytes (r : Reader) (out : Bytes) :
    (r.readBytes out).out.length = out.length := by
  rw [readBytes]
  split
  next => rfl
  next =>
    split
    next fits => exact Bytes.length_overlay ((Bytes.holds_iff _ _).1 fits)
    next => rfl

theorem overlay_of_length {front out : Bytes} (length : out.length = front.length) :
    Bytes.overlay front out = front := by
  rw [Bytes.overlay, List.drop_of_length_le (Nat.le_of_eq length), List.append_nil]

/-- A text read into exactly the space it needs. -/
theorem readText_of_text {r next : Reader} {s : String} {out : Bytes}
    (read : r.text = .ok (s, next)) (length : out.length = (utf8 s).length) :
    r.readText out = ⟨.ok (s, next), utf8 s⟩ := by
  have room : Bytes.holds (utf8 s).length out = true :=
    (Bytes.holds_iff _ _).2 (Nat.le_of_eq length.symm)
  rw [readText, text_eq_ok read]
  simp only [room, if_true, ofUtf8?_utf8, overlay_of_length length]

/-- What is no text is not read as one. -/
theorem readText_of_text_error {r : Reader} {fault : Fault} (out : Bytes)
    (read : r.text = .error fault) : ∃ fault, (r.readText out).result = .error fault := by
  cases complete : r.payload .text with
  | error fault => exact ⟨fault, by rw [readText, complete]⟩
  | ok content =>
    rcases content with ⟨content, next⟩
    have invalid : ofUtf8? content = none := by
      cases valid : ofUtf8? content with
      | none => rfl
      | some s => simp [text, complete, valid, bind, Except.bind, pure, Except.pure] at read
    rw [readText, complete]
    simp only [invalid]
    split
    next => exact ⟨_, rfl⟩
    next => exact ⟨_, rfl⟩

/-- A byte string read into exactly the space it needs. -/
theorem readBytes_of_payload {r next : Reader} {content out : Bytes}
    (read : r.payload .bytes = .ok (content, next)) (length : out.length = content.length) :
    r.readBytes out = ⟨.ok (content, next), content⟩ := by
  have room : Bytes.holds content.length out = true :=
    (Bytes.holds_iff _ _).2 (Nat.le_of_eq length.symm)
  rw [readBytes, read]
  simp only [room, if_true, overlay_of_length length]

theorem atStorable_of_peekByte {r : Reader} {initial : UInt8} (peeked : r.peekByte = .ok initial) :
    r.atStorable = .ok (storable initial) := by
  have simple (other : MajorType) (kind : MajorType.ofInitial initial = other)
      (foreign : other ≠ .simple) : initial ∉ [falseByte, trueByte, nullByte, doubleByte] := by
    intro listed
    apply foreign
    rw [← kind]
    simp only [List.mem_cons, List.not_mem_nil, or_false] at listed
    rcases listed with rfl | rfl | rfl | rfl <;> decide
  rw [atStorable, peeked]
  simp only [bind, Except.bind, pure, Except.pure, storable]
  cases kind : MajorType.ofInitial initial with
  | unsigned | negative | bytes | text => simp
  | simple => simp
  | array => simp [simple .array kind]
  | map => simp [simple .map kind]
  | tag => simp [simple .tag kind]

/-! ## Kinds of values -/

section Kinds

variable {r : Reader} {initial : UInt8}

theorem value_of_peekHeader_error {fault : Fault} (parsed : r.peekHeader = .error fault) :
    r.value = .error fault := by
  rw [value, parsed]
  rfl

theorem value_unsigned (peeked : r.peekByte = .ok initial)
    (kind : MajorType.ofInitial initial = .unsigned) :
    r.value = r.readUInt.map fun (u, next) => (.uint u, next) := by
  cases parsed : r.peekHeader with
  | error fault =>
    rw [value_of_peekHeader_error parsed, readUInt, peekHeaderOf, parsed]
    rfl
  | ok header =>
    have major := (major_of_peekHeader peeked parsed).trans kind
    rw [value, readUInt, peekHeaderOf, parsed]
    simp [major, bind, Except.bind, pure, Except.pure, Except.map]

theorem value_negative (peeked : r.peekByte = .ok initial)
    (kind : MajorType.ofInitial initial = .negative) :
    r.value = r.readInt.map fun (i, next) => (.int i, next) := by
  cases parsed : r.peekHeader with
  | error fault =>
    rw [value_of_peekHeader_error parsed, readInt, parsed]
    rfl
  | ok header =>
    have major := (major_of_peekHeader peeked parsed).trans kind
    rw [value, readInt, parsed]
    simp only [major, bind, Except.bind, pure, Except.pure]
    split <;> rfl

theorem value_text (peeked : r.peekByte = .ok initial)
    (kind : MajorType.ofInitial initial = .text) :
    r.value = r.text.map fun (s, next) => (.text s, next) := by
  cases parsed : r.peekHeader with
  | error fault =>
    rw [value_of_peekHeader_error parsed, text, payload, peekHeaderOf, parsed]
    rfl
  | ok header =>
    have major := (major_of_peekHeader peeked parsed).trans kind
    rw [value, parsed]
    simp only [major, bind, Except.bind, pure, Except.pure]
    cases r.text <;> rfl

theorem value_bytes (peeked : r.peekByte = .ok initial)
    (kind : MajorType.ofInitial initial = .bytes) :
    r.value = (r.payload .bytes).map fun (bs, next) => (.bytes bs, next) := by
  cases parsed : r.peekHeader with
  | error fault =>
    rw [value_of_peekHeader_error parsed, payload, peekHeaderOf, parsed]
    rfl
  | ok header =>
    have major := (major_of_peekHeader peeked parsed).trans kind
    rw [value, parsed]
    simp only [major, bind, Except.bind, pure, Except.pure]
    cases r.payload .bytes <;> rfl

/-- A simple value is one of four, told apart by the initial byte. -/
theorem value_simple {header : Header} (parsed : r.peekHeader = .ok header)
    (peeked : r.peekByte = .ok initial) (kind : MajorType.ofInitial initial = .simple) :
    r.value
      = if initial = falseByte then .ok (.bool false, r.advance header.size)
        else if initial = trueByte then .ok (.bool true, r.advance header.size)
        else if initial = nullByte then .ok (.null, r.advance header.size)
        else if initial = doubleByte then
          .ok (.double ⟨UInt64.ofNat header.argument⟩, r.advance header.size)
        else .error .malformed := by
  have major := (major_of_peekHeader peeked parsed).trans kind
  rw [value, parsed]
  simp only [bind, Except.bind, major, peeked, pure, Except.pure]

theorem value_bool (peeked : r.peekByte = .ok initial)
    (truth : initial = falseByte ∨ initial = trueByte) :
    r.value = r.readBool.map fun (b, next) => (.bool b, next) := by
  rcases truth with rfl | rfl
  · have parsed := peekHeader_inline peeked (by decide)
    rw [value_simple parsed peeked (by decide), if_pos rfl, readBool, peeked]
    rfl
  · have parsed := peekHeader_inline peeked (by decide)
    rw [value_simple parsed peeked (by decide), if_neg (by decide), if_pos rfl, readBool, peeked]
    rfl

theorem value_null (peeked : r.peekByte = .ok nullByte) :
    r.value = r.skipItem.map fun next => (.null, next) := by
  have parsed := peekHeader_inline peeked (by decide)
  rw [value_simple parsed peeked (by decide), if_neg (by decide), if_neg (by decide), if_pos rfl,
    skipItem_of_inline parsed (.inr (.inr (by decide)))]
  rfl

theorem readDouble_of_doubleByte (peeked : r.peekByte = .ok doubleByte) :
    r.readDouble
      = r.peekHeader.map fun header =>
          (⟨UInt64.ofNat header.argument⟩, r.advance header.size) := by
  have kind : MajorType.ofInitial doubleByte = .simple := by decide
  rw [readDouble, peeked]
  simp only [bind, Except.bind, kind]
  cases r.peekHeader <;> rfl

theorem value_double (peeked : r.peekByte = .ok doubleByte) :
    r.value = r.readDouble.map fun (d, next) => (.double d, next) := by
  rw [readDouble_of_doubleByte peeked]
  cases parsed : r.peekHeader with
  | error fault =>
    rw [value_of_peekHeader_error parsed]
    rfl
  | ok header =>
    rw [value_simple parsed peeked (by decide), if_neg (by decide), if_neg (by decide),
      if_neg (by decide), if_pos rfl]
    rfl

/-- The simple values and the double, which need no arena: they are read as what they are. -/
theorem readSimple_of_storable (peeked : r.peekByte = .ok initial) (kept : storable initial = true)
    (kind : MajorType.ofInitial initial = .simple) (span : Span) :
    r.readSimple = r.value.map fun (v, next) => (Stored.ofValue span v, next) := by
  have listed : initial ∈ [falseByte, trueByte, nullByte, doubleByte] := by
    simpa [storable, kind] using kept
  simp only [List.mem_cons, List.not_mem_nil, or_false] at listed
  rw [readSimple, peeked]
  by_cases truth : initial = falseByte ∨ initial = trueByte
  · rw [value_bool peeked truth]
    simp only [bind, Except.bind, truth, if_true]
    cases r.readBool <;> rfl
  · rcases listed with no | yes | rfl | rfl
    · exact absurd (.inl no) truth
    · exact absurd (.inr yes) truth
    · rw [value_null peeked]
      simp only [bind, Except.bind]
      cases r.skipItem <;> rfl
    · rw [value_double peeked]
      simp only [bind, Except.bind]
      cases r.readDouble <;> rfl

/-- Nothing is set aside for a value that is no string. -/
theorem setAside_of_inline {limit used : Nat} (peeked : r.peekByte = .ok initial)
    (notText : MajorType.ofInitial initial ≠ .text)
    (notBytes : MajorType.ofInitial initial ≠ .bytes) : r.setAside limit used = 0 := by
  have refused : r.peekStringLength = .error .invalidState := by
    rw [peekStringLength, peekMajor, peeked]
    simp [bind, Except.bind, pure, Except.pure, notText, notBytes]
  rw [setAside, refused]

end Kinds

end Reader

namespace Arena

variable {a : Arena} {limit : Nat} {r : Reader}

theorem length_bytesAt_newest {size : Nat} (room : size ≤ a.below.length) :
    ((a.extend size).bytesAt ((a.extend size).newest size)).length = size := by
  have long : size ≤ (a.extend size).back.length := by
    have used := used_extend room
    rw [Arena.used] at used
    omega
  rw [bytesAt, newest, Nat.sub_self, List.drop_zero, List.length_take_of_le long]

theorem newest_extend (a : Arena) (bytes : Bytes) (room : bytes.length ≤ a.below.length) :
    (a.extend bytes.length).newest bytes.length = (a.stash bytes).newest bytes.length := by
  rw [newest, newest, used_extend room, used_stash room]

/-! ## Strings -/

/-- A string that is read and fits becomes a copy. -/
theorem copyString_ok {α : Type} {read : Reader → Bytes → Filled (α × Reader)} {content : Bytes}
    {x : α} {next : Reader} (half : limit ≤ a.budget)
    (claimed : r.peekStringLength = .ok content.length)
    (fits : a.used + content.length ≤ limit)
    (reads : ∀ out, out.length = content.length → read r out = ⟨.ok (x, next), content⟩) :
    a.copyString limit r read
      = (a.stash content, .ok ((a.stash content).newest content.length, next)) := by
  have room := le_below (Nat.le_trans fits half)
  have within : a.fits limit content.length = true := fits_iff.2 fits
  rw [copyString, claimed]
  simp only [within, if_true, reads _ (length_bytesAt_newest room)]
  rw [← newest_extend a content room]
  rfl

/-- A string that is not read leaves what was set aside for it. -/
theorem copyString_error {α : Type} {read : Reader → Bytes → Filled (α × Reader)}
    (half : limit ≤ a.budget)
    (fails : ∀ size out, r.peekStringLength = .ok size → a.used + size ≤ limit →
      out.length = size →
      ∃ fault, (read r out).result = .error fault ∧ (read r out).out.length = size) :
    ∃ bytes fault, bytes.length = r.setAside limit a.used
      ∧ a.copyString limit r read = (a.stash bytes, .error fault) := by
  cases claimed : r.peekStringLength with
  | error fault =>
    refine ⟨[], fault, ?_, ?_⟩
    · rw [Reader.setAside, claimed]
      rfl
    · rw [copyString, claimed, stash_nil]
  | ok size =>
    by_cases fits : a.used + size ≤ limit
    · have room := le_below (Nat.le_trans fits half)
      rcases fails size _ claimed fits (length_bytesAt_newest room) with ⟨fault, failed, length⟩
      have within : a.fits limit size = true := fits_iff.2 fits
      refine ⟨(read r ((a.extend size).bytesAt ((a.extend size).newest size))).out, fault, ?_, ?_⟩
      · rw [Reader.setAside, claimed, length]
        exact (if_pos fits).symm
      · rw [copyString, claimed]
        simp only [within, if_true, failed]
        rw [stash, length]
        rfl
    · have refused : ¬ a.fits limit size = true := mt fits_iff.1 fits
      refine ⟨[], .exhausted, ?_, ?_⟩
      · rw [Reader.setAside, claimed]
        exact (if_neg fits).symm
      · rw [copyString, claimed, stash_nil]
        exact if_neg refused

theorem copyText_ok {s : String} {next : Reader} (half : limit ≤ a.budget)
    (read : r.text = .ok (s, next)) (fits : a.used + (utf8 s).length ≤ limit) :
    a.copyString limit r Reader.readText
      = (a.stash (utf8 s), .ok ((a.stash (utf8 s)).newest (utf8 s).length, next)) :=
  copyString_ok half (Reader.peekStringLength_of_payload (.inl rfl) (Reader.text_eq_ok read)) fits
    fun _ => Reader.readText_of_text read

theorem copyText_error (half : limit ≤ a.budget)
    (refused : ∀ s next, r.text = .ok (s, next) → limit < a.used + (utf8 s).length) :
    ∃ bytes fault, bytes.length = r.setAside limit a.used
      ∧ a.copyString limit r Reader.readText = (a.stash bytes, .error fault) := by
  apply copyString_error half
  intro size out claimed fits length
  cases read : r.text with
  | error fault =>
    rcases Reader.readText_of_text_error out read with ⟨fault, failed⟩
    exact ⟨fault, failed, by rw [Reader.length_out_readText, length]⟩
  | ok found =>
    rcases found with ⟨s, next⟩
    have same := Reader.peekStringLength_of_payload (.inl rfl) (Reader.text_eq_ok read)
    have large := refused s next read
    rw [claimed] at same
    cases same
    omega

theorem copyBytes_ok {content : Bytes} {next : Reader} (half : limit ≤ a.budget)
    (read : r.payload .bytes = .ok (content, next)) (fits : a.used + content.length ≤ limit) :
    a.copyString limit r Reader.readBytes
      = (a.stash content, .ok ((a.stash content).newest content.length, next)) :=
  copyString_ok half (Reader.peekStringLength_of_payload (.inr rfl) read) fits
    fun _ => Reader.readBytes_of_payload read

theorem copyBytes_error (half : limit ≤ a.budget)
    (refused : ∀ content next, r.payload .bytes = .ok (content, next) →
      limit < a.used + content.length) :
    ∃ bytes fault, bytes.length = r.setAside limit a.used
      ∧ a.copyString limit r Reader.readBytes = (a.stash bytes, .error fault) := by
  apply copyString_error half
  intro size out claimed fits length
  cases read : r.payload .bytes with
  | error fault =>
    refine ⟨fault, by rw [Reader.readBytes, read], ?_⟩
    rw [Reader.length_out_readBytes, length]
  | ok found =>
    rcases found with ⟨content, next⟩
    have same := Reader.peekStringLength_of_payload (.inr rfl) read
    have large := refused content next read
    rw [claimed] at same
    cases same
    omega

/-! ## Values -/

/-- A value that needs no arena is read, or not, without touching it. -/
theorem copyValue_inline (a : Arena) (limit : Nat) {initial : UInt8}
    (peeked : r.peekByte = .ok initial) (kept : storable initial = true)
    (notText : MajorType.ofInitial initial ≠ .text)
    (notBytes : MajorType.ofInitial initial ≠ .bytes) (span : Span) :
    a.copyValue limit r = (a, r.value.map fun (v, next) => (Stored.ofValue span v, next)) := by
  cases kind : MajorType.ofInitial initial with
  | unsigned =>
    rw [copyValue, Reader.peekMajor_of_peekByte peeked, kind, Reader.value_unsigned peeked kind]
    cases r.readUInt with
    | error => rfl
    | ok => rfl
  | negative =>
    rw [copyValue, Reader.peekMajor_of_peekByte peeked, kind, Reader.value_negative peeked kind]
    cases r.readInt with
    | error => rfl
    | ok => rfl
  | text => contradiction
  | bytes => contradiction
  | simple =>
    rw [copyValue, Reader.peekMajor_of_peekByte peeked, kind]
    exact congrArg (Prod.mk a) (Reader.readSimple_of_storable peeked kept kind span)
  | array | map | tag =>
    have stored := Reader.atStorable_of_peekByte peeked
    simp [Reader.atStorable, peeked, kind, kept, bind, Except.bind, pure, Except.pure] at stored

/-- A value that is read and fits is copied. -/
theorem copyValue_ok {initial : UInt8} {v : Value} {next : Reader} (half : limit ≤ a.budget)
    (peeked : r.peekByte = .ok initial) (kept : storable initial = true)
    (read : r.value = .ok (v, next)) (fits : a.used + v.payload.length ≤ limit) :
    a.copyValue limit r
      = (a.stash v.payload,
          .ok (Stored.ofValue ((a.stash v.payload).newest v.payload.length) v, next)) := by
  have major := Reader.peekMajor_of_peekByte peeked
  by_cases isText : MajorType.ofInitial initial = .text
  · rw [Reader.value_text peeked isText] at read
    cases text : r.text with
    | error => simp [text, Except.map] at read
    | ok found =>
      rcases found with ⟨s, after⟩
      rw [text] at read
      cases read
      rw [copyValue, major, isText]
      simp only [copyText_ok half text fits]
      rfl
  by_cases isBytes : MajorType.ofInitial initial = .bytes
  · rw [Reader.value_bytes peeked isBytes] at read
    cases bytes : r.payload .bytes with
    | error => simp [bytes, Except.map] at read
    | ok found =>
      rcases found with ⟨content, after⟩
      rw [bytes] at read
      cases read
      rw [copyValue, major, isBytes]
      simp only [copyBytes_ok half bytes fits]
      rfl
  have inline := Reader.payload_of_value read peeked isText isBytes
  rw [copyValue_inline a limit peeked kept isText isBytes
    ((a.stash v.payload).newest v.payload.length), read, inline, stash_nil]
  rfl

/-- A value that is not read, or does not fit, leaves what was set aside for it. -/
theorem copyValue_error {initial : UInt8} (half : limit ≤ a.budget) (within : a.used ≤ limit)
    (peeked : r.peekByte = .ok initial) (kept : storable initial = true)
    (refused : ∀ v next, r.value = .ok (v, next) → limit < a.used + v.payload.length) :
    ∃ bytes fault, bytes.length = r.setAside limit a.used
      ∧ a.copyValue limit r = (a.stash bytes, .error fault) := by
  have major := Reader.peekMajor_of_peekByte peeked
  by_cases isText : MajorType.ofInitial initial = .text
  · have textRefused : ∀ s next, r.text = .ok (s, next) → limit < a.used + (utf8 s).length := by
      intro s next text
      apply refused (.text s) next
      rw [Reader.value_text peeked isText, text]
      rfl
    rcases copyText_error half textRefused with ⟨bytes, fault, length, copied⟩
    refine ⟨bytes, fault, length, ?_⟩
    rw [copyValue, major, isText]
    simp only [copied]
    rfl
  by_cases isBytes : MajorType.ofInitial initial = .bytes
  · have bytesRefused : ∀ content next, r.payload .bytes = .ok (content, next) →
        limit < a.used + content.length := by
      intro content next complete
      apply refused (.bytes content) next
      rw [Reader.value_bytes peeked isBytes, complete]
      rfl
    rcases copyBytes_error half bytesRefused with ⟨bytes, fault, length, copied⟩
    refine ⟨bytes, fault, length, ?_⟩
    rw [copyValue, major, isBytes]
    simp only [copied]
    rfl
  cases read : r.value with
  | ok found =>
    rcases found with ⟨v, next⟩
    have large := refused v next read
    rw [Reader.payload_of_value read peeked isText isBytes, List.length_nil] at large
    omega
  | error fault =>
    refine ⟨[], fault, (Reader.setAside_of_inline peeked isText isBytes).symm, ?_⟩
    rw [copyValue_inline a limit peeked kept isText isBytes (a.newest 0), read, stash_nil]
    rfl

end Arena

end PropertyRecord
