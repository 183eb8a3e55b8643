import PropertyRecord.Proofs.Wire.Decoding
import PropertyRecord.Proofs.Wire.OneItem
import PropertyRecord.Proofs.Wire.Packed
import PropertyRecord.Record.Lookup
import PropertyRecord.Store.Memory

/-!
# What a read leaves in the caller's buffer

A read of a string brings a buffer, and whether the buffer is written to depends only on the string:
it must be complete and fit. Bytes that are not the string that is asked for, or claim to be longer
than they are, are refused before the buffer is looked at. A text is copied first and then checked
to be UTF-8, so the buffer has the content of a text that is refused for its spelling, and of no
other that is refused.

A lookup that finds the key reads its value in the same way, and one that does not leaves the buffer
alone.

Main statement: `copies_delivered`.
-/

namespace PropertyRecord

/-- What is left in a buffer when its front is overwritten and the rest of it is not touched. -/
structure Bytes.Overwrites (content out filled : Bytes) : Prop where
  front : filled.take content.length = content
  rest : filled.drop content.length = out.drop content.length
  length : filled.length = out.length

theorem Bytes.overwrites_overlay {content out : Bytes} (fits : content.length ≤ out.length) :
    Overwrites content out (overlay content out) where
  front := List.take_left
  rest := List.drop_left
  length := length_overlay fits

theorem Bytes.Overwrites.eq_overlay {content out filled : Bytes}
    (overwrites : Overwrites content out filled) : filled = overlay content out := by
  calc filled = filled.take content.length ++ filled.drop content.length :=
        (List.take_append_drop content.length filled).symm
    _ = overlay content out := by rw [overwrites.front, overwrites.rest, overlay]

/-- The answer without the reader behind what was read. -/
def Filled.forget {α : Type} (filled : Filled (α × Reader)) : Filled α :=
  ⟨filled.result.map Prod.fst, filled.out⟩

namespace Reader

/-- A complete string of the given kind is at the position: there are as many bytes of content as
it claims. -/
def AtString (r : Reader) (major : MajorType) : Prop :=
  ∃ header, r.peekHeader = .ok header ∧ header.major = major
    ∧ r.content.length = header.argument

/-- What the string at the position makes of a read into the caller's buffer, where `decode` says
what content stands for. -/
structure Handles {α : Type} (r : Reader) (major : MajorType) (decode : Bytes → Option α)
    (out : Bytes) (filled : Filled α) : Prop where
  noHeader : ∀ fault, r.peekHeader = .error fault → filled = ⟨.error fault, out⟩
  /-- The header is that of another item, or claims more bytes than are left. -/
  noString : ∀ header, r.peekHeader = .ok header →
    header.major ≠ major ∨ r.remaining < header.size + header.argument →
    filled = ⟨.error .malformed, out⟩
  tooLong : r.AtString major → out.length < r.content.length → filled = ⟨.error .exhausted, out⟩
  /-- Content that fits is copied, whatever it stands for. -/
  fits : r.AtString major → r.content.length ≤ out.length →
    r.content.Overwrites out filled.out
      ∧ filled.result = (decode r.content).elim (.error .malformed) .ok

/-- And the other way round, what the answer says of the string and of the buffer. -/
structure Delivers {α : Type} (r : Reader) (major : MajorType) (decode : Bytes → Option α)
    (out : Bytes) (filled : Filled α) : Prop extends Handles r major decode out filled where
  succeeded : ∀ a, filled.result = .ok a →
    r.AtString major ∧ decode r.content = some a ∧ r.content.Overwrites out filled.out
  /-- A failed read touches the buffer for one reason only. -/
  touched : ∀ fault, filled.result = .error fault → filled.out ≠ out →
    fault = .malformed ∧ r.AtString major ∧ r.content.length ≤ out.length
      ∧ decode r.content = none

variable {r : Reader} {major : MajorType} {header : Header}

/-! ## The content -/

theorem content_eq (parsed : r.peekHeader = .ok header) :
    r.content = (r.advance header.size).rest.take header.argument := by
  rw [content, parsed]

theorem length_rest_advance (r : Reader) (n : Nat) : (r.advance n).rest.length = r.remaining - n :=
  List.length_drop

theorem length_content_iff (parsed : r.peekHeader = .ok header) :
    r.content.length = header.argument ↔ header.size + header.argument ≤ r.remaining := by
  have size : header.size ≤ r.remaining := (Header.le_length_of_parse parsed).2.1
  rw [content_eq parsed, List.length_take, length_rest_advance]
  omega

theorem payload_of_peekHeader {fault : Fault} (refused : r.peekHeader = .error fault) :
    r.payload major = .error fault := by
  rw [payload, peekHeaderOf, refused]
  rfl

theorem payload_of_major (parsed : r.peekHeader = .ok header) (same : header.major = major) :
    r.payload major = match Bytes.cut? header.argument (r.advance header.size).rest with
      | some (content, _) => .ok (content, (r.advance header.size).advance header.argument)
      | none => .error .malformed := by
  rw [payload, peekHeaderOf, parsed]
  simp only [bind, Except.bind, same, if_true]
  rfl

theorem payload_of_lt (parsed : r.peekHeader = .ok header)
    (short : r.remaining < header.size + header.argument) :
    r.payload major = .error .malformed := by
  by_cases same : header.major = major
  · have size : header.size ≤ r.remaining := (Header.le_length_of_parse parsed).2.1
    have cut : Bytes.cut? header.argument (r.advance header.size).rest = none := by
      rw [Bytes.cut?_eq_none_iff, length_rest_advance]
      omega
    rw [payload_of_major parsed same, cut]
  · exact payload_of_ne parsed same

theorem AtString.payload (complete : r.AtString major) :
    ∃ next, r.payload major = .ok (r.content, next) := by
  rcases complete with ⟨header, parsed, same, length⟩
  have inside := (length_content_iff parsed).1 length
  have enough : header.argument ≤ (r.advance header.size).rest.length := by
    rw [length_rest_advance]
    omega
  rw [payload_of_major parsed same, Bytes.cut?_of_le enough, content_eq parsed]
  exact ⟨_, rfl⟩

/-- Either there is no header, or it is not that of a complete string of the kind, or it is. -/
theorem header_cases (r : Reader) (major : MajorType) :
    (∃ fault, r.peekHeader = .error fault)
      ∨ (∃ header, r.peekHeader = .ok header
        ∧ (header.major ≠ major ∨ r.remaining < header.size + header.argument))
      ∨ r.AtString major := by
  cases parsed : r.peekHeader with
  | error fault => exact .inl ⟨fault, rfl⟩
  | ok header =>
    by_cases other : header.major ≠ major ∨ r.remaining < header.size + header.argument
    · exact .inr (.inl ⟨header, rfl, other⟩)
    · rcases not_or.1 other with ⟨same, complete⟩
      have length := (length_content_iff parsed).2 (Nat.le_of_not_lt complete)
      exact .inr (.inr ⟨header, parsed, not_not.1 same, length⟩)

/-! ## Reads -/

/-- A read of a string that fails to spell anything only by `malformed`. -/
theorem handles_readString {α : Type} {decode : Bytes → Except Fault α}
    {decode? : Bytes → Option α}
    (same : ∀ content, decode content = (decode? content).elim (.error .malformed) .ok)
    (r : Reader) (major : MajorType) (out : Bytes) :
    r.Handles major decode? out (r.readString major decode out).forget where
  noHeader fault refused := by
    rw [readString, payload_of_peekHeader refused]
    rfl
  noString header parsed other := by
    have refused : r.payload major = .error .malformed := by
      rcases other with other | short
      · exact payload_of_ne parsed other
      · exact payload_of_lt parsed short
    rw [readString, refused]
    rfl
  tooLong complete long := by
    rcases complete.payload with ⟨next, read⟩
    have refused := Bool.eq_false_iff.2
      (mt (Bytes.holds_iff r.content.length out).1 (Nat.not_le_of_lt long))
    rw [readString, read]
    simp only [refused]
    rfl
  fits complete fits := by
    rcases complete.payload with ⟨next, read⟩
    have holds := (Bytes.holds_iff _ _).2 fits
    rw [readString, read]
    simp only [holds, if_true, same]
    cases decode? r.content with
    | none => exact ⟨Bytes.overwrites_overlay fits, rfl⟩
    | some a => exact ⟨Bytes.overwrites_overlay fits, rfl⟩

/-- Either the buffer is not touched and the read fails, or the content is copied. -/
theorem Handles.outcome {α : Type} {decode : Bytes → Option α} {out : Bytes} {filled : Filled α}
    (handles : r.Handles major decode out filled) :
    (∃ fault, fault ≠ .notFound ∧ filled = ⟨.error fault, out⟩)
      ∨ r.AtString major ∧ r.content.length ≤ out.length ∧ r.content.Overwrites out filled.out
        ∧ ((∃ a, decode r.content = some a ∧ filled.result = .ok a)
          ∨ decode r.content = none ∧ filled.result = .error .malformed) := by
  rcases header_cases r major with ⟨fault, refused⟩ | ⟨header, parsed, other⟩ | complete
  · have named : fault ≠ .notFound := by
      rcases Header.parse_eq_error_iff.1 refused with ⟨same, -⟩ | ⟨same, -⟩
      all_goals simp [same]
    exact .inl ⟨fault, named, handles.noHeader fault refused⟩
  · exact .inl ⟨.malformed, by decide, handles.noString header parsed other⟩
  · by_cases fits : r.content.length ≤ out.length
    · rcases handles.fits complete fits with ⟨overwrites, result⟩
      refine .inr ⟨complete, fits, overwrites, ?_⟩
      cases decoded : decode r.content with
      | none =>
        rw [decoded] at result
        exact .inr ⟨rfl, result⟩
      | some a =>
        rw [decoded] at result
        exact .inl ⟨a, rfl, result⟩
    · exact .inl ⟨.exhausted, by decide, handles.tooLong complete (Nat.lt_of_not_le fits)⟩

/-- What a read did with the buffer can be told from its answer. -/
theorem Handles.delivers {α : Type} {decode : Bytes → Option α} {out : Bytes} {filled : Filled α}
    (handles : r.Handles major decode out filled) : r.Delivers major decode out filled where
  toHandles := handles
  succeeded a read := by
    rcases handles.outcome with ⟨fault, -, rfl⟩ | ⟨complete, -, overwrites, decoded⟩
    · cases read
    · rcases decoded with ⟨b, decoded, result⟩ | ⟨-, result⟩
      · cases read.symm.trans result
        exact ⟨complete, decoded, overwrites⟩
      · cases read.symm.trans result
  touched fault read changed := by
    rcases handles.outcome with ⟨fault, -, rfl⟩ | ⟨complete, fits, -, decoded⟩
    · exact absurd rfl changed
    · rcases decoded with ⟨b, -, result⟩ | ⟨undecoded, result⟩
      · cases read.symm.trans result
      · cases read.symm.trans result
        exact ⟨rfl, complete, fits, undecoded⟩

/-- No read of a string answers that something is not there. -/
theorem Handles.ne_notFound {α : Type} {decode : Bytes → Option α} {out : Bytes}
    {filled : Filled α} (handles : r.Handles major decode out filled) :
    filled.result ≠ .error .notFound := by
  intro missing
  rcases handles.outcome with ⟨fault, named, rfl⟩ | ⟨-, -, -, ⟨a, -, result⟩ | ⟨-, result⟩⟩
  · cases missing
    exact named rfl
  · cases missing.symm.trans result
  · cases missing.symm.trans result

theorem delivers_readText (r : Reader) (out : Bytes) :
    r.Delivers .text ofUtf8? out (r.readText out).forget := by
  have spelled (content : Bytes) :
      Cursor.decodeText content = (ofUtf8? content).elim (.error .malformed) .ok := by
    rw [Cursor.decodeText]
    cases ofUtf8? content <;> rfl
  rw [readText_eq]
  exact (handles_readString spelled r .text out).delivers

theorem delivers_readBytes (r : Reader) (out : Bytes) :
    r.Delivers .bytes some out (r.readBytes out).forget :=
  (handles_readString (fun _ => rfl) r .bytes out).delivers

end Reader

/-! ## Lookups -/

/-- The bytes that a lawful store says it has copied are a slice of the buffer, so a lookup walks all
of them and nothing else. -/
theorem Record.slice?_read {σ : Type} [RecordStore σ] [LawfulRecordStore σ] (name : RecordName)
    (store : σ) {out : Bytes} {length : Nat}
    (copied : (read name store out).1.result = .ok length) :
    (read name store out).1.out.slice? 0 length
      = some ((read name store out).1.out.take length) := by
  have fits := LawfulRecordStore.le_of_read store name.text out length copied
  rw [← LawfulRecordStore.length_read store name.text out] at fits
  exact Bytes.slice?_of_le (Nat.zero_le _) fits

/-- What a lookup of a string does with the caller's buffer, if it found the value at `found`. -/
structure Record.Finds {α : Type} (found : Option Reader) (major : MajorType)
    (decode : Bytes → Option α) (out : Bytes) (filled : Filled α) : Prop where
  missing : found = none → filled = ⟨.error .notFound, out⟩
  delivers : ∀ r, found = some r → r.Delivers major decode out filled
  untouched : filled.result = .error .notFound → found = none ∧ filled.out = out

theorem Record.finds_readInto {α σ : Type} [RecordStore σ] {major : MajorType}
    {decode : Bytes → Option α} {read : Reader → Bytes → Filled (α × Reader)} (name : RecordName)
    (store : σ) (key : String) (out : Bytes)
    (delivers : ∀ r : Reader, r.Delivers major decode out (read r out).forget) :
    Finds (locate name store key).1 major decode out (readInto name store key out read).1 := by
  rw [readInto]
  rcases locate name store key with ⟨found, later⟩
  cases found with
  | none =>
    exact ⟨fun _ => rfl, fun r found => absurd found (Option.some_ne_none r).symm,
      fun _ => ⟨rfl, rfl⟩⟩
  | some r =>
    refine ⟨fun none => absurd none (Option.some_ne_none r), fun other found => ?_,
      fun missing => absurd missing (delivers r).ne_notFound⟩
    cases found
    exact delivers r

/-! ## Calls -/

theorem Reading.ofFilled_fst {α : Type} (reading : Reading) (answer : α → Answer)
    (filled : Filled (α × Reader)) : (reading.ofFilled answer filled).1
      = ⟨filled.forget.result.map answer, some filled.forget.out⟩ := by
  rcases filled with ⟨result, out⟩
  cases result with
  | ok found => rfl
  | error fault => rfl

/-- A read of a string by a decoding does not stop, and does with the buffer what the reader at its
position does. -/
theorem Decoding.exists_delivers_step {α : Type} {source : Bytes} {d : Decoding}
    (machine : source.length < unsignedBound) (inside : d.Inside source) {call : Reading.Call}
    {answer : α → Reading.Answer} {read : Filled (α × Reader)} {major : MajorType}
    {decode : Bytes → Option α} {out : Bytes}
    (called : d.reading.step call = d.reading.ofFilled answer read)
    (delivers : d.current.reader.Delivers major decode out read.forget) :
    ∃ filled, (d.step call).1 = some ⟨filled.result.map answer, some filled.out⟩
      ∧ d.current.reader.Delivers major decode out filled := by
  rcases exists_makes machine inside call with ⟨reply, next, makes⟩
  have replied : reply = ⟨read.forget.result.map answer, some read.forget.out⟩ := by
    rw [← Reading.ofFilled_fst d.reading, ← called, makes.reading_eq]
  refine ⟨read.forget, ?_, delivers⟩
  rw [makes.step_eq, replied]

/-- Reads of strings do with the caller's buffer what they promise, whatever the bytes claim and
wherever the cursor stands. The buffer is as it was if there is no complete string of the kind at
the cursor, which is told by the fault of the header or `malformed`, and if the string is longer
than the buffer, which is told by `exhausted`. Else the front of the buffer is the content, as long
as the string says, and the rest is as it was; a text is then refused if it is not UTF-8, and
nothing else is. A lookup of a string treats the buffer the same way, and leaves it as it was if
there is no such property. -/
theorem copies_delivered {source : Bytes} (machine : source.length < unsignedBound) {d : Decoding}
    (inside : d.Inside source) {σ : Type} [RecordStore σ] (name : RecordName) (store : σ)
    (key : String) (out : Bytes) :
    (∃ filled, (d.step (.readText out)).1 = some ⟨filled.result.map .text, some filled.out⟩
        ∧ d.current.reader.Delivers .text ofUtf8? out filled)
      ∧ (∃ filled, (d.step (.readBytes out)).1 = some ⟨filled.result.map .bytes, some filled.out⟩
        ∧ d.current.reader.Delivers .bytes some out filled)
      ∧ Record.Finds (Record.locate name store key).1 .text ofUtf8? out
        (Record.getText name store key out).1
      ∧ Record.Finds (Record.locate name store key).1 .bytes some out
        (Record.getBytes name store key out).1 :=
  ⟨Decoding.exists_delivers_step machine inside rfl (Reader.delivers_readText _ out),
    Decoding.exists_delivers_step machine inside rfl (Reader.delivers_readBytes _ out),
    Record.finds_readInto name store key out fun r => r.delivers_readText out,
    Record.finds_readInto name store key out fun r => r.delivers_readBytes out⟩

/-- A text that is not UTF-8 is left in the front of the buffer. A lookup of it with a shorter buffer
is refused and leaves no trace, and a lookup of the text behind it delivers that one. -/
theorem copies_delivered_broken :
    let source : Bytes := [0x62, 0x68, 0xff]
    let name : RecordName := ⟨"r", by decide, by decide⟩
    let record := [0xa2, 0x61, 0x6b] ++ source ++ [0x61, 0x74, 0x62, 0x68, 0x69]
    let store : MemoryStore 1 64 := MemoryStore.empty.put ⟨"r", record⟩
    ((Decoding.ofBytes source).step (.readText [1, 2, 3])).1
        = some ⟨.error .malformed, some [0x68, 0xff, 3]⟩
      ∧ (Record.getText name store "k" [1]).1 = ⟨.error .exhausted, [1]⟩
      ∧ (Record.getText name store "t" [1, 2, 3]).1 = ⟨.ok "hi", [0x68, 0x69, 3]⟩ := by
  intro source name record store
  have machine : source.length < unsignedBound := by decide
  have inside := Decoding.Inside.ofBytes source
  refine ⟨?_, ?_, ?_⟩
  · rcases copies_delivered machine inside name store "k" [1, 2, 3] with
      ⟨⟨filled, replied, wide⟩, -⟩
    have complete : (Reader.ofBytes source).AtString .text :=
      ⟨⟨.text, 2, 2, 1⟩, rfl, rfl, by decide⟩
    have broken : ofUtf8? (Decoding.ofBytes source).current.reader.content = none := by
      decide +kernel
    rcases wide.fits complete (by decide) with ⟨overwrites, result⟩
    rw [broken] at result
    rw [replied, result, overwrites.eq_overlay]
    rfl
  · rcases copies_delivered machine inside name store "k" [1] with ⟨-, -, narrow, -⟩
    have found : (Record.locate name store "k").1 = some ⟨3, record.drop 3⟩ := by decide +kernel
    have behind : Reader.AtString ⟨3, record.drop 3⟩ .text :=
      ⟨⟨.text, 2, 2, 1⟩, rfl, rfl, by decide⟩
    exact (narrow.delivers _ found).tooLong behind (by decide)
  · rcases copies_delivered machine inside name store "t" [1, 2, 3] with ⟨-, -, wide, -⟩
    have found : (Record.locate name store "t").1 = some ⟨8, record.drop 8⟩ := by decide +kernel
    have behind : Reader.AtString ⟨8, record.drop 8⟩ .text :=
      ⟨⟨.text, 2, 2, 1⟩, rfl, rfl, by decide⟩
    have spelled : ofUtf8? (Reader.content ⟨8, record.drop 8⟩) = some "hi" := by decide +kernel
    rcases (wide.delivers _ found).fits behind (by decide) with ⟨overwrites, result⟩
    rw [spelled] at result
    have whole (filled : Filled String) (text : filled.result = .ok "hi")
        (copied : filled.out = [0x68, 0x69, 3]) : filled = ⟨.ok "hi", [0x68, 0x69, 3]⟩ := by
      rw [← text, ← copied]
    exact whole _ result overwrites.eq_overlay

end PropertyRecord
