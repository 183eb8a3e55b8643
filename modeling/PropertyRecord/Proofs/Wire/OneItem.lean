import PropertyRecord.Proofs.Wire.Shortest

/-!
# Typed reads take one item

A typed read works out from a header where the value ends, and so does a skip, each in its own way.
They come to the same place: a typed read succeeds exactly at an item that can be skipped, if it is
of the type that is asked for and what it holds has room there, and it ends where the skip ends. So
an import, which first skips a key and then reads it, finds the value behind the key by both.

Main statement: `Reading.takes_typed`.
-/

namespace PropertyRecord

namespace Reader

/-- The content of the string at the position: as many bytes behind its header as it claims. -/
def content (r : Reader) : Bytes :=
  match r.peekHeader with
  | .ok header => (r.advance header.size).rest.take header.argument
  | .error _ => []

/-- The item at the position is an integer of the signed type. -/
def AtSigned (r : Reader) : Prop :=
  ∃ header, r.peekHeader = .ok header ∧ (header.major = .unsigned ∨ header.major = .negative)
    ∧ header.argument < signedBound

variable {r next : Reader} {header : Header} {major : MajorType}

/-! ## What a skip looks at -/

/-- What can be skipped has a header. -/
theorem exists_of_skipItem (skipped : r.skipItem = .ok next) :
    ∃ header, r.peekHeader = .ok header := by
  rcases exists_of_bind_ok skipped with ⟨header, parsed, -⟩
  exact ⟨header, parsed⟩

theorem content_of_payload {content : Bytes} (read : r.payload major = .ok (content, next)) :
    r.content = content := by
  rcases payload_eq_ok read with ⟨header, rest, parsed, -, length, split, -⟩
  rw [Reader.content, parsed]
  simp only [split, ← length, List.take_left]

/-- A string that can be skipped can be read. -/
theorem payload_of_skipItem (string : major = .text ∨ major = .bytes)
    (skipped : r.skipItem = .ok next) (here : r.peekMajor = .ok major) :
    r.payload major = .ok (r.content, next) := by
  rcases exists_of_bind_ok skipped with ⟨header, parsed, skipped⟩
  have kind := (peekMajor_eq_ok_iff parsed).1 here
  have passed : (if Bytes.holds header.argument (r.advance header.size).rest then
        Except.ok ((r.advance header.size).advance header.argument)
      else .error Fault.malformed) = .ok next := by
    rcases string with rfl | rfl
    · simp only [kind] at skipped
      exact skipped
    · simp only [kind] at skipped
      exact skipped
  rcases exists_passes_of_peekHeader parsed with ⟨head, spells, first⟩
  rcases passes_string.1 passed with ⟨content, complete, second⟩
  rw [kind, ← complete] at spells
  have read := payload_eq_ok_iff.2 ⟨_, ⟨head, spells, rfl⟩, first.trans second⟩
  rw [content_of_payload read, read]

/-! ## One read and a skip -/

theorem exists_readBool_iff : (∃ b, r.readBool = .ok (b, next))
    ↔ r.skipItem = .ok next ∧ (r.peekByte = .ok falseByte ∨ r.peekByte = .ok trueByte) := by
  constructor
  · rintro ⟨b, read⟩
    rcases exists_of_bind_ok read with ⟨initial, peeked, chosen⟩
    have truth : initial = falseByte ∨ initial = trueByte := by
      split at chosen
      next same => exact .inl same
      next =>
        split at chosen
        next same => exact .inr same
        next => cases chosen
    have valued : r.value = .ok (.bool b, next) := by
      rw [value_bool peeked truth, read]
      rfl
    refine ⟨skipItem_of_value valued, ?_⟩
    rcases truth with rfl | rfl
    · exact .inl peeked
    · exact .inr peeked
  · rintro ⟨skipped, truth⟩
    have inline {initial : UInt8} (peeked : r.peekByte = .ok initial) (small : infoOf initial < 24)
        (simple : MajorType.ofInitial initial = .simple) : r.advance 1 = next := by
      have passed := skipItem_of_inline (peekHeader_inline peeked small) (.inr (.inr simple))
      exact Except.ok.inj (passed.symm.trans skipped)
    rcases truth with peeked | peeked
    · rw [readBool, peeked, ← inline peeked (by decide) (by decide)]
      exact ⟨false, rfl⟩
    · rw [readBool, peeked, ← inline peeked (by decide) (by decide)]
      exact ⟨true, rfl⟩

theorem exists_readUInt_iff : (∃ u, r.readUInt = .ok (u, next))
    ↔ r.skipItem = .ok next ∧ r.peekMajor = .ok .unsigned := by
  constructor
  · rintro ⟨u, read⟩
    rcases exists_of_bind_ok read with ⟨header, found, read⟩
    rcases peekHeader_of_peekHeaderOf found with ⟨parsed, kind⟩
    cases read
    exact ⟨skipItem_of_inline parsed (.inl kind), (peekMajor_eq_ok_iff parsed).2 kind⟩
  · rintro ⟨skipped, here⟩
    rcases exists_of_skipItem skipped with ⟨header, parsed⟩
    have kind := (peekMajor_eq_ok_iff parsed).1 here
    cases skipped.symm.trans (skipItem_of_inline parsed (.inl kind))
    rw [readUInt, peekHeaderOf, parsed]
    simp only [bind, Except.bind, kind, if_true]
    exact ⟨_, rfl⟩

theorem exists_readInt_iff : (∃ i, r.readInt = .ok (i, next))
    ↔ r.skipItem = .ok next ∧ r.AtSigned := by
  constructor
  · rintro ⟨i, read⟩
    rcases exists_of_bind_ok read with ⟨header, parsed, read⟩
    split at read
    next kind =>
      split at read
      next small =>
        cases read
        exact ⟨skipItem_of_inline parsed (.inl kind), header, parsed, .inl kind, small⟩
      next => cases read
    next kind =>
      split at read
      next small =>
        cases read
        exact ⟨skipItem_of_inline parsed (.inr (.inl kind)), header, parsed, .inr kind, small⟩
      next => cases read
    next => cases read
  · rintro ⟨skipped, header, parsed, kind, small⟩
    rw [readInt, parsed]
    rcases kind with kind | kind
    · cases skipped.symm.trans (skipItem_of_inline parsed (.inl kind))
      simp only [bind, Except.bind, kind, small, if_true]
      exact ⟨_, rfl⟩
    · cases skipped.symm.trans (skipItem_of_inline parsed (.inr (.inl kind)))
      simp only [bind, Except.bind, kind, small, if_true]
      exact ⟨_, rfl⟩

theorem exists_readDouble_iff : (∃ d, r.readDouble = .ok (d, next))
    ↔ r.skipItem = .ok next ∧ (r.peekByte = .ok doubleByte ∨ r.AtSigned) := by
  -- An integer is read as one and then rounded.
  have rounded {initial : UInt8} (peeked : r.peekByte = .ok initial)
      (kind : MajorType.ofInitial initial = .unsigned ∨ MajorType.ofInitial initial = .negative) :
      (∃ d, r.readDouble = .ok (d, next)) ↔ ∃ i, r.readInt = .ok (i, next) := by
    rw [readDouble_of_integer peeked kind]
    constructor
    · rintro ⟨d, read⟩
      rcases exists_of_map_ok read with ⟨⟨i, after⟩, integer, same⟩
      cases same
      exact ⟨i, integer⟩
    · rintro ⟨i, integer⟩
      rw [integer]
      exact ⟨_, rfl⟩
  constructor
  · rintro ⟨d, read⟩
    rcases exists_of_bind_ok read with ⟨initial, peeked, -⟩
    by_cases kind : MajorType.ofInitial initial = .unsigned
        ∨ MajorType.ofInitial initial = .negative
    · rcases exists_readInt_iff.1 ((rounded peeked kind).1 ⟨d, read⟩) with ⟨skipped, signed⟩
      exact ⟨skipped, .inr signed⟩
    · rcases not_or.1 kind with ⟨notUnsigned, notNegative⟩
      by_cases double : initial = doubleByte
      · rw [double] at peeked
        rw [readDouble_of_doubleByte peeked] at read
        rcases exists_of_map_ok read with ⟨header, parsed, same⟩
        cases same
        have simple := major_of_peekHeader peeked parsed
        exact ⟨skipItem_of_inline parsed (.inr (.inr simple)), .inl peeked⟩
      · rw [readDouble_of_other peeked notUnsigned notNegative double] at read
        cases read
  · rintro ⟨skipped, peeked | signed⟩
    · rcases exists_of_skipItem skipped with ⟨header, parsed⟩
      have simple := major_of_peekHeader peeked parsed
      cases skipped.symm.trans (skipItem_of_inline parsed (.inr (.inr simple)))
      rw [readDouble_of_doubleByte peeked, parsed]
      exact ⟨_, rfl⟩
    · rcases signed with ⟨header, parsed, kind, small⟩
      rcases peekByte_of_peekHeader parsed with ⟨initial, peeked, same, -⟩
      rw [← same] at kind
      rw [rounded peeked kind, exists_readInt_iff]
      exact ⟨skipped, header, parsed, same ▸ kind, small⟩

theorem exists_readText_iff {out : Bytes} : (∃ s, (r.readText out).result = .ok (s, next))
    ↔ r.skipItem = .ok next ∧ r.peekMajor = .ok .text ∧ r.content.length ≤ out.length
      ∧ (ofUtf8? r.content).isSome = true := by
  constructor
  · rintro ⟨s, read⟩
    rcases text_of_readText read with ⟨named, fits⟩
    have complete := text_eq_ok named
    rcases payload_eq_ok complete with ⟨header, -, parsed, kind, -⟩
    rw [content_of_payload complete, ofUtf8?_utf8]
    exact ⟨skipItem_of_text named, (peekMajor_eq_ok_iff parsed).2 kind, fits, rfl⟩
  · rintro ⟨skipped, here, fits, valid⟩
    rcases Option.isSome_iff_exists.1 valid with ⟨s, spelled⟩
    have named : r.text = .ok (s, next) := by
      rw [text, payload_of_skipItem (.inl rfl) skipped here]
      simp only [bind, Except.bind, spelled]
      rfl
    rw [eq_utf8_of_ofUtf8? spelled] at fits
    rw [readText_eq_filling named, filling_of_le fits]
    exact ⟨s, rfl⟩

theorem exists_readBytes_iff {out : Bytes} : (∃ bs, (r.readBytes out).result = .ok (bs, next))
    ↔ r.skipItem = .ok next ∧ r.peekMajor = .ok .bytes ∧ r.content.length ≤ out.length := by
  constructor
  · rintro ⟨bs, read⟩
    have complete := payload_of_readBytes read
    rcases payload_eq_ok complete with ⟨header, -, parsed, kind, -⟩
    rw [readBytes, complete] at read
    simp only at read
    rw [content_of_payload complete]
    split at read
    next fits =>
      exact ⟨skipItem_of_payload (.inr rfl) complete, (peekMajor_eq_ok_iff parsed).2 kind,
        (Bytes.holds_iff _ _).1 fits⟩
    next => cases read
  · rintro ⟨skipped, here, fits⟩
    rw [readBytes, payload_of_skipItem (.inr rfl) skipped here]
    simp only [(Bytes.holds_iff _ _).2 fits, if_true]
    exact ⟨_, rfl⟩

theorem skipItem_of_readSimple {v : Stored} (read : r.readSimple = .ok (v, next)) :
    r.skipItem = .ok next := by
  rcases exists_of_bind_ok read with ⟨initial, -, read⟩
  simp only at read
  split at read
  next =>
    rcases exists_of_bind_ok read with ⟨⟨b, after⟩, done, read⟩
    cases read
    exact (exists_readBool_iff.1 ⟨b, done⟩).1
  next =>
    split at read
    next =>
      rcases exists_of_bind_ok read with ⟨⟨d, after⟩, done, read⟩
      cases read
      exact (exists_readDouble_iff.1 ⟨d, done⟩).1
    next =>
      rcases exists_of_bind_ok read with ⟨after, skipped, read⟩
      cases read
      exact skipped

end Reader

namespace Arena

variable {a copied : Arena} {limit : Nat} {r next : Reader}

/-- A string that an import copies ends where it is skipped to. -/
theorem skipItem_of_copyString {α : Type} {read : Reader → Bytes → Filled (α × Reader)} {span : Span}
    (skips : ∀ {r next : Reader} {out : Bytes} {a : α},
      (read r out).result = .ok (a, next) → r.skipItem = .ok next)
    (copying : a.copyString limit r read = (copied, .ok (span, next))) : r.skipItem = .ok next := by
  rw [copyString] at copying
  split at copying
  next => cases copying
  next size _ =>
    split at copying
    next =>
      rcases exists_of_map_ok (Prod.mk.inj copying).2 with ⟨⟨content, after⟩, done, same⟩
      cases same
      exact skips done
    next => cases copying

theorem skipItem_of_copyText {span : Span}
    (copying : a.copyString limit r Reader.readText = (copied, .ok (span, next))) :
    r.skipItem = .ok next :=
  skipItem_of_copyString (fun done => (Reader.exists_readText_iff.1 ⟨_, done⟩).1) copying

/-- So does a value, whatever it is. -/
theorem skipItem_of_copyValue {v : Stored}
    (copying : a.copyValue limit r = (copied, .ok (v, next))) : r.skipItem = .ok next := by
  rw [copyValue] at copying
  split at copying
  case h_1 => cases copying
  case h_2 =>
    rcases exists_of_map_ok (Prod.mk.inj copying).2 with ⟨⟨u, after⟩, done, same⟩
    cases same
    exact (Reader.exists_readUInt_iff.1 ⟨u, done⟩).1
  case h_3 =>
    rcases exists_of_map_ok (Prod.mk.inj copying).2 with ⟨⟨i, after⟩, done, same⟩
    cases same
    exact (Reader.exists_readInt_iff.1 ⟨i, done⟩).1
  case h_4 =>
    rcases exists_of_map_ok (Prod.mk.inj copying).2 with ⟨⟨span, after⟩, done, same⟩
    cases same
    exact skipItem_of_copyText (Prod.ext rfl done)
  case h_5 =>
    rcases exists_of_map_ok (Prod.mk.inj copying).2 with ⟨⟨span, after⟩, done, same⟩
    cases same
    refine skipItem_of_copyString (fun done => ?_) (Prod.ext rfl done)
    exact (Reader.exists_readBytes_iff.1 ⟨_, done⟩).1
  case h_6 => exact Reader.skipItem_of_readSimple (Prod.mk.inj copying).2

end Arena

namespace Reading

/-! ## Calls -/

/-- Whether a call reads a value of one type. A key is read as a text. -/
def Call.isTyped : Call → Bool
  | .readBool | .readInt | .readUInt | .readDouble | .readText _ | .readBytes _ => true
  | _ => false

/-- The item at the position is of the type that a typed read asks for, and what it holds has room:
an integer in the signed type, a string in the buffer of the caller. -/
def Call.Suits (r : Reader) : Call → Prop
  | .readBool => r.peekByte = .ok falseByte ∨ r.peekByte = .ok trueByte
  | .readInt => r.AtSigned
  | .readUInt => r.peekMajor = .ok .unsigned
  | .readDouble => r.peekByte = .ok doubleByte ∨ r.AtSigned
  | .readText out => r.peekMajor = .ok .text ∧ r.content.length ≤ out.length
      ∧ (ofUtf8? r.content).isSome = true
  | .readBytes out => r.peekMajor = .ok .bytes ∧ r.content.length ≤ out.length
  | _ => False

/-- What comes of a read that takes the item at the position if it suits it. -/
structure Takes (reading : Reading) (suits : Prop) (outcome : Reply × Reading) : Prop where
  /-- It succeeds exactly at an item that can be skipped and suits it. -/
  isOk_iff : outcome.1.result.isOk = true
    ↔ (reading.step .skipItem).1.result.isOk = true ∧ suits
  /-- It then ends where the skip ends. -/
  skip : outcome.1.result.isOk = true → reading.step .skipItem = (⟨.ok .done, none⟩, outcome.2)

variable {reading : Reading} {suits : Prop} {α : Type}

theorem isOk_step_skipItem_iff : (reading.step .skipItem).1.result.isOk = true
    ↔ ∃ next, reading.current.skipItem = .ok next := by
  cases skipped : reading.current.skipItem with
  | error fault => simp [step_skipItem_of_error skipped, Except.isOk, Except.toBool]
  | ok next => simp [step_skipItem_of_ok skipped, Except.isOk, Except.toBool]

theorem takes_ofRead {read : Except Fault (α × Reader)} (answer : α → Answer)
    (same : ∀ next, (∃ a, read = .ok (a, next)) ↔ reading.current.skipItem = .ok next ∧ suits) :
    reading.Takes suits (reading.ofRead answer read) := by
  cases read with
  | ok found =>
    rcases found with ⟨a, next⟩
    rcases (same next).1 ⟨a, rfl⟩ with ⟨skipped, suitable⟩
    exact ⟨iff_of_true rfl ⟨isOk_step_skipItem_iff.2 ⟨next, skipped⟩, suitable⟩,
      fun _ => step_skipItem_of_ok skipped⟩
  | error fault =>
    refine ⟨iff_of_false Bool.false_ne_true ?_, fun done => absurd done Bool.false_ne_true⟩
    rintro ⟨skips, suitable⟩
    rcases isOk_step_skipItem_iff.1 skips with ⟨next, skipped⟩
    rcases (same next).2 ⟨skipped, suitable⟩ with ⟨a, done⟩
    cases done

theorem takes_ofFilled {filled : Filled (α × Reader)} (answer : α → Answer)
    (same : ∀ next, (∃ a, filled.result = .ok (a, next))
      ↔ reading.current.skipItem = .ok next ∧ suits) :
    reading.Takes suits (reading.ofFilled answer filled) := by
  have takes := takes_ofRead answer same
  rcases filled with ⟨result, out⟩
  cases result with
  | ok found => exact ⟨takes.isOk_iff, takes.skip⟩
  | error fault => exact ⟨takes.isOk_iff, takes.skip⟩

/-- Every typed read takes exactly one item, from whatever bytes and wherever it is made. It
succeeds exactly if the item at the position can be skipped and suits it, and the skip then leads to
the same place. So the skip of a key and the read of it into an arena end in front of the same
byte. -/
theorem takes_typed (reading : Reading) :
    (∀ call : Call, call.isTyped = true →
        reading.Takes (call.Suits reading.current) (reading.step call))
      ∧ ∀ (a keyed : Arena) (limit : Nat) (key : Span) (atValue : Reader),
        a.copyString limit reading.current Reader.readText = (keyed, .ok (key, atValue)) →
        reading.current.skipItem = .ok atValue := by
  refine ⟨fun call typed => ?_, fun a keyed limit key atValue => Arena.skipItem_of_copyText⟩
  cases call with
  | readBool => exact takes_ofRead _ fun _ => Reader.exists_readBool_iff
  | readInt => exact takes_ofRead _ fun _ => Reader.exists_readInt_iff
  | readUInt => exact takes_ofRead _ fun _ => Reader.exists_readUInt_iff
  | readDouble => exact takes_ofRead _ fun _ => Reader.exists_readDouble_iff
  | readText out => exact takes_ofFilled _ fun _ => Reader.exists_readText_iff
  | readBytes out => exact takes_ofFilled _ fun _ => Reader.exists_readBytes_iff
  | readMapHeader | peekMajor | peekByte | peekStringLength | skipItem | save | restore | state
  | describe => cases typed

/-- A text in front of another byte, taken by a read into a longer buffer and by an import. -/
theorem takes_typed_text :
    let reading : Reading := .ofBytes [0x62, 0x68, 0x69, 0xff]
    let call : Call := .readText [0, 0, 0]
    (reading.step call).1.result.isOk = true
      ∧ reading.step .skipItem = (⟨.ok .done, none⟩, (reading.step call).2)
      ∧ reading.current.skipItem = .ok ⟨3, [0xff]⟩ := by
  intro reading call
  rcases takes_typed reading with ⟨takes, probe⟩
  have skips : (reading.step .skipItem).1.result.isOk = true := rfl
  have suits : call.Suits reading.current := ⟨rfl, by decide, by decide +kernel⟩
  have done := (takes call rfl).isOk_iff.2 ⟨skips, suits⟩
  refine ⟨done, (takes call rfl).skip done, ?_⟩
  exact probe (.ofBuffer (List.replicate 8 0)) ⟨List.replicate 6 0, [0x68, 0x69]⟩ 4 ⟨2, 2⟩
    ⟨3, [0xff]⟩ (by decide +kernel)

end Reading

end PropertyRecord
