import PropertyRecord.Proofs.Wire.Pair
import PropertyRecord.Wire.Reading

/-!
# The grammar of items

What an item is, said of its bytes alone: a header in any of its sizes, and then nothing, the bytes
of a string, or the items of a container or a tag. The grammar counts down the levels that may
still be nested, and knows neither positions nor faults.

Main statements: `skipLevels_eq_ok_iff`, a skip passes over exactly one item, and
`Reading.step_skipItem_iff`, which says so of the call.
-/

namespace PropertyRecord

/-- The bytes are a header of the kind with the argument, in any size that has room for it. -/
inductive Spells (major : MajorType) : (argument : Nat) → Bytes → Prop where
  | inline (argument : Nat) (small : argument < 24) :
      Spells major argument [initialByte major argument]
  | wide (info : Nat) (digits : Bytes)
      (announced : (info, digits.length) ∈ [(24, 1), (25, 2), (26, 4), (27, 8)]) :
      Spells major (Bytes.ofBigEndian digits) (initialByte major info :: digits)

mutual

/-- The bytes are one item, and no item is nested more than `levels` levels below it. -/
inductive IsItem : (levels : Nat) → Bytes → Prop where
  | plain {levels argument : Nat} {major : MajorType} {head : Bytes}
      (kind : major = .unsigned ∨ major = .negative ∨ major = .simple)
      (spells : Spells major argument head) : IsItem levels head
  | string {levels argument : Nat} {major : MajorType} {head content : Bytes}
      (kind : major = .bytes ∨ major = .text) (spells : Spells major argument head)
      (complete : content.length = argument) : IsItem levels (head ++ content)
  | array {levels argument : Nat} {head content : Bytes} (spells : Spells .array argument head)
      (items : AreNested levels argument content) : IsItem levels (head ++ content)
  | map {levels argument : Nat} {head content : Bytes} (spells : Spells .map argument head)
      (items : AreNested levels (2 * argument) content) : IsItem levels (head ++ content)
  | tag {levels argument : Nat} {head content : Bytes} (spells : Spells .tag argument head)
      (item : AreNested levels 1 content) : IsItem levels (head ++ content)

/-- The bytes are `count` items one level down, and no item is nested more than `levels` levels
down. -/
inductive AreNested : (levels count : Nat) → Bytes → Prop where
  | nil {levels : Nat} : AreNested levels 0 []
  | cons {levels count : Nat} {item items : Bytes} (first : IsItem levels item)
      (rest : AreNested (levels + 1) count items) :
      AreNested (levels + 1) (count + 1) (item ++ items)

end

/-- The bytes are a string of the kind with the content: a header in any size, and as many bytes as
it claims. The content of a text need not be one. -/
def IsString (major : MajorType) (content item : Bytes) : Prop :=
  ∃ head, Spells major content.length head ∧ item = head ++ content

/-! ## Headers -/

theorem widthFor_eq_some_iff {info width : Nat} :
    Header.widthFor info = some width ↔ (info, width) ∈ [(24, 1), (25, 2), (26, 4), (27, 8)] := by
  unfold Header.widthFor
  split <;> simp_all [eq_comm]

/-- A header that is read was spelled at the front of the bytes. -/
theorem exists_spells_of_parse {bytes : Bytes} {header : Header}
    (read : Header.parse bytes = .ok header) :
    ∃ head rest, bytes = head ++ rest ∧ head.length = header.size
      ∧ Spells header.major header.argument head := by
  cases bytes with
  | nil => cases read
  | cons initial rest =>
    have same := initialByte_ofInitial initial
    simp only [Header.parse] at read
    split at read
    next small =>
      cases read
      refine ⟨[initial], rest, rfl, rfl, ?_⟩
      have spelled : Spells (MajorType.ofInitial initial) (infoOf initial) _ := .inline _ small
      rwa [same] at spelled
    next =>
      split at read
      next => cases read
      next width announced =>
        split at read
        next => cases read
        next digits behind cut =>
          cases read
          rcases Bytes.cut?_eq_some_iff.1 cut with ⟨rfl, rfl⟩
          refine ⟨initial :: digits, behind, rfl, Nat.add_comm _ _, ?_⟩
          have spelled : Spells (MajorType.ofInitial initial) (Bytes.ofBigEndian digits) _ :=
            .wide (infoOf initial) digits (widthFor_eq_some_iff.1 announced)
          rwa [same] at spelled

/-- A header that is spelled at the front of the bytes is read. -/
theorem Spells.parse {major : MajorType} {argument : Nat} {head : Bytes}
    (spells : Spells major argument head) (rest : Bytes) :
    ∃ info, Header.parse (head ++ rest) = .ok ⟨major, info, argument, head.length⟩ := by
  cases spells with
  | inline argument small =>
    have low : argument < 32 := Nat.lt_trans small (by decide)
    refine ⟨argument, ?_⟩
    rw [List.singleton_append, Header.parse]
    simp only [ofInitial_initialByte major _ low, infoOf_initialByte major _ low, small, if_true]
    rfl
  | wide info digits announced =>
    have width := widthFor_eq_some_iff.2 announced
    have known : 24 ≤ info ∧ info < 32 := by
      simp only [List.mem_cons, Prod.mk.injEq, List.not_mem_nil, or_false] at announced
      omega
    have outside : ¬ info < 24 := Nat.not_lt.2 known.1
    have cut : Bytes.cut? digits.length (digits ++ rest) = some (digits, rest) :=
      Bytes.cut?_eq_some_iff.2 ⟨rfl, rfl⟩
    refine ⟨info, ?_⟩
    rw [List.cons_append, Header.parse]
    simp only [ofInitial_initialByte major _ known.2, infoOf_initialByte major _ known.2, outside,
      if_false, width, cut, List.length_cons, Nat.add_comm 1]

namespace Reader

/-! ## Passing over bytes -/

/-- The second reader is the first one behind the bytes. -/
structure Passes (bytes : Bytes) (r next : Reader) : Prop where
  rest : r.rest = bytes ++ next.rest
  pos : next.pos = r.pos + bytes.length

variable {r between next : Reader} {front back : Bytes}

theorem Passes.nil (r : Reader) : Passes [] r r := ⟨rfl, rfl⟩

theorem Passes.trans (first : Passes front r between) (second : Passes back between next) :
    Passes (front ++ back) r next where
  rest := by rw [first.rest, second.rest, List.append_assoc]
  pos := by rw [second.pos, first.pos, List.length_append, Nat.add_assoc]

theorem passes_append (pos : Nat) (front rest : Bytes) :
    Passes front ⟨pos, front ++ rest⟩ ⟨pos + front.length, rest⟩ := ⟨rfl, rfl⟩

/-- The bytes determine where they end. -/
theorem Passes.advance_eq (passes : Passes front r next) : r.advance front.length = next := by
  rw [advance, passes.rest, List.drop_left, ← passes.pos]

theorem Passes.split (passes : Passes (front ++ back) r next) :
    Passes front r (r.advance front.length) ∧ Passes back (r.advance front.length) next := by
  have rest : (r.advance front.length).rest = back ++ next.rest := by
    rw [advance, passes.rest, List.append_assoc, List.drop_left]
  refine ⟨⟨?_, rfl⟩, rest, ?_⟩
  · rw [passes.rest, rest, List.append_assoc]
  · rw [passes.pos, List.length_append, ← Nat.add_assoc]
    rfl

theorem exists_passes_of_peekHeader {header : Header} (read : r.peekHeader = .ok header) :
    ∃ head, Spells header.major header.argument head ∧ Passes head r (r.advance header.size) := by
  rcases exists_spells_of_parse read with ⟨head, rest, split, size, spells⟩
  refine ⟨head, spells, ?_⟩
  rw [← size]
  exact ⟨by rw [advance, split, List.drop_left], rfl⟩

theorem Passes.peekHeader {major : MajorType} {argument : Nat}
    (spells : Spells major argument front) (passes : Passes front r next) :
    ∃ info, r.peekHeader = .ok ⟨major, info, argument, front.length⟩ := by
  rw [Reader.peekHeader, passes.rest]
  exact spells.parse next.rest

/-! ## Skipping an item -/

variable {levels count : Nat}

theorem repeatedly_one (one : Reader → Except Fault Reader) (r : Reader) :
    repeatedly one 1 r = one r := by
  rw [repeatedly]
  cases one r <;> rfl

/-- The string is passed over if it is complete. -/
theorem passes_string {size : Nat} :
    (if Bytes.holds size r.rest then Except.ok (r.advance size) else .error Fault.malformed)
        = .ok next
      ↔ ∃ content, content.length = size ∧ Passes content r next := by
  constructor
  · intro passed
    split at passed
    next enough =>
      cases passed
      have fits := (Bytes.holds_iff _ _).1 enough
      exact ⟨r.rest.take size, List.length_take_of_le fits,
        (List.take_append_drop size r.rest).symm, by rw [List.length_take_of_le fits]; rfl⟩
    next => cases passed
  · rintro ⟨content, rfl, passes⟩
    have enough : Bytes.holds content.length r.rest = true := by
      rw [Bytes.holds_iff, passes.rest, List.length_append]
      exact Nat.le_add_right _ _
    rw [if_pos enough, passes.advance_eq]

/-- An item is a header and, as long as steps one level down pass over what is nested there, what
the header announces. -/
theorem skipLevels_succ_eq_ok_iff
    (below : ∀ {count : Nat} {r next : Reader}, repeatedly (skipLevels levels) count r = .ok next ↔
      ∃ items, AreNested levels count items ∧ Passes items r next) :
    skipLevels (levels + 1) r = .ok next ↔ ∃ item, IsItem levels item ∧ Passes item r next := by
  have single {r next : Reader} : skipLevels levels r = .ok next ↔
      ∃ items, AreNested levels 1 items ∧ Passes items r next := by
    rw [← below, repeatedly_one]
  constructor
  · intro skipped
    rcases exists_of_bind_ok skipped with ⟨header, parsed, skipped⟩
    rcases exists_passes_of_peekHeader parsed with ⟨head, spells, passes⟩
    simp only at skipped
    split at skipped
    case h_1 kind =>
      cases skipped
      exact ⟨head, .plain (.inl kind) spells, passes⟩
    case h_2 kind =>
      cases skipped
      exact ⟨head, .plain (.inr (.inl kind)) spells, passes⟩
    case h_3 kind =>
      cases skipped
      exact ⟨head, .plain (.inr (.inr kind)) spells, passes⟩
    case h_4 kind =>
      rcases passes_string.1 skipped with ⟨content, complete, passed⟩
      exact ⟨head ++ content, .string (.inl kind) spells complete, passes.trans passed⟩
    case h_5 kind =>
      rcases passes_string.1 skipped with ⟨content, complete, passed⟩
      exact ⟨head ++ content, .string (.inr kind) spells complete, passes.trans passed⟩
    case h_6 kind =>
      rcases below.1 skipped with ⟨items, nested, passed⟩
      exact ⟨head ++ items, .array (kind ▸ spells) nested, passes.trans passed⟩
    case h_7 kind =>
      rcases below.1 skipped with ⟨items, nested, passed⟩
      exact ⟨head ++ items, .map (kind ▸ spells) nested, passes.trans passed⟩
    case h_8 kind =>
      rcases single.1 skipped with ⟨items, nested, passed⟩
      exact ⟨head ++ items, .tag (kind ▸ spells) nested, passes.trans passed⟩
  · rintro ⟨item, isItem, passes⟩
    cases isItem with
    | plain kind spells =>
      rcases passes.peekHeader spells with ⟨info, parsed⟩
      rw [skipLevels, parsed, ← passes.advance_eq]
      rcases kind with rfl | rfl | rfl <;> rfl
    | string kind spells complete =>
      rcases passes.split with ⟨first, passed⟩
      rcases first.peekHeader spells with ⟨info, parsed⟩
      have skipped := passes_string.2 ⟨_, complete, passed⟩
      rw [skipLevels, parsed]
      rcases kind with rfl | rfl <;> exact skipped
    | array spells nested =>
      rcases passes.split with ⟨first, passed⟩
      rcases first.peekHeader spells with ⟨info, parsed⟩
      rw [skipLevels, parsed]
      exact below.2 ⟨_, nested, passed⟩
    | map spells nested =>
      rcases passes.split with ⟨first, passed⟩
      rcases first.peekHeader spells with ⟨info, parsed⟩
      rw [skipLevels, parsed]
      exact below.2 ⟨_, nested, passed⟩
    | tag spells nested =>
      rcases passes.split with ⟨first, passed⟩
      rcases first.peekHeader spells with ⟨info, parsed⟩
      rw [skipLevels, parsed]
      exact single.2 ⟨_, nested, passed⟩

/-- Steps one level down pass over as many items as there are steps. -/
theorem repeatedly_skipLevels_eq_ok_iff :
    repeatedly (skipLevels levels) count r = .ok next ↔
      ∃ items, AreNested levels count items ∧ Passes items r next := by
  -- On the levels, and for each on the number of items: an item is one level less deep.
  induction levels generalizing count r next with
  | zero =>
    cases count with
    | zero =>
      constructor
      · rintro ⟨⟩
        exact ⟨[], .nil, .nil _⟩
      · rintro ⟨items, ⟨⟩, passes⟩
        exact congrArg Except.ok passes.advance_eq
    | succ count =>
      constructor
      · rintro ⟨⟩
      · rintro ⟨items, ⟨⟩, -⟩
  | succ levels below =>
    induction count generalizing r with
    | zero =>
      constructor
      · rintro ⟨⟩
        exact ⟨[], .nil, .nil _⟩
      · rintro ⟨items, ⟨⟩, passes⟩
        exact congrArg Except.ok passes.advance_eq
    | succ count ih =>
      rw [repeatedly]
      constructor
      · intro passed
        split at passed
        next between skipped =>
          rcases (skipLevels_succ_eq_ok_iff below).1 skipped with ⟨item, isItem, first⟩
          rcases ih.1 passed with ⟨items, nested, second⟩
          exact ⟨item ++ items, .cons isItem nested, first.trans second⟩
        next => cases passed
      · rintro ⟨items, nested, passes⟩
        cases nested with
        | cons isItem nested =>
          rcases passes.split with ⟨first, second⟩
          have skipped := (skipLevels_succ_eq_ok_iff below).2 ⟨_, isItem, first⟩
          have passed := ih.2 ⟨_, nested, second⟩
          simp only [skipped, passed]

/-- A skip passes over exactly one item. -/
theorem skipLevels_eq_ok_iff :
    skipLevels (levels + 1) r = .ok next ↔ ∃ item, IsItem levels item ∧ Passes item r next :=
  skipLevels_succ_eq_ok_iff repeatedly_skipLevels_eq_ok_iff

theorem skipItem_eq_ok_iff :
    r.skipItem = .ok next ↔ ∃ item, IsItem maxNesting item ∧ Passes item r next :=
  skipLevels_eq_ok_iff

/-- An item is skipped whatever bytes follow it. -/
theorem skipItem_of_isItem {item : Bytes} (isItem : IsItem maxNesting item) (pos : Nat)
    (rest : Bytes) :
    (⟨pos, item ++ rest⟩ : Reader).skipItem = .ok ⟨pos + item.length, rest⟩ :=
  skipItem_eq_ok_iff.2 ⟨item, isItem, passes_append pos item rest⟩

/-- What is skipped is skipped with more bytes behind it. -/
theorem skipItem_append (skipped : r.skipItem = .ok next) (more : Bytes) :
    (⟨r.pos, r.rest ++ more⟩ : Reader).skipItem = .ok ⟨next.pos, next.rest ++ more⟩ := by
  rcases skipItem_eq_ok_iff.1 skipped with ⟨item, isItem, passes⟩
  refine skipItem_eq_ok_iff.2 ⟨item, isItem, ?_, passes.pos⟩
  rw [passes.rest, List.append_assoc]

/-! ## Reading headers and strings -/

theorem readMapHeader_eq_ok_iff : r.readMapHeader = .ok (count, next) ↔
    ∃ head, Spells .map count head ∧ Passes head r next := by
  constructor
  · intro read
    rcases exists_of_readMapHeader read with ⟨header, parsed, kind, rfl, rfl⟩
    rcases exists_passes_of_peekHeader parsed with ⟨head, spells, passes⟩
    exact ⟨head, kind ▸ spells, passes⟩
  · rintro ⟨head, spells, passes⟩
    rcases passes.peekHeader spells with ⟨info, parsed⟩
    rw [readMapHeader, peekHeaderOf, parsed]
    simp only [bind, Except.bind, if_true, pure, Except.pure, passes.advance_eq]

theorem payload_eq_ok_iff {major : MajorType} {content : Bytes} :
    r.payload major = .ok (content, next) ↔
      ∃ item, IsString major content item ∧ Passes item r next := by
  constructor
  · intro read
    rcases payload_eq_ok read with ⟨header, rest, parsed, kind, length, split, rfl⟩
    rcases exists_passes_of_peekHeader parsed with ⟨head, spells, passes⟩
    rw [kind, ← length] at spells
    have behind : Passes content (r.advance header.size)
        ((r.advance header.size).advance header.argument) := by
      refine ⟨?_, length ▸ rfl⟩
      rw [split, ← length, advance, split, List.drop_left]
    exact ⟨head ++ content, ⟨head, spells, rfl⟩, passes.trans behind⟩
  · rintro ⟨item, ⟨head, spells, rfl⟩, passes⟩
    rcases passes.split with ⟨first, behind⟩
    rcases first.peekHeader spells with ⟨info, parsed⟩
    have cut : Bytes.cut? content.length (r.advance head.length).rest
        = some (content, next.rest) := Bytes.cut?_eq_some_iff.2 ⟨behind.rest, rfl⟩
    rw [payload, peekHeaderOf, parsed]
    simp only [bind, Except.bind, if_true, pure, Except.pure, cut, behind.advance_eq]

theorem text_eq_ok_iff {s : String} : r.text = .ok (s, next) ↔
    ∃ item, IsString .text (utf8 s) item ∧ Passes item r next := by
  rw [← payload_eq_ok_iff]
  constructor
  · exact text_eq_ok
  · intro complete
    rw [text, complete]
    simp only [bind, Except.bind, ofUtf8?_utf8]
    rfl

/-! ## The item at a position -/

/-- The `n` bytes at the position are one item with at most `maxNesting` levels below it. -/
def AtItem (r : Reader) (n : Nat) : Prop := n ≤ r.remaining ∧ IsItem maxNesting (r.rest.take n)

theorem AtItem.skipItem {n : Nat} (item : r.AtItem n) (rest : Bytes) :
    (⟨r.pos, r.rest.take n ++ rest⟩ : Reader).skipItem = .ok ⟨r.pos + n, rest⟩ := by
  have skipped := skipItem_of_isItem item.2 r.pos rest
  rwa [List.length_take_of_le item.1] at skipped

theorem skipItem_eq_ok_iff_atItem :
    r.skipItem = .ok next ↔ ∃ n, r.AtItem n ∧ next = r.advance n := by
  constructor
  · intro skipped
    rcases skipItem_eq_ok_iff.1 skipped with ⟨item, isItem, passes⟩
    refine ⟨item.length, ⟨?_, ?_⟩, passes.advance_eq.symm⟩
    · rw [remaining, passes.rest, List.length_append]
      exact Nat.le_add_right _ _
    · rw [passes.rest, List.take_left]
      exact isItem
  · rintro ⟨n, item, rfl⟩
    have skipped := item.skipItem (r.rest.drop n)
    rwa [List.take_append_drop] at skipped

/-- There is no more than one item at a position. -/
theorem AtItem.unique {n m : Nat} (left : r.AtItem n) (right : r.AtItem m) : n = m := by
  have first := skipItem_eq_ok_iff_atItem.2 ⟨n, left, rfl⟩
  have second := skipItem_eq_ok_iff_atItem.2 ⟨m, right, rfl⟩
  have same : r.pos + n = r.pos + m :=
    congrArg Reader.pos (Except.ok.inj (first.symm.trans second))
  exact Nat.add_left_cancel same

end Reader

namespace Reading

/-! ## The call that skips -/

variable {reading : Reading}

theorem step_skipItem_of_ok {next : Reader} (skipped : reading.current.skipItem = .ok next) :
    reading.step .skipItem = (⟨.ok .done, none⟩, { reading with current := next }) := by
  rw [step, skipped]
  rfl

theorem step_skipItem_of_error {fault : Fault} (refused : reading.current.skipItem = .error fault) :
    reading.step .skipItem = (⟨.error fault, none⟩, reading) := by
  rw [step, refused]
  rfl

/-- Skipping accepts exactly the items of the grammar: it moves the position behind the one item
that is there, in which the bytes behind the item have no say, and if there is none it fails and
leaves the position where it was. -/
theorem step_skipItem_iff (reading : Reading) :
    (∀ n, reading.step .skipItem
          = (⟨.ok .done, none⟩, { reading with current := reading.current.advance n })
        ↔ reading.current.AtItem n)
      ∧ ((¬ ∃ n, reading.current.AtItem n) →
          ∃ fault, reading.step .skipItem = (⟨.error fault, none⟩, reading))
      ∧ (∀ n m, reading.current.AtItem n → reading.current.AtItem m → n = m)
      ∧ ∀ n, reading.current.AtItem n → ∀ rest,
          (⟨reading.current.pos, reading.current.rest.take n ++ rest⟩ : Reader).skipItem
            = .ok ⟨reading.current.pos + n, rest⟩ := by
  refine ⟨?_, ?_, fun n m => Reader.AtItem.unique, fun n => Reader.AtItem.skipItem⟩
  · intro n
    constructor
    · intro done
      cases skipped : reading.current.skipItem with
      | error fault =>
        rw [step_skipItem_of_error skipped] at done
        cases done
      | ok next =>
        rcases Reader.skipItem_eq_ok_iff_atItem.1 skipped with ⟨m, item, rfl⟩
        rw [step_skipItem_of_ok skipped] at done
        have same : reading.current.pos + m = reading.current.pos + n :=
          congrArg (fun outcome => outcome.2.current.pos) done
        exact Nat.add_left_cancel same ▸ item
    · intro item
      exact step_skipItem_of_ok (Reader.skipItem_eq_ok_iff_atItem.2 ⟨n, item, rfl⟩)
  · intro none
    cases skipped : reading.current.skipItem with
    | error fault => exact ⟨fault, step_skipItem_of_error skipped⟩
    | ok next =>
      rcases Reader.skipItem_eq_ok_iff_atItem.1 skipped with ⟨n, item, -⟩
      exact absurd ⟨n, item⟩ none

/-- An array of an integer and a text ends in front of the byte behind it. -/
theorem step_skipItem_iff_array :
    let reading : Reading := .ofBytes [0x82, 0x01, 0x61, 0x78, 0xff]
    reading.current.AtItem 4 ∧ ∀ n, reading.current.AtItem n → n = 4 := by
  intro reading
  rcases step_skipItem_iff reading with ⟨accepts, -, unique, -⟩
  have item : reading.current.AtItem 4 := (accepts 4).1 rfl
  exact ⟨item, fun n other => unique n 4 other item⟩

end Reading

end PropertyRecord
