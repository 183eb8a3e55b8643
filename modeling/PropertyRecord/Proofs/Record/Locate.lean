import PropertyRecord.Proofs.Record.Memory
import PropertyRecord.Proofs.Wire.Shortest

/-!
# What a lookup finds

A lookup goes from pair to pair by reads that may fail and by skips in their place, and gives up in
several ways. What it finds can be said of the bytes of the record alone: the header of a map, as
many pairs as are gone past, each a text and one item, and then the key. The bytes in front of the
value are the only ones of the record that lead there, and those behind them have no say in it.

Main statements: `locateIn_eq_some_iff` and `Record.has_iff_leadsTo`.
-/

namespace PropertyRecord

/-! ## Bytes that lead to a value -/

/-- The content of a key that a lookup goes past: too long to be looked for, or another text. -/
def OtherKey (key : String) (content : Bytes) : Prop :=
  maxNameSize < content.length ∨ ∃ other, other ≠ key ∧ content = utf8 other

/-- The bytes are a pair that a lookup goes past: such a key, and behind it any one item. -/
def IsOtherPair (key : String) (pair : Bytes) : Prop :=
  ∃ content name value, OtherKey key content ∧ IsString .text content name
    ∧ IsItem maxNesting value ∧ pair = name ++ value

/-- The bytes are those behind the header of a map up to the value of a key: pairs that a lookup
goes past, fewer than `count`, and then the key, which is not too long to be looked for. -/
def LeadsPast (key : String) (count : Nat) (front : Bytes) : Prop :=
  (utf8 key).length ≤ maxNameSize
    ∧ ∃ (pairs : List Bytes) (name : Bytes), pairs.length < count
      ∧ (∀ pair ∈ pairs, IsOtherPair key pair) ∧ IsString .text (utf8 key) name
      ∧ front = pairs.flatten ++ name

/-- The bytes are the front of a record up to the value of a key. -/
def LeadsTo (key : String) (front : Bytes) : Prop :=
  ∃ count header back, Spells .map count header ∧ LeadsPast key count back
    ∧ front = header ++ back

variable {key : String} {count : Nat} {front back : Bytes}

theorem LeadsPast.not_zero : ¬ LeadsPast key 0 front := by
  rintro ⟨-, pairs, name, fewer, -⟩
  exact Nat.not_lt_zero _ fewer

/-- Either the key is at the front, or another pair is and the rest leads to the key. -/
theorem leadsPast_succ_iff : LeadsPast key (count + 1) front ↔
    ((utf8 key).length ≤ maxNameSize ∧ IsString .text (utf8 key) front)
      ∨ ∃ pair back, IsOtherPair key pair ∧ LeadsPast key count back ∧ front = pair ++ back := by
  constructor
  · rintro ⟨short, pairs, name, fewer, others, named, rfl⟩
    cases pairs with
    | nil => exact .inl ⟨short, named⟩
    | cons pair pairs =>
      have later : LeadsPast key count (pairs.flatten ++ name) :=
        ⟨short, pairs, name, Nat.lt_of_succ_lt_succ fewer,
          fun other member => others other (.tail _ member), named, rfl⟩
      refine .inr ⟨pair, _, others pair (.head _), later, ?_⟩
      rw [List.flatten_cons, List.append_assoc]
  · rintro (⟨short, named⟩ | ⟨pair, back, other, later, rfl⟩)
    · exact ⟨short, [], front, Nat.succ_pos _, fun pair member => by contradiction, named, rfl⟩
    · rcases later with ⟨short, pairs, name, fewer, others, named, rfl⟩
      refine ⟨short, pair :: pairs, name, Nat.succ_lt_succ fewer, ?_, named, ?_⟩
      · exact List.forall_mem_cons.2 ⟨other, others⟩
      · rw [List.flatten_cons, List.append_assoc]

/-! ## The walk -/

namespace Reader

variable {r next atValue : Reader}

/-- A key that a lookup goes past: another text, or one that is too long to be looked for, whether
or not its bytes are a text. -/
inductive PassedBy (key : String) (r : Reader) : Prop where
  | other {found : String} {atValue : Reader} (named : r.text = .ok (found, atValue))
      (apart : found ≠ key)
  | long {content : Bytes} {atValue : Reader} (complete : r.payload .text = .ok (content, atValue))
      (long : maxNameSize < content.length)

/-- The lookup goes on behind such a key and its value. -/
theorem locate_of_passedBy (passed : r.PassedBy key) (skipped : r.skipItem = .ok atValue)
    (behind : atValue.skipItem = .ok next) : r.locate key (count + 1) = next.locate key count := by
  rw [locate]
  cases passed with
  | @other found after named apart =>
    obtain rfl := eq_of_text_of_skipItem named skipped
    rw [readText_eq_filling named]
    by_cases fits : (utf8 found).length ≤ (List.replicate maxNameSize (0 : UInt8)).length
    · rw [filling_of_le fits]
      simp only [apart, if_false, behind]
    · simp only [filling, fits, if_false, skipped, behind]
  | @long content after complete long =>
    have large : ¬ Bytes.holds content.length (List.replicate maxNameSize (0 : UInt8)) = true := by
      rw [Bytes.holds_iff, List.length_replicate]
      exact Nat.not_le_of_lt long
    rw [readText, complete]
    simp only [large, skipped, behind]
    rfl

/-- The lookup ends behind the key. -/
theorem locate_of_text (named : r.text = .ok (key, atValue))
    (short : (utf8 key).length ≤ maxNameSize) : r.locate key (count + 1) = some atValue := by
  have fits : (utf8 key).length ≤ (List.replicate maxNameSize (0 : UInt8)).length := by
    rw [List.length_replicate]
    exact short
  rw [locate, readText_eq_filling named, filling_of_le fits]
  exact if_pos rfl

/-- One pair of the walk. -/
theorem locate_succ_eq_some_iff : r.locate key (count + 1) = some atValue ↔
    ((utf8 key).length ≤ maxNameSize ∧ r.text = .ok (key, atValue))
      ∨ ∃ behind next, r.PassedBy key ∧ r.skipItem = .ok behind ∧ behind.skipItem = .ok next
          ∧ next.locate key count = some atValue := by
  constructor
  · intro located
    rw [locate] at located
    split at located
    next found behind read =>
      rcases text_of_readText read with ⟨named, fits⟩
      rw [List.length_replicate] at fits
      split at located
      next same =>
        cases located
        subst same
        exact .inl ⟨fits, named⟩
      next apart =>
        split at located
        next next passed =>
          exact .inr ⟨behind, next, .other named apart, skipItem_of_text named, passed, located⟩
        next => cases located
    next refused =>
      -- The read gives no position here, so the key is skipped in its place.
      rcases payload_of_readText_exhausted refused with ⟨content, after, complete, large⟩
      rw [List.length_replicate] at large
      split at located
      next behind skipped =>
        split at located
        next next passed =>
          exact .inr ⟨behind, next, .long complete large, skipped, passed, located⟩
        next => cases located
      next => cases located
    next => cases located
  · rintro (⟨short, named⟩ | ⟨behind, next, passed, skipped, after, located⟩)
    · exact locate_of_text named short
    · rw [locate_of_passedBy passed skipped after, located]

/-- The bytes of such a key. -/
theorem passedBy_iff (skipped : r.skipItem = .ok atValue) : r.PassedBy key ↔
    ∃ content name, OtherKey key content ∧ IsString .text content name ∧ Passes name r atValue := by
  constructor
  · intro passed
    cases passed with
    | other named apart =>
      obtain rfl := eq_of_text_of_skipItem named skipped
      rcases text_eq_ok_iff.1 named with ⟨name, item, passes⟩
      exact ⟨_, name, .inr ⟨_, apart, rfl⟩, item, passes⟩
    | long complete long =>
      cases skipped.symm.trans (skipItem_of_payload (.inl rfl) complete)
      rcases payload_eq_ok_iff.1 complete with ⟨name, item, passes⟩
      exact ⟨_, name, .inl long, item, passes⟩
  · rintro ⟨content, name, long | ⟨other, apart, rfl⟩, item, passes⟩
    · exact .long (payload_eq_ok_iff.2 ⟨name, item, passes⟩) long
    · exact .other (text_eq_ok_iff.2 ⟨name, item, passes⟩) apart

/-- The bytes of a pair that the lookup goes past. -/
theorem exists_isOtherPair_iff : (∃ pair, IsOtherPair key pair ∧ Passes pair r next) ↔
    r.PassedBy key ∧ ∃ atValue, r.skipItem = .ok atValue ∧ atValue.skipItem = .ok next := by
  constructor
  · rintro ⟨pair, ⟨content, name, value, other, item, isItem, rfl⟩, passes⟩
    rcases passes.split with ⟨first, second⟩
    have complete := payload_eq_ok_iff.2 ⟨name, item, first⟩
    have skipped := skipItem_of_payload (.inl rfl) complete
    exact ⟨(passedBy_iff skipped).2 ⟨content, name, other, item, first⟩, _, skipped,
      skipItem_eq_ok_iff.2 ⟨value, isItem, second⟩⟩
  · rintro ⟨passed, atValue, skipped, behind⟩
    rcases (passedBy_iff skipped).1 passed with ⟨content, name, other, item, first⟩
    rcases skipItem_eq_ok_iff.1 behind with ⟨value, isItem, second⟩
    exact ⟨name ++ value, ⟨content, name, value, other, item, isItem, rfl⟩, first.trans second⟩

/-- A lookup among `count` pairs ends behind the bytes that lead to the key. -/
theorem locate_eq_some_iff : r.locate key count = some atValue ↔
    ∃ front, LeadsPast key count front ∧ Passes front r atValue := by
  -- On the announced count: one pair of the walk is one pair of the bytes.
  induction count generalizing r with
  | zero =>
    constructor
    · rintro ⟨⟩
    · rintro ⟨front, leads, -⟩
      exact absurd leads LeadsPast.not_zero
  | succ count ih =>
    rw [locate_succ_eq_some_iff]
    constructor
    · rintro (⟨short, named⟩ | ⟨behind, next, passed, skipped, after, located⟩)
      · rcases text_eq_ok_iff.1 named with ⟨name, item, passes⟩
        exact ⟨name, leadsPast_succ_iff.2 (.inl ⟨short, item⟩), passes⟩
      · rcases exists_isOtherPair_iff.2 ⟨passed, behind, skipped, after⟩ with
          ⟨pair, other, first⟩
        rcases ih.1 located with ⟨back, leads, second⟩
        exact ⟨pair ++ back, leadsPast_succ_iff.2 (.inr ⟨pair, back, other, leads, rfl⟩),
          first.trans second⟩
    · rintro ⟨front, leads, passes⟩
      rcases leadsPast_succ_iff.1 leads with ⟨short, item⟩ | ⟨pair, back, other, later, rfl⟩
      · exact .inl ⟨short, text_eq_ok_iff.2 ⟨front, item, passes⟩⟩
      · rcases passes.split with ⟨first, second⟩
        rcases exists_isOtherPair_iff.1 ⟨pair, other, first⟩ with ⟨passed, behind, skipped, after⟩
        exact .inr ⟨behind, _, passed, skipped, after, ih.2 ⟨back, later, second⟩⟩

end Reader

/-- A lookup ends behind the front of the record that leads to the key. -/
theorem locateIn_eq_some_iff {record : Bytes} {atValue : Reader} :
    locateIn record key = some atValue ↔
      ∃ front, LeadsTo key front ∧ Reader.Passes front (.ofBytes record) atValue := by
  constructor
  · intro located
    rw [locateIn] at located
    split at located
    next count next header =>
      rcases Reader.readMapHeader_eq_ok_iff.1 header with ⟨head, spells, first⟩
      rcases Reader.locate_eq_some_iff.1 located with ⟨back, leads, second⟩
      exact ⟨head ++ back, ⟨count, head, back, spells, leads, rfl⟩, first.trans second⟩
    next => cases located
  · rintro ⟨front, ⟨count, head, back, spells, leads, rfl⟩, passes⟩
    rcases passes.split with ⟨first, second⟩
    rw [locateIn, Reader.readMapHeader_eq_ok_iff.2 ⟨head, spells, first⟩]
    exact Reader.locate_eq_some_iff.2 ⟨back, leads, second⟩

theorem LeadsTo.locateIn (leads : LeadsTo key front) (rest : Bytes) :
    locateIn (front ++ rest) key = some ⟨front.length, rest⟩ := by
  have passes := Reader.passes_append 0 front rest
  rw [Nat.zero_add] at passes
  exact locateIn_eq_some_iff.2 ⟨front, leads, passes⟩

theorem isSome_locateIn_iff {record : Bytes} : (locateIn record key).isSome = true ↔
    ∃ front, front <+: record ∧ LeadsTo key front := by
  rw [Option.isSome_iff_exists]
  constructor
  · rintro ⟨atValue, located⟩
    rcases locateIn_eq_some_iff.1 located with ⟨front, leads, passes⟩
    exact ⟨front, ⟨atValue.rest, passes.rest.symm⟩, leads⟩
  · rintro ⟨front, ⟨rest, rfl⟩, leads⟩
    exact ⟨_, leads.locateIn rest⟩

/-- No other front of the record leads to the key. -/
theorem LeadsTo.unique {record other : Bytes} (leads : LeadsTo key front)
    (also : LeadsTo key other) (first : front <+: record) (second : other <+: record) :
    front = other := by
  rcases first with ⟨rest, rfl⟩
  rcases second with ⟨more, same⟩
  have located := leads.locateIn rest
  rw [← same, also.locateIn more, Option.some.injEq, Reader.mk.injEq] at located
  exact (List.append_inj same located.1).1.symm

namespace Record

/-- Every lookup of a key reads at the position, and leaves the store alone. -/
structure ReadsAt {σ : Type} [RecordStore σ] (name : RecordName) (store : σ) (key : String)
    (r : Reader) : Prop where
  has : has name store key = (true, store)
  bool (default : Bool) :
    getBool name store key default = ((r.readBool.toOption.map Prod.fst).getD default, store)
  int32 (default : Int32) :
    getInt32 name store key default
      = (((r.readInt.toOption.map Prod.fst).bind narrowInt).getD default, store)
  int64 (default : Int64) :
    getInt64 name store key default = ((r.readInt.toOption.map Prod.fst).getD default, store)
  uint32 (default : UInt32) :
    getUInt32 name store key default
      = (((r.readUInt.toOption.map Prod.fst).bind narrowUInt).getD default, store)
  uint64 (default : UInt64) :
    getUInt64 name store key default = ((r.readUInt.toOption.map Prod.fst).getD default, store)
  double (default : Double) :
    getDouble name store key default = ((r.readDouble.toOption.map Prod.fst).getD default, store)
  text (out : Bytes) :
    getText name store key out
      = (⟨(r.readText out).result.map Prod.fst, (r.readText out).out⟩, store)
  bytes (out : Bytes) :
    getBytes name store key out
      = (⟨(r.readBytes out).result.map Prod.fst, (r.readBytes out).out⟩, store)

variable {recordLimit dataLimit : Nat} {name : RecordName}
  {store : MemoryStore recordLimit dataLimit} {record : Bytes} {r : Reader}

theorem readsAt_of_locate (located : locate name store key = (some r, store)) :
    ReadsAt name store key r := by
  have lookup {α : Type} (read : Reader → Except Fault (α × Reader)) :
      lookup? name store key read = ((read r).toOption.map Prod.fst, store) := by
    rw [lookup?, located]
    rfl
  constructor
  case has => rw [has, located]; rfl
  case bool => intro default; rw [getBool, lookup]
  case int32 => intro default; rw [getInt32, lookup]
  case int64 => intro default; rw [getInt64, lookup]
  case uint32 => intro default; rw [getUInt32, lookup]
  case uint64 => intro default; rw [getUInt64, lookup]
  case double => intro default; rw [getDouble, lookup]
  case text => intro out; rw [getText, readInto, located]
  case bytes => intro out; rw [getBytes, readInto, located]

/-- A record that is longer than the window has no key for a lookup. -/
theorem locate_of_large (stored : store.get? name.text = some record)
    (large : lookupWindow < record.length) : locate name store key = (none, store) := by
  have refused : (List.replicate lookupWindow (0 : UInt8)).length < record.length := by
    rw [List.length_replicate]
    exact large
  rw [locate, read_of_lt stored refused]

theorem has_iff_of_get? (key : String) (stored : store.get? name.text = some record) :
    (has name store key).1 = true ↔
      record.length ≤ lookupWindow ∧ ∃ front, front <+: record ∧ LeadsTo key front := by
  rw [has]
  by_cases small : record.length ≤ lookupWindow
  · rw [locate_of_get? stored small, ← isSome_locateIn_iff]
    exact (and_iff_right small).symm
  · rw [locate_of_large stored (Nat.lt_of_not_le small)]
    exact iff_of_false Bool.false_ne_true fun found => small found.1

theorem readsAt_of_leadsTo {front rest : Bytes} (leads : LeadsTo key front)
    (stored : store.get? name.text = some (front ++ rest))
    (small : (front ++ rest).length ≤ lookupWindow) :
    ReadsAt name store key ⟨front.length, rest⟩ := by
  refine readsAt_of_locate ?_
  rw [locate_of_get? stored small, leads.locateIn rest]

/-- What a lookup finds, said of the bytes of the record. It finds the key if the record is at most
as long as the window and has a front that leads to the key. It then reads behind that front, and
would do so whatever bytes stood there. No other front of the record leads to the key, so only the
first pair with it counts, and a key that is too long is never found. -/
theorem has_iff_leadsTo (store : MemoryStore recordLimit dataLimit) (name : RecordName)
    (record : Bytes) (key : String) (stored : store.get? name.text = some record) :
    ((has name store key).1 = true ↔
        record.length ≤ lookupWindow ∧ ∃ front, front <+: record ∧ LeadsTo key front)
      ∧ (∀ front rest, record = front ++ rest → LeadsTo key front →
          (record.length ≤ lookupWindow → ReadsAt name store key ⟨front.length, rest⟩)
            ∧ ∀ more (changed : MemoryStore recordLimit dataLimit),
                changed.get? name.text = some (front ++ more) →
                (front ++ more).length ≤ lookupWindow →
                ReadsAt name changed key ⟨front.length, more⟩)
      ∧ (∀ front other, front <+: record → other <+: record → LeadsTo key front →
          LeadsTo key other → front = other)
      ∧ (maxNameSize < (utf8 key).length → (has name store key).1 = false) := by
  have found := has_iff_of_get? key stored
  refine ⟨found, ?_, ?_, ?_⟩
  · rintro front rest rfl leads
    exact ⟨readsAt_of_leadsTo leads stored, fun more changed held => readsAt_of_leadsTo leads held⟩
  · intro front other first second leads also
    exact leads.unique also first second
  · intro long
    refine Bool.eq_false_iff.2 fun contained => ?_
    rcases (found.1 contained).2 with ⟨front, -, count, header, back, -, ⟨short, -⟩, -⟩
    exact Nat.not_lt_of_le short long

/-- The number is found behind a key that is too long and no text, and in front of a key that is
cut off. -/
theorem has_iff_leadsTo_behind_long_key :
    let long : Bytes := List.replicate 33 0xff
    let front : Bytes := [0xa3] ++ (([0x78, 33] ++ long) ++ [0x80] ++ [0x78, 0x01, 0x6b])
    let name : RecordName := ⟨"r", by decide, by decide⟩
    let store : MemoryStore 1 64 := MemoryStore.empty.put ⟨"r", front ++ [0x05, 0x61]⟩
    (has name store "k").1 = true ∧ getUInt64 name store "k" 0 = (5, store) := by
  intro long front name store
  have header : Spells .map 3 [0xa3] := .inline 3 (by decide)
  have passed : IsString .text long ([0x78, 33] ++ long) :=
    ⟨[0x78, 33], .wide 24 [33] (by decide), rfl⟩
  have array : IsItem maxNesting [0x80] := .array (.inline 0 (by decide)) .nil
  have named : IsString .text (utf8 "k") [0x78, 0x01, 0x6b] :=
    ⟨[0x78, 0x01], .wide 24 [1] (by decide), by decide +kernel⟩
  have leads : LeadsTo "k" front := by
    refine ⟨3, [0xa3], _, header, ⟨by decide, [([0x78, 33] ++ long) ++ [0x80]], _, by decide, ?_,
      named, ?_⟩, rfl⟩
    · exact List.forall_mem_singleton.2 ⟨long, _, [0x80], .inl (by decide), passed, array, rfl⟩
    · rfl
  have stored : store.get? name.text = some (front ++ [0x05, 0x61]) := by decide +kernel
  rcases has_iff_leadsTo store name _ "k" stored with ⟨found, reads, -, -⟩
  have small : (front ++ [0x05, 0x61]).length ≤ lookupWindow := by decide
  refine ⟨found.2 ⟨small, front, List.prefix_append _ _, leads⟩, ?_⟩
  exact ((reads front [0x05, 0x61] rfl leads).1 small).uint64 0

end Record

end PropertyRecord
