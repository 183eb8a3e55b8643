import PropertyRecord.Editor.Layout
import PropertyRecord.Proofs.Editor.PlacedTable
import PropertyRecord.Proofs.Editor.Ranges

/-!
# The places of a layout

A span is named by its distance from the end of the buffer and a place by the offset of its first
byte, so a span has one place in a buffer of a known length. A table over the buffer is the slots of
an editor if its entries and bits show them with their places, and then it does what they do.

Main statements: `Arena.Allotted.rangeFrom?` and `Arena.Allotted.slice?` say that a span that was
handed out has its bytes at its place, `PlacedTable.Shows.claim?` and the other lemmas on `Shows`
what the operations of a table are on slots, and `Watermarks.check_eq` how many bytes may be handed
out.
-/

namespace PropertyRecord

/-- The place of a span in a buffer of `capacity` bytes. -/
def Span.place (capacity : Nat) (span : Span) : Place := ⟨capacity - span.depth, span.size⟩

/-- A stored value with its place in a buffer of `capacity` bytes. -/
def Stored.placed (capacity : Nat) : Stored → PlacedValue
  | .null => .null
  | .bool b => .bool b
  | .int i => .int i
  | .uint u => .uint u
  | .double d => .double d
  | .text span => .text (span.place capacity)
  | .bytes span => .bytes (span.place capacity)

/-- An entry with its places in a buffer of `capacity` bytes. -/
def Entry.placed (capacity : Nat) (entry : Entry) : PlacedEntry :=
  ⟨entry.key.place capacity, entry.value.placed capacity⟩

/-- Slots with their places in a buffer of `capacity` bytes. -/
def Slots.placed (capacity : Nat) (slots : Slots) : Slotted PlacedEntry :=
  slots.map (Option.map (Entry.placed capacity))

namespace Arena

variable {a : Arena} {span : Span} {base : Nat}

theorem buffer_extend (a : Arena) (size : Nat) : (a.extend size).buffer = a.buffer := by
  have front : a.front = (a.below.drop size).reverse ++ (a.below.take size).reverse := by
    rw [Arena.front, ← List.reverse_append, List.take_append_drop]
  rw [buffer, buffer, front, List.append_assoc]
  rfl

theorem length_front_eq_boundary (a : Arena) : a.front.length = a.boundary := by
  rw [length_front, boundary, capacity, used, Nat.add_sub_cancel]

/-- Filling the bytes handed out last overwrites as many bytes of the buffer from their place on. -/
theorem buffer_fill (a : Arena) (bytes : Bytes) :
    (a.fill bytes).buffer = a.buffer.splice a.boundary bytes := by
  have split : a.buffer = a.front ++ a.back := rfl
  rw [Bytes.splice, ← length_front_eq_boundary, split, List.take_left, List.drop_left]
  rfl

theorem Allotted.rangeFrom? (allotted : a.Allotted span) (low : base ≤ a.boundary)
    (machine : a.capacity < unsignedBound) :
    (span.place a.capacity).rangeFrom? base
      = some (a.offset span - base, a.offset span - base + span.size) := by
  have after := Nat.le_trans low allotted.boundary_le_offset
  have ends := allotted.offset_add_size_le
  have start : Word.sub? (span.place a.capacity).start base = some (a.offset span - base) :=
    Word.sub?_of_le after
  have word : a.offset span - base + span.size < unsignedBound := by omega
  have stop : Word.add? (a.offset span - base) (span.place a.capacity).size
      = some (a.offset span - base + span.size) := Word.add?_of_lt word
  rw [Place.rangeFrom?, start]
  simp only [bind, Option.bind, stop]
  rfl

/-- A span that was handed out is found in the part of the buffer from any base on that is not
behind the boundary. -/
theorem Allotted.slice? (allotted : a.Allotted span) (low : base ≤ a.boundary) :
    Bytes.slice? (a.offset span - base) (a.offset span - base + span.size) (a.buffer.drop base)
      = some (a.bytesAt span) := by
  have after := Nat.le_trans low allotted.boundary_le_offset
  have ends := allotted.offset_add_size_le
  have inside : a.offset span - base + span.size ≤ (a.buffer.drop base).length := by
    rw [List.length_drop, length_buffer]
    omega
  rw [Bytes.slice?_of_le (Nat.le_add_right _ _) inside, List.drop_take, Nat.add_sub_cancel_left,
    List.drop_drop, Nat.add_sub_cancel' after, allotted.take_drop_offset]

theorem Allotted.bytesIn? (allotted : a.Allotted span) (low : base ≤ a.boundary)
    (machine : a.capacity < unsignedBound) :
    (span.place a.capacity).bytesIn? (a.buffer.drop base) base = some (some (a.bytesAt span)) := by
  rw [Place.bytesIn?, allotted.rangeFrom? low machine]
  exact congrArg some (allotted.slice? low)

end Arena

/-! ## Slots and tables -/

namespace Slots

variable {slots : Slots} {capacity : Nat}

theorem length_placed (capacity : Nat) (slots : Slots) :
    (slots.placed capacity).length = slots.length := List.length_map _

theorem isNone_map_placed (capacity : Nat) :
    (Option.isNone ∘ Option.map (Entry.placed capacity)) = Option.isNone := by
  funext slot
  cases slot <;> rfl

theorem any_isNone_placed (capacity : Nat) (slots : Slots) :
    (slots.placed capacity).any Option.isNone = slots.any Option.isNone := by
  rw [placed, List.any_map, isNone_map_placed]

theorem findIdx_isNone_placed (capacity : Nat) (slots : Slots) :
    (slots.placed capacity).findIdx Option.isNone = slots.vacancy := by
  rw [placed, List.findIdx_map, isNone_map_placed, vacancy]

theorem placed_place (capacity : Nat) (slots : Slots) (entry : Entry) :
    placed capacity (slots.place entry)
      = (slots.placed capacity).place (entry.placed capacity) := by
  induction slots with
  | nil => rfl
  | cons slot slots ih =>
    cases slot with
    | none => rfl
    | some other => exact congrArg (some (other.placed capacity) :: ·) ih

theorem placed_setValue (capacity : Nat) (slots : Slots) (index : Nat) (value : Stored) :
    placed capacity (slots.setValue index value)
      = (slots.placed capacity).modify index
          (Option.map fun entry => { entry with value := value.placed capacity }) := by
  apply List.ext_getElem?
  intro other
  rw [placed, placed, setValue, List.getElem?_modify, List.getElem?_map, List.getElem?_map,
    List.getElem?_modify]
  cases slots[other]? with
  | none => rfl
  | some slot =>
    simp only [Option.map_eq_map, Option.map_some]
    split
    next => cases slot <;> rfl
    next => rfl

end Slots

namespace PlacedTable

/-- A sound table with the slots of an editor. -/
structure Shows (table : PlacedTable) (capacity : Nat) (slots : Slots) : Prop where
  sound : table.Sound
  slots : table.slots = slots.placed capacity

variable {table : PlacedTable} {capacity index : Nat} {slots : Slots}

theorem shows_empty (capacity : Nat) : empty.Shows capacity [] := ⟨sound_empty, rfl⟩

/-- A key is found among entries where the arena finds it, if their keys were handed out. -/
theorem findFrom?_eq {a : Arena} {base : Nat} (low : base ≤ a.boundary)
    (machine : a.capacity < unsignedBound) (key : Bytes) (passed : List Bool) {bits : List Bool}
    {entries : List PlacedEntry} (enough : entries.length ≤ bits.length)
    (shown : List.zipWith slotOf entries bits = slots.placed a.capacity)
    (allotted : ∀ entry, some entry ∈ slots → a.Allotted entry.key) :
    findFrom? (passed ++ bits) (a.buffer.drop base) base key passed.length entries
      = some ((slots.findIdx? (a.hasKey key)).map (passed.length + ·)) := by
  -- On the entries: those that were passed have used up their bits.
  induction entries generalizing passed bits slots with
  | nil =>
    cases slots with
    | nil => rfl
    | cons slot slots => cases shown
  | cons placed entries ih =>
    cases bits with
    | nil => exact absurd enough (Nat.not_succ_le_zero _)
    | cons gone bits =>
      cases slots with
      | nil => cases shown
      | cons slot slots =>
        have here : (passed ++ gone :: bits)[passed.length]? = some gone := by simp
        rw [List.zipWith_cons_cons, Slots.placed, List.map_cons, List.cons.injEq] at shown
        have later := ih (passed ++ [gone]) (Nat.le_of_succ_le_succ enough) shown.2
          fun entry member => allotted entry (.tail _ member)
        rw [List.append_assoc, List.singleton_append, List.length_append, List.length_singleton]
          at later
        have behind : findFrom? (passed ++ gone :: bits) (a.buffer.drop base) base key
            (passed.length + 1) entries
              = some (((slots.findIdx? (a.hasKey key)).map (· + 1)).map (passed.length + ·)) := by
          rw [later, Option.map_map]
          congr 2
          funext other
          exact Nat.add_right_comm ..
        rw [findFrom?, here, List.findIdx?_cons]
        cases gone with
        | true =>
          cases slot with
          | none => exact behind
          | some entry => cases shown.1
        | false =>
          cases slot with
          | none => cases shown.1
          | some entry =>
            cases shown.1
            have held := allotted entry List.mem_cons_self
            have read : (entry.placed a.capacity).key.bytesIn? (a.buffer.drop base) base = _ :=
              held.bytesIn? low machine
            simp only [bind, Option.bind, Bool.false_eq_true, if_false, read, Option.some.injEq,
              Arena.hasKey, beq_iff_eq]
            split
            next => rfl
            next => exact behind

namespace Shows

theorem length (shows : table.Shows capacity slots) : table.entries.length = slots.length := by
  rw [← shows.sound.length_slots, shows.slots, Slots.length_placed]

theorem find? {a : Arena} {base : Nat} (shows : table.Shows a.capacity slots)
    (low : base ≤ a.boundary) (machine : a.capacity < unsignedBound) (key : Bytes)
    (allotted : ∀ entry, some entry ∈ slots → a.Allotted entry.key) :
    table.find? (a.buffer.drop base) base key = some (slots.findIdx? (a.hasKey key)) := by
  have found := findFrom?_eq low machine key [] shows.sound.enough shows.slots allotted
  simp only [List.length_nil, Nat.zero_add] at found
  exact found.trans (congrArg some (Option.map_id' ..))

theorem liveCount? (shows : table.Shows capacity slots) :
    table.liveCount? = some slots.live := by
  have live : Option.isSome ∘ Option.map (Entry.placed capacity) = Option.isSome := by
    funext slot
    cases slot <;> rfl
  rw [shows.sound.liveCount?, shows.slots, Slots.placed, List.countP_map, live, Slots.live]

theorem live? (shows : table.Shows capacity slots) :
    table.live? = some ((slots.filterMap id).map (Entry.placed capacity)) := by
  rw [shows.sound.live?, shows.slots, Slots.placed, List.filterMap_map, List.map_filterMap]
  rfl

theorem hasVacancy (shows : table.Shows capacity slots) : table.hasVacancy = slots.hasVacancy := by
  rw [shows.sound.hasVacancy, shows.slots, Slots.any_isNone_placed, Slots.length_placed,
    Slots.hasVacancy]

theorem entry? (shows : table.Shows capacity slots) {entry : Entry}
    (slot : slots[index]? = some (some entry)) :
    table.entry? index = some (entry.placed capacity) := by
  have live : table.Live index (entry.placed capacity) := by
    rw [live_iff, shows.slots, Slots.placed, List.getElem?_map, slot]
    rfl
  exact live.entry

/-- An entry is claimed a slot, or there is none, as in the slots. -/
theorem claim? (shows : table.Shows capacity slots) (entry : Entry) :
    ∃ next, table.claim? (entry.placed capacity) = some ((slots.claim entry).2, next)
      ∧ next.Shows capacity (slots.claim entry).1 := by
  by_cases vacant : slots.hasVacancy = true
  · have room := shows.hasVacancy.trans vacant
    rcases shows.sound.claim?_of_hasVacancy room (entry.placed capacity) with
      ⟨next, claimed, sound, placed⟩
    rw [shows.slots] at claimed placed
    rw [Slots.findIdx_isNone_placed] at claimed
    rw [Slots.claim_of_hasVacancy vacant]
    exact ⟨next, claimed, sound, placed.trans (Slots.placed_place ..).symm⟩
  · have full := shows.hasVacancy.trans (Bool.eq_false_iff.2 vacant)
    rw [Slots.claim, if_neg vacant]
    exact ⟨table, shows.sound.claim?_of_full full _, shows⟩

theorem setValue? (shows : table.Shows capacity slots) (below : index < slots.length)
    (value : Stored) :
    ∃ next, table.setValue? index (value.placed capacity) = some next
      ∧ next.Shows capacity (slots.setValue index value) := by
  have inside : index < table.slots.length := by
    rw [shows.slots, Slots.length_placed]
    exact below
  rcases shows.sound.setValue? inside (value.placed capacity) with ⟨next, set, sound, changed⟩
  rw [shows.slots] at changed
  exact ⟨next, set, sound, changed.trans (Slots.placed_setValue ..).symm⟩

theorem remove? (shows : table.Shows capacity slots) (below : index < slots.length) :
    ∃ next, table.remove? index = some next ∧ next.Shows capacity (slots.vacate index) := by
  have inside : index < table.slots.length := by
    rw [shows.slots, Slots.length_placed]
    exact below
  rcases shows.sound.remove? inside with ⟨next, removed, sound, vacated⟩
  rw [shows.slots] at vacated
  refine ⟨next, removed, sound, vacated.trans ?_⟩
  rw [Slots.placed, Slots.placed, Slots.vacate, List.map_set]
  rfl

end Shows

end PlacedTable

/-- There is room for what keeps to its half of the buffer and off the bytes that are held. -/
theorem Watermarks.check_eq {length held used size : Nat} (machine : length < unsignedBound)
    (inside : held ≤ length) :
    check ⟨length, held, used⟩ size
      = if used + size ≤ min (length / 2) (length - held) then
          Checked.ofExcept (.ok (used + size))
        else Checked.ofExcept (.error .exhausted) := by
  rw [check]
  by_cases word : used + size < unsignedBound
  · rw [Word.add?_of_lt word, Checked.orFault_some, Checked.ofExcept_ok_bind]
    by_cases half : length / 2 < used + size
    · have full : ¬ used + size ≤ min (length / 2) (length - held) := by omega
      rw [if_pos half, if_neg full]
      rfl
    · have left : used + size ≤ length := by omega
      rw [if_neg half, Word.sub?_of_le left, Checked.orStop_some, Checked.ofExcept_ok_bind]
      by_cases taken : length - (used + size) < held
      · have full : ¬ used + size ≤ min (length / 2) (length - held) := by omega
        rw [if_pos taken, if_neg full]
        rfl
      · have room : used + size ≤ min (length / 2) (length - held) := by omega
        rw [if_neg taken, if_pos room]
        rfl
  · have full : ¬ used + size ≤ min (length / 2) (length - held) := by omega
    rw [Word.add?_of_le (Nat.le_of_not_lt word), if_neg full]
    rfl

end PropertyRecord
