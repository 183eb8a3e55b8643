import PropertyRecord.Editor.PlacedTable
import PropertyRecord.Proofs.Wire.Cursor

/-!
# The slots of a table

The entries of a table and its bits together show slots. A table is sound if there is a bit for
every slot that there may be and none is set behind the last entry. Then the bits are those of the
slots and nothing else, so what the operations ask of the bits is what they would ask of the slots.

Main statements: `Sound.removed_eq`, and `Sound.claim?_of_hasVacancy`, `Sound.setValue?` and
`Sound.remove?`, what the operations do to the slots of a sound table, which they leave sound.
-/

namespace PropertyRecord.PlacedTable

variable {table : PlacedTable} {entry : PlacedEntry} {index : Nat}

/-- What is in a slot, by its entry and its bit. -/
def slotOf (entry : PlacedEntry) (gone : Bool) : Option PlacedEntry :=
  if gone then none else some entry

/-- The slots that the entries and their bits show. -/
def slots (table : PlacedTable) : Slotted PlacedEntry :=
  List.zipWith slotOf table.entries table.removed

/-- The entry has the index and was not removed. -/
structure Live (table : PlacedTable) (index : Nat) (entry : PlacedEntry) : Prop where
  entry : table.entries[index]? = some entry
  bit : table.removed[index]? = some false

/-- What is true of the two lists of a table that calls can reach. -/
structure Sound (table : PlacedTable) : Prop where
  bits : table.removed.length = maxProperties
  allocated : table.entries.length ≤ maxProperties
  /-- A bit that is set belongs to an entry: its index lies below the number of entries. -/
  tombstones : ∀ index, table.removed[index]? = some true → index < table.entries.length

theorem sound_empty : empty.Sound where
  bits := List.length_replicate
  allocated := Nat.zero_le _
  tombstones index set := by
    rw [empty, List.getElem?_replicate] at set
    split at set <;> cases set

/-- The entries that were not removed are those that the slots show. -/
theorem live_iff : table.Live index entry ↔ table.slots[index]? = some (some entry) := by
  rw [slots, List.getElem?_zipWith_eq_some]
  constructor
  · intro live
    exact ⟨entry, false, live.entry, live.bit, rfl⟩
  · rintro ⟨other, gone, entered, bit, shown⟩
    cases gone with
    | false =>
      cases shown
      exact ⟨entered, bit⟩
    | true => cases shown

/-! ## The bits of the slots -/

theorem map_isNone_zipWith {entries : List PlacedEntry} {bits : List Bool}
    (enough : entries.length ≤ bits.length) :
    (List.zipWith slotOf entries bits).map Option.isNone = bits.take entries.length := by
  induction entries generalizing bits with
  | nil => rfl
  | cons entry entries ih =>
    cases bits with
    | nil => exact absurd enough (Nat.not_succ_le_zero _)
    | cons gone bits =>
      rw [List.zipWith_cons_cons, List.map_cons, ih (Nat.le_of_succ_le_succ enough),
        List.length_cons, List.take_succ_cons]
      cases gone <;> rfl

namespace Sound

theorem enough (sound : table.Sound) : table.entries.length ≤ table.removed.length :=
  sound.bits.symm ▸ sound.allocated

theorem length_slots (sound : table.Sound) : table.slots.length = table.entries.length := by
  rw [slots, List.length_zipWith, Nat.min_eq_left sound.enough]

/-- The bit behind the last entry is not set, if there is one. -/
theorem behind (sound : table.Sound) (room : table.entries.length < maxProperties) :
    table.removed[table.entries.length]? = some false := by
  have inside : table.entries.length < table.removed.length := sound.bits.symm ▸ room
  cases bit : table.removed[table.entries.length] with
  | false => rw [List.getElem?_eq_getElem inside, bit]
  | true =>
    have set := List.getElem?_eq_getElem inside
    rw [bit] at set
    exact absurd (sound.tombstones _ set) (Nat.lt_irrefl _)

/-- The bits are those of the slots, and behind them none is set. -/
theorem removed_eq (sound : table.Sound) :
    table.removed = table.slots.map Option.isNone
      ++ List.replicate (maxProperties - table.slots.length) false := by
  have behind : table.removed.drop table.entries.length
      = List.replicate (maxProperties - table.entries.length) false := by
    rw [List.eq_replicate_iff, List.length_drop, sound.bits]
    refine ⟨rfl, fun gone member => ?_⟩
    rcases List.mem_iff_getElem?.1 member with ⟨index, found⟩
    rw [List.getElem?_drop] at found
    cases gone with
    | false => rfl
    | true => exact absurd (sound.tombstones _ found) (Nat.not_lt_of_le (Nat.le_add_right ..))
  rw [sound.length_slots, ← behind, slots, map_isNone_zipWith sound.enough, List.take_append_drop]

theorem liveCount? (sound : table.Sound) :
    table.liveCount? = some (table.slots.countP Option.isSome) := by
  have vacant : table.removed.count true = table.slots.countP Option.isNone := by
    rw [sound.removed_eq, List.count_append, List.count_replicate, List.count_eq_countP,
      List.countP_map]
    simp [Function.comp_def]
  have split := List.length_eq_countP_add_countP Option.isSome (l := table.slots)
  simp only [Bool.not_eq_true, Option.isSome_eq_false_iff, Bool.decide_eq_true] at split
  rw [PlacedTable.liveCount?, vacant, ← sound.length_slots, split]
  rw [Word.sub?_of_le (Nat.le_add_left ..), Nat.add_sub_cancel]

theorem hasVacancy (sound : table.Sound) :
    table.hasVacancy
      = (table.slots.any Option.isNone || decide (table.slots.length < maxProperties)) := by
  have vacant : table.removed.any id = table.slots.any Option.isNone := by
    rw [sound.removed_eq, List.any_append, List.any_map, List.any_replicate]
    simp
  rw [PlacedTable.hasVacancy, vacant, sound.length_slots]

theorem findIdx?_removed (sound : table.Sound) :
    table.removed.findIdx? id = table.slots.findIdx? Option.isNone := by
  have none : (List.replicate (maxProperties - table.slots.length) false).findIdx? id = none := by
    simp
  rw [sound.removed_eq, List.findIdx?_append, List.findIdx?_map, none]
  simp

end Sound

theorem liveFrom?_eq (passed : List Bool) {bits : List Bool} {entries : List PlacedEntry}
    (enough : entries.length ≤ bits.length) :
    liveFrom? (passed ++ bits) passed.length entries
      = some ((List.zipWith slotOf entries bits).filterMap id) := by
  induction entries generalizing passed bits with
  | nil => rfl
  | cons entry entries ih =>
    cases bits with
    | nil => exact absurd enough (Nat.not_succ_le_zero _)
    | cons gone bits =>
      have here : (passed ++ gone :: bits)[passed.length]? = some gone := by simp
      have later := ih (passed ++ [gone]) (Nat.le_of_succ_le_succ enough)
      rw [List.append_assoc, List.singleton_append, List.length_append, List.length_singleton]
        at later
      rw [liveFrom?, here]
      simp only [bind, Option.bind, later]
      cases gone <;> rfl

theorem Sound.live? (sound : table.Sound) : table.live? = some (table.slots.filterMap id) :=
  liveFrom?_eq [] sound.enough

/-! ## What the operations do to the slots -/

section

variable {entries : List PlacedEntry} {bits : List Bool}

theorem zipWith_set (entries : List PlacedEntry) (bits : List Bool) (index : Nat)
    (entry : PlacedEntry) (gone : Bool) :
    List.zipWith slotOf (entries.set index entry) (bits.set index gone)
      = (List.zipWith slotOf entries bits).set index (slotOf entry gone) := by
  induction entries generalizing bits index with
  | nil => rfl
  | cons other entries ih =>
    cases bits with
    | nil => simp
    | cons bit bits =>
      cases index with
      | zero => rfl
      | succ index => exact congrArg (slotOf other bit :: ·) (ih bits index)

theorem zipWith_append_singleton (entry : PlacedEntry)
    (behind : bits[entries.length]? = some false) :
    List.zipWith slotOf (entries ++ [entry]) bits
      = List.zipWith slotOf entries bits ++ [some entry] := by
  induction entries generalizing bits with
  | nil =>
    cases bits with
    | nil => cases behind
    | cons bit bits =>
      cases behind
      rfl
  | cons other entries ih =>
    cases bits with
    | nil => cases behind
    | cons bit bits => exact congrArg (slotOf other bit :: ·) (ih behind)

theorem zipWith_set_left {old : PlacedEntry} (change : PlacedEntry → PlacedEntry)
    (entered : entries[index]? = some old) :
    List.zipWith slotOf (entries.set index (change old)) bits
      = (List.zipWith slotOf entries bits).modify index (Option.map change) := by
  induction entries generalizing bits index with
  | nil => cases entered
  | cons other entries ih =>
    cases bits with
    | nil => simp
    | cons bit bits =>
      cases index with
      | zero =>
        cases entered
        cases bit <;> rfl
      | succ index => exact congrArg (slotOf other bit :: ·) (ih entered)

theorem zipWith_set_right (entries : List PlacedEntry) (bits : List Bool) (index : Nat) :
    List.zipWith slotOf entries (bits.set index true)
      = (List.zipWith slotOf entries bits).set index none := by
  induction entries generalizing bits index with
  | nil => rfl
  | cons other entries ih =>
    cases bits with
    | nil => rfl
    | cons bit bits =>
      cases index with
      | zero => rfl
      | succ index => exact congrArg (slotOf other bit :: ·) (ih bits index)

end

namespace Sound

/-- Where there is a slot for an entry, the entry goes to the first of them. -/
theorem claim?_of_hasVacancy (sound : table.Sound) (vacant : table.hasVacancy = true)
    (entry : PlacedEntry) :
    ∃ next, table.claim? entry = some (.ok (table.slots.findIdx Option.isNone), next)
      ∧ next.Sound ∧ next.slots = table.slots.place entry := by
  rw [claim?, sound.findIdx?_removed, List.findIdx_eq_getD_findIdx?, Slotted.place_eq]
  cases first : table.slots.findIdx? Option.isNone with
  | some index =>
    have below := (List.findIdx?_eq_some_iff_getElem.1 first).1
    rw [sound.length_slots] at below
    simp only [below, if_true]
    refine ⟨_, rfl, ⟨?_, ?_, ?_⟩, zipWith_set ..⟩
    · exact List.length_set.trans sound.bits
    · exact List.length_set.symm ▸ sound.allocated
    · intro other set
      rw [List.getElem?_set] at set
      rw [List.length_set]
      split at set
      next => split at set <;> cases set
      next => exact sound.tombstones other set
  | none =>
    -- No bit is set, so the slot is a new one at the end.
    have taken : table.slots.any Option.isNone = false := by
      rw [← List.findIdx?_isSome, first]
      rfl
    have room : table.entries.length < maxProperties := by
      rw [sound.hasVacancy, taken, sound.length_slots] at vacant
      exact of_decide_eq_true vacant
    have last : Word.sub? (table.entries ++ [entry]).length 1 = some table.entries.length := by
      rw [List.length_append, List.length_singleton, Word.sub?_of_le (Nat.le_add_left ..),
        Nat.add_sub_cancel]
    simp only [room, if_true, last, sound.length_slots]
    refine ⟨_, rfl, ⟨sound.bits, ?_, ?_⟩, zipWith_append_singleton entry (sound.behind room)⟩
    · rw [List.length_append]
      exact room
    · intro other set
      rw [List.length_append]
      exact Nat.lt_add_right _ (sound.tombstones other set)

theorem claim?_of_full (sound : table.Sound) (full : table.hasVacancy = false)
    (entry : PlacedEntry) : table.claim? entry = some (.error .exhausted, table) := by
  rw [sound.hasVacancy, Bool.or_eq_false_iff, ← List.findIdx?_isSome, sound.length_slots] at full
  have taken : table.slots.findIdx? Option.isNone = none :=
    Option.isNone_iff_eq_none.1 (Option.isSome_eq_false_iff.1 full.1)
  rw [claim?, sound.findIdx?_removed, taken]
  exact if_neg (of_decide_eq_false full.2)

theorem setValue? (sound : table.Sound) (below : index < table.slots.length)
    (value : PlacedValue) :
    ∃ next, table.setValue? index value = some next ∧ next.Sound
      ∧ next.slots = table.slots.modify index (Option.map fun entry => { entry with value }) := by
  rw [sound.length_slots] at below
  have entered : table.entries[index]? = some table.entries[index] :=
    List.getElem?_eq_getElem below
  rw [PlacedTable.setValue?, entry?, entered]
  refine ⟨_, rfl, ⟨sound.bits, ?_, ?_⟩, ?_⟩
  · exact List.length_set.symm ▸ sound.allocated
  · exact fun other set => List.length_set.symm ▸ sound.tombstones other set
  · exact zipWith_set_left (fun entry => { entry with value }) entered

theorem remove? (sound : table.Sound) (below : index < table.slots.length) :
    ∃ next, table.remove? index = some next ∧ next.Sound
      ∧ next.slots = table.slots.set index none := by
  rw [sound.length_slots] at below
  have inside := Nat.lt_of_lt_of_le below sound.enough
  rw [PlacedTable.remove?, if_pos inside]
  refine ⟨_, rfl, ⟨List.length_set.trans sound.bits, sound.allocated, ?_⟩, zipWith_set_right ..⟩
  intro other set
  rw [List.getElem?_set] at set
  split at set
  next same => exact same ▸ below
  next => exact sound.tombstones other set

end Sound

end PropertyRecord.PlacedTable
