import PropertyRecord.Editor.Slots

/-!
# The editor

An editor is a bounded map from keys to values in a buffer: a table of slots, and an arena with
the keys and the payloads. Setting a property checks for a slot and for the room of both copies
before it makes either of them. Values that are replaced or removed keep their bytes in the arena.
-/

namespace PropertyRecord

/-- The properties of one record while they are edited. -/
structure Editor where
  arena : Arena
  slots : Slots
  deriving DecidableEq

namespace Editor

/-- An editor over a buffer, without properties. -/
def empty (buffer : Bytes) : Editor := ⟨.ofBuffer buffer, []⟩

/-- The number of properties. -/
def count (ed : Editor) : Nat := ed.slots.live

/-- The properties in the order of their slots. -/
def properties (ed : Editor) : List Property :=
  ed.slots.filterMap fun slot => slot.bind ed.arena.propertyAt

/-- The slot of a key. -/
def find? (ed : Editor) (key : Bytes) : Option Nat := ed.slots.findIdx? (ed.arena.hasKey key)

/-- Whether there is a property with the key. -/
def contains (ed : Editor) (key : String) : Bool := (ed.find? (utf8 key)).isSome

/-- The value of a key. -/
def get? (ed : Editor) (key : String) : Option Value := do
  let index ← ed.find? (utf8 key)
  let entry ← ← ed.slots[index]?
  ed.arena.valueAt entry.value

/-- Finds the slot of a key, or copies the key and claims a slot for it, for a value with `extra`
bytes of payload. Whether both copies fit is checked before either of them is made. -/
def slotFor (ed : Editor) (key : Bytes) (extra : Nat) : Editor × Except Fault Nat :=
  match ed.find? key with
  | some index =>
    if ed.arena.fits ed.arena.budget extra then (ed, .ok index) else (ed, .error .exhausted)
  | none =>
    if ed.slots.hasVacancy && ed.arena.fits ed.arena.budget (key.length + extra) then
      match ed.arena.store key with
      | (arena, .error fault) => ({ ed with arena }, .error fault)
      | (arena, .ok span) =>
        let (slots, claimed) := ed.slots.claim ⟨span, .null⟩
        (⟨arena, slots⟩, claimed)
    else (ed, .error .exhausted)

/-- Sets a property, and creates it if there is none with its key: first its slot, then the copy of
its payload. -/
def set (ed : Editor) (p : Property) : Editor × Except Fault Unit :=
  match ed.slotFor (utf8 p.key) p.value.payload.length with
  | (slotted, .error fault) => (slotted, .error fault)
  | (slotted, .ok index) =>
    match slotted.arena.storeValue p.value with
    | (arena, .error fault) => ({ slotted with arena }, .error fault)
    | (arena, .ok stored) => (⟨arena, slotted.slots.setValue index stored⟩, .ok ())

/-- Removes the property with the key, if there is one. -/
def remove (ed : Editor) (key : String) : Editor :=
  match ed.find? (utf8 key) with
  | some index => { ed with slots := ed.slots.vacate index }
  | none => ed

/-! ## What setting a property comes to

The checks that are made first are those that the copies make again, so either all of a set takes
place or nothing of it.
-/

/-- A key that is there keeps its slot, and only the payload is copied. -/
theorem set_of_find? {ed : Editor} {p : Property} {index : Nat}
    (found : ed.find? (utf8 p.key) = some index)
    (room : ed.arena.fits ed.arena.budget p.value.payload.length = true) :
    ed.set p
      = (⟨ed.arena.stash p.value.payload,
          ed.slots.setValue index
            (Stored.ofValue ((ed.arena.stash p.value.payload).newest p.value.payload.length)
              p.value)⟩, .ok ()) := by
  rw [set, slotFor, found]
  simp only [room, if_true, Arena.storeValue_of_fits room]

/-- A new key is copied, and then the payload. -/
theorem set_of_hasVacancy {ed : Editor} {p : Property} (fresh : ed.find? (utf8 p.key) = none)
    (vacant : ed.slots.hasVacancy = true)
    (room : ed.arena.fits ed.arena.budget ((utf8 p.key).length + p.value.payload.length) = true) :
    let keyed := ed.arena.stash (utf8 p.key)
    let copied := keyed.stash p.value.payload
    ed.set p
      = (⟨copied,
          ed.slots.place ⟨keyed.newest (utf8 p.key).length,
            Stored.ofValue (copied.newest p.value.payload.length) p.value⟩⟩, .ok ()) := by
  intro keyed copied
  have total := Arena.fits_iff.1 room
  have keyRoom : ed.arena.fits ed.arena.budget (utf8 p.key).length = true := by
    rw [Arena.fits_iff]
    omega
  have keyFits := Arena.le_below (Arena.fits_iff.1 keyRoom)
  have payloadRoom : keyed.fits keyed.budget p.value.payload.length = true := by
    rw [Arena.fits_iff, Arena.used_stash keyFits, Arena.budget_stash keyFits]
    omega
  have slotted : ed.slotFor (utf8 p.key) p.value.payload.length
      = (⟨keyed, ed.slots.place ⟨keyed.newest (utf8 p.key).length, .null⟩⟩,
          .ok ed.slots.vacancy) := by
    rw [slotFor, fresh]
    simp only [vacant, room, Bool.and_self, if_true, Arena.store_of_fits keyRoom,
      Slots.claim_of_hasVacancy vacant]
    rfl
  rw [set, slotted]
  simp only [Arena.storeValue_of_fits payloadRoom, Slots.setValue_place]
  rfl

/-- A payload that does not fit is refused. -/
theorem set_of_find?_of_lt {ed : Editor} {p : Property} {index : Nat}
    (found : ed.find? (utf8 p.key) = some index)
    (full : ed.arena.budget < ed.arena.used + p.value.payload.length) :
    ed.set p = (ed, .error .exhausted) := by
  have refused : ed.arena.fits ed.arena.budget p.value.payload.length = false :=
    decide_eq_false (Nat.not_le_of_lt full)
  rw [set, slotFor, found]
  simp [refused]

/-- A new key is refused if there is no slot for it, or no room for it and its payload. -/
theorem set_of_full {ed : Editor} {p : Property} (fresh : ed.find? (utf8 p.key) = none)
    (full : ed.slots.hasVacancy = false
      ∨ ed.arena.budget < ed.arena.used + ((utf8 p.key).length + p.value.payload.length)) :
    ed.set p = (ed, .error .exhausted) := by
  have refused : (ed.slots.hasVacancy
      && ed.arena.fits ed.arena.budget ((utf8 p.key).length + p.value.payload.length)) = false := by
    cases full with
    | inl vacant => rw [vacant, Bool.false_and]
    | inr large => rw [Arena.fits, decide_eq_false (Nat.not_le_of_lt large), Bool.and_false]
  rw [set, slotFor, fresh]
  simp [refused]

end Editor

end PropertyRecord
