import PropertyRecord.Limits
import PropertyRecord.Editor.Arena
import PropertyRecord.Editor.Slotted
import PropertyRecord.Wire.Canonical

/-!
# Slots

The table of an editor. A slot holds an entry, or it is vacant because its property was removed.
Slots never move, so the order of the properties is the order of their slots; a new property takes
the first vacant slot, or a new one at the end.
-/

namespace PropertyRecord

/-- A value in a slot. A text or a byte string is a span of the arena. -/
inductive Stored where
  | null
  | bool (b : Bool)
  | int (i : Int64)
  | uint (u : UInt64)
  | double (d : Double)
  | text (span : Span)
  | bytes (span : Span)
  deriving DecidableEq

/-- The stored form of a value whose payload is at `span`. -/
def Stored.ofValue (span : Span) : Value → Stored
  | .null => .null
  | .bool b => .bool b
  | .int i => .int i
  | .uint u => .uint u
  | .double d => .double d
  | .text _ => .text span
  | .bytes _ => .bytes span

/-- The content of a slot: where the key is, and the value. -/
structure Entry where
  key : Span
  value : Stored
  deriving DecidableEq

/-- The table of an editor. A vacant slot is `none`. -/
abbrev Slots := Slotted Entry

namespace Slots

/-- The number of properties. -/
def live (slots : Slots) : Nat := slots.countP Option.isSome

/-- Whether there is a slot for one more property. -/
def hasVacancy (slots : Slots) : Bool := slots.any Option.isNone || slots.length < maxProperties

/-- The index of the slot that `place` puts an entry into. -/
def vacancy (slots : Slots) : Nat := slots.findIdx Option.isNone

/-- Places an entry if there is a slot for it, and answers with the index of the slot. -/
def claim (slots : Slots) (entry : Entry) : Slots × Except Fault Nat :=
  if slots.hasVacancy then (slots.place entry, .ok slots.vacancy) else (slots, .error .exhausted)

/-- Replaces the value in one slot. -/
def setValue (slots : Slots) (index : Nat) (value : Stored) : Slots :=
  slots.modify index (Option.map fun entry => { entry with value })

/-- Makes one slot vacant. -/
def vacate (slots : Slots) (index : Nat) : Slots := slots.set index none

theorem hasVacancy_iff {slots : Slots} :
    slots.hasVacancy = true ↔ none ∈ slots ∨ slots.length < maxProperties := by
  simp [hasVacancy]

/-- A value set in the slot that an entry was just placed in. -/
theorem setValue_place (slots : Slots) (entry : Entry) (value : Stored) :
    setValue (slots.place entry) slots.vacancy value = slots.place { entry with value } := by
  induction slots with
  | nil => rfl
  | cons slot slots ih =>
    cases slot with
    | none => rfl
    | some other =>
      have later : vacancy (some other :: slots) = vacancy slots + 1 := by
        simp [vacancy, List.findIdx_cons]
      rw [later, Slotted.place, Slotted.place, ← ih]
      rfl

/-- The slot that an entry was just placed in is there. -/
theorem vacancy_lt_length_place (slots : Slots) (entry : Entry) :
    slots.vacancy < (slots.place entry).length := by
  induction slots with
  | nil => exact Nat.one_pos
  | cons slot slots ih =>
    cases slot with
    | none => exact Nat.succ_pos _
    | some other =>
      have later : vacancy (some other :: slots) = vacancy slots + 1 := by
        simp [vacancy, List.findIdx_cons]
      rw [later, Slotted.place, List.length_cons]
      exact Nat.succ_lt_succ ih

theorem claim_of_hasVacancy {slots : Slots} (vacant : slots.hasVacancy = true) (entry : Entry) :
    slots.claim entry = (slots.place entry, .ok slots.vacancy) := if_pos vacant

end Slots

namespace Arena

/-- The text in a span. -/
def textAt (a : Arena) (span : Span) : Option String := ofUtf8? (a.bytesAt span)

/-- The value that is stored in a slot. -/
def valueAt (a : Arena) : Stored → Option Value
  | .null => some .null
  | .bool b => some (.bool b)
  | .int i => some (.int i)
  | .uint u => some (.uint u)
  | .double d => some (.double d)
  | .text span => (a.textAt span).map .text
  | .bytes span => some (.bytes (a.bytesAt span))

/-- Copies bytes within the budget, and answers with their place. -/
def store (a : Arena) (bytes : Bytes) : Arena × Except Fault Span :=
  if a.fits a.budget bytes.length then
    let stored := a.stash bytes
    (stored, .ok (stored.newest bytes.length))
  else (a, .error .exhausted)

/-- Copies the payload of a value, if it is one that has a payload, and answers with the value as
it goes into a slot. -/
def storeValue (a : Arena) : Value → Arena × Except Fault Stored
  | .null => (a, .ok .null)
  | .bool b => (a, .ok (.bool b))
  | .int i => (a, .ok (.int i))
  | .uint u => (a, .ok (.uint u))
  | .double d => (a, .ok (.double d))
  | .text s =>
    let (stored, result) := a.store (utf8 s)
    (stored, result.map .text)
  | .bytes bs =>
    let (stored, result) := a.store bs
    (stored, result.map .bytes)

/-- The property of an entry. -/
def propertyAt (a : Arena) (entry : Entry) : Option Property := do
  let key ← a.textAt entry.key
  let value ← a.valueAt entry.value
  return ⟨key, value⟩

theorem store_of_fits {a : Arena} {bytes : Bytes} (room : a.fits a.budget bytes.length = true) :
    a.store bytes = (a.stash bytes, .ok ((a.stash bytes).newest bytes.length)) := if_pos room

/-- A value without a payload changes nothing, which is the same as copying no bytes. -/
theorem storeValue_of_fits {a : Arena} {v : Value}
    (room : a.fits a.budget v.payload.length = true) :
    a.storeValue v
      = (a.stash v.payload,
          .ok (Stored.ofValue ((a.stash v.payload).newest v.payload.length) v)) := by
  cases v with
  | null | bool | int | uint | double => rfl
  | text s =>
    have stored : a.store (utf8 s) = _ := store_of_fits room
    rw [storeValue, stored]
    rfl
  | bytes bs =>
    have stored : a.store bs = _ := store_of_fits room
    rw [storeValue, stored]
    rfl

/-- Whether a slot holds the property with the given key. -/
def hasKey (a : Arena) (key : Bytes) : Option Entry → Bool
  | none => false
  | some entry => a.bytesAt entry.key == key

end Arena

end PropertyRecord
