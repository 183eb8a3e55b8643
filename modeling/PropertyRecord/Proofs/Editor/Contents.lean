import Mathlib.Data.List.Forall2
import PropertyRecord.Editor.Basic
import PropertyRecord.Proofs.Editor.Table

/-!
# What an arena holds

The slots of an editor name places in its arena. Here it is said when slots and arena together show
a table: every place lies in the part that has been handed out and reads as what the table says. A
new copy goes below all of these places, so whatever was shown before is shown after it.

Main statements: `Shows.stash` is that frame, and the other lemmas on `Shows` carry the operations
on slots over to the operations on tables.
-/

namespace PropertyRecord

namespace Arena

/-- A span that was handed out and reads as the bytes. -/
structure Keeps (a : Arena) (span : Span) (bytes : Bytes) : Prop where
  inside : span.depth ≤ a.used
  size : bytes.length = span.size
  content : a.bytesAt span = bytes

/-- A stored value that reads as the value. -/
inductive Represents (a : Arena) : Stored → Value → Prop where
  | null : Represents a .null .null
  | bool (b : Bool) : Represents a (.bool b) (.bool b)
  | int (i : Int64) : Represents a (.int i) (.int i)
  | uint (u : UInt64) : Represents a (.uint u) (.uint u)
  | double (d : Double) : Represents a (.double d) (.double d)
  | text {span : Span} {s : String} (kept : a.Keeps span (utf8 s)) :
      Represents a (.text span) (.text s)
  | bytes {span : Span} {bs : Bytes} (kept : a.Keeps span bs) :
      Represents a (.bytes span) (.bytes bs)

/-- An entry that reads as the property. -/
structure Holds (a : Arena) (entry : Entry) (p : Property) : Prop where
  key : a.Keeps entry.key (utf8 p.key)
  value : a.Represents entry.value p.value

/-- Slots that show the table: the vacant ones are the same, and the others read as its
properties. -/
def Shows (a : Arena) : Slots → Table → Prop := List.Forall₂ (Option.Rel a.Holds)

/-! ## Reading -/

theorem Keeps.textAt {a : Arena} {span : Span} {s : String} (kept : a.Keeps span (utf8 s)) :
    a.textAt span = some s := by
  rw [Arena.textAt, kept.content, ofUtf8?_utf8]

theorem Represents.valueAt {a : Arena} {stored : Stored} {v : Value}
    (represents : a.Represents stored v) : a.valueAt stored = some v := by
  cases represents with
  | null | bool | int | uint | double => rfl
  | text kept => rw [Arena.valueAt, kept.textAt, Option.map_some]
  | bytes kept => rw [Arena.valueAt, kept.content]

theorem Holds.propertyAt {a : Arena} {entry : Entry} {p : Property} (held : a.Holds entry p) :
    a.propertyAt entry = some p := by
  simp only [Arena.propertyAt, held.key.textAt, held.value.valueAt, Option.bind_eq_bind,
    Option.bind_some, Option.pure_def]

theorem Holds.hasKey {a : Arena} {entry : Entry} {p : Property} (held : a.Holds entry p)
    (key : String) : a.hasKey (utf8 key) (some entry) = (p.key == key) := by
  rw [Arena.hasKey, held.key.content, Bool.eq_iff_iff, beq_iff_eq, beq_iff_eq]
  exact utf8_inj

/-! ## The frame of a new copy -/

theorem keeps_newest {a : Arena} (bytes : Bytes) (room : bytes.length ≤ a.below.length) :
    (a.stash bytes).Keeps ((a.stash bytes).newest bytes.length) bytes where
  inside := Nat.le_refl _
  size := rfl
  content := bytesAt_newest room

/-- A payload just copied represents its value. -/
theorem represents_newest {a : Arena} {v : Value} (room : v.payload.length ≤ a.below.length) :
    (a.stash v.payload).Represents
      (Stored.ofValue ((a.stash v.payload).newest v.payload.length) v) v := by
  cases v with
  | null => exact .null
  | bool b => exact .bool b
  | int i => exact .int i
  | uint u => exact .uint u
  | double d => exact .double d
  | text s => exact .text (keeps_newest (utf8 s) room)
  | bytes bs => exact .bytes (keeps_newest bs room)

theorem Keeps.stash {a : Arena} {span : Span} {content bytes : Bytes} (kept : a.Keeps span content)
    (room : bytes.length ≤ a.below.length) : (a.stash bytes).Keeps span content where
  inside := by
    rw [used_stash room]
    exact Nat.le_add_right_of_le kept.inside
  size := kept.size
  content := by
    rw [bytesAt_stash room kept.inside]
    exact kept.content

theorem Represents.stash {a : Arena} {stored : Stored} {v : Value} {bytes : Bytes}
    (represents : a.Represents stored v) (room : bytes.length ≤ a.below.length) :
    (a.stash bytes).Represents stored v := by
  cases represents with
  | null => exact .null
  | bool b => exact .bool b
  | int i => exact .int i
  | uint u => exact .uint u
  | double d => exact .double d
  | text kept => exact .text (kept.stash room)
  | bytes kept => exact .bytes (kept.stash room)

theorem Holds.stash {a : Arena} {entry : Entry} {p : Property} {bytes : Bytes}
    (held : a.Holds entry p) (room : bytes.length ≤ a.below.length) :
    (a.stash bytes).Holds entry p :=
  ⟨held.key.stash room, held.value.stash room⟩

/-- The entry of a property whose key and payload were just copied. -/
theorem holds_newest {a : Arena} {p : Property} (room : p.footprint ≤ a.below.length) :
    let keyed := a.stash (utf8 p.key)
    let copied := keyed.stash p.value.payload
    copied.Holds ⟨keyed.newest (utf8 p.key).length,
        Stored.ofValue (copied.newest p.value.payload.length) p.value⟩ p := by
  intro keyed copied
  rw [Property.footprint] at room
  have first : (utf8 p.key).length ≤ a.below.length := Nat.le_of_add_right_le room
  have second : p.value.payload.length ≤ keyed.below.length := by
    rw [length_below_stash]
    omega
  exact ⟨(keeps_newest _ first).stash second, represents_newest second⟩

theorem stash_copies {a : Arena} {p : Property} (room : p.footprint ≤ a.below.length) :
    (a.stash (utf8 p.key)).stash p.value.payload = a.stash p.copies := stash_stash room

theorem Shows.stash {a : Arena} {slots : Slots} {t : Table} {bytes : Bytes}
    (shows : a.Shows slots t) (room : bytes.length ≤ a.below.length) :
    (a.stash bytes).Shows slots t := by
  apply List.Forall₂.imp _ shows
  intro slot shown related
  cases related with
  | none => exact .none
  | some held => exact .some (held.stash room)

/-! ## Operations on slots -/

namespace Shows

variable {a : Arena} {slots : Slots} {t : Table}

theorem length (shows : a.Shows slots t) : slots.length = t.length := List.Forall₂.length_eq shows

theorem map_propertyAt (shows : a.Shows slots t) :
    slots.map (fun slot => slot.bind a.propertyAt) = t := by
  induction shows with
  | nil => rfl
  | cons related _ ih =>
    rw [List.map_cons, ih]
    cases related with
    | none => rfl
    | some held => rw [Option.bind_some, held.propertyAt]

/-- The entries in the order of their slots hold the properties in theirs. -/
theorem entries (shows : a.Shows slots t) :
    List.Forall₂ a.Holds (slots.filterMap id) t.listing := by
  induction shows with
  | nil => exact .nil
  | cons related _ ih =>
    cases related with
    | none => exact ih
    | some held => exact .cons held ih

theorem live (shows : a.Shows slots t) : slots.live = t.listing.length := by
  induction shows with
  | nil => rfl
  | cons related _ ih =>
    cases related with
    | none => exact ih
    | some =>
      rw [Table.listing_cons_some, List.length_cons, ← ih]
      exact List.countP_cons_of_pos rfl

theorem mem_none_iff (shows : a.Shows slots t) : none ∈ slots ↔ none ∈ t := by
  induction shows with
  | nil => simp
  | cons related _ ih =>
    cases related with
    | none => simp
    | some => simpa using ih

theorem findIdx? (shows : a.Shows slots t) (key : String) :
    slots.findIdx? (a.hasKey (utf8 key)) = t.slotOf? key := by
  induction shows with
  | nil => rfl
  | cons related _ ih =>
    cases related with
    | none =>
      rw [List.findIdx?_cons, ih, Table.slotOf?, Table.slotOf?, List.findIdx?_cons]
      rfl
    | some held =>
      rw [List.findIdx?_cons, ih, held.hasKey key, Table.slotOf?, Table.slotOf?,
        List.findIdx?_cons]
      rfl

/-- A slot with a property has an entry that holds it. -/
theorem exists_entry (shows : a.Shows slots t) {index : Nat} {p : Property}
    (slot : t[index]? = some (some p)) :
    ∃ entry, slots[index]? = some (some entry) ∧ a.Holds entry p := by
  induction shows generalizing index with
  | nil => contradiction
  | cons related _ ih =>
    cases index with
    | zero =>
      cases Option.some.inj slot
      cases related with
      | some held => exact ⟨_, rfl, held⟩
    | succ index => exact ih slot

/-- A slot with an entry shows the property that the entry holds. -/
theorem exists_property (shows : a.Shows slots t) {index : Nat} {entry : Entry}
    (slot : slots[index]? = some (some entry)) :
    ∃ p, t[index]? = some (some p) ∧ a.Holds entry p := by
  induction shows generalizing index with
  | nil => contradiction
  | cons related _ ih =>
    cases index with
    | zero =>
      cases Option.some.inj slot
      cases related with
      | some held => exact ⟨_, rfl, held⟩
    | succ index => exact ih slot

theorem place (shows : a.Shows slots t) {entry : Entry} {p : Property} (held : a.Holds entry p) :
    a.Shows (slots.place entry) (t.place p) := by
  induction shows with
  | nil => exact .cons (.some held) .nil
  | cons related rest ih =>
    cases related with
    | none => exact .cons (.some held) rest
    | some other => exact .cons (.some other) ih

theorem vacate (shows : a.Shows slots t) (index : Nat) :
    a.Shows (slots.vacate index) (t.set index none) := by
  induction shows generalizing index with
  | nil => exact .nil
  | cons related rest ih =>
    cases index with
    | zero => exact .cons .none rest
    | succ index => exact .cons related (ih index)

/-- A new value in the slot of a key. The key is not copied again. -/
theorem setValue (shows : a.Shows slots t) {p : Property} {index : Nat} {stored : Stored}
    (found : t.slotOf? p.key = some index) (represents : a.Represents stored p.value) :
    a.Shows (slots.setValue index stored) (t.set index (some p)) := by
  rcases Table.split_of_slotOf? found with ⟨before, old, after, rfl, rfl⟩
  rw [Table.set_split]
  clear found
  induction before generalizing slots with
  | nil =>
    cases shows with
    | cons related rest =>
      cases related with
      | some held => exact .cons (.some ⟨held.key, represents⟩) rest
  | cons slot before ih =>
    cases shows with
    | cons related rest => exact .cons related (ih rest)

end Shows

end Arena

end PropertyRecord
