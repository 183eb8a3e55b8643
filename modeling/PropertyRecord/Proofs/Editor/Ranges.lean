import PropertyRecord.Proofs.Editor.Reached

/-!
# Where the spans of an editor lie

A span names a place by its distance from the end of the buffer. Reads take it as a range of a part
of the buffer that starts at some base: the whole buffer, the part behind a record that is being
imported, or the part behind the boundary of the arena. Such a range exists only if the span does
not start before the base, and it holds the bytes of the span only if all of it was handed out.

Main statements: `Allotted.take_drop_offset`, where the bytes of a span are in the buffer, and
`Coherent.allotted`, the entries of a coherent editor name only spans that were handed out.
-/

namespace PropertyRecord

namespace Arena

/-- The place of the lowest byte handed out. -/
def boundary (a : Arena) : Nat := a.capacity - a.used

/-- A span in the part of the buffer that was handed out. -/
structure Allotted (a : Arena) (span : Span) : Prop where
  inside : span.depth ≤ a.used
  size : span.size ≤ span.depth

variable {a : Arena} {span : Span}

theorem used_le_capacity (a : Arena) : a.used ≤ a.capacity := Nat.le_add_left ..

theorem length_buffer (a : Arena) : a.buffer.length = a.capacity := by
  rw [buffer, List.length_append, length_front, capacity]

/-- Within a limit that is in the buffer there are bytes below the lowest copy. -/
theorem le_below_of_fits {limit size : Nat} (bounded : limit ≤ a.capacity)
    (fits : a.fits limit size = true) : size ≤ a.below.length := by
  have room := fits_iff.1 fits
  rw [capacity] at bounded
  rw [used] at room
  omega

theorem used_fill {bytes : Bytes} (room : bytes.length ≤ a.used) : (a.fill bytes).used = a.used :=
  Bytes.length_overlay room

theorem capacity_fill {bytes : Bytes} (room : bytes.length ≤ a.used) :
    (a.fill bytes).capacity = a.capacity :=
  congrArg (a.below.length + ·) (Bytes.length_overlay room)

theorem Keeps.allotted {bytes : Bytes} (kept : a.Keeps span bytes) : a.Allotted span where
  inside := kept.inside
  size := by
    have length := congrArg List.length kept.content
    have inside := kept.inside
    rw [kept.size, bytesAt, List.length_take, List.length_drop, ← used] at length
    omega

namespace Allotted

theorem boundary_le_offset (allotted : a.Allotted span) : a.boundary ≤ a.offset span :=
  Nat.sub_le_sub_left allotted.inside a.capacity

theorem offset_add_size_le (allotted : a.Allotted span) :
    a.offset span + span.size ≤ a.capacity := by
  have inside := Nat.le_trans allotted.inside a.used_le_capacity
  have size := allotted.size
  rw [offset]
  omega

/-- Behind its offset the buffer goes on with the bytes of the span. -/
theorem take_drop_offset (allotted : a.Allotted span) :
    (a.buffer.drop (a.offset span)).take span.size = a.bytesAt span := by
  have inside := allotted.inside
  have behind : a.offset span = a.front.length + (a.used - span.depth) := by
    rw [offset, capacity, length_front]
    rw [used] at inside ⊢
    omega
  rw [buffer, behind, ← List.drop_drop, List.drop_left, bytesAt]

end Allotted

end Arena

/-- The place of a value in the arena, if it has one. -/
def Stored.span? : Stored → Option Span
  | .text span | .bytes span => some span
  | .null | .bool _ | .int _ | .uint _ | .double _ => none

/-- The places of the key and of the value of an entry. -/
def Entry.spans (entry : Entry) : List Span := entry.key :: entry.value.span?.toList

/-- Those of the places that have a text. -/
def Entry.textSpans (entry : Entry) : List Span :=
  match entry.value with
  | .text span => [entry.key, span]
  | _ => [entry.key]

namespace Arena

variable {a : Arena} {entry : Entry} {p : Property}

theorem Holds.allotted (held : a.Holds entry p) : ∀ span ∈ entry.spans, a.Allotted span := by
  obtain ⟨key, value⟩ := entry
  obtain ⟨name, v⟩ := p
  obtain ⟨keyHeld, valueHeld⟩ := held
  dsimp only at keyHeld valueHeld
  simp only [Entry.spans, List.forall_mem_cons]
  refine ⟨keyHeld.allotted, ?_⟩
  cases valueHeld with
  | null | bool | int | uint | double => simp [Stored.span?]
  | text kept => simpa [Stored.span?] using kept.allotted
  | bytes kept => simpa [Stored.span?] using kept.allotted

theorem Holds.textAt (held : a.Holds entry p) :
    ∀ span ∈ entry.textSpans, ∃ s, a.bytesAt span = utf8 s := by
  obtain ⟨key, value⟩ := entry
  obtain ⟨name, v⟩ := p
  obtain ⟨keyHeld, valueHeld⟩ := held
  dsimp only at keyHeld valueHeld
  have named : ∃ s, a.bytesAt key = utf8 s := ⟨_, keyHeld.content⟩
  cases valueHeld with
  | null | bool | int | uint | double | bytes => simpa [Entry.textSpans] using named
  | text kept =>
    have written : ∃ s, a.bytesAt _ = utf8 s := ⟨_, kept.content⟩
    simpa [Entry.textSpans] using ⟨named, written⟩

end Arena

namespace Editor

/-- The entries of the properties, in the order of their slots. -/
def entries (ed : Editor) : List Entry := ed.slots.filterMap id

variable {ed : Editor}

theorem mem_entries {index : Nat} {entry : Entry} (slot : ed.slots[index]? = some (some entry)) :
    entry ∈ ed.entries := List.mem_filterMap.2 ⟨_, List.mem_of_getElem? slot, rfl⟩

namespace Coherent

theorem exists_holds (coherent : ed.Coherent) {entry : Entry} (live : entry ∈ ed.entries) :
    ∃ p, ed.arena.Holds entry p := by
  rcases List.mem_iff_getElem.1 live with ⟨index, below, rfl⟩
  have held := coherent.shows.entries
  exact ⟨_, held.get below (held.length_eq ▸ below)⟩

theorem allotted (coherent : ed.Coherent) :
    ∀ entry ∈ ed.entries, ∀ span ∈ entry.spans, ed.arena.Allotted span := by
  intro entry live
  rcases coherent.exists_holds live with ⟨p, held⟩
  exact held.allotted

theorem key_allotted (coherent : ed.Coherent) (entry : Entry) (live : entry ∈ ed.entries) :
    ed.arena.Allotted entry.key := coherent.allotted entry live entry.key List.mem_cons_self

end Coherent

end Editor

end PropertyRecord
