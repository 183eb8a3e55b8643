import PropertyRecord.Proofs.Editor.Placed

/-!
# Editors in one buffer

A layout is an editor if its buffer is that of the arena, its counters are those of the arena and
its table shows the slots of the editor. Handing out bytes, filling them and working on the table
then come to what they come to in the editor, and none of them stops.

Main statements: `Embeds.run_alloc_of_fits` and `Embeds.run_alloc_of_full`, `Embeds.find?`,
`Embeds.run_claim` and `Embeds.run_setValue`.
-/

namespace PropertyRecord

theorem Editor.lt_length_of_find? {ed : Editor} {key : Bytes} {index : Nat}
    (found : ed.find? key = some index) : index < ed.slots.length :=
  (List.findIdx?_eq_some_iff_getElem.1 found).1

namespace Layout

/-- A layout of what an editor is in a buffer of `length` bytes of which the first `held` are held.
-/
structure Embeds (length held : Nat) (ed : Editor) (layout : Layout) : Prop where
  machine : length < unsignedBound
  inside : held ≤ length
  capacity : ed.arena.capacity = length
  buffer : layout.buffer = ed.arena.buffer
  marks : layout.marks = ⟨length, held, ed.arena.used⟩
  table : layout.table.Shows length ed.slots

namespace Embeds

variable {length held size : Nat} {ed : Editor} {layout : Layout}

theorem machine_capacity (embeds : Embeds length held ed layout) :
    ed.arena.capacity < unsignedBound := embeds.capacity.symm ▸ embeds.machine

theorem length_buffer (embeds : Embeds length held ed layout) : layout.buffer.length = length := by
  rw [embeds.buffer, Arena.length_buffer, embeds.capacity]

theorem boundary_le (embeds : Embeds length held ed layout) :
    ed.arena.boundary ≤ layout.buffer.length := by
  rw [embeds.buffer, Arena.length_buffer]
  exact Nat.sub_le ..

/-! ## Handing out -/

theorem check_eq (embeds : Embeds length held ed layout) (size : Nat) :
    layout.marks.check size
      = if ed.arena.fits (min (length / 2) (length - held)) size then
          Checked.ofExcept (.ok (ed.arena.used + size))
        else Checked.ofExcept (.error .exhausted) := by
  rw [embeds.marks, Watermarks.check_eq embeds.machine embeds.inside]
  simp only [Arena.fits_iff]

/-- A layout of which more bytes have been handed out. -/
def grown (layout : Layout) (used size : Nat) : Layout :=
  { layout with
    marks := { layout.marks with used }
    handed := ⟨layout.marks.length - used, size⟩ :: layout.handed }

theorem run_alloc_of_full (embeds : Embeds length held ed layout)
    (full : ¬ ed.arena.fits (min (length / 2) (length - held)) size = true) :
    (alloc size).run layout = some (.error .exhausted, layout) := by
  rw [alloc, ExceptT.run_mk, embeds.check_eq, if_neg full, Checked.run_ofExcept]

/-- The bytes handed out are those that the arena hands out, at their place. -/
theorem run_alloc_of_fits (embeds : Embeds length held ed layout)
    (fits : ed.arena.fits (min (length / 2) (length - held)) size = true) :
    Embeds length held { ed with arena := ed.arena.extend size }
        (grown layout (ed.arena.used + size) size)
      ∧ (ed.arena.extend size).used = ed.arena.used + size
      ∧ (alloc size).run layout
        = some (.ok (((ed.arena.extend size).newest size).place length),
          grown layout (ed.arena.used + size) size) := by
  have bounded : min (length / 2) (length - held) ≤ ed.arena.capacity := by
    rw [embeds.capacity]
    omega
  have used := Arena.used_extend (Arena.le_below_of_fits bounded fits)
  have left : ed.arena.used + size ≤ length :=
    Nat.le_trans (Arena.fits_iff.1 fits) (embeds.capacity ▸ bounded)
  refine ⟨{ embeds with
    capacity := (ed.arena.capacity_extend size).trans embeds.capacity
    buffer := embeds.buffer.trans (Arena.buffer_extend ..).symm
    marks := ?_ }, used, ?_⟩
  · rw [grown, embeds.marks, used]
  · rw [alloc, ExceptT.run_mk, embeds.check_eq, if_pos fits, Checked.run_ofExcept, Arena.newest,
      Span.place, used, grown]
    simp only [embeds.marks, Word.sub?_of_le left]
    rfl

/-- Bytes handed out last are filled. -/
theorem fill (embeds : Embeds length held ed layout) {bytes : Bytes}
    (short : bytes.length ≤ ed.arena.used) :
    Embeds length held { ed with arena := ed.arena.fill bytes }
      { layout with buffer := layout.buffer.splice ed.arena.boundary bytes } := by
  have used := Arena.used_fill short
  refine { embeds with
    capacity := (Arena.capacity_fill short).trans embeds.capacity
    buffer := ?_
    marks := ?_ }
  · rw [embeds.buffer, Arena.buffer_fill]
  · rw [used, embeds.marks]

/-! ## The table -/

theorem withTable (embeds : Embeds length held ed layout) {table : PlacedTable} {slots : Slots}
    (shows : table.Shows length slots) :
    Embeds length held { ed with slots } { layout with table } where
  __ := embeds
  table := shows

/-- A key is found where the editor finds it, in any part of the buffer that does not start behind
the boundary. -/
theorem find? (embeds : Embeds length held ed layout) {base : Nat} (low : base ≤ ed.arena.boundary)
    (key : Bytes) (entries : ∀ entry ∈ ed.entries, ed.arena.Allotted entry.key) :
    layout.table.find? (ed.arena.buffer.drop base) base key = some (ed.find? key) := by
  have shows := embeds.table
  rw [← embeds.capacity] at shows
  exact shows.find? low embeds.machine_capacity key fun entry member =>
    entries entry (List.mem_filterMap.2 ⟨_, member, rfl⟩)

theorem run_claim (embeds : Embeds length held ed layout) (entry : Entry) :
    ∃ table : PlacedTable, table.Shows length (ed.slots.claim entry).1
      ∧ (claim (entry.placed length)).run layout
        = some ((ed.slots.claim entry).2, { layout with table }) := by
  rcases embeds.table.claim? entry with ⟨table, claimed, shows⟩
  refine ⟨table, shows, ?_⟩
  rw [claim, ExceptT.run_mk, claimed]
  rfl

theorem run_setValue (embeds : Embeds length held ed layout) {index : Nat}
    (below : index < ed.slots.length) (value : Stored) :
    ∃ table : PlacedTable, table.Shows length (ed.slots.setValue index value)
      ∧ (setValue index (value.placed length)).run layout
        = some (.ok (), { layout with table }) := by
  rcases embeds.table.setValue? below value with ⟨table, set, shows⟩
  refine ⟨table, shows, ?_⟩
  rw [setValue, ExceptT.run_mk, set]
  rfl

end Embeds

end Layout

end PropertyRecord
