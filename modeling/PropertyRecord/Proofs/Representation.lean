import PropertyRecord.Proofs.Import.Undisturbed
import PropertyRecord.Proofs.Record.Commit
import PropertyRecord.Proofs.Record.LayoutCommit

/-!
# The representation of an editor

What is true of the buffer, the counters and the table of every editor that calls can reach, and
what follows for the code that works on them: no place is read that is not in the part of the buffer
that it is read from, no bit is set without an entry, nothing is listed that cannot be looked up,
and no commit finds its own properties unreadable.

Main statements: `Embeds.sound`, and `representation_runFrom`.
-/

namespace PropertyRecord

namespace Editor

variable {ed : Editor}

/-- An encoding never finds a property that it cannot read. -/
theorem Coherent.encode_ne_malformed (coherent : ed.Coherent) :
    ed.encode.1 ≠ .error .malformed := by
  rw [coherent.encode_eq]
  split
  all_goals
    intro equal
    cases equal

/-- So if a commit fails as malformed, it is the store that failed so. -/
theorem Coherent.write_of_commit_malformed {σ : Type} [RecordStore σ] (coherent : ed.Coherent)
    {name : RecordName} {store : σ}
    (failed : (ed.commit name store).result = .error .malformed) :
    (RecordStore.write store name.text (encodeRecord ed.properties)).1 = .error .malformed := by
  cases encoded : ed.encode.1 with
  | error fault =>
    simp only [commit, encoded] at failed
    cases failed
    exact absurd encoded coherent.encode_ne_malformed
  | ok =>
    have written := congrArg Prod.fst (commit_of_encode name store encoded)
    rw [Record.write, (coherent.encode_ok encoded).1] at written
    split at written
    next =>
      rw [failed] at written
      cases written
    next => exact written.symm.trans failed

/-- A commit to a store in memory never fails as malformed. -/
theorem Coherent.commit_ne_malformed {recordLimit dataLimit : Nat} (coherent : ed.Coherent)
    (name : RecordName) (store : MemoryStore recordLimit dataLimit) :
    (ed.commit name store).result ≠ .error .malformed := by
  rcases coherent.commit_cases name store with ⟨-, result, -⟩ | ⟨-, result, -⟩
  all_goals
    rw [result]
    intro equal
    cases equal

end Editor

/-! ## Places in an entry -/

/-- The place of a value in the buffer, if it has one. -/
def PlacedValue.place? : PlacedValue → Option Place
  | .text place | .bytes place => some place
  | .null | .bool _ | .int _ | .uint _ | .double _ => none

/-- The places of the key and of the value of an entry. -/
def PlacedEntry.places (entry : PlacedEntry) : List Place := entry.key :: entry.value.place?.toList

/-- Those of the places that have a text. -/
def PlacedEntry.textPlaces (entry : PlacedEntry) : List Place :=
  match entry.value with
  | .text place => [entry.key, place]
  | _ => [entry.key]

theorem Entry.places_placed (capacity : Nat) (entry : Entry) :
    (entry.placed capacity).places = entry.spans.map (Span.place capacity) := by
  obtain ⟨key, value⟩ := entry
  cases value <;> rfl

theorem Entry.textPlaces_placed (capacity : Nat) (entry : Entry) :
    (entry.placed capacity).textPlaces = entry.textSpans.map (Span.place capacity) := by
  obtain ⟨key, value⟩ := entry
  cases value <;> rfl

theorem Entry.textSpans_subset (entry : Entry) : entry.textSpans ⊆ entry.spans := by
  obtain ⟨key, value⟩ := entry
  cases value <;> simp [textSpans, spans, Stored.span?]

namespace Layout

/-- What is always true of the representation of an editor in a buffer of `length` bytes. -/
structure Sound (length : Nat) (layout : Layout) : Prop where
  buffer : layout.buffer.length = length
  marks : layout.marks.length = length
  half : layout.marks.used ≤ length / 2
  remaining : ∃ left, layout.remaining? = some left ∧ layout.marks.used + left = length / 2
  /-- There are at most sixteen entries, and every bit that is set belongs to one of them. -/
  table : layout.table.Sound
  inside : ∀ index entry, layout.table.Live index entry → ∀ place ∈ entry.places,
    length - layout.marks.used ≤ place.start ∧ place.start + place.size ≤ length
  texts : ∀ index entry, layout.table.Live index entry → ∀ place ∈ entry.textPlaces,
    ∃ s, place.bytesIn? layout.buffer 0 = some (some (utf8 s))
  /-- No two keys have the same bytes. -/
  distinct : ∀ index other entry twin, layout.table.Live index entry →
    layout.table.Live other twin →
    entry.key.bytesIn? layout.buffer 0 = twin.key.bytesIn? layout.buffer 0 → index = other

namespace Embeds

variable {length index : Nat} {ed : Editor} {layout : Layout}

/-- What has not been removed from the table is in a slot of the editor. -/
theorem exists_entry (embeds : Embeds length 0 ed layout) {placed : PlacedEntry}
    (live : layout.table.Live index placed) :
    ∃ entry, ed.slots[index]? = some (some entry) ∧ entry.placed length = placed := by
  have slot := PlacedTable.live_iff.1 live
  rw [embeds.table.slots, Slots.placed, List.getElem?_map, Option.map_eq_some_iff] at slot
  rcases slot with ⟨found, entered, shown⟩
  rcases Option.map_eq_some_iff.1 shown with ⟨entry, rfl, same⟩
  exact ⟨entry, entered, same⟩

theorem sound (embeds : Embeds length 0 ed layout) (coherent : ed.Coherent) :
    Sound length layout := by
  have half := coherent.within
  rw [Arena.budget, embeds.capacity] at half
  constructor
  case buffer => exact embeds.length_buffer
  case marks => rw [embeds.marks]
  case half =>
    rw [embeds.marks]
    exact half
  case remaining =>
    rw [remaining?, embeds.marks]
    exact ⟨_, Word.sub?_of_le half, Nat.add_sub_cancel' half⟩
  case table => exact embeds.table.sound
  case inside =>
    intro index placed live place listed
    rcases embeds.exists_entry live with ⟨entry, slot, rfl⟩
    rw [Entry.places_placed, List.mem_map] at listed
    rcases listed with ⟨span, listed, rfl⟩
    have allotted := coherent.allotted entry (Editor.mem_entries slot) span listed
    rw [embeds.marks, ← embeds.capacity]
    exact ⟨allotted.boundary_le_offset, allotted.offset_add_size_le⟩
  case texts =>
    intro index placed live place listed
    rcases embeds.exists_entry live with ⟨entry, slot, rfl⟩
    rw [Entry.textPlaces_placed, List.mem_map] at listed
    rcases listed with ⟨span, listed, rfl⟩
    rcases coherent.exists_holds (Editor.mem_entries slot) with ⟨p, held⟩
    have allotted := held.allotted span (entry.textSpans_subset listed)
    rcases held.textAt span listed with ⟨s, text⟩
    exact ⟨s, text ▸ embeds.bytesIn?_eq allotted⟩
  case distinct =>
    intro index other placed twin live liveToo same
    rcases embeds.exists_entry live with ⟨entry, slot, rfl⟩
    rcases embeds.exists_entry liveToo with ⟨double, slotToo, rfl⟩
    rcases coherent.shows.exists_property slot with ⟨p, shown, held⟩
    rcases coherent.shows.exists_property slotToo with ⟨q, shownToo, heldToo⟩
    have first : (entry.placed length).key.bytesIn? layout.buffer 0 = _ :=
      embeds.bytesIn?_eq held.key.allotted
    have second : (double.placed length).key.bytesIn? layout.buffer 0 = _ :=
      embeds.bytesIn?_eq heldToo.key.allotted
    rw [first, second, held.key.content, heldToo.key.content, Option.some.injEq, Option.some.injEq,
      utf8_inj] at same
    exact Table.index_unique coherent.distinct shown shownToo same

end Embeds

/-- An editor just opened, in its buffer. -/
theorem Undisturbed.embeds {origin : Bytes} {existing : Nat} {layout : Layout}
    (undisturbed : Undisturbed origin existing (Editor.openOver origin existing) layout)
    (machine : origin.length < unsignedBound) :
    Embeds origin.length 0 (Editor.openOver origin existing).editor layout where
  machine := machine
  inside := Nat.zero_le _
  capacity := (Editor.within_openOver origin existing).capacity
  buffer := undisturbed.buffer
  marks := undisturbed.marks
  table := undisturbed.table

/-- The representation of every editor that calls can reach is sound, whatever was in the buffer,
however long the record was said to be, and whichever calls were made. Opening the editor does not
stop, nor does a call: no place starts before the part of the buffer that it is read from, no sum is
more than a word, and no index is out of the table. The layout is that of the editor after the same
calls, its entries and bits show the slots, and every call is answered as the editor answers it.
The properties that are listed are as many as are counted, at most sixteen, and under each key there
is the value that is listed with it. A commit does not stop either, it does what the commit of the
editor does, and it never fails as malformed unless the store does, which a store in memory never
does. -/
theorem representation_runFrom {buffer : Bytes} (machine : buffer.length < unsignedBound)
    (existing : Nat) (record : String) (calls : List Editor.Call) :
    let ed := runFrom (Editor.step record) (Editor.openOver buffer existing).editor calls
    ∃ result opened, openOver buffer existing = some (result, opened)
      ∧ let layout := runFrom (step record) opened calls
        (layout.Sound buffer.length ∧ Embeds buffer.length 0 ed layout)
        ∧ (∀ call, ∃ next, layout.step record call = (some (ed.step record call).1, next))
        ∧ (layout.properties? = some ed.properties
          ∧ layout.count? = some ed.properties.length ∧ ed.properties.length ≤ maxProperties)
        ∧ (∀ key, ∃ found, layout.get? key = some found
          ∧ ∀ v, found = some v ↔ ⟨key, v⟩ ∈ ed.properties)
        ∧ (∀ (σ : Type) [RecordStore σ] (name : RecordName) (store : σ),
          layout.commit name store = some (ed.commit name store)
            ∧ ((ed.commit name store).result = .error .malformed →
              (RecordStore.write store name.text (encodeRecord ed.properties)).1
                = .error .malformed))
        ∧ ∀ (recordLimit dataLimit : Nat) (name : RecordName)
            (store : MemoryStore recordLimit dataLimit),
          (ed.commit name store).result ≠ .error .malformed := by
  intro ed
  rcases openOver_undisturbed machine existing with ⟨opened, ran, undisturbed⟩
  refine ⟨_, opened, ran, ?_⟩
  intro layout
  have within : ed.Within buffer.length :=
    Editor.within_runFrom buffer existing record calls
  have embeds : Embeds buffer.length 0 ed layout :=
    embeds_runFrom record calls (undisturbed.embeds machine)
      (Editor.within_openOver buffer existing)
  have coherent := within.coherent
  refine ⟨⟨embeds.sound coherent, embeds⟩, ?_, ⟨embeds.properties?_eq coherent, ?_,
    coherent.length_properties_le⟩, ?_, ?_, ?_⟩
  · intro call
    rcases embeds.step_eq coherent record call with ⟨next, stepped, -⟩
    exact ⟨next, stepped⟩
  · rw [coherent.length_properties]
    exact embeds.table.liveCount?
  · exact fun key => ⟨_, embeds.get?_eq coherent key, coherent.get?_eq_some_iff key⟩
  · exact fun σ _ name store => ⟨embeds.commit_eq coherent name store,
      coherent.write_of_commit_malformed⟩
  · exact fun _ _ name store => coherent.commit_ne_malformed name store

/-- A slot that became vacant is taken again, and the bit of another one is all that tells that its
entry was removed. -/
theorem representation_runFrom_removed :
    let buffer : Bytes := [0xa1, 0x61, 0x61, 0x01] ++ List.replicate 12 0
    let calls : List Editor.Call :=
      [.set ⟨"b", .text "x"⟩, .remove "a", .set ⟨"c", .null⟩, .remove "b"]
    buffer.length < unsignedBound
      ∧ ∃ result opened, openOver buffer 4 = some (result, opened)
        ∧ let layout := runFrom (step "r") opened calls
          layout.Sound 16
          ∧ layout.table.entries.length = 2
          ∧ layout.table.removed = [false, true] ++ List.replicate 14 false
          ∧ layout.properties? = some [⟨"c", .null⟩] ∧ layout.count? = some 1
          ∧ layout.get? "b" = some none := by
  intro buffer calls
  have machine : buffer.length < unsignedBound := by decide
  rcases representation_runFrom machine 4 "r" calls with
    ⟨result, opened, ran, ⟨sound, embeds⟩, -, ⟨listed, counted, -⟩, found, -⟩
  have slots : (runFrom (Editor.step "r") (Editor.openOver buffer 4).editor calls).slots
      = [some ⟨⟨4, 1⟩, .null⟩, none] := by decide +kernel
  have properties : (runFrom (Editor.step "r") (Editor.openOver buffer 4).editor calls).properties
      = [⟨"c", .null⟩] := by decide +kernel
  have shows := embeds.table
  rw [slots] at shows
  rw [properties] at listed counted found
  refine ⟨machine, result, opened, ran, sound, shows.length, ?_, listed, counted, ?_⟩
  · rw [shows.sound.removed_eq, shows.slots]
    rfl
  · rcases found "b" with ⟨value, asked, iff⟩
    rw [asked]
    cases value with
    | none => rfl
    | some v => exact absurd ((iff v).1 rfl) (by simp)

end Layout

end PropertyRecord
