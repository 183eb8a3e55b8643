import PropertyRecord.Editor.Calls
import PropertyRecord.Proofs.Editor.Contents

/-!
# Editors as tables

An editor refines a table if its slots show it, its arena stays within the budget and the table is
one that can arise: short enough, with distinct keys, and with no more bytes in it than the arena
has handed out. The questions to an editor are then questions to the table, and each change of the
editor is one of the table.

Main statements: `Refines.set_live`, `Refines.set_new`, `Refines.set_refused` and the two on
`remove`.
-/

namespace PropertyRecord

namespace Editor

variable {ed : Editor} {t : Table}

/-- The editor shows the table, and the table is one that can arise. -/
structure Refines (ed : Editor) (t : Table) : Prop where
  shows : ed.arena.Shows ed.slots t
  within : ed.arena.used ≤ ed.arena.budget
  short : t.length ≤ maxProperties
  distinct : t.listing.keys.Nodup
  charged : t.listing.footprint ≤ ed.arena.used

/-- The table that the slots of an editor show. -/
def table (ed : Editor) : Table := ed.slots.map fun slot => slot.bind ed.arena.propertyAt

theorem properties_eq_listing (ed : Editor) : ed.properties = ed.table.listing := by
  simp only [properties, table, Table.listing, List.filterMap_map, Function.id_comp]

/-- Whether there are a slot and the arena space for a property. -/
def Accepts (ed : Editor) (p : Property) : Prop :=
  if ed.contains p.key then p.value.payload.length ≤ ed.arena.remaining
  else ed.count < maxProperties ∧ p.footprint ≤ ed.arena.remaining

/-- The bytes that setting a property would copy: its payload, and its key if it is new. -/
def charge (ed : Editor) (p : Property) : Nat :=
  if ed.contains p.key then p.value.payload.length else p.footprint

namespace Refines

/-! ## Questions -/

theorem table_eq (refines : ed.Refines t) : ed.table = t := refines.shows.map_propertyAt

theorem properties (refines : ed.Refines t) : ed.properties = t.listing := by
  rw [properties_eq_listing, refines.table_eq]

theorem length_properties_le (refines : ed.Refines t) : ed.properties.length ≤ maxProperties := by
  rw [refines.properties]
  exact Nat.le_trans (Table.length_listing_le t) refines.short

theorem count (refines : ed.Refines t) : ed.count = t.listing.length := refines.shows.live

theorem length_properties (refines : ed.Refines t) : ed.properties.length = ed.count := by
  rw [refines.properties, refines.count]

theorem find? (refines : ed.Refines t) (key : String) : ed.find? (utf8 key) = t.slotOf? key :=
  refines.shows.findIdx? key

theorem contains_eq (refines : ed.Refines t) (key : String) :
    ed.contains key = (t.slotOf? key).isSome := by
  rw [contains, refines.find?]

theorem contains_iff (refines : ed.Refines t) (key : String) :
    ed.contains key = true ↔ key ∈ t.listing.keys := by
  rw [refines.contains_eq, Option.isSome_iff_ne_none, ne_eq, Table.slotOf?_eq_none_iff, not_not]

theorem get? (refines : ed.Refines t) (key : String) :
    ed.get? key = t.listing.valueOf? key := by
  rw [Editor.get?, refines.find?]
  cases found : t.slotOf? key with
  | none => exact (Listing.valueOf?_eq_none_iff.2 (Table.slotOf?_eq_none_iff.1 found)).symm
  | some index =>
    rcases Table.split_of_slotOf? found with ⟨before, old, after, rfl, rfl⟩
    obtain ⟨entry, slot, held⟩ := refines.shows.exists_entry (p := ⟨key, old⟩)
      (Table.getElem?_split before after _)
    have listed : Listing.valueOf? (Table.listing (before ++ some ⟨key, old⟩ :: after)) key
        = some old := by
      rw [Listing.valueOf?_eq_some_iff refines.distinct, Table.listing_append]
      exact List.mem_append_right _ List.mem_cons_self
    rw [listed, Option.bind_eq_bind, Option.bind_some, slot]
    exact held.value.valueAt

/-- The value of a key is the one that it is listed with. -/
theorem get?_eq_some_iff (refines : ed.Refines t) (key : String) (v : Value) :
    ed.get? key = some v ↔ ⟨key, v⟩ ∈ ed.properties := by
  rw [refines.get?, Listing.valueOf?_eq_some_iff refines.distinct, refines.properties]

theorem isSome_get? (refines : ed.Refines t) (key : String) :
    (ed.get? key).isSome = ed.contains key := by
  rw [Bool.eq_iff_iff, refines.contains_iff, refines.get?, Option.isSome_iff_ne_none, ne_eq,
    Listing.valueOf?_eq_none_iff, not_not]

/-- There is a slot for one more property as long as fewer than sixteen are there. -/
theorem hasVacancy_iff (refines : ed.Refines t) :
    ed.slots.hasVacancy = true ↔ t.listing.length < maxProperties := by
  have short := refines.short
  have fewer := Table.length_listing_le t
  rw [Slots.hasVacancy_iff, refines.shows.mem_none_iff, refines.shows.length,
    ← Table.length_listing_lt_iff]
  omega

theorem length_place_le (refines : ed.Refines t) (vacant : t.listing.length < maxProperties)
    (p : Property) : (t.place p).length ≤ maxProperties := by
  rw [Slotted.length_place]
  split
  next => exact refines.short
  next full =>
    have filled := mt (Table.length_listing_lt_iff t).1 full
    omega

theorem fits_iff (refines : ed.Refines t) (size : Nat) :
    size ≤ ed.arena.remaining ↔ ed.arena.used + size ≤ ed.arena.budget := by
  have within := refines.within
  rw [Arena.remaining]
  omega

theorem contains_of_found (refines : ed.Refines t) {key : String} {index : Nat}
    (found : t.slotOf? key = some index) : ed.contains key = true := by
  rw [refines.contains_eq, found]
  rfl

theorem not_contains_of_fresh (refines : ed.Refines t) {key : String}
    (fresh : t.slotOf? key = none) : ¬ ed.contains key = true := by
  rw [refines.contains_eq, fresh]
  exact Bool.false_ne_true

theorem accepts_live_iff (refines : ed.Refines t) {p : Property} {index : Nat}
    (found : t.slotOf? p.key = some index) :
    ed.Accepts p ↔ p.value.payload.length ≤ ed.arena.remaining := by
  rw [Accepts, if_pos (refines.contains_of_found found)]

theorem accepts_new_iff (refines : ed.Refines t) {p : Property} (fresh : t.slotOf? p.key = none) :
    ed.Accepts p ↔ t.listing.length < maxProperties ∧ p.footprint ≤ ed.arena.remaining := by
  rw [Accepts, if_neg (refines.not_contains_of_fresh fresh), refines.count]

/-! ## Setting -/

/-- A key that is there gets its value in its slot. -/
theorem set_live (refines : ed.Refines t) {p : Property} {index : Nat}
    (found : t.slotOf? p.key = some index)
    (room : p.value.payload.length ≤ ed.arena.remaining) :
    ∃ next, ed.set p = (next, .ok ()) ∧ next.Refines (t.set index (some p))
      ∧ next.arena = ed.arena.stash p.value.payload := by
  have fits := (refines.fits_iff _).1 room
  have below := Arena.le_below fits
  have slot := (refines.find? p.key).trans found
  refine ⟨_, set_of_find? slot (Arena.fits_iff.2 fits), ?_, rfl⟩
  constructor
  case shows => exact (refines.shows.stash below).setValue found (Arena.represents_newest below)
  case within =>
    rw [Arena.used_stash below, Arena.budget_stash below]
    exact fits
  case short =>
    rw [List.length_set]
    exact refines.short
  case distinct => exact (Table.gains_set found).sets.nodup refines.distinct
  case charged =>
    have charged := refines.charged
    have grown := Table.footprint_set_le found
    rw [Arena.used_stash below]
    omega

/-- A new key gets the first vacant slot, or a new one. -/
theorem set_new (refines : ed.Refines t) {p : Property} (fresh : t.slotOf? p.key = none)
    (vacant : t.listing.length < maxProperties) (room : p.footprint ≤ ed.arena.remaining) :
    ∃ next, ed.set p = (next, .ok ()) ∧ next.Refines (t.place p)
      ∧ next.arena = ed.arena.stash p.copies := by
  have fits := (refines.fits_iff _).1 room
  have below := Arena.le_below fits
  have copied := Arena.stash_copies below
  have small : p.copies.length ≤ ed.arena.below.length := p.length_copies ▸ below
  have slot := (refines.find? p.key).trans fresh
  have vacancy := refines.hasVacancy_iff.2 vacant
  have unlisted := Table.slotOf?_eq_none_iff.1 fresh
  have sets := (Table.gains_place unlisted).sets
  refine ⟨_, set_of_hasVacancy slot vacancy (Arena.fits_iff.2 fits), ?_, copied⟩
  constructor
  case shows =>
    have shows := refines.shows.stash small
    rw [← copied] at shows
    exact shows.place (Arena.holds_newest below)
  case within =>
    rw [copied, Arena.used_stash small, Arena.budget_stash small, p.length_copies]
    exact fits
  case short => exact refines.length_place_le vacant p
  case distinct => exact sets.nodup refines.distinct
  case charged =>
    rw [copied, Arena.used_stash small, p.length_copies]
    exact Nat.le_trans sets.footprint_le (Nat.add_le_add_right refines.charged _)

/-- A property that is not accepted changes nothing. -/
theorem set_refused (refines : ed.Refines t) {p : Property} (refused : ¬ ed.Accepts p) :
    ed.set p = (ed, .error .exhausted) := by
  cases found : t.slotOf? p.key with
  | some index =>
    rw [refines.accepts_live_iff found, refines.fits_iff] at refused
    exact set_of_find?_of_lt ((refines.find? p.key).trans found) (Nat.lt_of_not_le refused)
  | none =>
    rw [refines.accepts_new_iff found, refines.fits_iff, not_and_or] at refused
    apply set_of_full ((refines.find? p.key).trans found)
    cases refused with
    | inl full => exact .inl (Bool.eq_false_iff.2 (mt refines.hasVacancy_iff.1 full))
    | inr large => exact .inr (Nat.lt_of_not_le large)

/-! ## Removing -/

/-- A key that is there leaves its slot vacant. -/
theorem remove_live (refines : ed.Refines t) {key : String} {index : Nat}
    (found : t.slotOf? key = some index) :
    (ed.remove key).Refines (t.set index none) ∧ (ed.remove key).arena = ed.arena := by
  have slot := (refines.find? key).trans found
  have removed : ed.remove key = { ed with slots := ed.slots.vacate index } := by
    rw [remove, slot]
  rcases Table.split_of_slotOf? found with ⟨before, old, after, rfl, rfl⟩
  have distinct := refines.distinct
  have charged := refines.charged
  simp only [Table.listing_append, Table.listing_cons_some, Listing.keys_append,
    Listing.keys_cons, Listing.footprint_append, Listing.footprint_cons] at distinct charged
  rw [removed]
  refine ⟨⟨refines.shows.vacate _, refines.within, ?_, ?_, ?_⟩, rfl⟩
  · rw [List.length_set]
    exact refines.short
  · rw [Table.set_split, Table.listing_append, Table.listing_cons_none, Listing.keys_append]
    rw [List.nodup_middle] at distinct
    exact (List.nodup_cons.1 distinct).2
  · apply Nat.le_trans _ charged
    rw [Table.set_split, Table.listing_append, Table.listing_cons_none, Listing.footprint_append]
    omega

/-- A key that is not there is no matter. -/
theorem remove_absent (refines : ed.Refines t) {key : String} (absent : t.slotOf? key = none) :
    ed.remove key = ed := by
  rw [remove, refines.find?, absent]

end Refines

end Editor

end PropertyRecord
