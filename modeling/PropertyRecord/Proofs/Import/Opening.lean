import PropertyRecord.Proofs.Import.Pair

/-!
# Imports as walks

An import is the walk over the record, with every imported pair copied to the arena and its key
looked up among the copies. No slot becomes vacant while pairs are imported, so the table is the
merged listing of the pairs, without a gap.

Main statement: `opens_openOver`, what an editor just opened shows and what it has handed out.
-/

namespace PropertyRecord

namespace Editor

variable {ed : Editor} {limit : Nat} {imported : Listing} {r next : Reader}

/-- Bytes set aside within the budget are no matter to the table. -/
theorem Refines.stash {t : Table} {bytes : Bytes} (refines : ed.Refines t)
    (room : ed.arena.used + bytes.length ≤ ed.arena.budget) :
    Refines { ed with arena := ed.arena.stash bytes } t := by
  have below := Arena.le_below room
  constructor
  case shows => exact refines.shows.stash below
  case within =>
    rw [Arena.used_stash below, Arena.budget_stash below]
    exact room
  case short => exact refines.short
  case distinct => exact refines.distinct
  case charged =>
    rw [Arena.used_stash below]
    exact Nat.le_add_right_of_le refines.charged

/-- A property whose key and payload are in the arena goes to the slot of its key, or to the end.
-/
theorem refines_assign {a : Arena} {slots : Slots} {ps : Listing} {p : Property} {key : Span}
    {stored : Stored} (shows : a.Shows slots (ps.map some)) (kept : a.Keeps key (utf8 p.key))
    (represents : a.Represents stored p.value) (short : ps.length < maxProperties)
    (distinct : (Listing.keys ps).Nodup) (charged : Listing.footprint ps + p.footprint ≤ a.used)
    (within : a.used ≤ a.budget) :
    (assign ⟨a, slots⟩ key stored).Refines ((Listing.put p ps).map some)
      ∧ (assign ⟨a, slots⟩ key stored).arena = a := by
  have slot : find? ⟨a, slots⟩ (a.bytesAt key) = Table.slotOf? (ps.map some) p.key := by
    rw [kept.content]
    exact shows.findIdx? p.key
  have sets := Listing.sets_put p ps
  have longer := sets.length_le
  have refines : ∀ next : Slots, a.Shows next ((Listing.put p ps).map some) →
      Refines ⟨a, next⟩ ((Listing.put p ps).map some) := by
    intro next shown
    refine ⟨shown, within, ?_, ?_, ?_⟩
    · rw [List.length_map]
      omega
    · rw [Table.listing_map_some]
      exact sets.nodup distinct
    · rw [Table.listing_map_some]
      exact Nat.le_trans sets.footprint_le charged
  cases found : Table.slotOf? (ps.map some) p.key with
  | some index =>
    have assigned : assign ⟨a, slots⟩ key stored = ⟨a, slots.setValue index stored⟩ := by
      rw [assign, slot, found]
    have shown := shows.setValue found represents
    rw [Table.set_map_some found] at shown
    rw [assigned]
    exact ⟨refines _ shown, rfl⟩
  | none =>
    have assigned : assign ⟨a, slots⟩ key stored = ⟨a, slots.place ⟨key, stored⟩⟩ := by
      rw [assign, slot, found]
    have fresh := Table.slotOf?_eq_none_iff.1 found
    rw [Table.listing_map_some] at fresh
    have held : a.Holds ⟨key, stored⟩ p := ⟨kept, represents⟩
    have shown := shows.place held
    rw [Slotted.place_map_some, ← Listing.put_of_notMem fresh] at shown
    rw [assigned]
    exact ⟨refines _ shown, rfl⟩

/-! ## The loop -/

/-- Between the pairs of an import the editor shows the pairs imported so far, merged, and has
handed out their bytes. -/
structure Imports (ed : Editor) (limit : Nat) (imported : Listing) : Prop where
  refines : ed.Refines ((Listing.merge imported).map some)
  charged : ed.arena.used = Listing.footprint imported
  within : ed.arena.used ≤ limit
  half : limit ≤ ed.arena.budget

namespace Imports

theorem length (imports : ed.Imports limit imported) :
    ed.slots.length = (Listing.merge imported).length := by
  rw [imports.refines.shows.length, List.length_map]

/-- A pair that fits is one more imported pair. -/
theorem importPair_ok {p : Property} (imports : ed.Imports limit imported)
    (short : (Listing.merge imported).length < maxProperties) (found : r.pair = .ok (some p, next))
    (fits : Listing.footprint imported + p.footprint ≤ limit) :
    (ed.importPair limit r).editor.Imports limit (imported ++ [p])
      ∧ (ed.importPair limit r).next = .ok next
      ∧ (ed.importPair limit r).editor.arena.capacity = ed.arena.capacity := by
  have half := imports.half
  have charged := imports.charged
  have refines := imports.refines
  have room : ed.arena.used + p.footprint ≤ limit := charged ▸ fits
  rcases Editor.importPair_ok half found room with ⟨editor, passed⟩
  have below := Arena.le_below (Nat.le_trans room half)
  have copied := Arena.stash_copies below
  have small : p.copies.length ≤ ed.arena.below.length := p.length_copies ▸ below
  have used := Arena.used_stash small
  have budget := Arena.budget_stash small
  rw [p.length_copies] at used
  have distinct := refines.distinct
  have listed := refines.charged
  rw [Table.listing_map_some] at distinct listed
  have held := Arena.holds_newest below
  simp only [copied] at held editor
  obtain ⟨assigned, arena⟩ := refines_assign (refines.shows.stash small) held.key held.value short
    distinct (by rw [used]; omega) (by rw [used, budget]; omega)
  rw [editor, passed]
  refine ⟨⟨?_, ?_, ?_, ?_⟩, rfl, ?_⟩
  · rw [Listing.merge_concat]
    exact assigned
  · rw [arena, used, charged, Listing.footprint_append, Listing.footprint_cons]
    rfl
  · rw [arena, used]
    exact room
  · rw [arena, budget]
    exact half
  · rw [arena, Arena.capacity_stash small]

end Imports

/-- What an import comes to, compared with a walk. -/
structure Opens (ed : Editor) (walk : Walk) (capacity : Nat) : Prop where
  refines : ed.Refines (walk.properties.map some)
  charged : ed.arena.used = Listing.footprint walk.imported + walk.lost
  capacity : ed.arena.capacity = capacity

theorem Imports.opens (imports : ed.Imports limit imported) :
    ed.Opens ⟨imported, 0⟩ ed.arena.capacity := ⟨imports.refines, imports.charged, rfl⟩

/-- The pair that ends an import may cost space in the arena, and nothing else. -/
theorem Imports.opens_stash {bytes : Bytes} {lost : Nat} (imports : ed.Imports limit imported)
    (length : bytes.length = lost) (fits : ed.arena.used + lost ≤ limit) :
    Opens { ed with arena := ed.arena.stash bytes } ⟨imported, lost⟩ ed.arena.capacity := by
  have room : ed.arena.used + bytes.length ≤ ed.arena.budget :=
    length ▸ Nat.le_trans fits imports.half
  have below := Arena.le_below room
  refine ⟨imports.refines.stash room, ?_, Arena.capacity_stash below⟩
  rw [Arena.used_stash below, imports.charged, length]

/-- The loop of an import is the walk. -/
theorem Imports.opens_importPairs (imports : ed.Imports limit imported) (count : Nat) (r : Reader)
    (foreign : List Nat) :
    (importPairs limit count r ed foreign).editor.Opens (Walk.ofPairs limit count r imported)
      ed.arena.capacity := by
  -- On the announced count, for every editor between two pairs: the invariant carries it.
  induction count generalizing r ed imported foreign with
  | zero => exact imports.opens
  | succ count ih =>
    rw [importPairs, imports.length, Walk.ofPairs]
    by_cases full : maxProperties ≤ (Listing.merge imported).length
    · rw [if_pos full, if_pos full]
      exact imports.opens
    · rw [if_neg full, if_neg full]
      -- A pair that ends the import does so for the walk, and costs what the walk says.
      have ended (refused : r.Refused limit (Listing.footprint imported)) :
          Opens (importPairs limit (count + 1) r ed foreign).editor
            ⟨imported, r.lost limit (Listing.footprint imported)⟩ ed.arena.capacity := by
        rw [← imports.charged] at refused ⊢
        rcases importPair_error imports.half refused with ⟨bytes, fault, length, editor, stopped⟩
        rw [importPairs, imports.length, if_neg full]
        simp only [stopped, editor]
        exact imports.opens_stash length (r.lost_le limit imports.within)
      rw [importPairs, imports.length, if_neg full] at ended
      cases paired : r.pair with
      | error fault => exact ended (Reader.refused_of_error paired)
      | ok result =>
        rcases result with ⟨found, next⟩
        cases found with
        | none =>
          rcases importPair_foreign ed limit paired with ⟨editor, passed⟩
          simp only [passed, editor]
          exact ih imports next _
        | some p =>
          by_cases fits : Listing.footprint imported + p.footprint ≤ limit
          · obtain ⟨imports', passed, capacity⟩ :=
              imports.importPair_ok (Nat.lt_of_not_le full) paired fits
            simp only [passed, fits, if_true]
            rw [← capacity]
            exact ih imports' next _
          · simp only [fits, if_false]
            exact ended (Reader.refused_of_large paired fits)

/-! ## Opening -/

theorem imports_empty {buffer : Bytes} (half : limit ≤ buffer.length / 2) :
    (empty buffer).Imports limit [] := by
  have capacity : (Arena.ofBuffer buffer).capacity = buffer.length := by
    simp [Arena.ofBuffer, Arena.capacity]
  refine ⟨⟨.nil, Nat.zero_le _, Nat.zero_le _, List.nodup_nil, Nat.le_refl _⟩, rfl,
    Nat.zero_le _, ?_⟩
  rw [empty, Arena.budget, capacity]
  exact half

/-- An import may copy what the walk may. -/
theorem importLimit_eq (buffer : Bytes) (existing : Nat) :
    importLimit buffer (min existing buffer.length)
      = Walk.limit buffer.length (buffer.take (min existing buffer.length)) := by
  have held : (buffer.take (min existing buffer.length)).length = min existing buffer.length :=
    List.length_take_of_le (Nat.min_le_right _ _)
  rw [importLimit, Walk.limit, held]

/-- An editor just opened is what the walk over the record comes to. -/
theorem opens_openOver (buffer : Bytes) (existing : Nat) :
    (openOver buffer existing).editor.Opens
      (Walk.ofRecord buffer.length (buffer.take (min existing buffer.length))) buffer.length := by
  have capacity : (empty buffer).arena.capacity = buffer.length := by
    simp [empty, Arena.ofBuffer, Arena.capacity]
  have start : (empty buffer).Imports (importLimit buffer (min existing buffer.length)) [] :=
    imports_empty (Nat.min_le_left _ _)
  have opens := start.opens
  rw [capacity] at opens
  rw [openOver, Walk.ofRecord, ← importLimit_eq]
  by_cases nothing : min existing buffer.length = 0
  · simp only [nothing, if_true]
    exact opens
  · simp only [nothing, if_false]
    cases header : (Reader.ofBytes (buffer.take (min existing buffer.length))).readMapHeader with
    | error fault => exact opens
    | ok announced =>
      have walked := start.opens_importPairs announced.1 announced.2 []
      rw [capacity] at walked
      exact walked

/-- A record at the front of a buffer. -/
theorem opens_openOver_append (record rest : Bytes) :
    (openOver (record ++ rest) record.length).editor.Opens
      (Walk.ofRecord (record ++ rest).length record) (record ++ rest).length := by
  have opens := opens_openOver (record ++ rest) record.length
  have held : min record.length (record ++ rest).length = record.length := by
    rw [List.length_append, Nat.min_eq_left (Nat.le_add_right _ _)]
  rwa [held, List.take_left] at opens

end Editor

end PropertyRecord
