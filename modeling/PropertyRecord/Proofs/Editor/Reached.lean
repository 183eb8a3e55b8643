import PropertyRecord.Editor.Calls
import PropertyRecord.Proofs.Import.Opening

/-!
# The editors that calls can reach

An editor is coherent if it refines the table that its own slots show. An editor just opened is
coherent over whatever bytes it was opened, and every call leaves it so.

Main statements: `Coherent.setting` says all that setting a property can do, `Coherent.remove` what
removing one does, and `within_runFrom` that every editor reached is coherent.
-/

namespace PropertyRecord

namespace Editor

variable {ed : Editor} {t : Table}

/-- The editor refines what its slots show. -/
def Coherent (ed : Editor) : Prop := ed.Refines ed.table

theorem Refines.coherent (refines : ed.Refines t) : ed.Coherent := by
  rw [Coherent, refines.table_eq]
  exact refines

/-! ## Setting -/

/-- What setting a property can come to: all of it or nothing. -/
inductive Setting (ed : Editor) (p : Property) : Editor × Except Fault Unit → Prop where
  | accepted {next : Editor} (accepts : ed.Accepts p) (coherent : next.Coherent)
      (gains : Table.Gains p ed.table next.table)
      (used : next.arena.used = ed.arena.used + ed.charge p)
      (capacity : next.arena.capacity = ed.arena.capacity) : Setting ed p (next, .ok ())
  | refused (refused : ¬ ed.Accepts p) : Setting ed p (ed, .error .exhausted)

theorem Coherent.setting (coherent : ed.Coherent) (p : Property) : Setting ed p (ed.set p) := by
  by_cases accepts : ed.Accepts p
  · cases found : ed.table.slotOf? p.key with
    | some index =>
      have room := (coherent.accepts_live_iff found).1 accepts
      have below := Arena.le_below ((coherent.fits_iff _).1 room)
      rcases coherent.set_live found room with ⟨next, set, refines, arena⟩
      rw [set]
      apply Setting.accepted accepts refines.coherent
      case gains =>
        rw [refines.table_eq]
        exact Table.gains_set found
      case used =>
        rw [arena, Arena.used_stash below, charge, if_pos (coherent.contains_of_found found)]
      case capacity => rw [arena, Arena.capacity_stash below]
    | none =>
      have ⟨vacant, room⟩ := (coherent.accepts_new_iff found).1 accepts
      have below := Arena.le_below ((coherent.fits_iff _).1 room)
      have small : p.copies.length ≤ ed.arena.below.length := p.length_copies ▸ below
      rcases coherent.set_new found vacant room with ⟨next, set, refines, arena⟩
      rw [set]
      apply Setting.accepted accepts refines.coherent
      case gains =>
        rw [refines.table_eq]
        exact Table.gains_place (Table.slotOf?_eq_none_iff.1 found)
      case used =>
        rw [arena, Arena.used_stash small, p.length_copies, charge,
          if_neg (coherent.not_contains_of_fresh found)]
      case capacity => rw [arena, Arena.capacity_stash small]
  · rw [coherent.set_refused accepts]
    exact .refused accepts

/-! ## Removing -/

theorem Coherent.remove (coherent : ed.Coherent) (key : String) :
    (ed.remove key).Coherent ∧ (ed.remove key).table = ed.table.without key
      ∧ (ed.remove key).arena = ed.arena := by
  cases found : ed.table.slotOf? key with
  | some index =>
    rcases coherent.remove_live found with ⟨refines, arena⟩
    refine ⟨refines.coherent, ?_, arena⟩
    rw [refines.table_eq, Table.set_none coherent.distinct found]
  | none =>
    rw [coherent.remove_absent found,
      Table.without_of_notMem (Table.slotOf?_eq_none_iff.1 found)]
    exact ⟨coherent, rfl, rfl⟩

/-! ## Runs -/

/-- A coherent editor in a buffer of a known length. -/
structure Within (capacity : Nat) (ed : Editor) : Prop where
  coherent : ed.Coherent
  capacity : ed.arena.capacity = capacity

theorem within_openOver (buffer : Bytes) (existing : Nat) :
    (openOver buffer existing).editor.Within buffer.length :=
  ⟨(opens_openOver buffer existing).refines.coherent, (opens_openOver buffer existing).capacity⟩

/-- Every call leaves an editor coherent, whether or not it succeeds. -/
theorem Within.step {capacity : Nat} (within : ed.Within capacity) (record : String) (call : Call) :
    (step record ed call).2.Within capacity := by
  cases call with
  | set p =>
    have setting := within.coherent.setting p
    rw [Editor.step]
    generalize ed.set p = result at setting ⊢
    cases setting with
    | accepted _ coherent _ _ kept => exact ⟨coherent, kept.trans within.capacity⟩
    | refused => exact within
  | remove key =>
    rcases within.coherent.remove key with ⟨coherent, -, arena⟩
    exact ⟨coherent, arena ▸ within.capacity⟩
  | get | contains | list | describe => exact within

theorem within_runFrom (buffer : Bytes) (existing : Nat) (record : String) (calls : List Call) :
    (runFrom (step record) (openOver buffer existing).editor calls).Within buffer.length :=
  runFrom_induction (fun _ call within => within.step record call) (within_openOver buffer existing)
    calls

end Editor

end PropertyRecord
