import PropertyRecord.Proofs.Editor.Reached

/-!
# The editor as a bounded map

Whatever an editor was opened over and whatever calls were made on it, it is a map of at most
sixteen keys in the order of its slots. A call either does to the map what it says or does nothing,
and over a run a key has the value that the latest call to bear on it has left.

Main statement: `boundedMap_runFrom`.
-/

namespace PropertyRecord

namespace Editor

variable {ed next : Editor}

/-! ## What one call does to the map -/

/-- What a set that succeeds does. -/
structure HasSet (ed : Editor) (p : Property) (next : Editor) : Prop where
  value : next.get? p.key = some p.value
  others : ∀ key, key ≠ p.key → next.get? key = ed.get? key
  order : Table.Gains p ed.table next.table
  properties : Listing.Sets p ed.properties next.properties
  used : next.arena.used = ed.arena.used + ed.charge p

/-- What a removal does. -/
structure HasRemoved (ed : Editor) (key : String) (next : Editor) : Prop where
  value : next.get? key = none
  others : ∀ other, other ≠ key → next.get? other = ed.get? other
  order : next.table = ed.table.without key
  properties : next.properties = ed.properties.filter fun p => p.key ≠ key
  arena : next.arena = ed.arena

/-- Gaining a property in one's table is setting it in the map. -/
theorem hasSet_of_gains {p : Property} (before : ed.Coherent) (after : next.Coherent)
    (gains : Table.Gains p ed.table next.table)
    (used : next.arena.used = ed.arena.used + ed.charge p) : ed.HasSet p next where
  value := by
    rw [after.get?]
    exact gains.sets.valueOf?_self before.distinct
  others key apart := by
    rw [after.get?, before.get?]
    exact gains.sets.valueOf?_of_ne before.distinct apart
  order := gains
  properties := by
    rw [properties_eq_listing, properties_eq_listing]
    exact gains.sets
  used := used

theorem Coherent.hasSet {p : Property} (coherent : ed.Coherent) (accepts : ed.Accepts p) :
    (ed.set p).2 = .ok () ∧ ed.HasSet p (ed.set p).1 := by
  have setting := coherent.setting p
  generalize ed.set p = result at setting ⊢
  cases setting with
  | accepted _ after gains used => exact ⟨rfl, hasSet_of_gains coherent after gains used⟩
  | refused refused => exact absurd accepts refused

theorem Coherent.hasRemoved (coherent : ed.Coherent) (key : String) :
    ed.HasRemoved key (ed.remove key) := by
  rcases coherent.remove key with ⟨after, table, arena⟩
  constructor
  case value =>
    rw [after.get?, table, Table.listing_without]
    exact Listing.valueOf?_filter_self _ key
  case others =>
    intro other apart
    rw [after.get?, coherent.get?, table, Table.listing_without]
    exact Listing.valueOf?_filter_of_ne _ apart
  case order => exact table
  case properties =>
    rw [properties_eq_listing, properties_eq_listing, table, Table.listing_without]
  case arena => exact arena

/-! ## What a run does to a key -/

/-- The calls of a run with their answers. -/
def history (record : String) (ed : Editor) (calls : List Call) :
    List (Call × Except Fault Answer) :=
  calls.zip ((trace (step record) gauge ed calls).1.map Prod.fst)

/-- What a call leaves of a key, if the call bears on it: a set that succeeded leaves its value, and
a removal nothing. -/
def effect (key : String) : Call × Except Fault Answer → Option (Option Value)
  | (.set p, .ok _) => if p.key = key then some (some p.value) else none
  | (.remove removed, _) => if removed = key then some none else none
  | _ => none

/-- What the latest call to bear on a key has left of it. -/
def latest (key : String) (history : List (Call × Except Fault Answer)) : Option (Option Value) :=
  history.reverse.findSome? (effect key)

theorem history_cons (record : String) (ed : Editor) (call : Call) (calls : List Call) :
    history record ed (call :: calls)
      = (call, (step record ed call).1) :: history record (step record ed call).2 calls := rfl

theorem latest_cons (key : String) (first : Call × Except Fault Answer)
    (rest : List (Call × Except Fault Answer)) :
    latest key (first :: rest) = (latest key rest).or (effect key first) := by
  rw [latest, List.reverse_cons, List.findSome?_append, List.findSome?_singleton, latest]

/-- A call leaves of a key what it says, and otherwise what there was. -/
theorem Coherent.get?_step (coherent : ed.Coherent) (record : String) (call : Call)
    (key : String) :
    (step record ed call).2.get? key
      = (effect key (call, (step record ed call).1)).getD (ed.get? key) := by
  cases call with
  | set p =>
    have setting := coherent.setting p
    rw [step]
    generalize ed.set p = result at setting ⊢
    cases setting with
    | refused => rfl
    | accepted _ after gains used =>
      have set := hasSet_of_gains coherent after gains used
      by_cases same : p.key = key
      · rw [← same]
        simp only [effect, Except.map, if_true, Option.getD_some]
        exact set.value
      · simp only [effect, Except.map, same, if_false, Option.getD_none]
        exact set.others key (Ne.symm same)
  | remove removed =>
    have gone := coherent.hasRemoved removed
    by_cases same : removed = key
    · rw [← same]
      simp only [step, effect, if_true, Option.getD_some]
      exact gone.value
    · simp only [step, effect, same, if_false, Option.getD_none]
      exact gone.others key (Ne.symm same)
  | get | contains | list | describe => rfl

theorem Within.get?_runFrom {capacity : Nat} (within : ed.Within capacity) (record : String)
    (calls : List Call) (key : String) :
    (runFrom (Editor.step record) ed calls).get? key
      = (latest key (history record ed calls)).getD (ed.get? key) := by
  induction calls generalizing ed with
  | nil => rfl
  | cons call calls ih =>
    -- What the first call left counts only if no later call bears on the key.
    rw [runFrom_cons, ih (within.step record call), within.coherent.get?_step, history_cons,
      latest_cons]
    cases latest key (history record (Editor.step record ed call).2 calls) with
    | none => rfl
    | some => rfl

/-- An editor is a bounded ordered map: it has at most sixteen keys in half of its buffer, a set
does all that it should exactly if there is room and otherwise nothing, a removal cannot fail and
gives back no bytes, and over any run a key keeps the value that was set last or imported. -/
theorem boundedMap_runFrom (buffer : Bytes) (existing : Nat) (record : String)
    (calls : List Call) :
    let start := (openOver buffer existing).editor
    let ed := runFrom (step record) start calls
    (ed.count ≤ maxProperties ∧ ed.arena.used + ed.arena.remaining = buffer.length / 2)
      ∧ (∀ key, (ed.contains key = true ↔ key ∈ Listing.keys ed.properties)
          ∧ ed.get? key = Listing.valueOf? ed.properties key)
      ∧ (∀ p, ((ed.set p).2 = .ok () ↔ ed.Accepts p)
          ∧ (ed.Accepts p → ed.HasSet p (ed.set p).1)
          ∧ (¬ ed.Accepts p → ed.set p = (ed, .error .exhausted)))
      ∧ (∀ key, step record ed (.remove key) = (.ok .done, ed.remove key)
          ∧ ed.HasRemoved key (ed.remove key))
      ∧ ∀ key, ed.get? key = (latest key (history record start calls)).getD
          (Listing.valueOf? start.properties key) := by
  intro start ed
  have opened : start.Within buffer.length := within_openOver buffer existing
  have within : ed.Within buffer.length := within_runFrom buffer existing record calls
  have coherent := within.coherent
  refine ⟨⟨?_, ?_⟩, ?_, ?_, ?_, ?_⟩
  · rw [coherent.count]
    exact Nat.le_trans (Table.length_listing_le ed.table) coherent.short
  · have half := coherent.within
    rw [Arena.budget, within.capacity] at half
    rw [Arena.remaining, Arena.budget, within.capacity, Nat.add_sub_cancel' half]
  · intro key
    rw [coherent.contains_iff, coherent.get?, properties_eq_listing]
    exact ⟨Iff.rfl, rfl⟩
  · intro p
    refine ⟨⟨?_, fun accepts => (coherent.hasSet accepts).1⟩,
      fun accepts => (coherent.hasSet accepts).2, coherent.set_refused⟩
    intro done
    by_contra refused
    rw [coherent.set_refused refused] at done
    cases done
  · intro key
    exact ⟨rfl, coherent.hasRemoved key⟩
  · intro key
    rw [opened.get?_runFrom, opened.coherent.get?, properties_eq_listing]

end Editor

end PropertyRecord
