/-!
# Lists with vacant slots

The slots of an editor, whatever is in them: a slot is taken, or it is vacant. Slots never move. The
first vacant one is taken next, and only where there is none the list grows.

Main statements: `place_eq` and `place_split`, where a new item goes.
-/

namespace PropertyRecord

/-- Slots in their order. A vacant slot is `none`. -/
abbrev Slotted (α : Type) := List (Option α)

namespace Slotted

variable {α : Type}

/-- Puts an item into the first vacant slot, or into a new one at the end. -/
def place (a : α) : Slotted α → Slotted α
  | [] => [some a]
  | none :: slots => some a :: slots
  | some other :: slots => some other :: place a slots

theorem place_eq (a : α) (slots : Slotted α) :
    slots.place a = match slots.findIdx? Option.isNone with
      | some index => slots.set index (some a)
      | none => slots ++ [some a] := by
  induction slots with
  | nil => rfl
  | cons slot slots ih =>
    cases slot with
    | none => rfl
    | some other =>
      rw [place, ih, List.findIdx?_cons]
      cases slots.findIdx? Option.isNone <;> rfl

/-- The first vacant slot divides the others, if there is one. -/
theorem place_split (a : α) (slots : Slotted α) :
    (∃ before after : Slotted α, slots = before ++ none :: after ∧ none ∉ before
        ∧ slots.place a = before ++ some a :: after)
      ∨ (none ∉ slots ∧ slots.place a = slots ++ [some a]) := by
  induction slots with
  | nil => exact .inr ⟨List.not_mem_nil, rfl⟩
  | cons slot slots ih =>
    cases slot with
    | none => exact .inl ⟨[], slots, rfl, List.not_mem_nil, rfl⟩
    | some other =>
      cases ih with
      | inl vacant =>
        rcases vacant with ⟨before, after, split, first, placed⟩
        refine .inl ⟨some other :: before, after, ?_, ?_, ?_⟩
        · rw [split, List.cons_append]
        · simpa using first
        · rw [place, placed, List.cons_append]
      | inr full =>
        refine .inr ⟨?_, ?_⟩
        · simpa using full.1
        · rw [place, full.2, List.cons_append]

theorem length_place [DecidableEq α] (a : α) (slots : Slotted α) :
    (slots.place a).length = if none ∈ slots then slots.length else slots.length + 1 := by
  cases place_split a slots with
  | inl vacant =>
    rcases vacant with ⟨before, after, rfl, -, placed⟩
    simp [placed]
  | inr full => simp [full]

/-- Without vacant slots there is only the end. -/
theorem place_map_some (a : α) (items : List α) :
    place a (items.map some) = (items ++ [a]).map some := by
  induction items with
  | nil => rfl
  | cons item items ih => rw [List.map_cons, place, ih, List.cons_append, List.map_cons]

end Slotted

end PropertyRecord
