import PropertyRecord.Editor.Slotted
import PropertyRecord.Proofs.Listing

/-!
# Tables

A table is what the slots of an editor show: in each slot a property, or nothing. It is the state
of the editor without the arena, and the operations of the editor are operations on it: a property
replaces the one with its key, takes the first vacant slot or a new one, or leaves its slot vacant.

Main statements: `gains_set` and `gains_place`, both ways to set a property are ways to gain it, and
`Gains.sets`, gaining a property sets its key in the listing and touches nothing else.
-/

namespace PropertyRecord

/-- The slots of an editor with the properties that they show. A vacant slot is `none`. -/
abbrev Table := Slotted Property

namespace Table

/-- The properties in the order of their slots. -/
def listing (t : Table) : Listing := t.filterMap id

/-- The first slot with a key. -/
def slotOf? (t : Table) (key : String) : Option Nat :=
  t.findIdx? fun slot => slot.any fun p => p.key == key

@[simp] theorem listing_append (t u : Table) : listing (t ++ u) = listing t ++ listing u :=
  List.filterMap_append

@[simp] theorem listing_cons_none (t : Table) : listing (none :: t) = listing t := rfl

@[simp] theorem listing_cons_some (p : Property) (t : Table) :
    listing (some p :: t) = p :: listing t := rfl

/-- A listing that fills a table without vacant slots. -/
theorem listing_map_some (ps : Listing) : listing (ps.map some) = ps := by
  simp only [listing, List.filterMap_map, Function.id_comp, List.filterMap_some]

theorem length_listing_le (t : Table) : (listing t).length ≤ t.length :=
  List.length_filterMap_le id t

/-- Only vacant slots make a table longer than its listing. -/
theorem length_listing_lt_iff (t : Table) : (listing t).length < t.length ↔ none ∈ t := by
  induction t with
  | nil => simp [listing]
  | cons slot t ih =>
    cases slot with
    | none =>
      have short := length_listing_le t
      simp only [listing_cons_none, List.length_cons, List.mem_cons, true_or, iff_true]
      omega
    | some p =>
      simp only [listing_cons_some, List.length_cons, List.mem_cons, reduceCtorEq, false_or, ← ih]
      omega

/-! ## Finding a slot -/

theorem slotOf?_eq_none_iff {t : Table} {key : String} :
    t.slotOf? key = none ↔ key ∉ t.listing.keys := by
  induction t with
  | nil => simp [slotOf?, listing, Listing.keys]
  | cons slot t ih =>
    cases slot with
    | none => simpa [slotOf?, List.findIdx?_cons] using ih
    | some p =>
      by_cases same : p.key = key
      · simp [slotOf?, List.findIdx?_cons, same]
      · have found : slotOf? (some p :: t) key = (slotOf? t key).map (· + 1) := by
          simp [slotOf?, List.findIdx?_cons, same]
        simp [found, ih, Ne.symm same]

/-- The slot of a key divides the table. -/
theorem split_of_slotOf? {t : Table} {key : String} {index : Nat}
    (found : t.slotOf? key = some index) :
    ∃ (before : Table) (old : Value) (after : Table),
      t = before ++ some ⟨key, old⟩ :: after ∧ before.length = index := by
  induction t generalizing index with
  | nil => simp [slotOf?] at found
  | cons slot t ih =>
    by_cases here : slot.any fun p => p.key == key
    · cases slot with
      | none => contradiction
      | some p =>
        have first : slotOf? (some p :: t) key = some 0 := by
          rw [slotOf?, List.findIdx?_cons, if_pos here]
        obtain rfl : 0 = index := Option.some.inj (first.symm.trans found)
        have named : p.key = key := eq_of_beq here
        refine ⟨[], p.value, t, ?_, rfl⟩
        rw [← named]
        rfl
    · rw [slotOf?, List.findIdx?_cons, if_neg here, Option.map_eq_some_iff] at found
      rcases found with ⟨later, foundLater, rfl⟩
      rcases ih foundLater with ⟨before, old, after, rfl, rfl⟩
      exact ⟨slot :: before, old, after, rfl, rfl⟩

/-- As keys are distinct, a key is in one slot at most. -/
theorem index_unique {t : Table} (distinct : t.listing.keys.Nodup) {i j : Nat} {p q : Property}
    (first : t[i]? = some (some p)) (second : t[j]? = some (some q)) (same : p.key = q.key) :
    i = j := by
  have apart : t.Pairwise fun slot other =>
      ∀ p, slot = some p → ∀ q, other = some q → p.key ≠ q.key := by
    rw [List.Nodup, Listing.keys, List.pairwise_map, listing, List.pairwise_filterMap] at distinct
    exact distinct
  rw [List.pairwise_iff_getElem] at apart
  rcases List.getElem?_eq_some_iff.1 first with ⟨here, at_i⟩
  rcases List.getElem?_eq_some_iff.1 second with ⟨there, at_j⟩
  rcases Nat.lt_trichotomy i j with before | equal | after
  · exact absurd same (apart i j here there before p at_i q at_j)
  · exact equal
  · exact absurd same.symm (apart j i there here after q at_j p at_i)

/-! ## Setting a property -/

theorem set_split (before after : Table) (slot new : Option Property) :
    (before ++ slot :: after).set before.length new = before ++ new :: after := by
  rw [List.set_append_right _ _ (Nat.le_refl _), Nat.sub_self, List.set_cons_zero]

theorem getElem?_split (before after : Table) (slot : Option Property) :
    (before ++ slot :: after)[before.length]? = some slot := by
  rw [List.getElem?_append_right (Nat.le_refl _), Nat.sub_self, List.getElem?_cons_zero]

/-- The second table is the first one with a property set: in the slot of its key or, if there is
none, in the first vacant slot or, if there is none either, in a new slot at the end. -/
inductive Gains (p : Property) : Table → Table → Prop where
  | replaced (before after : Table) (old : Value) :
      Gains p (before ++ some ⟨p.key, old⟩ :: after) (before ++ some p :: after)
  | filled (before after : Table) (fresh : p.key ∉ (listing (before ++ none :: after)).keys)
      (first : none ∉ before) : Gains p (before ++ none :: after) (before ++ some p :: after)
  | appended (t : Table) (fresh : p.key ∉ t.listing.keys) (full : none ∉ t) :
      Gains p t (t ++ [some p])

theorem Gains.sets {p : Property} {t u : Table} (gains : Gains p t u) :
    Listing.Sets p t.listing u.listing := by
  cases gains with
  | replaced before after old =>
    rw [listing_append, listing_append]
    exact .replaced (listing before) (listing after) old
  | filled before after fresh =>
    rw [listing_append, listing_cons_none] at fresh ⊢
    rw [listing_append]
    exact .inserted (listing before) (listing after) fresh
  | appended t fresh =>
    rw [listing_append]
    have inserted := Listing.Sets.inserted t.listing [] (by rwa [List.append_nil])
    rwa [List.append_nil] at inserted

theorem gains_set {t : Table} {p : Property} {index : Nat} (found : t.slotOf? p.key = some index) :
    Gains p t (t.set index (some p)) := by
  rcases split_of_slotOf? found with ⟨before, old, after, rfl, rfl⟩
  rw [set_split]
  exact .replaced before after old

/-- A property that replaces another one of its key is charged for its payload alone. -/
theorem footprint_set_le {t : Table} {p : Property} {index : Nat}
    (found : t.slotOf? p.key = some index) :
    (listing (t.set index (some p))).footprint
      ≤ t.listing.footprint + p.value.payload.length := by
  rcases split_of_slotOf? found with ⟨before, old, after, rfl, rfl⟩
  rw [set_split]
  simp only [listing_append, listing_cons_some, Listing.footprint_append, Listing.footprint_cons,
    Property.footprint]
  omega

theorem gains_place {t : Table} {p : Property} (fresh : p.key ∉ t.listing.keys) :
    Gains p t (t.place p) := by
  rcases Slotted.place_split p t with ⟨before, after, rfl, first, placed⟩ | ⟨full, placed⟩
  · rw [placed]
    exact .filled before after fresh first
  · rw [placed]
    exact .appended t fresh full

/-! ## Removing a property -/

/-- The table with the slots of a key made vacant. -/
def without (key : String) (t : Table) : Table := t.map (Option.filter fun p => p.key ≠ key)

theorem listing_without (key : String) (t : Table) :
    listing (without key t) = t.listing.filter fun p => p.key ≠ key := by
  induction t with
  | nil => rfl
  | cons slot t ih =>
    cases slot with
    | none => exact ih
    | some p =>
      rw [listing_cons_some, List.filter_cons, ← ih, without, List.map_cons, Option.filter_some]
      split <;> rfl

/-- A table in which no property has the key. -/
theorem without_of_notMem {t : Table} {key : String} (absent : key ∉ t.listing.keys) :
    without key t = t := by
  induction t with
  | nil => rfl
  | cons slot t ih =>
    cases slot with
    | none => exact congrArg (none :: ·) (ih absent)
    | some p =>
      simp only [listing_cons_some, Listing.keys_cons, List.mem_cons, not_or] at absent
      rw [without, List.map_cons, Option.filter_some, if_pos (by simpa using Ne.symm absent.1)]
      exact congrArg (some p :: ·) (ih absent.2)

/-- As keys are distinct, only one slot becomes vacant. -/
theorem set_none {t : Table} {key : String} {index : Nat} (distinct : t.listing.keys.Nodup)
    (found : t.slotOf? key = some index) : t.set index none = without key t := by
  rcases split_of_slotOf? found with ⟨before, old, after, rfl, rfl⟩
  rw [listing_append, listing_cons_some, Listing.keys_append, Listing.keys_cons,
    List.nodup_middle, List.nodup_cons, List.mem_append, not_or] at distinct
  rcases distinct with ⟨⟨unlike, apart⟩, -⟩
  have kept := without_of_notMem unlike
  have left := without_of_notMem apart
  simp only [without] at kept left ⊢
  rw [set_split, List.map_append, List.map_cons, kept, left, Option.filter_some_neg (by simp)]

/-! ## Tables without vacant slots -/

theorem set_map_some {ps : Listing} {p : Property} {index : Nat}
    (found : slotOf? (ps.map some) p.key = some index) :
    (ps.map some).set index (some p) = (Listing.put p ps).map some := by
  induction ps generalizing index with
  | nil => contradiction
  | cons q ps ih =>
    rw [List.map_cons, slotOf?, List.findIdx?_cons] at found
    by_cases same : q.key = p.key
    · rw [if_pos (by simpa using same)] at found
      cases found
      rw [Listing.put, if_pos same]
      rfl
    · rw [if_neg (by simpa using same), Option.map_eq_some_iff] at found
      rcases found with ⟨later, foundLater, rfl⟩
      rw [Listing.put, if_neg same, List.map_cons, List.set_cons_succ, ih foundLater,
        List.map_cons]

end Table

end PropertyRecord
