import Mathlib.Data.List.Induction
import Mathlib.Data.List.Nodup
import PropertyRecord.Wire.Canonical

/-!
# Listings

A listing is the list of properties that an editor shows, in the order of its slots. This module has
the two ways to change one: giving a key a value, and merging the pairs of a record, of which a
later one replaces the value of an earlier one with the same key.

Main statements: `valueOf?_eq_some_iff` reads a listing with distinct keys as a map, and
`merge_of_nodup` says that pairs with distinct keys are merged to themselves.
-/

namespace PropertyRecord

/-- The number of bytes that a property takes in an arena: those of its key and of its payload. -/
def Property.footprint (p : Property) : Nat := (utf8 p.key).length + p.value.payload.length

theorem Property.footprint_mk (key : String) (v : Value) :
    Property.footprint ⟨key, v⟩ = (utf8 key).length + v.payload.length := rfl

/-- The copies of a property as they lie in an arena, where a later one is below an earlier one. -/
def Property.copies (p : Property) : Bytes := p.value.payload ++ utf8 p.key

theorem Property.length_copies (p : Property) : p.copies.length = p.footprint := by
  rw [copies, List.length_append, Nat.add_comm, footprint]

/-- Properties in order. -/
abbrev Listing := List Property

namespace Listing

/-- The keys in order. -/
def keys (ps : Listing) : List String := ps.map Property.key

/-- The value of the first property with a key. -/
def valueOf? (ps : Listing) (key : String) : Option Value :=
  (ps.find? fun p => p.key == key).map Property.value

/-- The number of bytes that all the properties take in an arena. -/
def footprint : Listing → Nat
  | [] => 0
  | p :: ps => p.footprint + footprint ps

/-- Gives a key its value: at the first place with the key, or at the end. -/
def put (p : Property) : Listing → Listing
  | [] => [p]
  | q :: ps => if q.key = p.key then p :: ps else q :: put p ps

/-- Puts properties one after the other. -/
def merge (ps : Listing) : Listing := ps.foldl (fun listing p => put p listing) []

@[simp] theorem keys_append (ps qs : Listing) : keys (ps ++ qs) = keys ps ++ keys qs :=
  List.map_append

@[simp] theorem keys_cons (p : Property) (ps : Listing) : keys (p :: ps) = p.key :: keys ps := rfl

@[simp] theorem footprint_nil : footprint [] = 0 := rfl

@[simp] theorem footprint_cons (p : Property) (ps : Listing) :
    footprint (p :: ps) = p.footprint + footprint ps := rfl

@[simp] theorem footprint_append (ps qs : Listing) :
    footprint (ps ++ qs) = footprint ps + footprint qs := by
  induction ps with
  | nil => rw [List.nil_append, footprint_nil, Nat.zero_add]
  | cons p ps ih => rw [List.cons_append, footprint_cons, ih, footprint_cons, Nat.add_assoc]

/-! ## Looking up -/

/-- In a listing with distinct keys, a key determines its property. -/
theorem eq_of_key_eq {ps : Listing} (distinct : (keys ps).Nodup) {p q : Property}
    (left : p ∈ ps) (right : q ∈ ps) (same : p.key = q.key) : p = q :=
  List.inj_on_of_nodup_map distinct left right same

theorem mem_of_find? {ps : Listing} {key : String} {p : Property}
    (first : ps.find? (fun p => p.key == key) = some p) : p ∈ ps ∧ p.key = key := by
  have named := List.find?_some first
  exact ⟨List.mem_of_find?_eq_some first, eq_of_beq named⟩

theorem valueOf?_eq_some_iff {ps : Listing} (distinct : (keys ps).Nodup) {key : String}
    {v : Value} : valueOf? ps key = some v ↔ ⟨key, v⟩ ∈ ps := by
  constructor
  · intro found
    rcases Option.map_eq_some_iff.1 found with ⟨p, first, rfl⟩
    rcases mem_of_find? first with ⟨member, named⟩
    rw [← named]
    exact member
  · intro member
    cases first : ps.find? fun p => p.key == key with
    | none =>
      have absent := List.find?_eq_none.1 first _ member
      exact absurd (beq_self_eq_true key) absent
    | some p =>
      rcases mem_of_find? first with ⟨found, named⟩
      have same : p = ⟨key, v⟩ := eq_of_key_eq distinct found member named
      rw [valueOf?, first, same]
      rfl

theorem valueOf?_eq_none_iff {ps : Listing} {key : String} :
    valueOf? ps key = none ↔ key ∉ keys ps := by
  simp [valueOf?, keys]

theorem valueOf?_cons_self (p : Property) (ps : Listing) :
    valueOf? (p :: ps) p.key = some p.value := by
  simp [valueOf?]

theorem valueOf?_cons_of_ne {p : Property} {key : String} (other : p.key ≠ key) (ps : Listing) :
    valueOf? (p :: ps) key = valueOf? ps key := by
  simp [valueOf?, other]

/-- Listings with distinct keys and the same properties are the same map. -/
theorem valueOf?_congr {ps qs : Listing} (left : (keys ps).Nodup) (right : (keys qs).Nodup)
    {key : String} (agree : ∀ v, ⟨key, v⟩ ∈ ps ↔ ⟨key, v⟩ ∈ qs) :
    valueOf? ps key = valueOf? qs key := by
  apply Option.ext
  intro v
  rw [valueOf?_eq_some_iff left, valueOf?_eq_some_iff right]
  exact agree v

theorem valueOf?_filter_self (ps : Listing) (key : String) :
    valueOf? (ps.filter fun p => p.key ≠ key) key = none := by
  rw [valueOf?_eq_none_iff, keys, List.mem_map]
  rintro ⟨p, member, rfl⟩
  have apart := List.of_mem_filter member
  simp at apart

theorem valueOf?_filter_of_ne (ps : Listing) {key other : String} (apart : other ≠ key) :
    valueOf? (ps.filter fun p => p.key ≠ key) other = valueOf? ps other := by
  rw [valueOf?, valueOf?, List.find?_filter]
  congr 2
  funext p
  by_cases found : p.key = other
  · simp [found, apart]
  · simp [found]

/-! ## Setting one key

An editor with a vacant slot gives it to a new property, which then stands between others, so the
listing after a change is described by where the property stands and not computed.
-/

/-- The second listing is the first one with a key set: the property stands in the place of the one
with its key or, if there was none, somewhere among the others. -/
inductive Sets (p : Property) : Listing → Listing → Prop where
  | replaced (before after : Listing) (old : Value) :
      Sets p (before ++ ⟨p.key, old⟩ :: after) (before ++ p :: after)
  | inserted (before after : Listing) (fresh : p.key ∉ keys (before ++ after)) :
      Sets p (before ++ after) (before ++ p :: after)

namespace Sets

variable {p : Property} {ps qs : Listing}

theorem mem (sets : Sets p ps qs) : p ∈ qs := by
  cases sets with
  | replaced | inserted => exact List.mem_append_right _ List.mem_cons_self

theorem mem_iff_of_ne (sets : Sets p ps qs) {q : Property} (other : q.key ≠ p.key) :
    q ∈ qs ↔ q ∈ ps := by
  have apart : q ≠ p := fun same => other (congrArg Property.key same)
  cases sets with
  | replaced before after old =>
    have unlike : q ≠ ⟨p.key, old⟩ := by
      rintro rfl
      exact other rfl
    simp only [List.mem_append, List.mem_cons, apart, unlike, false_or]
  | inserted before after =>
    simp only [List.mem_append, List.mem_cons, apart, false_or]

theorem eq_or_mem (sets : Sets p ps qs) {q : Property} (member : q ∈ qs) : q = p ∨ q ∈ ps := by
  cases sets with
  | replaced before after old | inserted before after =>
    simp only [List.mem_append, List.mem_cons] at member ⊢
    rcases member with before | same | after
    · exact .inr (.inl before)
    · exact .inl same
    · simp [after]

theorem nodup (sets : Sets p ps qs) (distinct : (keys ps).Nodup) : (keys qs).Nodup := by
  cases sets with
  | replaced before after old =>
    rw [keys_append, keys_cons] at distinct ⊢
    exact distinct
  | inserted before after fresh =>
    rw [keys_append] at distinct fresh
    rw [keys_append, keys_cons, List.nodup_middle, List.nodup_cons]
    exact ⟨fresh, distinct⟩

theorem length_le (sets : Sets p ps qs) : qs.length ≤ ps.length + 1 := by
  cases sets with
  | replaced before after old =>
    simp only [List.length_append, List.length_cons]
    omega
  | inserted before after =>
    simp only [List.length_append, List.length_cons]
    omega

theorem cons (sets : Sets p ps qs) {q : Property} (apart : q.key ≠ p.key) :
    Sets p (q :: ps) (q :: qs) := by
  cases sets with
  | replaced before after old => exact .replaced (q :: before) after old
  | inserted before after fresh =>
    apply Sets.inserted (q :: before) after
    rw [List.cons_append, keys_cons, List.mem_cons, not_or]
    exact ⟨Ne.symm apart, fresh⟩

theorem footprint_le (sets : Sets p ps qs) : footprint qs ≤ footprint ps + p.footprint := by
  cases sets with
  | replaced before after old =>
    simp only [footprint_append, footprint_cons]
    omega
  | inserted before after =>
    simp only [footprint_append, footprint_cons]
    omega

theorem valueOf?_self (sets : Sets p ps qs) (distinct : (keys ps).Nodup) :
    valueOf? qs p.key = some p.value :=
  (valueOf?_eq_some_iff (sets.nodup distinct)).2 sets.mem

theorem valueOf?_of_ne (sets : Sets p ps qs) (distinct : (keys ps).Nodup) {key : String}
    (other : key ≠ p.key) : valueOf? qs key = valueOf? ps key :=
  valueOf?_congr (sets.nodup distinct) distinct fun _ => sets.mem_iff_of_ne other

end Sets

/-! ## Putting -/

theorem put_of_notMem {ps : Listing} {p : Property} (fresh : p.key ∉ keys ps) :
    put p ps = ps ++ [p] := by
  induction ps with
  | nil => rfl
  | cons q ps ih =>
    simp only [keys_cons, List.mem_cons, not_or] at fresh
    rw [put, if_neg (Ne.symm fresh.1), ih fresh.2, List.cons_append]

/-- Putting sets the key. -/
theorem sets_put (p : Property) (ps : Listing) : Sets p ps (put p ps) := by
  induction ps with
  | nil => exact .inserted [] [] List.not_mem_nil
  | cons q ps ih =>
    by_cases same : q.key = p.key
    · rw [put, if_pos same]
      have replaced := Sets.replaced (p := p) [] ps q.value
      rw [← same] at replaced
      exact replaced
    · rw [put, if_neg same]
      exact ih.cons same

theorem merge_concat (ps : Listing) (p : Property) : merge (ps ++ [p]) = put p (merge ps) := by
  simp only [merge, List.foldl_append, List.foldl_cons, List.foldl_nil]

/-- Merging invents nothing. -/
theorem mem_of_mem_merge {ps : Listing} {p : Property} (member : p ∈ merge ps) : p ∈ ps := by
  induction ps using List.reverseRecOn with
  | nil => exact member
  | append_singleton ps q ih =>
    rw [merge_concat] at member
    rw [List.mem_append, List.mem_singleton]
    cases (sets_put q (merge ps)).eq_or_mem member with
    | inl same => exact .inr same
    | inr earlier => exact .inl (ih earlier)

/-- Pairs with distinct keys are merged to themselves. -/
theorem merge_of_nodup {ps : Listing} (distinct : (keys ps).Nodup) : merge ps = ps := by
  induction ps using List.reverseRecOn with
  | nil => rfl
  | append_singleton ps p ih =>
    rw [keys_append, List.nodup_append] at distinct
    rcases distinct with ⟨before, -, apart⟩
    have fresh : p.key ∉ keys ps := by
      intro member
      exact apart p.key member p.key (List.mem_singleton.2 rfl) rfl
    rw [merge_concat, ih before, put_of_notMem fresh]

end Listing

end PropertyRecord
