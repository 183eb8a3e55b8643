import Mathlib.Data.Finmap
import Mathlib.Data.Multiset.Dedup
import Mathlib.Tactic.SplitIfs
import PropertyRecord.Store.Calls
import PropertyRecord.Trace

/-!
# A store in memory is a bounded map

A store keeps its records in a list, which a deletion reorders. What its calls answer depends only
on the finite map from names to data that the list holds, up to the order of a listing of the names.
The machine `RecordMap.step` says so with maps alone: it is the contract of a store.

Main statements: `Bounded.step` says that a call keeps a store within its limits,
`Bounded.step_toMap` that it does what the map machine does, and `refines_map` says both of a run.
-/

namespace PropertyRecord

/-- A finite map from record names to data. -/
abbrev RecordMap := Finmap fun _ : String => Bytes

namespace RecordMap

/-- Why a write is refused: the name is not valid, or else the data is too long or the name is new
and there is no place left. -/
def refusal? (recordLimit dataLimit : Nat) (map : RecordMap) (name : String) (data : Bytes) :
    Option Fault :=
  if name = "" ∨ maxNameSize < (utf8 name).length then some .badName
  else if min dataLimit maxRecordSize < data.length
      ∨ (name ∉ map ∧ recordLimit ≤ map.keys.card) then some .exhausted
  else none

/-- Fills a buffer with the data of a name. -/
def fill (map : RecordMap) (name : String) (out : Bytes) : Filled Nat :=
  match map.lookup name with
  | none => ⟨.error .notFound, out⟩
  | some data =>
    if out.length < data.length then ⟨.error .exhausted, out⟩
    else ⟨.ok data.length, data ++ out.drop data.length⟩

/-- The calls on a store, made on a map. Names are listed in no order. -/
def step (recordLimit dataLimit : Nat) (map : RecordMap) :
    MemoryStore.Call → MemoryStore.Answer (Multiset String) × RecordMap
  | .write name data =>
    match map.refusal? recordLimit dataLimit name data with
    | some fault => (.ended (.error fault), map)
    | none => (.ended (.ok ()), map.insert name data)
  | .read name out => (.filled (map.fill name out), map)
  | .purge name =>
    if name ∈ map then (.ended (.ok ()), map.erase name)
    else (.ended (.error .notFound), map)
  | .purgeAll => (.ended (.ok ()), ∅)
  | .contains name => (.bool (decide (name ∈ map)), map)
  | .count => (.count map.keys.card, map)
  | .names => (.names map.keys.val, map)

end RecordMap

namespace MemoryStore

variable {recordLimit dataLimit : Nat}

/-- An answer without the order of its names. -/
def Answer.unordered : Answer (List String) → Answer (Multiset String)
  | ended result => .ended result
  | filled f => .filled f
  | bool b => .bool b
  | count n => .count n
  | names ns => .names ns

/-- The map that a store holds. -/
def toMap (store : MemoryStore recordLimit dataLimit) : RecordMap :=
  (store.records.map fun record => (⟨record.name, record.data⟩ : Σ _ : String, Bytes)).toFinmap

/-- A store within its limits: no name twice, all names valid, not too many records, and none of
them too long. -/
structure Bounded (store : MemoryStore recordLimit dataLimit) : Prop where
  distinct : store.names.Nodup
  valid : ∀ name ∈ store.names, name ≠ "" ∧ (utf8 name).length ≤ maxNameSize
  few : store.count ≤ recordLimit
  small : ∀ record ∈ store.records, record.data.length ≤ min dataLimit maxRecordSize

/-! ## What the map has -/

theorem lookup_toMap (store : MemoryStore recordLimit dataLimit) (name : String) :
    store.toMap.lookup name = store.get? name := by
  obtain ⟨records⟩ := store
  rw [toMap, Finmap.dlookup_list_toFinmap, get?]
  induction records with
  | nil => rfl
  | cons record records ih =>
    by_cases here : record.name = name
    · subst here
      simp
    · simpa [List.dlookup_cons_ne, here, Ne.symm here] using ih

theorem mem_toMap_iff (store : MemoryStore recordLimit dataLimit) (name : String) :
    name ∈ store.toMap ↔ store.contains name = true := by
  rw [← Finmap.lookup_isSome, lookup_toMap, contains_eq_isSome_get?]

theorem contains_iff_mem_names (store : MemoryStore recordLimit dataLimit) (name : String) :
    store.contains name = true ↔ name ∈ store.names := by
  simp [contains, position?, names]

theorem toMap_put (store : MemoryStore recordLimit dataLimit) (record : NamedRecord) :
    (store.put record).toMap = store.toMap.insert record.name record.data := by
  apply Finmap.ext_lookup
  intro name
  by_cases same : name = record.name
  · rw [same, Finmap.lookup_insert, lookup_toMap, get?_put_self]
  · rw [Finmap.lookup_insert_of_ne _ same, lookup_toMap, lookup_toMap, get?_put_of_ne _ same]

namespace Bounded

variable {store : MemoryStore recordLimit dataLimit}

theorem keys_toMap (bounded : store.Bounded) : store.toMap.keys.val = store.names := by
  have listed : store.toMap.keys = store.names.toFinset := by
    ext name
    rw [Finmap.mem_keys, mem_toMap_iff, contains_iff_mem_names, List.mem_toFinset]
  rw [listed, List.toFinset_val, bounded.distinct.dedup]

theorem card_keys (bounded : store.Bounded) : store.toMap.keys.card = store.count := by
  rw [Finset.card, bounded.keys_toMap, Multiset.coe_card, names, List.length_map, count]

end Bounded

/-! ## Writing -/

theorem names_place (record : NamedRecord) (records : List NamedRecord) :
    (place record records).map NamedRecord.name
      = if record.name ∈ records.map NamedRecord.name then records.map NamedRecord.name
        else records.map NamedRecord.name ++ [record.name] := by
  induction records with
  | nil => simp [place]
  | cons old records ih =>
    by_cases same : old.name = record.name
    · simp [place, same]
    · rw [place, if_neg same, List.map_cons, ih, List.map_cons]
      by_cases later : record.name ∈ records.map NamedRecord.name
      · rw [if_pos later, if_pos (List.mem_cons_of_mem _ later)]
      · rw [if_neg later, if_neg (List.not_mem_cons_of_ne_of_not_mem (Ne.symm same) later),
          List.cons_append]

theorem names_put (store : MemoryStore recordLimit dataLimit) (record : NamedRecord) :
    (store.put record).names
      = if store.contains record.name = true then store.names
        else store.names ++ [record.name] := by
  rw [names, put, names_place]
  simp only [contains_iff_mem_names, names]

theorem eq_or_mem_of_mem_place {record other : NamedRecord} {records : List NamedRecord}
    (member : other ∈ place record records) : other = record ∨ other ∈ records := by
  induction records with
  | nil => exact .inl (List.mem_singleton.1 member)
  | cons old records ih =>
    by_cases same : old.name = record.name
    · rw [place, if_pos same] at member
      exact (List.mem_cons.1 member).imp_right (List.mem_cons_of_mem old)
    · rw [place, if_neg same] at member
      rcases List.mem_cons.1 member with rfl | later
      · exact .inr List.mem_cons_self
      · exact (ih later).imp_right (List.mem_cons_of_mem old)

theorem length_names (store : MemoryStore recordLimit dataLimit) :
    store.names.length = store.count := List.length_map ..

namespace Bounded

variable {store : MemoryStore recordLimit dataLimit}

/-- A record within the limits that is there or has a place can be put into the store. -/
theorem put (bounded : store.Bounded) {record : NamedRecord}
    (valid : record.name ≠ "" ∧ (utf8 record.name).length ≤ maxNameSize)
    (small : record.data.length ≤ min dataLimit maxRecordSize)
    (room : store.contains record.name = true ∨ store.count < recordLimit) :
    (store.put record).Bounded := by
  have kept : ∀ other ∈ (store.put record).records,
      other.data.length ≤ min dataLimit maxRecordSize := by
    intro other member
    rcases eq_or_mem_of_mem_place member with rfl | old
    · exact small
    · exact bounded.small other old
  by_cases contained : store.contains record.name = true
  · have same : (store.put record).names = store.names := by rw [names_put, if_pos contained]
    refine ⟨same ▸ bounded.distinct, same ▸ bounded.valid, ?_, kept⟩
    rw [← length_names, same, length_names]
    exact bounded.few
  · have more : (store.put record).names = store.names ++ [record.name] := by
      rw [names_put, if_neg contained]
    have fresh : record.name ∉ store.names :=
      mt (contains_iff_mem_names store record.name).2 contained
    refine ⟨?_, ?_, ?_, kept⟩
    case refine_1 =>
      rw [more, List.nodup_append_comm]
      exact List.nodup_cons.2 ⟨fresh, bounded.distinct⟩
    case refine_2 =>
      intro name member
      rw [more, List.mem_append, List.mem_singleton] at member
      rcases member with old | rfl
      · exact bounded.valid name old
      · exact valid
    case refine_3 =>
      rw [← length_names, more, List.length_append, length_names]
      exact room.resolve_left contained

theorem refusal?_toMap (bounded : store.Bounded) (name : String) (data : Bytes) :
    store.toMap.refusal? recordLimit dataLimit name data
      = if name = "" ∨ maxNameSize < (utf8 name).length then some .badName
        else if min dataLimit maxRecordSize < data.length
            ∨ (¬ store.contains name = true ∧ recordLimit ≤ store.count) then some .exhausted
        else none := by
  simp only [RecordMap.refusal?, bounded.card_keys, mem_toMap_iff]

/-- A write is refused, or puts the record into the store, as the map says. -/
theorem write_toMap (bounded : store.Bounded) (name : String) (data : Bytes) :
    store.write name data
      = match store.toMap.refusal? recordLimit dataLimit name data with
        | some fault => (.error fault, store)
        | none => (.ok (), store.put ⟨name, data⟩) := by
  rw [write_eq, bounded.refusal?_toMap]
  split
  next => rfl
  next =>
    by_cases small : min dataLimit maxRecordSize < data.length
    · simp [small]
    · cases store.contains name with
      | true => simp [small]
      | false =>
        by_cases full : recordLimit ≤ store.count
        · simp [small, full]
        · simp [small, full]

theorem of_refusal? (bounded : store.Bounded) {name : String} {data : Bytes}
    (granted : store.toMap.refusal? recordLimit dataLimit name data = none) :
    (store.put ⟨name, data⟩).Bounded := by
  rw [bounded.refusal?_toMap] at granted
  split at granted
  next => cases granted
  next valid =>
    split at granted
    next => cases granted
    next room =>
      simp only [not_or, not_and, Nat.not_lt, Nat.not_le] at valid room
      refine bounded.put valid room.1 ?_
      by_cases contained : store.contains name = true
      · exact .inl contained
      · exact .inr (room.2 contained)

end Bounded

/-! ## Deleting

The last record takes the place of the one that goes, so those that stay keep their data and change
their order.
-/

theorem swapRemove_perm (before after : List NamedRecord) (record : NamedRecord) :
    (record :: swapRemove before.length (before ++ record :: after)).Perm
      (before ++ record :: after) := by
  rcases List.eq_nil_or_concat after with rfl | ⟨between, last, rfl⟩
  · have turned : ([record] ++ before).Perm (before ++ [record]) := List.perm_append_comm
    simpa [swapRemove] using turned
  · have ending : (before ++ record :: (between ++ [last])).getLast? = some last := by
      rw [← List.cons_append, ← List.append_assoc, List.getLast?_concat]
    have moved : swapRemove before.length (before ++ record :: (between ++ [last]))
        = before ++ last :: between := by
      rw [swapRemove, ending]
      simp [List.dropLast_append_of_ne_nil, List.dropLast_cons_of_ne_nil]
    rw [List.concat_eq_append, moved]
    have behind : ([last] ++ between).Perm (between ++ [last]) := List.perm_append_comm
    exact List.perm_middle.symm.trans ((behind.cons record).append_left before)

theorem records_perm_of_position? {store : MemoryStore recordLimit dataLimit} {name : String}
    {index : Nat} (found : store.position? name = some index) :
    ∃ old, store.records.Perm (⟨name, old⟩ :: swapRemove index store.records) := by
  obtain ⟨records⟩ := store
  rcases split_of_findIdx? found with ⟨before, old, after, rfl, rfl, _⟩
  exact ⟨old, (swapRemove_perm before after ⟨name, old⟩).symm⟩

namespace Bounded

variable {store : MemoryStore recordLimit dataLimit}

/-- Where no name is there twice, the record found under a name is the one that is there. -/
theorem get?_eq_some_iff (bounded : store.Bounded) (name : String) (data : Bytes) :
    store.get? name = some data ↔ ⟨name, data⟩ ∈ store.records := by
  have distinct := bounded.distinct
  clear bounded
  obtain ⟨records⟩ := store
  induction records with
  | nil => simp [get?]
  | cons record records ih =>
    rw [names, List.map_cons, List.nodup_cons] at distinct
    have later := ih distinct.2
    obtain ⟨first, held⟩ := record
    by_cases here : first = name
    · subst here
      have absent : ⟨first, data⟩ ∉ records := fun member =>
        distinct.1 (List.mem_map.2 ⟨_, member, rfl⟩)
      simp [get?, absent, eq_comm]
    · simpa [get?, here, Ne.symm here] using later

variable {next : MemoryStore recordLimit dataLimit} {name : String} {old : Bytes}

/-- A store that has a record less is within its limits. -/
theorem of_perm (bounded : store.Bounded)
    (rest : store.records.Perm (⟨name, old⟩ :: next.records)) : next.Bounded := by
  have named : store.names.Perm (name :: next.names) := rest.map NamedRecord.name
  refine ⟨?_, ?_, ?_, ?_⟩
  case refine_1 => exact (List.nodup_cons.1 (named.nodup_iff.1 bounded.distinct)).2
  case refine_2 =>
    exact fun other member =>
      bounded.valid other (named.mem_iff.2 (List.mem_cons_of_mem name member))
  case refine_3 =>
    have longer : store.count = next.count + 1 := rest.length_eq
    have := bounded.few
    omega
  case refine_4 =>
    exact fun record member => bounded.small record (rest.mem_iff.2 (List.mem_cons_of_mem _ member))

/-- A store that has a record less holds the map without its name. -/
theorem toMap_of_perm (bounded : store.Bounded)
    (rest : store.records.Perm (⟨name, old⟩ :: next.records)) :
    next.toMap = store.toMap.erase name := by
  have named : store.names.Perm (name :: next.names) := rest.map NamedRecord.name
  apply Finmap.ext_lookup
  intro other
  by_cases same : other = name
  · subst same
    have gone : other ∉ next.names := (List.nodup_cons.1 (named.nodup_iff.1 bounded.distinct)).1
    rw [Finmap.lookup_erase, Finmap.lookup_eq_none, mem_toMap_iff, contains_iff_mem_names]
    exact gone
  · rw [Finmap.lookup_erase_ne same, lookup_toMap, lookup_toMap]
    apply Option.ext
    intro data
    have apart : (⟨other, data⟩ : NamedRecord) ≠ ⟨name, old⟩ := fun equal =>
      same (congrArg NamedRecord.name equal)
    rw [(bounded.of_perm rest).get?_eq_some_iff, bounded.get?_eq_some_iff, rest.mem_iff,
      List.mem_cons, or_iff_right apart]

end Bounded

/-! ## Calls -/

theorem read_toMap (store : MemoryStore recordLimit dataLimit) (name : String) (out : Bytes) :
    store.read name out = store.toMap.fill name out := by
  rw [read, RecordMap.fill, lookup_toMap]
  cases store.get? name with
  | none => rfl
  | some data =>
    by_cases fits : data.length ≤ out.length
    · exact (if_pos fits).trans (if_neg (Nat.not_lt_of_le fits)).symm
    · exact (if_neg fits).trans (if_pos (Nat.lt_of_not_le fits)).symm

theorem bounded_empty : (empty : MemoryStore recordLimit dataLimit).Bounded :=
  ⟨List.nodup_nil, by simp [names, empty], Nat.zero_le _, by simp [empty]⟩

/-- A call that fails leaves the store as it is. -/
theorem step_of_fault? {store : MemoryStore recordLimit dataLimit} {call : Call} {fault : Fault}
    (failed : (store.step call).1.fault? = some fault) : (store.step call).2 = store := by
  cases call with
  | write name data =>
    rw [step, write_eq] at failed ⊢
    split_ifs at failed ⊢
    case pos => rfl
    case pos => rfl
    case pos => rfl
    case neg => cases failed
  | purge name =>
    rw [step, purge] at failed ⊢
    cases found : store.position? name with
    | some index =>
      rw [found] at failed
      cases failed
    | none => rfl
  | purgeAll => cases failed
  | read name out => rfl
  | contains name => rfl
  | count => rfl
  | names => rfl

namespace Bounded

variable {store : MemoryStore recordLimit dataLimit}

/-- A call keeps a store within its limits. -/
theorem step (bounded : store.Bounded) (call : Call) : (store.step call).2.Bounded := by
  cases call with
  | write name data =>
    rw [MemoryStore.step, bounded.write_toMap]
    cases refusal : store.toMap.refusal? recordLimit dataLimit name data with
    | some fault => exact bounded
    | none => exact bounded.of_refusal? refusal
  | purge name =>
    rw [MemoryStore.step, purge]
    cases found : store.position? name with
    | some index =>
      rcases records_perm_of_position? found with ⟨old, rest⟩
      exact bounded.of_perm rest
    | none => exact bounded
  | purgeAll => exact bounded_empty
  | read name out => exact bounded
  | contains name => exact bounded
  | count => exact bounded
  | names => exact bounded

/-- A call answers and changes the map as the map machine does. -/
theorem step_toMap (bounded : store.Bounded) (call : Call) :
    store.toMap.step recordLimit dataLimit call
      = ((store.step call).1.unordered, (store.step call).2.toMap) := by
  cases call with
  | write name data =>
    rw [MemoryStore.step, RecordMap.step, bounded.write_toMap]
    cases store.toMap.refusal? recordLimit dataLimit name data with
    | some fault => rfl
    | none => exact congrArg (_, ·) (toMap_put store ⟨name, data⟩).symm
  | purge name =>
    rw [MemoryStore.step, RecordMap.step, purge]
    have contained := mem_toMap_iff store name
    cases found : store.position? name with
    | some index =>
      rcases records_perm_of_position? found with ⟨old, rest⟩
      rw [contains, found] at contained
      rw [if_pos (contained.2 rfl), ← bounded.toMap_of_perm rest]
      rfl
    | none =>
      rw [contains, found] at contained
      rw [if_neg fun member => Bool.false_ne_true (contained.1 member)]
      rfl
  | purgeAll => rfl
  | read name out =>
    rw [MemoryStore.step, RecordMap.step, read_toMap]
    rfl
  | contains name =>
    have same : decide (name ∈ store.toMap) = store.contains name :=
      Bool.eq_iff_iff.2 (decide_eq_true_iff.trans (mem_toMap_iff store name))
    rw [RecordMap.step, same]
    rfl
  | count => rw [MemoryStore.step, RecordMap.step, bounded.card_keys]; rfl
  | names => rw [MemoryStore.step, RecordMap.step, bounded.keys_toMap]; rfl

end Bounded

/-- Stores in memory refine bounded maps. Whatever calls are made on an empty store, they answer as
the map does, and the store holds that map and is within its limits after each of them; none that
fails changes the store. -/
theorem refines_map (recordLimit dataLimit : Nat) (calls : List Call) :
    let run := trace step toMap (empty : MemoryStore recordLimit dataLimit) calls
    (trace (RecordMap.step recordLimit dataLimit) id ∅ calls).1
        = run.1.map (Prod.map Answer.unordered id)
      ∧ run.2.Bounded
      ∧ ∀ call fault, (run.2.step call).1.fault? = some fault →
          (run.2.step call).2 = run.2 := by
  intro run
  have kept : ∀ (store : MemoryStore recordLimit dataLimit) (call : Call),
      store.Bounded → (store.step call).2.Bounded := fun _ call bounded => bounded.step call
  have simulated : ∀ (store : MemoryStore recordLimit dataLimit) (call : Call), store.Bounded →
      store.toMap.step recordLimit dataLimit call
        = ((store.step call).1.unordered, (store.step call).2.toMap) :=
    fun _ call bounded => bounded.step_toMap call
  refine ⟨trace_view kept simulated bounded_empty calls, ?_,
    fun _ _ failed => step_of_fault? failed⟩
  have last : run.2 = runFrom step empty calls := trace_snd ..
  rw [last]
  exact runFrom_induction kept bounded_empty calls

end MemoryStore

end PropertyRecord
