import PropertyRecord.Limits
import PropertyRecord.Store.Basic
import PropertyRecord.Text

/-!
# A store in memory

A bounded finite map from names to records: at most `recordLimit` records of at most `dataLimit`
bytes, with names of 1 to 32 bytes.
-/

namespace PropertyRecord

/-- A record under its name. -/
structure NamedRecord where
  name : String
  data : Bytes
  deriving DecidableEq

/-- A store in memory with its two limits. -/
structure MemoryStore (recordLimit dataLimit : Nat) where
  records : List NamedRecord
  deriving DecidableEq

namespace MemoryStore

variable {recordLimit dataLimit : Nat}

/-- A store without records. -/
def empty : MemoryStore recordLimit dataLimit := ⟨[]⟩

/-- The place of the first record with a name. -/
def position? (store : MemoryStore recordLimit dataLimit) (name : String) : Option Nat :=
  store.records.findIdx? fun record => record.name == name

/-- The record with a name. -/
def get? (store : MemoryStore recordLimit dataLimit) (name : String) : Option Bytes :=
  (store.records.find? fun record => record.name == name).map NamedRecord.data

/-- The number of records. -/
def count (store : MemoryStore recordLimit dataLimit) : Nat := store.records.length

/-- Whether there is a record with a name. -/
def contains (store : MemoryStore recordLimit dataLimit) (name : String) : Bool :=
  (store.position? name).isSome

/-- The names of the records, in the order in which the store has them. -/
def names (store : MemoryStore recordLimit dataLimit) : List String :=
  store.records.map NamedRecord.name

/-- Copies a record into a buffer that is long enough for it. -/
def read (store : MemoryStore recordLimit dataLimit) (name : String) (out : Bytes) : Filled Nat :=
  match store.get? name with
  | none => ⟨.error .notFound, out⟩
  | some data =>
    if data.length ≤ out.length then ⟨.ok data.length, Bytes.overlay data out⟩
    else ⟨.error .exhausted, out⟩

/-- Replaces the data of the record at a place. -/
def setData (store : MemoryStore recordLimit dataLimit) (index : Nat) (data : Bytes) :
    MemoryStore recordLimit dataLimit :=
  ⟨store.records.modify index fun record => { record with data }⟩

/-- Empties the record at a place and fills it again. Data that a record cannot hold leaves it
empty. -/
def refill (store : MemoryStore recordLimit dataLimit) (index : Nat) (data : Bytes) :
    Except Fault Unit × MemoryStore recordLimit dataLimit :=
  let emptied := store.setData index []
  if data.length ≤ dataLimit then (.ok (), emptied.setData index data)
  else (.error .exhausted, emptied)

/-- Adds an empty record behind the others. -/
def create (store : MemoryStore recordLimit dataLimit) (name : String) :
    Except Fault (MemoryStore recordLimit dataLimit) :=
  if maxNameSize < (utf8 name).length then .error .badName
  else if recordLimit ≤ store.count then .error .exhausted
  else .ok ⟨store.records ++ [⟨name, []⟩]⟩

/-- Writes a record within the limits: over the one with its name, or into a new one. -/
def write (store : MemoryStore recordLimit dataLimit) (name : String) (data : Bytes) :
    Except Fault Unit × MemoryStore recordLimit dataLimit :=
  if name = "" ∨ maxNameSize < (utf8 name).length then (.error .badName, store)
  else if min dataLimit maxRecordSize < data.length then (.error .exhausted, store)
  else
    match store.position? name with
    | some index => store.refill index data
    | none =>
      match store.create name with
      | .ok grown => grown.refill (grown.count - 1) data
      | .error fault => (.error fault, store)

/-- Takes the record at a place out of a list, and puts the last one into its place. -/
def swapRemove (index : Nat) (records : List NamedRecord) : List NamedRecord :=
  match records.getLast? with
  | some last => (records.set index last).dropLast
  | none => []

/-- Deletes the record with a name. -/
def purge (store : MemoryStore recordLimit dataLimit) (name : String) :
    Except Fault Unit × MemoryStore recordLimit dataLimit :=
  match store.position? name with
  | some index => (.ok (), ⟨swapRemove index store.records⟩)
  | none => (.error .notFound, store)

/-- Deletes every record. -/
def purgeAll (_ : MemoryStore recordLimit dataLimit) : MemoryStore recordLimit dataLimit := empty

instance : RecordStore (MemoryStore recordLimit dataLimit) where
  read store name out := (store.read name out, store)
  write store name data := store.write name data

instance : LawfulRecordStore (MemoryStore recordLimit dataLimit) where
  length_read store name out := by
    change (store.read name out).out.length = out.length
    rw [read]
    cases store.get? name with
    | none => rfl
    | some data =>
      dsimp only
      split
      next fits => exact Bytes.length_overlay fits
      next => rfl
  le_of_read store name out length := by
    change (store.read name out).result = .ok length → length ≤ out.length
    rw [read]
    cases store.get? name with
    | none =>
      intro read
      cases read
    | some data =>
      dsimp only
      split
      next fits =>
        intro read
        cases read
        exact fits
      next =>
        intro read
        cases read

/-! ## The store as a map

A write that succeeds puts the record into the place of the first one with its name, or behind all
of them.
-/

/-- Puts a record in the place of the first one with its name, or behind all of them. -/
def place (record : NamedRecord) : List NamedRecord → List NamedRecord
  | [] => [record]
  | old :: records =>
    if old.name = record.name then record :: records else old :: place record records

/-- Puts a record into the store. -/
def put (store : MemoryStore recordLimit dataLimit) (record : NamedRecord) :
    MemoryStore recordLimit dataLimit :=
  ⟨place record store.records⟩

theorem get?_put_self (store : MemoryStore recordLimit dataLimit) (record : NamedRecord) :
    (store.put record).get? record.name = some record.data := by
  obtain ⟨records⟩ := store
  simp only [get?, put]
  induction records with
  | nil => simp [place]
  | cons old records ih =>
    by_cases same : old.name = record.name
    · simp [place, same]
    · simpa [place, same, List.find?_cons] using ih

theorem get?_put_of_ne (store : MemoryStore recordLimit dataLimit) {record : NamedRecord}
    {name : String} (other : name ≠ record.name) :
    (store.put record).get? name = store.get? name := by
  obtain ⟨records⟩ := store
  have passed : (record.name == name) = false := beq_eq_false_iff_ne.2 other.symm
  simp only [get?, put]
  induction records with
  | nil => simp [place, passed]
  | cons old records ih =>
    by_cases same : old.name = record.name
    · simp [place, same, passed]
    · by_cases found : old.name = name
      · simp [place, found, other]
      · simpa [place, same, found, List.find?_cons] using ih

theorem contains_eq_isSome_get? (store : MemoryStore recordLimit dataLimit) (name : String) :
    store.contains name = (store.get? name).isSome := by
  rw [contains, position?, List.findIdx?_isSome, get?, Option.isSome_map, List.isSome_find?]

/-- The place of a name divides the records. -/
theorem split_of_findIdx? {records : List NamedRecord} {name : String} {index : Nat}
    (found : records.findIdx? (fun record => record.name == name) = some index) :
    ∃ (before : List NamedRecord) (old : Bytes) (after : List NamedRecord),
      records = before ++ ⟨name, old⟩ :: after ∧ before.length = index
        ∧ ∀ record ∈ before, record.name ≠ name := by
  induction records generalizing index with
  | nil => cases found
  | cons first records ih =>
    by_cases here : first.name = name
    · rw [List.findIdx?_cons, if_pos (beq_iff_eq.2 here)] at found
      cases found
      exact ⟨[], first.data, records, by rw [← here]; rfl, rfl, by simp⟩
    · rw [List.findIdx?_cons, if_neg (mt beq_iff_eq.1 here), Option.map_eq_some_iff] at found
      rcases found with ⟨later, foundLater, rfl⟩
      rcases ih foundLater with ⟨before, old, after, rfl, rfl, apart⟩
      refine ⟨first :: before, old, after, rfl, rfl, ?_⟩
      intro record member
      cases List.mem_cons.1 member with
      | inl same => exact same ▸ here
      | inr rest => exact apart record rest

theorem place_split {before after : List NamedRecord} {name : String} (old data : Bytes)
    (apart : ∀ record ∈ before, record.name ≠ name) :
    place ⟨name, data⟩ (before ++ ⟨name, old⟩ :: after) = before ++ ⟨name, data⟩ :: after := by
  induction before with
  | nil => exact if_pos rfl
  | cons first before ih =>
    rw [List.cons_append, place, if_neg (apart first List.mem_cons_self),
      ih fun record member => apart record (List.mem_cons_of_mem first member), List.cons_append]

theorem place_of_fresh {records : List NamedRecord} {record : NamedRecord}
    (fresh : ∀ other ∈ records, other.name ≠ record.name) :
    place record records = records ++ [record] := by
  induction records with
  | nil => rfl
  | cons first records ih =>
    rw [place, if_neg (fresh first List.mem_cons_self),
      ih fun other member => fresh other (List.mem_cons_of_mem first member), List.cons_append]

theorem modify_split (before after : List NamedRecord) (record : NamedRecord)
    (change : NamedRecord → NamedRecord) :
    (before ++ record :: after).modify before.length change = before ++ change record :: after := by
  induction before with
  | nil => rfl
  | cons first before ih => exact congrArg (first :: ·) ih

theorem setData_of_position? {store : MemoryStore recordLimit dataLimit} {name : String}
    {index : Nat} (found : store.position? name = some index) (data : Bytes) :
    store.setData index data = store.put ⟨name, data⟩ := by
  obtain ⟨records⟩ := store
  rcases split_of_findIdx? found with ⟨before, old, after, rfl, rfl, apart⟩
  rw [setData, modify_split, put, place_split old data apart]

/-- A record that was just added is filled as if it had been put there with its data. -/
theorem setData_create (store : MemoryStore recordLimit dataLimit) {name : String}
    (fresh : store.position? name = none) (data : Bytes) :
    setData ⟨store.records ++ [⟨name, []⟩]⟩ store.records.length data
      = store.put ⟨name, data⟩ := by
  have unnamed : ∀ record ∈ store.records, record.name ≠ name := by
    simpa [position?] using fresh
  rw [setData, modify_split, put, place_of_fresh unnamed]

theorem refill_of_le (store : MemoryStore recordLimit dataLimit) (index : Nat) {data : Bytes}
    (fits : data.length ≤ dataLimit) :
    store.refill index data = (.ok (), store.setData index data) := by
  rw [refill, if_pos fits, setData, setData, List.modify_modify_eq, setData]
  rfl

/-- What a write comes to. As its limits are looked at first, the record that it fills holds the
data, and a name that is not there finds room or nothing is added. -/
theorem write_eq (store : MemoryStore recordLimit dataLimit) (name : String) (data : Bytes) :
    store.write name data
      = if name = "" ∨ maxNameSize < (utf8 name).length then (.error .badName, store)
        else if min dataLimit maxRecordSize < data.length then (.error .exhausted, store)
        else if !store.contains name && recordLimit ≤ store.count then (.error .exhausted, store)
        else (.ok (), store.put ⟨name, data⟩) := by
  rw [write]
  split
  next => rfl
  next valid =>
    split
    next => rfl
    next small =>
      have fits : data.length ≤ dataLimit := by omega
      cases found : store.position? name with
      | some index =>
        have contained : store.contains name = true := by rw [contains, found, Option.isSome_some]
        rw [contained]
        simp only [refill_of_le store index fits, setData_of_position? found]
        rfl
      | none =>
        have absent : store.contains name = false := by rw [contains, found, Option.isSome_none]
        have short := (not_or.1 valid).2
        rw [absent, create, if_neg short]
        by_cases full : recordLimit ≤ store.count
        · simp [full]
        · simp only [full, if_false, refill_of_le _ _ fits]
          simp [count, setData_create store found]

end MemoryStore

end PropertyRecord
