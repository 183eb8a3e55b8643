import PropertyRecord.Store.Memory
import PropertyRecord.Store.Refusing
import PropertyRecord.Store.Shared

/-!
# Handles

A session works on one store, which it has to itself or shares. The inventory of records (their
number, their names, deletion) is asked of the store itself; through a shared handle that means
borrowing it.
-/

namespace PropertyRecord

/-- A store of either kind. -/
inductive AnyStore where
  | memory (recordLimit dataLimit : Nat) (store : MemoryStore recordLimit dataLimit)
  | refusing (store : RefusingStore)

namespace AnyStore

instance : RecordStore AnyStore where
  read any name out :=
    match any with
    | memory r d store =>
      let (filled, next) := RecordStore.read store name out
      (filled, memory r d next)
    | refusing store =>
      let (filled, next) := RecordStore.read store name out
      (filled, refusing next)
  write any name data :=
    match any with
    | memory r d store =>
      let (result, next) := RecordStore.write store name data
      (result, memory r d next)
    | refusing store =>
      let (result, next) := RecordStore.write store name data
      (result, refusing next)

/-- The number of records. -/
def count : AnyStore → Nat
  | memory _ _ store => store.count
  | refusing _ => 0

/-- Whether there is a record with a name. -/
def contains (name : String) : AnyStore → Bool
  | memory _ _ store => store.contains name
  | refusing _ => false

/-- The names of the records, sorted by code points. -/
def names : AnyStore → List String
  | memory _ _ store => store.names.mergeSort fun a b => decide (a ≤ b)
  | refusing _ => []

/-- Deletes the record with a name. -/
def purge (name : String) : AnyStore → Except Fault Unit × AnyStore
  | memory r d store =>
    let (result, next) := store.purge name
    (result, memory r d next)
  | refusing store => (.error .notFound, refusing store)

/-- Deletes every record. -/
def purgeAll : AnyStore → AnyStore
  | memory r d store => memory r d store.purgeAll
  | refusing store => refusing store

end AnyStore

/-- How a session has its store. -/
inductive Handle where
  | sole (store : AnyStore)
  | shared (store : SharedStore AnyStore)

namespace Handle

instance : RecordStore Handle where
  read handle name out :=
    match handle with
    | sole store =>
      let (filled, next) := RecordStore.read store name out
      (filled, sole next)
    | shared store =>
      let (filled, next) := RecordStore.read store name out
      (filled, shared next)
  write handle name data :=
    match handle with
    | sole store =>
      let (result, next) := RecordStore.write store name data
      (result, sole next)
    | shared store =>
      let (result, next) := RecordStore.write store name data
      (result, shared next)

/-- Asks the store itself. -/
def ask {α : Type} (handle : Handle) (question : AnyStore → α × AnyStore) :
    Except Fault α × Handle :=
  match handle with
  | sole store =>
    let (answer, next) := question store
    (.ok answer, sole next)
  | shared store =>
    let (answer, next) := store.withStore fun inner _ => question inner
    (answer, shared next)

end Handle

end PropertyRecord
