import PropertyRecord.Store.Memory

/-!
# Calls on a store in memory

A store in memory as a state machine, which `runFrom` and `trace` run.
-/

namespace PropertyRecord.MemoryStore

/-- The calls on a store. -/
inductive Call where
  | write (name : String) (data : Bytes)
  | read (name : String) (out : Bytes)
  | purge (name : String)
  | purgeAll
  | contains (name : String)
  | count
  | names

/-- The answers to calls. What the names are listed in is left open. -/
inductive Answer (ν : Type) where
  | ended (result : Except Fault Unit)
  | filled (filled : Filled Nat)
  | bool (b : Bool)
  | count (n : Nat)
  | names (ns : ν)

/-- Why a call failed. -/
def Answer.fault? {ν : Type} : Answer ν → Option Fault
  | ended (.error fault) => some fault
  | filled ⟨.error fault, _⟩ => some fault
  | _ => none

variable {recordLimit dataLimit : Nat}

/-- Makes one call. -/
def step (store : MemoryStore recordLimit dataLimit) :
    Call → Answer (List String) × MemoryStore recordLimit dataLimit
  | .write name data => (store.write name data).map .ended id
  | .read name out => (.filled (store.read name out), store)
  | .purge name => (store.purge name).map .ended id
  | .purgeAll => (.ended (.ok ()), store.purgeAll)
  | .contains name => (.bool (store.contains name), store)
  | .count => (.count store.count, store)
  | .names => (.names store.names, store)

end PropertyRecord.MemoryStore
