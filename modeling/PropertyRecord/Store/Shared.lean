import PropertyRecord.Store.Basic

/-!
# A shared store

Several users may share one store, one at a time. While one of them has it, every further access
through the shared handle is refused with `invalidState`.
-/

namespace PropertyRecord

/-- A handle on a store that is shared. -/
inductive SharedStore (σ : Type) where
  /-- The store is here. -/
  | free (store : σ)
  /-- Somebody has the store. -/
  | lent

namespace SharedStore

variable {σ α : Type}

/-- Lends the store to `body`, which sees the handle as it is in the meantime, and takes back the
store that the body leaves. -/
def withStore (shared : SharedStore σ) (body : σ → SharedStore σ → α × σ) :
    Except Fault α × SharedStore σ :=
  match shared with
  | free store =>
    let (answer, left) := body store lent
    (.ok answer, free left)
  | lent => (.error .invalidState, lent)

instance [RecordStore σ] : RecordStore (SharedStore σ) where
  read shared name out :=
    match shared.withStore fun store _ => RecordStore.read store name out with
    | (.ok filled, next) => (filled, next)
    | (.error fault, next) => (⟨.error fault, out⟩, next)
  write shared name data :=
    match shared.withStore fun store _ => RecordStore.write store name data with
    | (.ok result, next) => (result, next)
    | (.error fault, next) => (.error fault, next)

instance [RecordStore σ] [LawfulRecordStore σ] : LawfulRecordStore (SharedStore σ) where
  length_read shared name out := by
    cases shared with
    | free store => exact LawfulRecordStore.length_read store name out
    | lent => rfl
  le_of_read shared name out length read := by
    cases shared with
    | free store => exact LawfulRecordStore.le_of_read store name out length read
    | lent => cases read

/-- The text that describes a shared store. -/
def describe (_ : SharedStore σ) : String := "SharedBlobStore \x7b .. \x7d"

end SharedStore

end PropertyRecord
