import PropertyRecord.Proofs.Store.Shared
import PropertyRecord.Session.Sharing

/-!
# Shared stores are open outside of a body and closed inside

To those who call it in turn a shared store is the store itself. A body that it is lent to has it
alone: whatever is called through the handle in the meantime is refused, at once and without a look
at the store or at a body that it would be lent to. When the body is done the handle is as it was
before, with the store as the body has left it.

Main statements: `run_lent` for a body, `step_share` for a call, and `transparent_unless_lent`.
-/

namespace PropertyRecord.Sharing

variable {ι σ ρ : Type} [DecidableEq ι] [RecordStore σ] (names : ι → RecordName)

/-! ## The store itself -/

/-- What a call through the handle is answered while the store is lent, and the editors that are
open after it. To the users it is a store that refuses, and a body is not looked at. -/
def refused (editors : ι → Option Editor) : Call ι σ ρ → Answer ρ × (ι → Option Editor)
  | .read _ out => (.filled ⟨.error .invalidState, out⟩, editors)
  | .write _ _ => (.ended (.error .invalidState), editors)
  | .turn turn => (Users.step names ⟨SharedStore.refusal, editors⟩ turn).map .turned Users.editors
  | .lend _ => (.returned (.error .invalidState), editors)

/-- Runs a body that has the store alone. -/
def runAlone (s : Users ι σ) : Body ι σ ρ → ρ × Users ι σ
  | .done result => (result, s)
  | .look next => runAlone s (next s.store)
  | .change store next => runAlone { s with store } next
  | .call call next =>
    let (answer, editors) := refused names s.editors call
    runAlone { s with editors } (next answer)

/-- Makes one call on the store itself. -/
def stepAlone (s : Users ι σ) : Call ι σ ρ → Answer ρ × Users ι σ
  | .read name out =>
    (RecordStore.read s.store name out).map .filled fun store => { s with store }
  | .write name data =>
    (RecordStore.write s.store name data).map .ended fun store => { s with store }
  | .turn turn => (s.step names turn).map .turned id
  | .lend body => (runAlone names s body).map (fun result => .returned (.ok result)) id

/-! ## Inside of a body -/

/-- A store that is lent to a body. -/
def lend (s : Users ι σ) : Lending ι σ := ⟨s.store, ⟨.lent, s.editors⟩⟩

/-- Every call is refused, and the handle stays as it is. -/
theorem step_lent (editors : ι → Option Editor) (call : Call ι σ ρ) :
    step names ⟨.lent, editors⟩ call
      = (refused names editors call).map id fun editors => ⟨.lent, editors⟩ := by
  cases call with
  | read name out => rfl
  | write name data => rfl
  | turn turn =>
    rw [step, Users.step_lent]
    rfl
  | lend body => rfl

/-- A body has the store alone, whatever it calls through the handle. -/
theorem run_lent (s : Users ι σ) (body : Body ι σ ρ) :
    run names (lend s) body = (runAlone names s body).map id lend := by
  -- Down the tree, along the one path that the answers lead to.
  match body with
  | .done result => rfl
  | .look next =>
    rw [run, runAlone]
    exact run_lent s (next s.store)
  | .change store next =>
    rw [run, runAlone]
    exact run_lent { s with store } next
  | .call call next =>
    have answered : step names (lend s).users call = _ := step_lent names s.editors call
    rw [run, runAlone, answered]
    exact run_lent { s with editors := (refused names s.editors call).2 }
      (next (refused names s.editors call).1)

/-! ## Outside -/

/-- A call on a shared store that nobody has is the call on the store itself, and nobody has it
afterwards. -/
theorem step_share (s : Users ι σ) (call : Call ι σ ρ) :
    step names s.share call = (stepAlone names s call).map id Users.share := by
  cases call with
  | read name out => rfl
  | write name data => rfl
  | turn turn =>
    rw [step, Users.step_free]
    rfl
  | lend body =>
    have alone : run names ⟨s.store, ⟨.lent, s.editors⟩⟩ body = _ := run_lent names s body
    rw [step]
    simp only [Users.share, SharedStore.withStore, alone]
    rfl

/-! ## Runs -/

theorem trace_share (s : Users ι σ) (calls : List (Call ι σ ρ)) :
    (trace (step names) id s.share calls).1
      = (trace (stepAlone names) Users.share s calls).1 := by
  have simulated (s : Users ι σ) (call : Call ι σ ρ) (_ : True) :
      step names s.share call
        = (id (stepAlone names s call).1, (stepAlone names s call).2.share) :=
    step_share names s call
  have seen := trace_view (s := s) (fun _ _ _ => trivial) simulated trivial calls
  rwa [Prod.map_id, List.map_id] at seen

theorem runFrom_share (s : Users ι σ) (calls : List (Call ι σ ρ)) :
    runFrom (step names) s.share calls = (runFrom (stepAlone names) s calls).share := by
  have simulated (s : Users ι σ) (call : Call ι σ ρ) (_ : True) :
      (stepAlone names s call).2.share = (step names s.share call).2 :=
    congrArg Prod.snd (step_share names s call).symm
  exact (runFrom_view (fun _ _ _ => trivial) simulated trivial calls).symm

/-- A shared store is open to the calls that are made in turn, and closed while a body has it. Any
run of calls is answered as over the store itself and leaves what it would leave there, in a handle
that is free after each of them. A body, with any calls in it and in any order, is run as if it had
the store alone and every call through the handle were refused: such a call changes neither the
handle nor a buffer, and runs no other body. So the users of records read nothing and write nothing,
open no record for an edit, and find no key. -/
theorem transparent_unless_lent :
    (∀ (s : Users ι σ) (calls : List (Call ι σ ρ)),
        (trace (step names) id s.share calls).1 = (trace (stepAlone names) Users.share s calls).1
          ∧ runFrom (step names) s.share calls = (runFrom (stepAlone names) s calls).share)
      ∧ (∀ (s : Users ι σ) (body : Body ι σ ρ),
        run names (lend s) body = (runAlone names s body).map id lend)
      ∧ (∀ (editors : ι → Option Editor) (call : Call ι σ ρ),
        step names ⟨.lent, editors⟩ call
          = (refused names editors call).map id fun editors => ⟨.lent, editors⟩)
      ∧ ∀ name : RecordName,
        (∀ out, Record.read name (SharedStore.lent : SharedStore σ) out
            = (⟨.error .invalidState, out⟩, .lent))
          ∧ (∀ data, data.length ≤ maxRecordSize →
            Record.write name (SharedStore.lent : SharedStore σ) data
              = (.error .invalidState, .lent))
          ∧ (∀ buffer calls commits,
            Session.stepRecord name (SharedStore.lent : SharedStore σ) (.edit buffer calls commits)
              = (.failedOpening .invalidState [] buffer, .lent))
          ∧ ∀ key, Record.Answers name (SharedStore.lent : SharedStore σ) key none := by
  refine ⟨?_, run_lent names, step_lent names, ?_⟩
  · exact fun s calls => ⟨trace_share names s calls, runFrom_share names s calls⟩
  · intro name
    refine ⟨fun out => rfl, ?_, fun buffer calls commits => rfl, Record.answers_lent name⟩
    intro data small
    rw [Record.write_lent, if_neg (Nat.not_lt_of_le small)]

/-- A body that lends the store once more. Whatever the other body is, it is not run. -/
example (s : Users ι σ) (other : Body ι σ Bool) :
    (step names s.share (.lend (.call (.lend other) fun answer =>
      match answer with
      | .returned (.error .invalidState) => .done true
      | _ => .done false))).1
      = .returned (.ok true) := rfl

end PropertyRecord.Sharing
