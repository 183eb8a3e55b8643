import PropertyRecord.Session.Users

/-!
# Bodies over a shared store

A shared store is lent to a body, which does with it what it likes and gives it back. In the
meantime calls may be made through the shared handle too: reads and writes, turns of the users of
the store, and calls that lend the store once more. What a body does next may depend on all that it
has seen, so a body is a tree.
-/

namespace PropertyRecord.Sharing

/-- What a call through a shared handle is answered. A body returns a `ρ`. -/
inductive Answer (ρ : Type) where
  | filled (filled : Filled Nat)
  | ended (result : Except Fault Unit)
  | turned (answer : User.Answer)
  | returned (result : Except Fault ρ)

mutual

/-- The calls through a shared handle. -/
inductive Call (ι σ ρ : Type) where
  | read (name : String) (out : Bytes)
  | write (name : String) (data : Bytes)
  /-- One of the users of the store makes a call. -/
  | turn (turn : Users.Turn ι)
  /-- Lends the store to a body. -/
  | lend (body : Body ι σ ρ)

/-- What is done with a store while it is lent. -/
inductive Body (ι σ ρ : Type) where
  /-- Gives the store back. -/
  | done (result : ρ)
  /-- Looks at the store. -/
  | look (next : σ → Body ι σ ρ)
  /-- Changes the store to another one. -/
  | change (store : σ) (next : Body ι σ ρ)
  /-- Makes a call through the shared handle, and goes on with the answer. -/
  | call (call : Call ι σ ρ) (next : Answer ρ → Body ι σ ρ)

end

/-- A store while it is lent, and its users with the handle as it is in the meantime. -/
structure Lending (ι σ : Type) where
  store : σ
  users : Users ι (SharedStore σ)

variable {ι σ ρ : Type} [DecidableEq ι] [RecordStore σ] (names : ι → RecordName)

mutual

/-- Makes one call through the shared handle. -/
def step (s : Users ι (SharedStore σ)) : Call ι σ ρ → Answer ρ × Users ι (SharedStore σ)
  | .read name out =>
    (RecordStore.read s.store name out).map .filled fun store => { s with store }
  | .write name data =>
    (RecordStore.write s.store name data).map .ended fun store => { s with store }
  | .turn turn => (s.step names turn).map .turned id
  | .lend body =>
    let (result, store) := s.store.withStore fun inner outside =>
      let (result, left) := run ⟨inner, { s with store := outside }⟩ body
      ((result, left.users.editors), left.store)
    match result with
    | .ok (result, editors) => (.returned (.ok result), ⟨store, editors⟩)
    | .error fault => (.returned (.error fault), { s with store })

/-- Runs a body to its end. -/
def run (lending : Lending ι σ) : Body ι σ ρ → ρ × Lending ι σ
  | .done result => (result, lending)
  | .look next => run lending (next lending.store)
  | .change store next => run { lending with store } next
  | .call call next =>
    let (answer, users) := step lending.users call
    run { lending with users } (next answer)

end

end PropertyRecord.Sharing
