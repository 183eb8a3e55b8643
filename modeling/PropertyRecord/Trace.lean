/-!
# Runs of calls

A state machine is a function `step` from a state and a call to an answer and the next state. A
run makes a list of calls in order, whether or not they succeed.
-/

namespace PropertyRecord

variable {σ κ α β : Type}

/-- The state after a list of calls. -/
def runFrom (step : σ → κ → α × σ) (s : σ) (calls : List κ) : σ :=
  calls.foldl (fun s call => (step s call).2) s

/-- The answer to each call with a view of the state after it, and the state at the end. -/
def trace (step : σ → κ → α × σ) (view : σ → β) (s : σ) : List κ → List (α × β) × σ
  | [] => ([], s)
  | call :: calls =>
    let (answer, next) := step s call
    let (answers, last) := trace step view next calls
    ((answer, view next) :: answers, last)

/-- A call in the state that it is made in. -/
structure Moment (σ κ : Type) where
  state : σ
  call : κ

/-- The calls of a run, each in the state that it is made in. -/
def moments (step : σ → κ → α × σ) (s : σ) : List κ → List (Moment σ κ)
  | [] => []
  | call :: calls => ⟨s, call⟩ :: moments step (step s call).2 calls

/-- The answer to each call of a run. -/
def answers (step : σ → κ → α × σ) (s : σ) (calls : List κ) : List α :=
  (moments step s calls).map fun moment => (step moment.state moment.call).1

/-- The calls on a list of machines of one kind: one on the machine at an index, or one that puts a
copy of that machine at the end of the list. -/
inductive CopyCall (κ : Type) where
  | on (index : Nat) (call : κ)
  | copy (index : Nat)

/-- Makes one call on a list of machines. It is answered if it is made on a machine that there is.
-/
def stepCopies (step : σ → κ → α × σ) (machines : List σ) : CopyCall κ → Option α × List σ
  | .on index call =>
    match machines[index]? with
    | some s => (some (step s call).1, machines.set index (step s call).2)
    | none => (none, machines)
  | .copy index =>
    match machines[index]? with
    | some s => (none, machines ++ [s])
    | none => (none, machines)

theorem runFrom_cons (step : σ → κ → α × σ) (s : σ) (call : κ) (calls : List κ) :
    runFrom step s (call :: calls) = runFrom step (step s call).2 calls := rfl

/-- The calls of a longer run are made in the states of the run before it and from its end on. -/
theorem moments_append (step : σ → κ → α × σ) (s : σ) (calls later : List κ) :
    moments step s (calls ++ later)
      = moments step s calls ++ moments step (runFrom step s calls) later := by
  induction calls generalizing s with
  | nil => rfl
  | cons call calls ih => exact congrArg (⟨s, call⟩ :: ·) (ih (step s call).2)

theorem trace_snd (step : σ → κ → α × σ) (view : σ → β) (s : σ) (calls : List κ) :
    (trace step view s calls).2 = runFrom step s calls := by
  induction calls generalizing s with
  | nil => rfl
  | cons call calls ih => exact ih (step s call).2

/-- Whatever every call keeps, a run keeps. -/
theorem runFrom_induction {step : σ → κ → α × σ} {holds : σ → Prop}
    (kept : ∀ s call, holds s → holds (step s call).2)
    {s : σ} (start : holds s) (calls : List κ) : holds (runFrom step s calls) := by
  induction calls generalizing s with
  | nil => exact start
  | cons call calls ih => exact ih (kept s call start)

/-- If every call on a state is a call of a second machine on what is seen of the state, then so is
a run. -/
theorem runFrom_view {τ γ : Type} {step : σ → κ → α × σ} {spec : τ → κ → γ × τ} {view : σ → τ}
    {holds : σ → Prop} (kept : ∀ s call, holds s → holds (step s call).2)
    (simulated : ∀ s call, holds s → view (step s call).2 = (spec (view s) call).2)
    {s : σ} (start : holds s) (calls : List κ) :
    view (runFrom step s calls) = runFrom spec (view s) calls := by
  induction calls generalizing s with
  | nil => rfl
  | cons call calls ih =>
    rw [runFrom_cons, runFrom_cons, ← simulated s call start]
    exact ih (kept s call start)

/-- If every call on a state is a call of a second machine on what is seen of the state, then a run
of the one is a run of the other. -/
theorem trace_view {τ γ : Type} {step : σ → κ → α × σ} {spec : τ → κ → γ × τ} {view : σ → τ}
    {answer : α → γ} {holds : σ → Prop} (kept : ∀ s call, holds s → holds (step s call).2)
    (simulated : ∀ s call, holds s →
      spec (view s) call = (answer (step s call).1, view (step s call).2))
    {s : σ} (start : holds s) (calls : List κ) :
    (trace spec id (view s) calls).1 = (trace step view s calls).1.map (Prod.map answer id) := by
  induction calls generalizing s with
  | nil => rfl
  | cons call calls ih =>
    have later := ih (kept s call start)
    simp only [trace, simulated s call start, later, List.map_cons, Prod.map, id]

/-- Whatever every call keeps, copies keep. -/
theorem forall_stepCopies {step : σ → κ → α × σ} {holds : σ → Prop}
    (kept : ∀ s call, holds s → holds (step s call).2) (machines : List σ) (call : CopyCall κ)
    (each : ∀ s ∈ machines, holds s) : ∀ s ∈ (stepCopies step machines call).2, holds s := by
  intro s member
  cases call with
  | on index call =>
    rw [stepCopies] at member
    cases found : machines[index]? with
    | none =>
      rw [found] at member
      exact each s member
    | some called =>
      rw [found] at member
      rcases List.mem_or_eq_of_mem_set member with other | rfl
      · exact each s other
      · exact kept called call (each called (List.mem_of_getElem? found))
  | copy index =>
    rw [stepCopies] at member
    cases found : machines[index]? with
    | none =>
      rw [found] at member
      exact each s member
    | some copied =>
      rw [found] at member
      rcases List.mem_append.1 member with other | last
      · exact each s other
      · rw [List.mem_singleton.1 last]
        exact each copied (List.mem_of_getElem? found)

/-- What is seen of the copies of a machine are copies of what is seen of it. -/
theorem map_stepCopies {τ γ : Type} {step : σ → κ → α × σ} {spec : τ → κ → γ × τ} {view : σ → τ}
    {holds : σ → Prop}
    (simulated : ∀ s call, holds s → view (step s call).2 = (spec (view s) call).2)
    (machines : List σ) (call : CopyCall κ) (each : ∀ s ∈ machines, holds s) :
    (stepCopies step machines call).2.map view = (stepCopies spec (machines.map view) call).2 := by
  cases call with
  | on index call =>
    rw [stepCopies, stepCopies, List.getElem?_map]
    cases found : machines[index]? with
    | none => rfl
    | some called =>
      have seen := simulated called call (each called (List.mem_of_getElem? found))
      simp only [Option.map_some, List.map_set, seen]
  | copy index =>
    rw [stepCopies, stepCopies, List.getElem?_map]
    cases found : machines[index]? with
    | none => rfl
    | some copied => exact List.map_append

end PropertyRecord
