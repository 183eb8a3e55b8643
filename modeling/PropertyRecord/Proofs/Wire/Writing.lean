import PropertyRecord.Wire.Writer

/-!
# Calls on a writer

A call asks for room and puts its pieces only if it gets it, and what it asks for is what it puts.
So a call has its canonical bytes appended whole, or it leaves no trace. A sequence of such
computations comes to the end exactly if there is room for the bytes of all of them; otherwise it
stops at the first one that does not fit and leaves those before it.

Main statements: `step_eq` for a call, and `Writes.bind` for sequences.
-/

namespace PropertyRecord.Writer

/-- The canonical bytes that a call stands for. -/
def Call.canonical : Call → Bytes
  | beginMap count => encodeMapHeader count
  | write p => p.encode
  | describe => []

/-- What a call answers if it is granted. -/
def answer (w : Writer) : Call → Answer
  | .describe => .described w.describe
  | .beginMap _ | .write _ => .done

/-! ## One call -/

theorem size_put (w : Writer) (piece : Bytes) : (w.put piece).size = w.size + piece.length :=
  List.length_append

theorem remaining_put (w : Writer) (piece : Bytes) :
    (w.put piece).remaining = w.remaining - piece.length :=
  List.length_drop

/-- A call has its canonical bytes appended if there is room for all of them, and else it changes
nothing. -/
theorem step_eq (w : Writer) (call : Call) :
    w.step call
      = if call.canonical.length ≤ w.remaining then (.ok (w.answer call), w.put call.canonical)
        else (.error .exhausted, w) := by
  cases call with
  | beginMap count =>
    rw [step, run_beginMap, append, Call.canonical]
    split <;> rfl
  | write p =>
    rw [step, run_write, append, Call.canonical]
    split <;> rfl
  | describe =>
    have room : Call.describe.canonical.length ≤ w.remaining := Nat.zero_le _
    rw [if_pos room, Call.canonical, put_nil]
    rfl

theorem step_of_le {w : Writer} {call : Call} (room : call.canonical.length ≤ w.remaining) :
    w.step call = (.ok (w.answer call), w.put call.canonical) := by
  rw [step_eq, if_pos room]

theorem step_of_lt {w : Writer} {call : Call} (large : w.remaining < call.canonical.length) :
    w.step call = (.error .exhausted, w) := by
  rw [step_eq, if_neg (Nat.not_le_of_lt large)]

/-! ## Sequences -/

/-- A computation that puts a chunk if there is room for all of it, and otherwise fails for want of
room. -/
structure Writes (x : Writing Unit) (chunk : Bytes) : Prop where
  of_le : ∀ w : Writer, chunk.length ≤ w.remaining → w.run x = (.ok (), w.put chunk)
  of_lt : ∀ w : Writer, w.remaining < chunk.length → (w.run x).1 = .error .exhausted

namespace Writes

variable {x y : Writing Unit} {chunk more : Bytes}

theorem of_append (ran : ∀ w : Writer, w.run x = w.append chunk) : Writes x chunk where
  of_le w fits := (ran w).trans (append_of_le fits)
  of_lt w large := congrArg Prod.fst ((ran w).trans (append_of_lt large))

theorem beginMap (count : Nat) : Writes (Writing.beginMap count) (encodeMapHeader count) :=
  of_append fun w => run_beginMap w count

theorem write (p : Property) : Writes (Writing.write p) p.encode :=
  of_append fun w => run_write w p

theorem nothing : Writes (pure ()) [] where
  of_le w _ := congrArg (Prod.mk _) (put_nil w).symm
  of_lt _ large := absurd large (Nat.not_lt_zero _)

theorem bind (first : Writes x chunk) (second : Writes y more) :
    Writes (x >>= fun _ => y) (chunk ++ more) where
  of_le w fits := by
    rw [List.length_append] at fits
    have room : more.length ≤ (w.put chunk).remaining := by
      rw [remaining_put]
      exact Nat.le_sub_of_add_le' fits
    rw [run_bind_ok (first.of_le w (Nat.le_of_add_right_le fits)), second.of_le _ room, put_put]
  of_lt w large := by
    rw [List.length_append] at large
    by_cases fits : chunk.length ≤ w.remaining
    · have full : (w.put chunk).remaining < more.length := by
        rw [remaining_put]
        omega
      rw [run_bind_ok (first.of_le w fits)]
      exact second.of_lt _ full
    · have failed := first.of_lt w (Nat.lt_of_not_le fits)
      have ran : w.run x = (.error .exhausted, (w.run x).2) := Prod.ext failed rfl
      rw [run_bind_error ran]

end Writes

end PropertyRecord.Writer
