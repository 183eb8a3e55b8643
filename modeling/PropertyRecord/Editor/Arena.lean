import PropertyRecord.Value

/-!
# The arena

An editor keeps its copies of keys, texts and byte strings in the buffer that it was given. Copies
are handed out downward from the end of the buffer, each directly below the one before it, and
none is ever moved or freed. They may take up at most half of the buffer.

The buffer is kept as the two parts that the lowest copy divides, so a place in the back part is
named by its distance from the end of the buffer, which no later copy changes. Main statements:
`bytesAt_newest` reads a new copy back, and `bytesAt_stash` says that it leaves the others alone.
-/

namespace PropertyRecord

/-- A place in the back part of an arena. -/
structure Span where
  /-- The distance of its first byte from the end of the buffer. -/
  depth : Nat
  size : Nat
  deriving DecidableEq

/-- A buffer of which the back part has been handed out. -/
structure Arena where
  /-- The bytes below the lowest copy, the nearest first. -/
  below : Bytes
  /-- The bytes handed out, from the lowest copy to the end of the buffer. -/
  back : Bytes
  deriving DecidableEq

namespace Arena

/-- A buffer of which nothing has been handed out. -/
def ofBuffer (buffer : Bytes) : Arena := ⟨buffer.reverse, []⟩

/-- The part of the buffer that has not been handed out. -/
def front (a : Arena) : Bytes := a.below.reverse

/-- The whole buffer. -/
def buffer (a : Arena) : Bytes := a.front ++ a.back

/-- The length of the buffer. -/
def capacity (a : Arena) : Nat := a.below.length + a.back.length

/-- The number of bytes that may be handed out in all. -/
def budget (a : Arena) : Nat := a.capacity / 2

/-- The number of bytes handed out. -/
def used (a : Arena) : Nat := a.back.length

/-- The number of bytes that may still be handed out. -/
def remaining (a : Arena) : Nat := a.budget - a.used

/-- The place of a span's first byte, counted from the front of the buffer. -/
def offset (a : Arena) (span : Span) : Nat := a.capacity - span.depth

/-- Whether `size` more bytes can be handed out if there may be `limit` of them in all. -/
def fits (a : Arena) (limit size : Nat) : Bool := a.used + size ≤ limit

/-- Hands out the `size` bytes below the lowest copy, as they are. -/
def extend (a : Arena) (size : Nat) : Arena :=
  ⟨a.below.drop size, (a.below.take size).reverse ++ a.back⟩

/-- The span of the `size` bytes handed out last. -/
def newest (a : Arena) (size : Nat) : Span := ⟨a.used, size⟩

/-- The bytes of a span. -/
def bytesAt (a : Arena) (span : Span) : Bytes := (a.back.drop (a.used - span.depth)).take span.size

/-- Overwrites the lowest bytes handed out. -/
def fill (a : Arena) (bytes : Bytes) : Arena := { a with back := Bytes.overlay bytes a.back }

/-- Copies bytes into space handed out for them. -/
def stash (a : Arena) (bytes : Bytes) : Arena := (a.extend bytes.length).fill bytes

/-! ## What the operations do to the parts -/

theorem fits_iff {a : Arena} {limit size : Nat} :
    a.fits limit size = true ↔ a.used + size ≤ limit := decide_eq_true_iff

theorem length_front (a : Arena) : a.front.length = a.below.length := List.length_reverse

theorem capacity_extend (a : Arena) (size : Nat) : (a.extend size).capacity = a.capacity := by
  simp only [capacity, extend, List.length_drop, List.length_append, List.length_reverse,
    List.length_take]
  omega

theorem used_extend {a : Arena} {size : Nat} (room : size ≤ a.below.length) :
    (a.extend size).used = a.used + size := by
  simp only [used, extend, List.length_append, List.length_reverse, List.length_take]
  omega

theorem back_stash {a : Arena} {bytes : Bytes} (room : bytes.length ≤ a.below.length) :
    (a.stash bytes).back = bytes ++ a.back := by
  have size : ((a.below.take bytes.length).reverse).length = bytes.length := by
    rw [List.length_reverse, List.length_take_of_le room]
  exact congrArg (bytes ++ ·) (List.drop_left' size)

theorem stash_nil (a : Arena) : a.stash [] = a := rfl

theorem used_stash {a : Arena} {bytes : Bytes} (room : bytes.length ≤ a.below.length) :
    (a.stash bytes).used = a.used + bytes.length := by
  rw [used, back_stash room, List.length_append, Nat.add_comm, used]

theorem capacity_stash {a : Arena} {bytes : Bytes} (room : bytes.length ≤ a.below.length) :
    (a.stash bytes).capacity = a.capacity := by
  have low : (a.stash bytes).below = a.below.drop bytes.length := rfl
  rw [capacity, low, back_stash room, List.length_drop, List.length_append, capacity]
  omega

theorem length_below_stash (a : Arena) (bytes : Bytes) :
    (a.stash bytes).below.length = a.below.length - bytes.length := List.length_drop

theorem budget_stash {a : Arena} {bytes : Bytes} (room : bytes.length ≤ a.below.length) :
    (a.stash bytes).budget = a.budget := by
  rw [budget, capacity_stash room, budget]

/-- Two copies are one that has the second in front. -/
theorem stash_stash {a : Arena} {bytes more : Bytes}
    (room : bytes.length + more.length ≤ a.below.length) :
    (a.stash bytes).stash more = a.stash (more ++ bytes) := by
  have first : bytes.length ≤ a.below.length := Nat.le_of_add_right_le room
  have second : more.length ≤ (a.stash bytes).below.length := by
    rw [length_below_stash]
    omega
  have both : (more ++ bytes).length ≤ a.below.length := by
    rw [List.length_append]
    omega
  have low : ((a.stash bytes).stash more).below = (a.stash (more ++ bytes)).below := by
    change (a.below.drop bytes.length).drop more.length = a.below.drop (more ++ bytes).length
    rw [List.drop_drop, List.length_append, Nat.add_comm]
  have high : ((a.stash bytes).stash more).back = (a.stash (more ++ bytes)).back := by
    rw [back_stash second, back_stash first, back_stash both, List.append_assoc]
  exact (Arena.mk.injEq ..).mpr ⟨low, high⟩

/-- A new copy is read back from its span. -/
theorem bytesAt_newest {a : Arena} {bytes : Bytes} (room : bytes.length ≤ a.below.length) :
    (a.stash bytes).bytesAt ((a.stash bytes).newest bytes.length) = bytes := by
  simp [bytesAt, newest, back_stash room]

/-- A new copy leaves every span as it was. -/
theorem bytesAt_stash {a : Arena} {bytes : Bytes} {span : Span}
    (room : bytes.length ≤ a.below.length) (inside : span.depth ≤ a.used) :
    (a.stash bytes).bytesAt span = a.bytesAt span := by
  have later : a.used + bytes.length - span.depth = bytes.length + (a.used - span.depth) := by omega
  rw [bytesAt, used_stash room, back_stash room, later, ← List.drop_drop, List.drop_left]
  rfl

/-- Within the budget there is room below the lowest copy. -/
theorem le_below {a : Arena} {size : Nat} (room : a.used + size ≤ a.budget) :
    size ≤ a.below.length := by
  rw [budget, capacity, used] at room
  omega

end Arena

end PropertyRecord
