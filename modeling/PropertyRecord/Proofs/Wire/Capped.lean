import PropertyRecord.Proofs.Wire.Cursor

/-!
# Skips with capped loops

How many items a skip has to pass is what a header claims, which may be any word, whatever there is
behind the header. But no item is empty. So a skip that claims more items than there are bytes fails
within one item more than there are bytes, and it comes to the same if its loops are capped there.

A cap is a function of the bytes that are left where a loop starts, and it is ample if it is more
than they are. Main statements: `skipItem_of_overclaims`, `Reader.skipItemWithin_eq` and
`Cursor.run_skipItemWithin`.
-/

namespace PropertyRecord

/-- The header is that of an array or a map with more items in it than there are bytes left. -/
def Header.Overclaims (header : Header) (left : Nat) : Prop :=
  header.major = .array ∧ left < header.argument ∨ header.major = .map ∧ left < 2 * header.argument

/-! ## Capped skips -/

/-- Skips an item like `skipLevels`, with no loop longer than the cap. The two items of a pair are
one step of a loop. -/
def Reader.skipLevelsWithin (cap : Nat → Nat) : (levels : Nat) → Reader → Except Fault Reader
  | 0, _ => .error .exhausted
  | levels + 1, r => do
    let header ← r.peekHeader
    let content := r.advance header.size
    let steps := min header.argument (cap content.remaining)
    match header.major with
    | .unsigned | .negative | .simple => return content
    | .bytes | .text =>
      if Bytes.holds header.argument content.rest then return content.advance header.argument
      else .error .malformed
    | .array => repeatedly (skipLevelsWithin cap levels) steps content
    | .map => repeatedly (skipLevelsWithin cap levels) (2 * steps) content
    | .tag => skipLevelsWithin cap levels content

/-- Skips an item like `skipItem`, with no loop longer than the cap. -/
def Reader.skipItemWithin (cap : Nat → Nat) (r : Reader) : Except Fault Reader :=
  skipLevelsWithin cap (maxNesting + 1) r

open Checked Machine Moving in
/-- Moves behind an item like `skipNested`, with no loop longer than the cap. -/
def Cursor.skipNestedWithin (cap : Nat → Nat) (depth : Nat) : Moving Unit :=
  if maxNesting < depth then throw .exhausted
  else do
    let header ← look peekHeader
    move header.size
    match header.major with
    | .unsigned | .negative | .simple => return
    | .bytes | .text =>
      let left ← look remaining
      if left < header.argument then throw .malformed else move header.argument
    | .array =>
      let left ← look remaining
      repeatedly (skipNestedWithin cap (depth + 1)) (min header.argument (cap left))
    | .map =>
      let left ← look remaining
      repeatedly (do
        skipNestedWithin cap (depth + 1)
        skipNestedWithin cap (depth + 1)) (min header.argument (cap left))
    | .tag => skipNestedWithin cap (depth + 1)
termination_by maxNesting + 1 - depth

/-- Moves behind an item like `skipItem`, with no loop longer than the cap. -/
def Cursor.skipItemWithin (cap : Nat → Nat) : Moving Unit :=
  ExceptT.mk fun c =>
    match (skipNestedWithin cap 0).run c with
    | none => none
    | some (.ok done, next) => some (.ok done, next)
    | some (.error fault, next) => some (.error fault, { next with pos := c.pos })

namespace Reader

variable {cap : Nat → Nat} {levels count limit : Nat} {r next : Reader} {header : Header}
  {one : Reader → Except Fault Reader}

/-! ## Loops of a skip -/

section

variable (progress : ∀ {r next : Reader}, one r = .ok next → next.remaining < r.remaining)

include progress

/-- Steps that succeed are not more than the bytes that they pass. -/
theorem add_remaining_le_of_repeatedly (passed : repeatedly one count r = .ok next) :
    count + next.remaining ≤ r.remaining := by
  induction count generalizing r with
  | zero =>
    cases passed
    exact Nat.le_of_eq (Nat.zero_add _)
  | succ count ih =>
    rw [repeatedly] at passed
    split at passed
    next between first =>
      have shorter := progress first
      have rest := ih passed
      omega
    next => cases passed

/-- A loop that may be longer than the bytes may as well be as long as it likes. -/
theorem repeatedly_min (ample : r.remaining < limit) :
    repeatedly one (min count limit) r = repeatedly one count r := by
  -- Each step leaves fewer bytes and one step less, so the limit stays above the bytes.
  induction count generalizing r limit with
  | zero => rw [Nat.zero_min]
  | succ count ih =>
    cases limit with
    | zero => exact absurd ample (Nat.not_lt_zero _)
    | succ limit =>
      rw [Nat.add_min_add_right, repeatedly, repeatedly]
      split
      next between first =>
        have shorter := progress first
        exact ih (by omega)
      next => rfl

end

/-- An array or a map that claims more items than there are bytes is refused. -/
theorem skipItem_of_overclaims (parsed : r.peekHeader = .ok header)
    (overclaims : header.Overclaims (r.advance header.size).remaining) :
    ∃ fault, r.skipItem = .error fault := by
  cases skipped : r.skipItem with
  | error fault => exact ⟨fault, rfl⟩
  | ok next =>
    rw [skipItem, skipLevels, parsed] at skipped
    rcases overclaims with ⟨kind, short⟩ | ⟨kind, short⟩
    · simp only [bind, Except.bind, kind] at skipped
      have passed := add_remaining_le_of_repeatedly remaining_lt_of_skipLevels skipped
      omega
    · simp only [bind, Except.bind, kind] at skipped
      have passed := add_remaining_le_of_repeatedly remaining_lt_of_skipLevels skipped
      omega

theorem skipLevelsWithin_eq (ample : ∀ left, left < cap left) (levels : Nat) :
    skipLevelsWithin cap levels = skipLevels levels := by
  induction levels with
  | zero => rfl
  | succ levels below =>
    funext r
    rw [skipLevelsWithin, skipLevels, below]
    congr 1
    funext header
    have enough := ample (r.advance header.size).remaining
    have twice : (r.advance header.size).remaining < 2 * cap (r.advance header.size).remaining := by
      omega
    cases header.major with
    | unsigned | negative | bytes | text | simple | tag => rfl
    | array => exact repeatedly_min remaining_lt_of_skipLevels enough
    | map =>
      simp only [← Nat.mul_min_mul_left]
      exact repeatedly_min remaining_lt_of_skipLevels twice

/-- A skip does not depend on an ample cap. -/
theorem skipItemWithin_eq (ample : ∀ left, left < cap left) : skipItemWithin cap = skipItem :=
  skipLevelsWithin_eq ample (maxNesting + 1)

/-- A cap of no more than the bytes that are left is too low: two items are claimed and one is
there. -/
example : (ofBytes [0x82, 0x00]).skipItemWithin id = .ok ⟨2, []⟩
    ∧ (ofBytes [0x82, 0x00]).skipItem = .error .malformed := by decide

end Reader

namespace Cursor

open Checked Machine Moving

variable {cap : Nat → Nat} {source : Bytes} {c : Cursor} {depth : Nat}

/-- Moves that succeed lead the cursor on, within the source. -/
def Advances (source : Bytes) (c : Cursor) (ran : Option (Except Fault Unit × Cursor)) : Prop :=
  (∃ n, 0 < n ∧ c.pos + n ≤ source.length ∧ ran = some (.ok (), c.moved n))
    ∨ ∃ fault next, ran = some (.error fault, next)

theorem Strides.advances {skip : Except Fault Reader} {ran : Option (Except Fault Unit × Cursor)}
    (strides : Strides source c 1 skip ran) : Advances source c ran := by
  rcases strides with ⟨n, fits, ⟨positive, -, ran⟩ | ⟨fault, -, ran⟩⟩
  · exact .inl ⟨n, positive, fits, ran⟩
  · exact .inr ⟨fault, _, ran⟩

theorem Advances.bind {x y : Moving Unit} (inside : c.Inside source)
    (first : Advances source c (x.run c))
    (second : ∀ {c : Cursor}, c.Inside source → Advances source c (y.run c)) :
    Advances source c ((x >>= fun _ => y).run c) := by
  rcases first with ⟨n, positive, fits, ran⟩ | ⟨fault, next, ran⟩
  · rw [run_bind_ok ran]
    rcases second (inside.moved fits) with ⟨m, -, further, ran⟩ | ⟨fault, next, ran⟩
    · rw [moved_moved] at ran
      exact .inl ⟨n + m, Nat.add_pos_left positive m, (Nat.add_assoc c.pos n m) ▸ further, ran⟩
    · exact .inr ⟨fault, next, ran⟩
  · exact .inr ⟨fault, next, run_bind_error ran _⟩

theorem Advances.inside {ran : Option (Except Fault Unit × Cursor)} {next : Cursor}
    (advances : Advances source c ran) (inside : c.Inside source)
    (succeeded : ran = some (.ok (), next)) : next.Inside source ∧ c.pos < next.pos := by
  rcases advances with ⟨n, positive, fits, ran⟩ | ⟨fault, failed, ran⟩
  · cases succeeded.symm.trans ran
    exact ⟨inside.moved fits, Nat.lt_add_of_pos_right positive⟩
  · cases succeeded.symm.trans ran

/-- Computations that start in the same way and go on in the same way. -/
theorem run_bind_congr {α : Type} {x y : Moving α} {k l : α → Moving Unit}
    (first : y.run c = x.run c)
    (later : ∀ a next, x.run c = some (.ok a, next) → (k a).run next = (l a).run next) :
    (y >>= k).run c = (x >>= l).run c := by
  change (y.run c).bind _ = (x.run c).bind _
  rw [first]
  cases ran : x.run c with
  | none => rfl
  | some ended =>
    rcases ended with ⟨fault | a, next⟩
    · rfl
    · exact later a next ran

/-- A loop of moves that may be longer than the bytes may as well be as long as it likes. -/
theorem run_repeatedly_min {x y : Moving Unit}
    (same : ∀ {c : Cursor}, c.Inside source → y.run c = x.run c)
    (each : ∀ {c : Cursor}, c.Inside source → Advances source c (x.run c)) (count : Nat)
    {limit : Nat} (inside : c.Inside source) (ample : c.reader.remaining < limit) :
    (Moving.repeatedly y (min count limit)).run c = (Moving.repeatedly x count).run c := by
  induction count generalizing c limit with
  | zero =>
    rw [Nat.zero_min]
    rfl
  | succ count ih =>
    cases limit with
    | zero => exact absurd ample (Nat.not_lt_zero _)
    | succ limit =>
      rw [Nat.add_min_add_right, Moving.repeatedly, Moving.repeatedly]
      rcases each inside with ⟨n, positive, fits, ran⟩ | ⟨fault, next, ran⟩
      · rw [run_bind_ok ran, run_bind_ok ((same inside).trans ran)]
        have moved := inside.moved fits
        have before := inside.remaining
        have after := moved.remaining
        have further : (c.moved n).pos = c.pos + n := rfl
        exact ih moved (by omega)
      · rw [run_bind_error ran, run_bind_error ((same inside).trans ran)]

section

variable (machine : source.length < unsignedBound)

include machine

/-- A skip that succeeds consumes at least one byte, however deep it is nested. -/
theorem advances_skipNested (inside : c.Inside source) (depth : Nat) :
    Advances source c ((skipNested depth).run c) := by
  by_cases deep : maxNesting < depth
  · rw [skipNested, if_pos deep]
    exact .inr ⟨.exhausted, c, rfl⟩
  · have room : depth + (maxNesting + 1 - depth) = maxNesting + 1 := by omega
    exact (strides_skipNested machine room inside).advances

theorem run_skipNestedWithin_of_add_eq (ample : ∀ left, left < cap left) {levels : Nat}
    (room : depth + levels = maxNesting + 1) (inside : c.Inside source) :
    (skipNestedWithin cap depth).run c = (skipNested depth).run c := by
  induction levels generalizing depth c with
  | zero => rw [skipNestedWithin, skipNested, if_pos (by omega), if_pos (by omega)]
  | succ levels ih =>
    rw [skipNestedWithin, skipNested, if_neg (by omega), if_neg (by omega)]
    refine run_bind_congr rfl fun header next seen => ?_
    rw [run_look (peekHeader_eq inside)] at seen
    obtain ⟨parsed, rfl⟩ : c.reader.peekHeader = .ok header ∧ c = next := by simpa using seen
    rcases inside.header parsed with ⟨-, fits⟩
    have content := inside.moved fits
    have moved := run_move (Nat.lt_of_le_of_lt fits machine)
    have left := run_look (remaining_eq content)
    have enough := ample (c.moved header.size).reader.remaining
    have same {c : Cursor} (inside : c.Inside source) := ih (by omega : depth + 1 + levels = _) inside
    have each {c : Cursor} (inside : c.Inside source) := advances_skipNested machine inside (depth + 1)
    rw [run_bind_ok moved, run_bind_ok moved]
    cases header.major with
    | unsigned | negative | simple | bytes | text => rfl
    | array =>
      rw [run_bind_ok left]
      exact run_repeatedly_min same each header.argument content enough
    | map =>
      rw [run_bind_ok left]
      refine run_repeatedly_min (fun inside => ?_) (fun inside => ?_) header.argument content enough
      · exact run_bind_congr (same inside) fun _ next ran => same ((each inside).inside inside ran).1
      · exact (each inside).bind inside each
    | tag => exact same content

/-- A skip that is nested in others does not depend on an ample cap, and leaves the cursor where it
does without one, also if it fails. -/
theorem run_skipNestedWithin (ample : ∀ left, left < cap left) (inside : c.Inside source)
    (depth : Nat) : (skipNestedWithin cap depth).run c = (skipNested depth).run c := by
  by_cases deep : maxNesting < depth
  · rw [skipNestedWithin, skipNested, if_pos deep, if_pos deep]
  · have room : depth + (maxNesting + 1 - depth) = maxNesting + 1 := by omega
    exact run_skipNestedWithin_of_add_eq machine ample room inside

theorem run_skipItemWithin (ample : ∀ left, left < cap left) (inside : c.Inside source) :
    (skipItemWithin cap).run c = skipItem.run c := by
  rw [skipItemWithin, ExceptT.run_mk, run_skipNestedWithin machine ample inside]
  rfl

/-- An array or a map that claims more items than there are bytes is refused, and the cursor is put
back. -/
theorem run_skipItem_of_overclaims {header : Header} (inside : c.Inside source)
    (parsed : c.reader.peekHeader = .ok header)
    (overclaims : header.Overclaims (c.reader.advance header.size).remaining) :
    ∃ fault, skipItem.run c = some (.error fault, c) := by
  rcases Reader.skipItem_of_overclaims parsed overclaims with ⟨fault, refused⟩
  have landed := lands_skipItem machine inside
  rw [refused] at landed
  rcases landed with ⟨a, n, -, -, done, -⟩ | ⟨other, -, ran⟩
  · cases done
  · exact ⟨other, ran⟩

end

end Cursor

end PropertyRecord
