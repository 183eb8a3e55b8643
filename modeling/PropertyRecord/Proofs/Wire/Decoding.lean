import PropertyRecord.Proofs.Wire.Cursor

/-!
# Runs of a decoding

Every call on a decoding whose cursors are within the bounds of the bytes is the same call on the
reading, and keeps the cursors within the bounds. Copies share nothing but the bytes, so this holds
of all of them, whatever calls are made on which.

Main statements: `exists_makes` for a call, and `safe_runFrom` for a run.
-/

namespace PropertyRecord

namespace Reading.Call

/-- Whether a call only looks at what is next. -/
def peeks : Call → Bool
  | .peekMajor | .peekByte | .peekStringLength => true
  | _ => false

/-- Whether a call asks for what is next and moves behind it: a read or a skip. -/
def takes : Call → Bool
  | .readMapHeader | .readBool | .readInt | .readUInt | .readDouble | .readText _ | .readBytes _
  | .skipItem => true
  | _ => false

end Reading.Call

namespace Decoding

open Reading (Call Answer Reply)

variable {source : Bytes} {d : Decoding}

/-- A decoding whose cursors are over a byte string, within its bounds. -/
structure Inside (source : Bytes) (d : Decoding) : Prop where
  current : d.current.Inside source
  saved : d.saved.Inside source

theorem Inside.ofBytes (source : Bytes) : (ofBytes source).Inside source :=
  ⟨⟨rfl, Nat.zero_le _⟩, ⟨rfl, Nat.zero_le _⟩⟩

/-! ## One call -/

/-- What a read on a decoding comes to, if it is a read of the reading. -/
structure Settles (source : Bytes) (d : Decoding) (ran : Option Reply × Decoding)
    (read : Reply × Reading) : Prop where
  ran_eq : ran = (some read.1, ran.2)
  read_eq : read.2 = ran.2.reading
  inside : ran.2.Inside source
  unmoved : read.1.result.isOk = false → ran.2 = d
  taken : read.1.result.isOk = true → d.current.pos < ran.2.current.pos

theorem reading_moved (d : Decoding) (n : Nat) :
    ({ d with current := d.current.moved n } : Decoding).reading
      = { d.reading with current := d.reading.current.advance n } :=
  congrArg (fun current => Reading.mk d.current.data current d.saved.reader)
    (Cursor.reader_moved d.current n)

theorem settles_ofRead {α : Type} {read : Except Fault (α × Reader)} {x : Moving α}
    (inside : d.Inside source) (landed : Cursor.Lands source d.current read (x.run d.current))
    (answer : α → Answer) :
    Settles source d (d.ofRead answer x) (d.reading.ofRead answer read) := by
  rw [ofRead]
  rcases landed with ⟨a, n, positive, fits, rfl, ran⟩ | ⟨fault, rfl, ran⟩
  · rw [ran]
    exact ⟨rfl, (reading_moved d n).symm, ⟨inside.current.moved fits, inside.saved⟩,
      fun failed => absurd failed.symm Bool.false_ne_true,
      fun _ => Nat.lt_add_of_pos_right positive⟩
  · rw [ran]
    exact ⟨rfl, rfl, inside, fun _ => rfl, fun done => absurd done Bool.false_ne_true⟩

theorem settles_ofFilled {α : Type} {read : Filled (α × Reader)}
    {x : Cursor → Option (Filled α × Cursor)} (inside : d.Inside source)
    (fills : Cursor.Fills source d.current read (x d.current)) (answer : α → Answer) :
    Settles source d (d.ofFilled answer x) (d.reading.ofFilled answer read) := by
  rcases read with ⟨result, out⟩
  rcases fills with ⟨moved, landed, ran⟩
  rw [ofFilled, ran]
  rcases landed with ⟨a, n, positive, fits, rfl, rfl⟩ | ⟨fault, rfl, rfl⟩
  · exact ⟨rfl, (reading_moved d n).symm, ⟨inside.current.moved fits, inside.saved⟩,
      fun failed => absurd failed.symm Bool.false_ne_true,
      fun _ => Nat.lt_add_of_pos_right positive⟩
  · exact ⟨rfl, rfl, inside, fun _ => rfl, fun done => absurd done Bool.false_ne_true⟩

/-- A look at the current cursor. -/
theorem ofPeek_eq {α : Type} {peek : Except Fault α} {seen : Cursor → Checked α}
    (same : seen d.current = Checked.ofExcept peek) (answer : α → Answer) :
    d.ofPeek answer seen = (some (d.reading.ofPeek answer peek).1, d) := by
  rw [ofPeek, same]
  rfl

/-- What a call on a decoding over `source` comes to. -/
structure Makes (source : Bytes) (d : Decoding) (call : Call) (reply : Reply) (next : Decoding) :
    Prop where
  /-- It does not stop: no index is out of range, and every sum and difference is a word. -/
  step_eq : d.step call = (some reply, next)
  reading_eq : d.reading.step call = (reply, next.reading)
  inside : next.Inside source
  /-- It moves nothing if it fails. -/
  unmoved : reply.result.isOk = false → next = d
  peeked : call.peeks = true → next = d
  taken : call.takes = true → reply.result.isOk = true → d.current.pos < next.current.pos

theorem Settles.makes {call : Call} (settles : Settles source d (d.step call) (d.reading.step call))
    (move : call.peeks = false) : ∃ reply next, d.Makes source call reply next :=
  ⟨(d.reading.step call).1, (d.step call).2, settles.ran_eq, Prod.ext rfl settles.read_eq,
    settles.inside, settles.unmoved,
    fun peek => absurd (move.symm.trans peek) Bool.false_ne_true, fun _ => settles.taken⟩

/-- A call that moves nothing. -/
theorem makes_of_still {call : Call} {reply : Reply} (inside : d.Inside source)
    (ran : d.step call = (some reply, d)) (read : d.reading.step call = (reply, d.reading))
    (still : call.takes = false) : ∃ reply next, d.Makes source call reply next :=
  ⟨reply, d, ran, read, inside, fun _ => rfl, fun _ => rfl,
    fun takes => absurd (still.symm.trans takes) Bool.false_ne_true⟩

/-- A call on a decoding within its bounds does not stop and is the call on the reading. If it
fails or peeks it moves nothing, and if it succeeds in taking something it moves on. -/
theorem exists_makes (machine : source.length < unsignedBound) (inside : d.Inside source)
    (call : Call) : ∃ reply next, d.Makes source call reply next := by
  have within := inside.current
  cases call with
  | readMapHeader =>
    exact (settles_ofRead inside (Cursor.lands_readMapHeader machine within) _).makes rfl
  | readBool => exact (settles_ofRead inside (Cursor.lands_readBool machine within) _).makes rfl
  | readInt => exact (settles_ofRead inside (Cursor.lands_readInt machine within) _).makes rfl
  | readUInt => exact (settles_ofRead inside (Cursor.lands_readUInt machine within) _).makes rfl
  | readDouble =>
    exact (settles_ofRead inside (Cursor.lands_readDouble machine within) _).makes rfl
  | readText out =>
    refine Settles.makes ?_ rfl
    rw [Reading.step, Reader.readText_eq]
    exact settles_ofFilled inside
      (Cursor.fills_readString machine within .text Cursor.decodeText out) _
  | readBytes out =>
    refine Settles.makes ?_ rfl
    rw [Reading.step, Reader.readBytes_eq]
    exact settles_ofFilled inside (Cursor.fills_readString machine within .bytes .ok out) _
  | skipItem => exact (settles_ofRead inside (Cursor.lands_skipItem machine within) _).makes rfl
  | peekMajor =>
    exact makes_of_still inside (ofPeek_eq (Cursor.peekMajor_eq d.current) _) rfl rfl
  | peekByte =>
    exact makes_of_still inside (ofPeek_eq (Cursor.peekByte_eq d.current) _) rfl rfl
  | peekStringLength =>
    exact makes_of_still inside (ofPeek_eq (Cursor.peekStringLength_eq within) _) rfl rfl
  | save =>
    exact ⟨_, _, rfl, rfl, ⟨within, within⟩, fun failed => absurd failed.symm Bool.false_ne_true,
      fun peek => absurd peek Bool.false_ne_true, fun takes => absurd takes Bool.false_ne_true⟩
  | restore =>
    have same : d.current.data = d.saved.data := within.data.trans inside.saved.data.symm
    refine ⟨_, { d with current := d.saved }, rfl, ?_, ⟨inside.saved, inside.saved⟩,
      fun failed => absurd failed.symm Bool.false_ne_true,
      fun peek => absurd peek Bool.false_ne_true, fun takes => absurd takes Bool.false_ne_true⟩
    rw [Reading.step, reading, reading, same]
  | state =>
    refine makes_of_still inside (ofPeek_eq (Cursor.remaining_eq within) _) ?_ rfl
    rw [Cursor.hasNext_eq]
    rfl
  | describe => exact makes_of_still inside rfl rfl rfl

/-! ## Runs -/

/-- Runs of a decoding are safe. Whatever bytes it is over, and whatever calls are made on it and
on its copies in any order, none of them ever stands outside of the bytes, and they are what the
readings come to of which the same calls are made. Whatever call is made next on any of them does
not stop: there is no index out of range, and every sum and difference of positions and lengths is
a word. If it fails or peeks it leaves everything as it was; a read or a skip that succeeds moves
on, and not out of the bytes. -/
theorem safe_runFrom {source : Bytes} (machine : source.length < unsignedBound)
    (calls : List (CopyCall Call)) :
    let decodings := runFrom (stepCopies step) [ofBytes source] calls
    decodings.map reading = runFrom (stepCopies Reading.step) [.ofBytes source] calls
      ∧ ∀ d ∈ decodings, d.current.data = source ∧ d.current.pos ≤ source.length
        ∧ ∀ call, ∃ reply next, d.Makes source call reply next := by
  intro decodings
  have start : ∀ d ∈ [ofBytes source], Inside source d := by
    intro d first
    rw [List.mem_singleton.1 first]
    exact .ofBytes source
  have kept (d : Decoding) (call : Call) (inside : d.Inside source) :
      (d.step call).2.Inside source := by
    rcases exists_makes machine inside call with ⟨reply, next, makes⟩
    rw [makes.step_eq]
    exact makes.inside
  have simulated (d : Decoding) (call : Call) (inside : d.Inside source) :
      (d.step call).2.reading = (d.reading.step call).2 := by
    rcases exists_makes machine inside call with ⟨reply, next, makes⟩
    rw [makes.step_eq, makes.reading_eq]
  have each := runFrom_induction (forall_stepCopies kept) start calls
  refine ⟨runFrom_view (forall_stepCopies kept) (map_stepCopies simulated) start calls,
    fun d member => ?_⟩
  have inside := each d member
  exact ⟨inside.current.data, inside.current.le, exists_makes machine inside⟩

/-- Not even an array that claims to have as many items as there are words leads a copy out of the
bytes. -/
theorem safe_runFrom_endless :
    let source : Bytes := [0x9b, 0xff, 0xff, 0xff, 0xff, 0xff, 0xff, 0xff, 0xff, 0x01]
    let decodings := runFrom (stepCopies step) [ofBytes source] [.copy 0, .on 1 .skipItem]
    source.length < unsignedBound
      ∧ decodings.map reading
        = runFrom (stepCopies Reading.step) [.ofBytes source] [.copy 0, .on 1 .skipItem]
      ∧ ∀ d ∈ decodings, d.current.data = source ∧ d.current.pos ≤ source.length
        ∧ ∀ call, ∃ reply next, d.Makes source call reply next := by
  intro source decodings
  have machine : source.length < unsignedBound := by decide
  exact ⟨machine, safe_runFrom machine [.copy 0, .on 1 .skipItem]⟩

end Decoding

end PropertyRecord
