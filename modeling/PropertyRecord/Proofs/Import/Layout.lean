import PropertyRecord.Proofs.Editor.Embedded
import PropertyRecord.Proofs.Import.Ranges

/-!
# The steps of an import in one buffer

Between the steps of an import a layout is the arena of an editor, in one buffer, with the record in
front as it was: the copies are handed out behind a floor, and the record is before it. So a cursor
over the record is over the original bytes, a string goes where the arena keeps it, and no range is
out of the buffer.

`Lays` is what holds between two steps, and `FollowsRead` what a step comes to that reads. Main
statements: `Lays.cursor?`, `follows_copyString` and `follows_copyValue`.
-/

namespace PropertyRecord

/-! ## Readers within a record -/

/-- A reader over a byte string, within its bounds. -/
structure Reader.In (source : Bytes) (r : Reader) : Prop where
  bytes : Over source r
  le : r.pos ≤ source.length

namespace Reader.In

variable {source : Bytes} {r : Reader}

/-- The cursor at the position of a reader. -/
theorem reader_eq (within : r.In source) : Cursor.reader ⟨source, r.pos⟩ = r := by
  rw [Cursor.reader, ← within.bytes]

theorem cursor (within : r.In source) : Cursor.Inside source ⟨source, r.pos⟩ := ⟨rfl, within.le⟩

theorem advance (within : r.In source) {n : Nat} (fits : r.pos + n ≤ source.length) :
    (r.advance n).In source := ⟨within.bytes.advance n, fits⟩

end Reader.In

namespace Layout

open Editor (importFloor importLimit)

variable {origin : Bytes} {held : Nat} {ed : Editor} {foreign : List Nat} {layout : Layout}
  {α β γ δ : Type}

/-! ## Between two steps -/

/-- A layout of what an editor is while the first `held` bytes of `origin` are imported. -/
structure Lays (origin : Bytes) (held : Nat) (ed : Editor) (foreign : List Nat) (layout : Layout) :
    Prop extends Embeds origin.length held ed layout where
  foreign : layout.foreign = foreign
  handed : ∀ place ∈ layout.handed,
    importFloor origin held ≤ place.start ∧ place.start + place.size ≤ origin.length
  decoded : ∀ data ∈ layout.decoded, data = origin.take held
  within : ed.arena.used ≤ importLimit origin held
  /-- What has not been handed out is as it was. -/
  front : ed.arena.front <+: origin

namespace Lays

theorem floor_le (lays : Lays origin held ed foreign layout) :
    importFloor origin held ≤ ed.arena.boundary := by
  have whole := Editor.importLimit_add_importFloor lays.inside
  have within := lays.within
  rw [Arena.boundary, lays.capacity]
  omega

/-- The bytes of the buffer up to the lowest copy are the original ones. -/
theorem take (lays : Lays origin held ed foreign layout) {n : Nat} (low : n ≤ ed.arena.boundary) :
    layout.buffer.take n = origin.take n := by
  have long : n ≤ ed.arena.front.length := ed.arena.length_front_eq_boundary ▸ low
  rcases lays.front with ⟨rest, whole⟩
  rw [lays.buffer, Arena.buffer, ← whole, List.take_append_of_le_length long,
    List.take_append_of_le_length long]

/-- A cursor is over the original record. -/
theorem cursor? (lays : Lays origin held ed foreign layout) (pos : Nat) :
    layout.cursor? (importFloor origin held) held pos = some ⟨origin.take held, pos⟩ := by
  have low := lays.floor_le
  have behind : held ≤ importFloor origin held := Nat.le_max_left ..
  have input := Bytes.slice?_of_le (Nat.zero_le _) (Nat.le_trans low lays.boundary_le)
  have whole : held ≤ (layout.buffer.take (importFloor origin held)).length := by
    rw [List.length_take_of_le (Nat.le_trans low lays.boundary_le)]
    exact behind
  have data := Bytes.slice?_of_le (Nat.zero_le _) whole
  rw [List.drop_zero] at input data
  rw [List.take_take, Nat.min_eq_left behind, lays.take (Nat.le_trans behind low)] at data
  rw [Layout.cursor?, input]
  simp only [bind, Option.bind, data]
  rfl

theorem record_lt (lays : Lays origin held ed foreign layout) :
    (origin.take held).length < unsignedBound :=
  Nat.lt_of_le_of_lt (List.length_take_le' ..) lays.machine

theorem tail? (lays : Lays origin held ed foreign layout) :
    layout.tail? (importFloor origin held)
      = some (ed.arena.buffer.drop (importFloor origin held)) := by
  rw [Layout.tail?, Bytes.slice?_of_le (Nat.le_trans lays.floor_le lays.boundary_le)
    (Nat.le_refl _), List.take_length, lays.buffer]

/-- The range of a span that was handed out. -/
theorem rangeFrom? (lays : Lays origin held ed foreign layout) {span : Span}
    (allotted : ed.arena.Allotted span) :
    (span.place origin.length).rangeFrom? (importFloor origin held)
      = some (ed.arena.offset span - importFloor origin held,
          ed.arena.offset span - importFloor origin held + span.size) := by
  rw [← lays.capacity, allotted.rangeFrom? lays.floor_le lays.machine_capacity]

/-- A step that changes nothing that an editor is. -/
theorem shown (lays : Lays origin held ed foreign layout) :
    Lays origin held ed foreign
      { layout with decoded := origin.take held :: layout.decoded } where
  __ := lays
  decoded := List.forall_mem_cons.2 ⟨rfl, lays.decoded⟩

theorem passedOver (lays : Lays origin held ed foreign layout) (pos : Nat) :
    Lays origin held ed (pos :: foreign) { layout with foreign := pos :: layout.foreign } where
  __ := lays
  foreign := congrArg (pos :: ·) lays.foreign

theorem withTable (lays : Lays origin held ed foreign layout) {table : PlacedTable} {slots : Slots}
    (shows : table.Shows origin.length slots) :
    Lays origin held { ed with slots } foreign { layout with table } where
  __ := lays
  table := shows

end Lays

/-! ## What a step comes to -/

/-- What a step that reads comes to: what the step of `openOver` reads, seen as `view`, in a layout
of the editor that it leaves. The position behind what it reads is within the record. -/
def FollowsRead (origin : Bytes) (held : Nat) (ed : Editor) (foreign : List Nat) (view : α → β)
    (read : Except Fault (α × Reader)) (ran : Option (Except Fault (β × Nat) × Layout)) : Prop :=
  ∃ layout, Lays origin held ed foreign layout
    ∧ ((∃ a next, read = .ok (a, next) ∧ next.In (origin.take held)
        ∧ ran = some (.ok (view a, next.pos), layout))
      ∨ ∃ fault, read = .error fault ∧ ran = some (.error fault, layout))

variable {r : Reader}

/-- A read of the record. -/
theorem follows_decode {moves : Moving α} {read : Reader → Except Fault (α × Reader)}
    (lays : Lays origin held ed foreign layout) (within : r.In (origin.take held))
    (lands : ∀ c : Cursor, c.Inside (origin.take held) →
      Cursor.Lands (origin.take held) c (read c.reader) (moves.run c)) :
    FollowsRead origin held ed foreign id (read r)
      ((decode (importFloor origin held) held r.pos moves).run layout) := by
  have landed := lands _ within.cursor
  rw [Cursor.Lands, within.reader_eq] at landed
  refine ⟨_, lays.shown, ?_⟩
  rw [decode, ExceptT.run_mk, lays.cursor? r.pos]
  rcases landed with ⟨a, n, -, fits, found, ran⟩ | ⟨fault, failed, ran⟩
  · refine .inl ⟨a, _, found, within.advance fits, ?_⟩
    simp only [bind, Option.bind, ran]
    rfl
  · refine .inr ⟨fault, failed, ?_⟩
    simp only [bind, Option.bind, ran]
    rfl

/-- A look at the record. -/
theorem run_look {seen : Cursor → Checked α} {peek : Reader → Except Fault α}
    (lays : Lays origin held ed foreign layout) (within : r.In (origin.take held))
    (same : ∀ c : Cursor, c.Inside (origin.take held) →
      seen c = Checked.ofExcept (peek c.reader)) :
    ∃ shown, Lays origin held ed foreign shown
      ∧ ((∃ a, peek r = .ok a
          ∧ (look (importFloor origin held) held r.pos seen).run layout = some (.ok a, shown))
        ∨ ∃ fault, peek r = .error fault
          ∧ (look (importFloor origin held) held r.pos seen).run layout
            = some (.error fault, shown)) := by
  have here := same _ within.cursor
  rw [within.reader_eq] at here
  have ran : (decode (importFloor origin held) held r.pos (Machine.look seen)).run layout
      = some ((peek r).map fun a => (a, r.pos),
          { layout with decoded := origin.take held :: layout.decoded }) := by
    rw [decode, ExceptT.run_mk, lays.cursor? r.pos]
    simp only [bind, Option.bind, Machine.run_look here]
    rfl
  refine ⟨_, lays.shown, ?_⟩
  cases found : peek r with
  | ok a =>
    rw [found] at ran
    exact .inl ⟨a, rfl, Machine.run_bind_ok ran _⟩
  | error fault =>
    rw [found] at ran
    exact .inr ⟨fault, rfl, Machine.run_bind_error ran _⟩

/-! ## Handing out and copying -/

/-- A place that is handed out is behind the floor. -/
theorem Lays.run_alloc_of_fits (lays : Lays origin held ed foreign layout) {size : Nat}
    (fits : ed.arena.fits (importLimit origin held) size = true) :
    ∃ grown, Lays origin held { ed with arena := ed.arena.extend size } foreign grown
      ∧ size ≤ (ed.arena.extend size).used
      ∧ (alloc size).run layout
        = some (.ok (((ed.arena.extend size).newest size).place origin.length), grown) := by
  rcases lays.toEmbeds.run_alloc_of_fits fits with ⟨embeds, used, ran⟩
  have whole := Editor.importLimit_add_importFloor lays.inside
  have room := Arena.fits_iff.1 fits
  have floor : importFloor origin held ≤ origin.length - (ed.arena.used + size) := by omega
  have inside : origin.length - (ed.arena.used + size) + size ≤ origin.length := by omega
  refine ⟨_, { embeds with
    foreign := lays.foreign
    handed := List.forall_mem_cons.2 ⟨?_, lays.handed⟩
    decoded := lays.decoded
    within := used.symm ▸ room
    front := ?_ }, used.symm ▸ Nat.le_add_left .., ran⟩
  · rw [lays.marks]
    exact ⟨floor, inside⟩
  · exact (List.reverse_prefix.2 (List.drop_suffix size ed.arena.below)).trans lays.front

/-- Bytes handed out last are filled, and the record is not touched. -/
theorem Lays.fill (lays : Lays origin held ed foreign layout) {bytes : Bytes}
    (short : bytes.length ≤ ed.arena.used) :
    Lays origin held { ed with arena := ed.arena.fill bytes } foreign
      { layout with buffer := layout.buffer.splice ed.arena.boundary bytes } where
  __ := lays.toEmbeds.fill short
  foreign := lays.foreign
  handed := lays.handed
  decoded := lays.decoded
  within := (Arena.used_fill short).symm ▸ lays.within
  front := lays.front

/-- A string is read into the bytes handed out last, and nowhere else. -/
theorem follows_readInto {read : Reader → Bytes → Filled (α × Reader)}
    {copy : Bytes → Cursor → Option (Filled α × Cursor)} {size : Nat}
    (lays : Lays origin held ed foreign layout) (within : r.In (origin.take held))
    (newest : size ≤ ed.arena.used) (sized : ∀ r out, (read r out).out.length = out.length)
    (fills : ∀ c : Cursor, c.Inside (origin.take held) → ∀ out,
      Cursor.Fills (origin.take held) c (read c.reader out) (copy out c)) :
    let filled := read r (ed.arena.bytesAt (ed.arena.newest size))
    FollowsRead origin held { ed with arena := ed.arena.fill filled.out } foreign id filled.result
      ((readInto (importFloor origin held) held ((ed.arena.newest size).place origin.length) r.pos
        copy).run layout) := by
  intro filled
  have allotted : ed.arena.Allotted (ed.arena.newest size) := ⟨Nat.le_refl _, newest⟩
  have short : filled.out.length ≤ ed.arena.used := by
    rw [sized, Arena.bytesAt, List.length_take]
    exact Nat.le_trans (Nat.min_le_left ..) newest
  have start : importFloor origin held
      + (ed.arena.offset (ed.arena.newest size) - importFloor origin held)
        = ed.arena.boundary := Nat.add_sub_cancel' lays.floor_le
  have filling := fills _ within.cursor (ed.arena.bytesAt (ed.arena.newest size))
  rw [within.reader_eq] at filling
  rcases filling with ⟨moved, landed, ran⟩
  rw [Cursor.Lands, within.reader_eq] at landed
  refine ⟨_, lays.shown.fill short, ?_⟩
  rw [readInto, ExceptT.run_mk, lays.cursor? r.pos, lays.tail?, lays.rangeFrom? allotted]
  simp only [bind, Option.bind, allotted.slice? lays.floor_le, ran]
  rcases landed with ⟨a, n, -, fits, found, rfl⟩ | ⟨fault, failed, rfl⟩
  · refine .inl ⟨a, _, found, within.advance fits, ?_⟩
    simp only [Option.map_some, Prod.map, id, start]
    rfl
  · refine .inr ⟨fault, failed, ?_⟩
    simp only [Option.map_some, Prod.map, id, start]
    rfl

/-- What a step finds is made into something else. -/
theorem FollowsRead.map {view : α → β} {read : Except Fault (α × Reader)} {x : Laying (β × Nat)}
    {f : α → γ} {g : β → δ} {v : γ → δ}
    (follows : FollowsRead origin held ed foreign view read (x.run layout))
    (same : ∀ a, v (f a) = g (view a)) :
    FollowsRead origin held ed foreign v (read.map fun found => (f found.1, found.2))
      ((do let found ← x; return (g found.1, found.2)).run layout) := by
  rcases follows with ⟨after, lays, ⟨a, next, rfl, within, ran⟩ | ⟨fault, rfl, ran⟩⟩
  · refine ⟨after, lays, .inl ⟨f a, next, rfl, within, ?_⟩⟩
    rw [Machine.run_bind_ok ran, same]
    rfl
  · exact ⟨after, lays, .inr ⟨fault, rfl, Machine.run_bind_error ran _⟩⟩

theorem FollowsRead.bind {view : α → β} {read : Except Fault (α × Reader)} {x : Laying (β × Nat)}
    {f : α → γ} {g : β → δ} {v : γ → δ}
    (follows : FollowsRead origin held ed foreign view read (x.run layout))
    (same : ∀ a, v (f a) = g (view a)) :
    FollowsRead origin held ed foreign v (do let found ← read; return (f found.1, found.2))
      ((do let found ← x; return (g found.1, found.2)).run layout) := by
  have mapped := follows.map same
  cases read <;> exact mapped

/-- A string is copied, or the copy fails, as in the arena. -/
theorem follows_copyString {read : Reader → Bytes → Filled (α × Reader)}
    {copy : Bytes → Cursor → Option (Filled α × Cursor)}
    (lays : Lays origin held ed foreign layout) (within : r.In (origin.take held))
    (sized : ∀ r out, (read r out).out.length = out.length)
    (fills : ∀ c : Cursor, c.Inside (origin.take held) → ∀ out,
      Cursor.Fills (origin.take held) c (read c.reader out) (copy out c)) :
    let copied := ed.arena.copyString (importLimit origin held) r read
    FollowsRead origin held { ed with arena := copied.1 } foreign (Span.place origin.length)
      copied.2 ((copyString (importFloor origin held) held r.pos copy).run layout) := by
  intro copied
  subst copied
  rw [Arena.copyString, copyString]
  rcases run_look lays within fun c inside => Cursor.peekStringLength_eq inside with
    ⟨shown, lays, ⟨size, claimed, ran⟩ | ⟨fault, failed, ran⟩⟩
  · rw [claimed, Machine.run_bind_ok ran]
    by_cases fits : ed.arena.fits (importLimit origin held) size = true
    · rcases lays.run_alloc_of_fits fits with ⟨grown, lays, newest, ran⟩
      have read := follows_readInto lays within newest sized fills
      rw [Machine.run_bind_ok ran]
      simp only [fits, if_true]
      exact read.map (f := fun _ => (ed.arena.extend size).newest size)
        (g := fun _ => ((ed.arena.extend size).newest size).place origin.length) fun _ => rfl
    · rw [Machine.run_bind_error (lays.run_alloc_of_full fits)]
      simp only [fits]
      exact ⟨shown, lays, .inr ⟨.exhausted, rfl, rfl⟩⟩
  · rw [failed, Machine.run_bind_error ran]
    exact ⟨shown, lays, .inr ⟨fault, rfl, rfl⟩⟩

section

variable (lays : Lays origin held ed foreign layout) (within : r.In (origin.take held))

include lays within

theorem follows_copyText :
    let copied := ed.arena.copyString (importLimit origin held) r Reader.readText
    FollowsRead origin held { ed with arena := copied.1 } foreign (Span.place origin.length)
      copied.2 ((copyString (importFloor origin held) held r.pos
        (Cursor.readString .text Cursor.decodeText)).run layout) := by
  refine follows_copyString lays within Reader.length_out_readText fun c inside out => ?_
  rw [Reader.readText_eq]
  exact Cursor.fills_readString lays.record_lt inside .text Cursor.decodeText out

theorem follows_copyBytes :
    let copied := ed.arena.copyString (importLimit origin held) r Reader.readBytes
    FollowsRead origin held { ed with arena := copied.1 } foreign (Span.place origin.length)
      copied.2 ((copyString (importFloor origin held) held r.pos
        (Cursor.readString .bytes .ok)).run layout) :=
  follows_copyString lays within Reader.length_out_readBytes fun _ inside out =>
    Cursor.fills_readString lays.record_lt inside .bytes .ok out

theorem run_skipItem :
    ∃ after, Lays origin held ed foreign after
      ∧ ((∃ next, r.skipItem = .ok next ∧ next.In (origin.take held)
          ∧ (decode (importFloor origin held) held r.pos Cursor.skipItem).run layout
            = some (.ok ((), next.pos), after))
        ∨ ∃ fault, r.skipItem = .error fault
          ∧ (decode (importFloor origin held) held r.pos Cursor.skipItem).run layout
            = some (.error fault, after)) := by
  let skip (r : Reader) : Except Fault (Unit × Reader) := r.skipItem.map fun next => ((), next)
  have lands (c : Cursor) (inside : c.Inside (origin.take held)) :
      Cursor.Lands (origin.take held) c (skip c.reader) (Cursor.skipItem.run c) :=
    Cursor.lands_skipItem lays.record_lt inside
  have read : FollowsRead origin held ed foreign id (r.skipItem.map fun next => ((), next))
      ((decode (importFloor origin held) held r.pos Cursor.skipItem).run layout) :=
    follows_decode lays within lands
  cases skipped : r.skipItem with
  | ok next =>
    rw [skipped] at read
    rcases read with ⟨after, lays, ⟨done, behind, found, inside, ran⟩ | ⟨fault, failed, -⟩⟩
    · cases found
      exact ⟨after, lays, .inl ⟨next, rfl, inside, ran⟩⟩
    · cases failed
  | error fault =>
    rw [skipped] at read
    rcases read with ⟨after, lays, ⟨done, behind, found, -⟩ | ⟨other, failed, ran⟩⟩
    · cases found
    · cases failed
      exact ⟨after, lays, .inr ⟨fault, rfl, ran⟩⟩

/-- One of the simple values, which needs no place. -/
theorem follows_readSimple :
    FollowsRead origin held ed foreign (Stored.placed origin.length) r.readSimple
      ((readSimple (importFloor origin held) held r.pos).run layout) := by
  have machine := lays.record_lt
  rw [Reader.readSimple, readSimple]
  rcases run_look lays within fun c _ => Cursor.peekByte_eq c with
    ⟨shown, lays, ⟨initial, peeked, ran⟩ | ⟨fault, failed, ran⟩⟩
  · rw [peeked, Machine.run_bind_ok ran]
    change FollowsRead origin held ed foreign (Stored.placed origin.length) (if _ then _ else _) _
    by_cases truth : initial = falseByte ∨ initial = trueByte
    · rw [if_pos truth, if_pos truth]
      have read := follows_decode lays within fun _ => Cursor.lands_readBool machine
      exact read.bind (f := Stored.bool) (g := PlacedValue.bool)
        (v := Stored.placed origin.length) fun _ => rfl
    · rw [if_neg truth, if_neg truth]
      by_cases double : initial = doubleByte
      · rw [if_pos double, if_pos double]
        have read := follows_decode lays within fun _ => Cursor.lands_readDouble machine
        exact read.bind (f := Stored.double) (g := PlacedValue.double)
          (v := Stored.placed origin.length) fun _ => rfl
      · rw [if_neg double, if_neg double]
        rcases run_skipItem lays within with
          ⟨after, lays, ⟨next, skipped, inside, ran⟩ | ⟨fault, failed, ran⟩⟩
        · rw [skipped, Machine.run_bind_ok ran]
          exact ⟨after, lays, .inl ⟨.null, next, rfl, inside, rfl⟩⟩
        · rw [failed, Machine.run_bind_error ran]
          exact ⟨after, lays, .inr ⟨fault, rfl, rfl⟩⟩
  · rw [failed, Machine.run_bind_error ran]
    exact ⟨shown, lays, .inr ⟨fault, rfl, rfl⟩⟩

/-- A storable value is copied or read in place, or it fails to be, as in the arena. -/
theorem follows_copyValue :
    let copied := ed.arena.copyValue (importLimit origin held) r
    FollowsRead origin held { ed with arena := copied.1 } foreign (Stored.placed origin.length)
      copied.2 ((copyValue (importFloor origin held) held r.pos).run layout) := by
  intro copied
  subst copied
  have machine := lays.record_lt
  rw [Arena.copyValue, copyValue]
  rcases run_look lays within fun c _ => Cursor.peekMajor_eq c with
    ⟨shown, lays, ⟨major, peeked, ran⟩ | ⟨fault, failed, ran⟩⟩
  · rw [peeked, Machine.run_bind_ok ran]
    cases major with
    | unsigned =>
      have read := follows_decode lays within fun _ => Cursor.lands_readUInt machine
      exact read.map (f := Stored.uint) (g := PlacedValue.uint)
        (v := Stored.placed origin.length) fun _ => rfl
    | negative =>
      have read := follows_decode lays within fun _ => Cursor.lands_readInt machine
      exact read.map (f := Stored.int) (g := PlacedValue.int)
        (v := Stored.placed origin.length) fun _ => rfl
    | text =>
      exact (follows_copyText lays within).map (f := Stored.text) (g := PlacedValue.text)
        (v := Stored.placed origin.length) fun _ => rfl
    | bytes =>
      exact (follows_copyBytes lays within).map (f := Stored.bytes) (g := PlacedValue.bytes)
        (v := Stored.placed origin.length) fun _ => rfl
    | array | map | tag | simple => exact follows_readSimple lays within
  · rw [failed, Machine.run_bind_error ran]
    exact ⟨shown, lays, .inr ⟨fault, rfl, rfl⟩⟩

end

end Layout

end PropertyRecord
