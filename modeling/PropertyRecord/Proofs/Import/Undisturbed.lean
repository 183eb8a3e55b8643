import PropertyRecord.Proofs.Import.Layout

/-!
# Opening leaves the record alone

In a layout nothing but offsets keeps the copies of an import out of the record that they are read
from. They do, on every path: whatever the record is, and wherever the import of a pair fails, the
copies stay behind the record and in the back half of the buffer. So the import never leaves the
buffer, it comes to what `openOver` comes to, and the record is at the end what it was.

Main statements: `follows_importPair` for a pair, `lays_importPairs` for the loop, and
`openOver_undisturbed`.
-/

namespace PropertyRecord

namespace Layout

open Editor (importFloor importLimit)

variable {origin : Bytes} {held : Nat} {ed : Editor} {foreign : List Nat} {layout : Layout}
  {r : Reader} {imported : Listing}

/-! ## Pairs -/

/-- What a step comes to that leads to the next pair: the step of `openOver` leads there as well,
and the layout is of the editor that it leaves. -/
def FollowsTo (origin : Bytes) (held : Nat) (ed : Editor) (foreign : List Nat)
    (led : Except Fault Reader) (ran : Option (Except Fault Nat × Layout)) : Prop :=
  ∃ layout, Lays origin held ed foreign layout
    ∧ ((∃ next, led = .ok next ∧ next.In (origin.take held)
        ∧ ran = some (.ok next.pos, layout))
      ∨ ∃ fault, led = .error fault ∧ ran = some (.error fault, layout))

/-- The slot of a key that was copied, in which the editor finds it. -/
theorem run_findAt (lays : Lays origin held ed foreign layout) {key : Span}
    (keyed : ed.arena.Allotted key) (entries : ∀ entry ∈ ed.entries, ed.arena.Allotted entry.key) :
    (findAt (importFloor origin held) (key.place origin.length)).run layout
      = some (.ok (ed.find? (ed.arena.bytesAt key)), layout) := by
  apply Machine.run_look
  rw [lays.tail?, lays.rangeFrom? keyed]
  simp only [bind, Option.bind, keyed.slice? lays.floor_le,
    lays.find? lays.floor_le (ed.arena.bytesAt key) entries, Checked.orStop_some]

/-- A key that was copied is given its value in the slot that the editor gives it. -/
theorem run_assign (key : Span) (value : Stored) (lays : Lays origin held ed foreign layout)
    (vacant : ed.slots.length < maxProperties) (keyed : ed.arena.Allotted key)
    (entries : ∀ entry ∈ ed.entries, ed.arena.Allotted entry.key) :
    ∃ next, Lays origin held (Editor.assign ed key value) foreign next
      ∧ (assign (importFloor origin held) (key.place origin.length)
          (value.placed origin.length)).run layout = some (.ok (), next) := by
  have found := run_findAt lays keyed entries
  rw [assign, Machine.run_bind_ok found, Editor.assign]
  cases slot : ed.find? (ed.arena.bytesAt key) with
  | some index =>
    rcases lays.run_setValue (Editor.lt_length_of_find? slot) value with ⟨table, shows, ran⟩
    exact ⟨_, lays.withTable shows, ran⟩
  | none =>
    have room : ed.slots.hasVacancy = true := Slots.hasVacancy_iff.2 (.inr vacant)
    rcases lays.run_claim ⟨key, value⟩ with ⟨table, shows, ran⟩
    rw [Slots.claim_of_hasVacancy room] at shows ran
    exact ⟨_, lays.withTable shows, Machine.run_bind_ok ran _⟩

/-- A pair is imported as the editor imports it. The keys that its key is compared with have been
handed out, and so has the key itself. -/
theorem follows_importProperty (lays : Lays origin held ed foreign layout)
    (within : r.In (origin.take held)) (imports : ed.Imports (importLimit origin held) imported)
    (vacant : ed.slots.length < maxProperties) :
    let property := ed.importProperty (importLimit origin held) r
    FollowsTo origin held property.1 foreign property.2
      ((importProperty (importFloor origin held) held r.pos).run layout) := by
  intro property
  subst property
  have keyed := follows_copyText lays within
  rw [Editor.importProperty, importProperty]
  cases copied : ed.arena.copyString (importLimit origin held) r Reader.readText with
  | mk a result =>
    rw [copied] at keyed
    rcases keyed with ⟨after, lays, ⟨key, atValue, rfl, here, ran⟩ | ⟨fault, rfl, ran⟩⟩
    · have filled := follows_copyValue lays here
      rw [Machine.run_bind_ok ran]
      dsimp only at filled ⊢
      cases valued : a.copyValue (importLimit origin held) atValue with
      | mk last result =>
        rw [valued] at filled
        rcases filled with ⟨behind, lays, ⟨value, next, rfl, there, ran⟩ | ⟨fault, rfl, ran⟩⟩
        · have keys := imports.allotted copied valued
          have assigned := run_assign key value lays vacant keys.1 keys.2
          rcases assigned with ⟨given, lays, done⟩
          refine ⟨given, lays, .inl ⟨next, rfl, there, ?_⟩⟩
          rw [Machine.run_bind_ok ran]
          exact Machine.run_bind_ok done _
        · rw [Machine.run_bind_error ran]
          exact ⟨behind, lays, .inr ⟨fault, rfl, rfl⟩⟩
    · rw [Machine.run_bind_error ran]
      exact ⟨after, lays, .inr ⟨fault, rfl, rfl⟩⟩

theorem atStorable_eq (c : Cursor) : atStorable c = Checked.ofExcept c.reader.atStorable := by
  rw [atStorable, Cursor.peekMajor_eq, Reader.atStorable, Reader.peekMajor]
  cases peeked : c.reader.peekByte with
  | error fault => rfl
  | ok initial =>
    have byte : c.peekByte = Checked.ofExcept (.ok initial) :=
      (Cursor.peekByte_eq c).trans (congrArg _ peeked)
    simp only [byte, bind, Except.bind]
    cases MajorType.ofInitial initial <;> rfl

/-- A pair is imported or passed over as the editor does it. -/
theorem follows_importPair (lays : Lays origin held ed foreign layout)
    (within : r.In (origin.take held)) (imports : ed.Imports (importLimit origin held) imported)
    (vacant : ed.slots.length < maxProperties) :
    let pair := ed.importPair (importLimit origin held) r
    FollowsTo origin held pair.editor (pair.foreign.toList ++ foreign) pair.next
      ((importPair (importFloor origin held) held r.pos).run layout) := by
  intro pair
  subst pair
  rw [Editor.importPair, importPair]
  rcases run_skipItem lays within with
    ⟨after, lays, ⟨atValue, skipped, here, ran⟩ | ⟨fault, failed, ran⟩⟩
  · rw [skipped, Machine.run_bind_ok ran]
    dsimp only
    rcases run_look lays here fun c _ => atStorable_eq c with
      ⟨shown, lays, ⟨storable, found, ran⟩ | ⟨fault, failed, ran⟩⟩
    · rw [found, Machine.run_bind_ok ran]
      cases storable with
      | true => exact follows_importProperty lays within imports vacant
      | false =>
        have passed : (passOver atValue.pos).run shown
            = some (.ok (), { shown with foreign := atValue.pos :: shown.foreign }) := rfl
        rcases run_skipItem (lays.passedOver atValue.pos) here with
          ⟨last, lays, ⟨next, skipped, there, ran⟩ | ⟨fault, failed, ran⟩⟩
        · refine ⟨last, lays, .inl ⟨next, skipped, there, ?_⟩⟩
          refine (Machine.run_bind_ok passed _).trans ?_
          exact Machine.run_bind_ok ran _
        · refine ⟨last, lays, .inr ⟨fault, failed, ?_⟩⟩
          refine (Machine.run_bind_ok passed _).trans ?_
          exact Machine.run_bind_error ran _
    · rw [failed, Machine.run_bind_error ran]
      exact ⟨shown, lays, .inr ⟨fault, rfl, rfl⟩⟩
  · rw [failed, Machine.run_bind_error ran]
    exact ⟨after, lays, .inr ⟨fault, rfl, rfl⟩⟩

/-! ## The whole import -/

/-- What an import ends with. -/
def ended (stop : Option Fault) : Except Fault Unit := stop.elim (.ok ()) .error

/-- The loop of an import. -/
theorem lays_importPairs (lays : Lays origin held ed foreign layout)
    (within : r.In (origin.take held)) (imports : ed.Imports (importLimit origin held) imported)
    (count : Nat) :
    let opening := Editor.importPairs (importLimit origin held) count r ed foreign
    ∃ last, Lays origin held opening.editor opening.foreign.reverse last
      ∧ (importPairs (importFloor origin held) held count r.pos).run layout
        = some (ended opening.stop, last) := by
  -- On the announced count: a pair that does not end the import leaves what it began with.
  induction count generalizing ed foreign layout r imported with
  | zero => exact ⟨layout, (List.reverse_reverse foreign).symm ▸ lays, rfl⟩
  | succ count ih =>
    have counted : allocated.run layout = some (.ok ed.slots.length, layout) := by
      rw [← lays.table.length]
      rfl
    rw [Editor.importPairs, importPairs, Machine.run_bind_ok counted]
    by_cases full : maxProperties ≤ ed.slots.length
    · rw [if_pos full, if_pos full]
      exact ⟨layout, (List.reverse_reverse foreign).symm ▸ lays, rfl⟩
    · have vacant := Nat.lt_of_not_le full
      rw [if_neg full, if_neg full]
      rcases follows_importPair lays within imports vacant with
        ⟨after, lays, ⟨next, passed, inside, ran⟩ | ⟨fault, failed, ran⟩⟩
      · rcases imports.importPair vacant passed with ⟨longer, imports⟩
        rw [Machine.run_bind_ok ran]
        simp only [passed]
        exact ih lays inside imports
      · rw [Machine.run_bind_error ran]
        simp only [failed]
        exact ⟨after, (List.reverse_reverse _).symm ▸ lays, rfl⟩

/-- A buffer over which nothing has been imported yet. -/
theorem lays_ofBuffer (machine : origin.length < unsignedBound) (inside : held ≤ origin.length) :
    Lays origin held (Editor.empty origin) [] ((ofBuffer origin).holdFront held) := by
  have front : (Arena.ofBuffer origin).front = origin := List.reverse_reverse origin
  have whole : (Arena.ofBuffer origin).buffer = origin := (List.append_nil _).trans front
  have marks : ((ofBuffer origin).holdFront held).marks = ⟨origin.length, held, 0⟩ :=
    congrArg (Watermarks.mk origin.length · 0) (Nat.min_eq_left inside)
  have capacity : (Arena.ofBuffer origin).capacity = origin.length := by
    rw [← Arena.length_buffer, whole]
  exact {
    machine, inside, marks, capacity
    buffer := whole.symm
    table := PlacedTable.shows_empty _
    foreign := rfl
    handed := List.forall_mem_nil _
    decoded := List.forall_mem_nil _
    within := Nat.zero_le _
    front := ⟨[], (List.append_nil _).trans front⟩ }

/-- What an editor leaves of the buffer that it was opened over, and where it is in it. -/
structure Undisturbed (origin : Bytes) (existing : Nat) (opening : Opening) (layout : Layout) :
    Prop where
  /-- The layout is the editor, in one buffer. -/
  buffer : layout.buffer = opening.editor.arena.buffer
  marks : layout.marks = ⟨origin.length, 0, opening.editor.arena.used⟩
  table : layout.table.Shows origin.length opening.editor.slots
  foreign : layout.foreign.reverse = opening.foreign
  /-- What was handed out is behind the record and in the back half of the buffer. -/
  handed : ∀ place ∈ layout.handed,
    max (min existing origin.length) (origin.length - origin.length / 2) ≤ place.start
      ∧ place.start + place.size ≤ origin.length
  /-- What was not handed out is as it was, and so is the record. -/
  untouched : layout.buffer.take (origin.length - layout.marks.used)
    = origin.take (origin.length - layout.marks.used)
  record : layout.buffer.take (min existing origin.length)
    = origin.take (min existing origin.length)
  /-- Nothing but the original record was decoded. -/
  decoded : ∀ data ∈ layout.decoded, data = origin.take (min existing origin.length)

theorem Lays.undisturbed {existing : Nat} (opening : Opening)
    (lays : Lays origin (min existing origin.length) opening.editor opening.foreign.reverse
      layout) :
    Undisturbed origin existing opening layout.releaseFront where
  buffer := lays.buffer
  marks := by rw [releaseFront, lays.marks]
  table := lays.table
  foreign := lays.foreign ▸ List.reverse_reverse opening.foreign
  handed := lays.handed
  untouched := by
    have boundary : opening.editor.arena.boundary
        = origin.length - opening.editor.arena.used := by rw [Arena.boundary, lays.capacity]
    rw [releaseFront, lays.marks]
    exact lays.take (Nat.le_of_eq boundary.symm)
  record := lays.take (Nat.le_trans (Nat.le_max_left ..) lays.floor_le)
  decoded := lays.decoded

/-- The import of a record over which an editor was opened. -/
theorem lays_importRecord (lays : Lays origin held (Editor.empty origin) [] layout) :
    let opening : Opening := match (Reader.ofBytes (origin.take held)).readMapHeader with
      | .error fault => ⟨Editor.empty origin, [], some fault⟩
      | .ok (count, next) =>
        Editor.importPairs (importLimit origin held) count next (Editor.empty origin) []
    ∃ last, Lays origin held opening.editor opening.foreign.reverse last
      ∧ (importRecord (importFloor origin held) held).run layout
        = some (ended opening.stop, last) := by
  have within : (Reader.ofBytes (origin.take held)).In (origin.take held) :=
    ⟨.ofBytes _, Nat.zero_le _⟩
  have imports : (Editor.empty origin).Imports (importLimit origin held) [] :=
    Editor.imports_empty (Nat.min_le_left ..)
  rw [importRecord]
  rcases follows_decode lays within fun _ => Cursor.lands_readMapHeader lays.record_lt with
    ⟨after, lays, ⟨count, next, header, inside, ran⟩ | ⟨fault, failed, ran⟩⟩
  · simp only [header]
    rcases lays_importPairs lays inside imports count with ⟨last, lays, done⟩
    exact ⟨last, lays, (Machine.run_bind_ok ran _).trans done⟩
  · simp only [failed]
    exact ⟨after, lays, Machine.run_bind_error ran _⟩

/-- Opening an editor never disturbs the record and never leaves the bounds of the buffer. Whatever
the buffer has in it and however long the record is said to be, the import does not stop at a
difference below zero, a sum that is not a word, a range that is not there or a copy that is longer
than its place, and it ends as `openOver` does. Every place that it hands out is behind the record
and in the back half of the buffer. The bytes up to the lowest of them are as they were, the whole
record among them, and nothing but the original record has been decoded, although the copies went
to the same buffer. -/
theorem openOver_undisturbed {origin : Bytes} (machine : origin.length < unsignedBound)
    (existing : Nat) :
    let opening := Editor.openOver origin existing
    ∃ layout, openOver origin existing = some (ended opening.stop, layout)
      ∧ Undisturbed origin existing opening layout := by
  intro opening
  subst opening
  have inside : min existing origin.length ≤ origin.length := Nat.min_le_right ..
  have start := lays_ofBuffer machine inside
  have half : Word.sub? origin.length (origin.length / 2)
      = some (origin.length - origin.length / 2) := Word.sub?_of_le (Nat.div_le_self ..)
  have floor : max (min existing origin.length) (origin.length - origin.length / 2)
      = importFloor origin (min existing origin.length) := rfl
  rw [Editor.openOver, openOver]
  by_cases nothing : min existing origin.length = 0
  · have empty : ¬ 0 < min existing origin.length := Nat.not_lt_of_le (Nat.le_of_eq nothing)
    rw [if_pos nothing, if_neg empty]
    exact ⟨_, rfl, start.undisturbed ⟨Editor.empty origin, [], none⟩⟩
  · rw [if_neg nothing, if_pos (Nat.pos_of_ne_zero nothing)]
    rcases lays_importRecord start with ⟨last, lays, ran⟩
    refine ⟨last.releaseFront, ?_, lays.undisturbed _⟩
    simp only [half, floor, bind, Option.bind, ran]
    rfl

/-- A record that reaches behind the middle of the buffer. -/
theorem openOver_undisturbed_behind_middle :
    let record : Bytes := [0xa1, 0x61, 0x61, 0x62, 0x78, 0x79]
    let origin := record ++ [0, 0, 0, 0]
    origin.length < unsignedBound
      ∧ ∃ layout, openOver origin 6 = some (.ok (), layout)
        ∧ layout.buffer = record ++ [0, 0x78, 0x79, 0x61]
        ∧ (∀ place ∈ layout.handed, 6 ≤ place.start ∧ place.start + place.size ≤ 10)
        ∧ ∀ data ∈ layout.decoded, data = record := by
  intro record origin
  have machine : origin.length < unsignedBound := by decide
  rcases openOver_undisturbed machine 6 with ⟨layout, ran, undisturbed⟩
  have completed : (Editor.openOver origin 6).stop = none := by decide +kernel
  have copied : (Editor.openOver origin 6).editor.arena.buffer
      = record ++ [0, 0x78, 0x79, 0x61] := by decide +kernel
  have floor : max (min 6 origin.length) (origin.length - origin.length / 2) = 6 := by decide
  have handed := undisturbed.handed
  rw [floor] at handed
  rw [completed] at ran
  exact ⟨machine, layout, ran, undisturbed.buffer.trans copied, handed, undisturbed.decoded⟩

end Layout

end PropertyRecord
