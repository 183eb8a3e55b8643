import PropertyRecord.Proofs.Editor.LayoutCalls
import PropertyRecord.Proofs.Wire.Encoder
import PropertyRecord.Record.LayoutCommit

/-!
# Commits follow those of the editor

The encoder of a commit works on the part of the buffer before the lowest copy, and the properties
that it writes are read from the part behind it. Neither gets into the other, so the encoder is the
writer of the editor, and the commit comes to what the commit of the editor comes to.

Main statements: `Encoder.mirrors_emitLive` and `Layout.Embeds.commit_eq`.
-/

namespace PropertyRecord

namespace Encoder

variable {x later : Emitting Unit} {y behind : Writing Unit} {chunk : Bytes}

theorem buffer_writer (e : Encoder) : e.writer.buffer = e.buffer := List.take_append_drop ..

/-- On every encoder within bounds the one computation does not stop, and it comes to what the other
one comes to on its writer. -/
def Mirrors (x : Emitting Unit) (y : Writing Unit) : Prop :=
  ∀ e : Encoder, e.Inside → ∃ result next,
    x.run e = some (result, next) ∧ next.Inside ∧ e.writer.run y = (result, next.writer)

namespace Mirrors

theorem nothing : Mirrors (return) (return) := fun e inside => ⟨.ok (), e, rfl, inside, rfl⟩

theorem failure (fault : Fault) : Mirrors (throw fault) (throw fault) :=
  fun e inside => ⟨.error fault, e, rfl, inside, rfl⟩

theorem bind (first : Mirrors x y) (second : Mirrors later behind) :
    Mirrors (x >>= fun _ => later) (y >>= fun _ => behind) := by
  intro e inside
  rcases first e inside with ⟨result, next, ran, inside, wrote⟩
  cases result with
  | error fault =>
    exact ⟨.error fault, next, Machine.run_bind_error ran _, inside,
      Writer.run_bind_error wrote _⟩
  | ok =>
    rcases second next inside with ⟨result, last, ranLater, inside, wroteLater⟩
    exact ⟨result, last, (Machine.run_bind_ok ran _).trans ranLater, inside,
      (Writer.run_bind_ok wrote _).trans wroteLater⟩

/-- A check that is passed is no step. -/
theorem check {α : Type} {checked : Checked α} {a : α} {k : α → Emitting Unit}
    (passed : checked = Checked.ofExcept (.ok a)) (mirrors : Mirrors (k a) y) :
    Mirrors (Machine.check checked >>= k) y := by
  intro e inside
  rw [Machine.run_bind_ok (Machine.run_check passed)]
  exact mirrors e inside

end Mirrors

/-- What puts a chunk or finds no room for it is what appends the chunk. -/
theorem Grants.mirrors (grants : Grants x chunk)
    (appends : ∀ w : Writer, w.run y = w.append chunk) : Mirrors x y := by
  intro e inside
  rw [grants e inside, appends, Writer.append, remaining_writer]
  by_cases room : chunk.length ≤ e.left
  · rw [if_pos room, if_pos room, ← inside.writer_put]
    exact ⟨.ok (), _, rfl, inside.put room, rfl⟩
  · rw [if_neg room, if_neg room]
    exact ⟨.error .exhausted, e, rfl, inside, rfl⟩

/-- Entries are written as the properties that the arena shows in them. -/
theorem mirrors_emitEntries {a : Arena} {base : Nat} {entries : List Entry}
    (low : base ≤ a.boundary) (machine : a.capacity < unsignedBound)
    (allotted : ∀ entry ∈ entries, ∀ span ∈ entry.spans, a.Allotted span) :
    Mirrors (emitEntries (a.buffer.drop base) base (entries.map (Entry.placed a.capacity)))
      (Editor.writeEntries a entries) := by
  induction entries with
  | nil => exact .nothing
  | cons entry entries ih =>
    have later := ih fun other member => allotted other (.tail _ member)
    have read := Arena.propertyIn?_placed low machine (allotted entry List.mem_cons_self)
    rw [List.map_cons, emitEntries, Editor.writeEntries]
    apply Mirrors.check (congrArg Checked.orStop read)
    cases a.propertyAt entry with
    | none => exact .failure .malformed
    | some p =>
      have written : Mirrors (Emitting.write p) (Writing.write p) :=
        (grants_write p).mirrors fun w => w.run_write p
      exact .check rfl (written.bind later)

/-- A table is written as the properties of the editor whose slots it shows. -/
theorem mirrors_emitLive {ed : Editor} {table : PlacedTable} {base : Nat} (coherent : ed.Coherent)
    (shows : table.Shows ed.arena.capacity ed.slots) (low : base ≤ ed.arena.boundary)
    (machine : ed.arena.capacity < unsignedBound) :
    Mirrors (table.emitLive (ed.arena.buffer.drop base) base) ed.writeLive := by
  have small : ed.count < unsignedBound := by
    have few : ed.count ≤ ed.slots.length := List.countP_le_length
    have short := shows.sound.allocated
    rw [shows.length] at short
    exact Nat.lt_of_le_of_lt (Nat.le_trans few short) (by decide)
  have begun : Mirrors (Emitting.beginMap (UInt64.ofNat ed.count)) (Writing.beginMap ed.count) := by
    have granted := grants_beginMap (UInt64.ofNat ed.count)
    rw [UInt64.toNat_ofNat_of_lt' small] at granted
    exact granted.mirrors fun w => w.run_beginMap ed.count
  have entries := mirrors_emitEntries low machine coherent.allotted
  rw [PlacedTable.emitLive, Editor.writeLive]
  apply Mirrors.check (congrArg Checked.orStop shows.liveCount?)
  exact begun.bind (.check (congrArg Checked.orStop shows.live?) entries)

end Encoder

namespace Layout.Embeds

variable {σ : Type} [RecordStore σ] {length : Nat} {ed : Editor} {layout : Layout}

theorem boundary_eq (embeds : Embeds length 0 ed layout) :
    Word.sub? layout.marks.length layout.marks.used = some ed.arena.boundary := by
  have inside := ed.arena.used_le_capacity
  rw [embeds.marks, ← embeds.capacity]
  exact Word.sub?_of_le inside

theorem slice?_front (embeds : Embeds length 0 ed layout) :
    layout.buffer.slice? 0 ed.arena.boundary = some ed.arena.front := by
  rw [Bytes.slice?_of_le (Nat.zero_le _) embeds.boundary_le, List.drop_zero, embeds.buffer,
    Arena.buffer, ← Arena.length_front_eq_boundary, List.take_left]

theorem slice?_back (embeds : Embeds length 0 ed layout) :
    layout.buffer.slice? ed.arena.boundary layout.buffer.length = some ed.arena.back := by
  rw [Bytes.slice?_of_le embeds.boundary_le (Nat.le_refl _), List.take_length, embeds.buffer,
    Arena.buffer, ← Arena.length_front_eq_boundary, List.drop_left]

/-- The part before the lowest copy, as an encoder. -/
theorem inside_front (embeds : Embeds length 0 ed layout) :
    (Encoder.ofBuffer ed.arena.front).Inside := by
  have machine := embeds.machine_capacity
  have short : ed.arena.boundary ≤ ed.arena.capacity := Nat.sub_le ..
  rw [← Arena.length_front_eq_boundary] at short
  exact ⟨Nat.lt_of_le_of_lt short machine, Nat.zero_le _⟩

/-- A commit does not stop, and it comes to what the commit of the editor comes to. -/
theorem commit_eq (embeds : Embeds length 0 ed layout) (coherent : ed.Coherent)
    (name : RecordName) (store : σ) : layout.commit name store = some (ed.commit name store) := by
  have shows := embeds.table
  rw [← embeds.capacity] at shows
  have mirrors := Encoder.mirrors_emitLive coherent shows (Nat.le_refl _) embeds.machine_capacity
  have back : ed.arena.buffer.drop ed.arena.boundary = ed.arena.back := by
    rw [Arena.buffer, ← Arena.length_front_eq_boundary, List.drop_left]
  rw [back] at mirrors
  rcases mirrors _ embeds.inside_front with ⟨result, last, ran, inside, wrote⟩
  have encoded : ed.encode = (result, last.writer) := wrote
  rw [commit, embeds.boundary_eq, Editor.commit, encoded]
  simp only [bind, Option.bind, embeds.slice?_front, embeds.slice?_back, ran,
    last.buffer_writer]
  cases result with
  | error fault => rfl
  | ok =>
    simp only [inside.written?_eq]
    rfl

end Layout.Embeds

end PropertyRecord
