import PropertyRecord.Proofs.Import.Complete
import PropertyRecord.Proofs.Record.Commit

/-!
# Longer buffers

An edit that has enough room in a buffer goes the same way in any longer one. The copies lie
elsewhere, and more could still be imported, set and encoded, but what the editor shows and how many
bytes it has handed out is the same after each call. So a caller who ran out of room can start over
with more of it.

Main statements: `Grown.step` for one call, and `session_of_longer`.
-/

namespace PropertyRecord

/-- The table after a property was set: in the slot of its key, or in the first vacant one. -/
def Table.gain (p : Property) (t : Table) : Table :=
  match t.slotOf? p.key with
  | some index => t.set index (some p)
  | none => t.place p

namespace Editor

variable {ed longer : Editor}

/-- What can be told of an editor without knowing how long its buffer is. -/
structure Outline where
  properties : Listing
  count : Nat
  used : Nat
  deriving DecidableEq

/-- What can be told of this editor without knowing how long its buffer is. -/
def outline (ed : Editor) : Outline := ⟨ed.properties, ed.count, ed.arena.used⟩

/-- The second editor shows what the first one shows and has handed out as many bytes, in a buffer
that is at least as long. -/
structure Grown (ed longer : Editor) : Prop where
  before : ed.Coherent
  after : longer.Coherent
  table : longer.table = ed.table
  used : longer.arena.used = ed.arena.used
  capacity : ed.arena.capacity ≤ longer.arena.capacity

namespace Grown

theorem properties (grown : ed.Grown longer) : longer.properties = ed.properties := by
  rw [properties_eq_listing, properties_eq_listing, grown.table]

theorem count (grown : ed.Grown longer) : longer.count = ed.count := by
  rw [grown.after.count, grown.before.count, grown.table]

theorem contains (grown : ed.Grown longer) (key : String) :
    longer.contains key = ed.contains key := by
  rw [grown.after.contains_eq, grown.before.contains_eq, grown.table]

theorem get? (grown : ed.Grown longer) (key : String) : longer.get? key = ed.get? key := by
  rw [grown.after.get?, grown.before.get?, grown.table]

theorem outline (grown : ed.Grown longer) : longer.outline = ed.outline := by
  rw [Editor.outline, Editor.outline, grown.properties, grown.count, grown.used]

theorem remaining (grown : ed.Grown longer) : ed.arena.remaining ≤ longer.arena.remaining := by
  rw [Arena.remaining, Arena.remaining, grown.used]
  exact Nat.sub_le_sub_right (Nat.div_le_div_right grown.capacity) _

theorem charge (grown : ed.Grown longer) (p : Property) : longer.charge p = ed.charge p := by
  rw [Editor.charge, Editor.charge, grown.contains]

/-- What there is room for in a buffer, there is room for in a longer one. -/
theorem accepts (grown : ed.Grown longer) {p : Property} (accepts : ed.Accepts p) :
    longer.Accepts p := by
  rw [Accepts] at accepts ⊢
  rw [grown.contains, grown.count]
  split at accepts
  next known =>
    rw [if_pos known]
    exact Nat.le_trans accepts grown.remaining
  next fresh =>
    rw [if_neg fresh]
    exact ⟨accepts.1, Nat.le_trans accepts.2 grown.remaining⟩

end Grown

/-! ## One call -/

/-- A set that succeeds does to the table what it does to every other editor with the table. -/
theorem Coherent.table_set {p : Property} (coherent : ed.Coherent) (accepts : ed.Accepts p) :
    (ed.set p).1.table = ed.table.gain p := by
  rw [Table.gain]
  cases found : ed.table.slotOf? p.key with
  | some index =>
    have room := (coherent.accepts_live_iff found).1 accepts
    rcases coherent.set_live found room with ⟨next, set, refines, -⟩
    rw [set, refines.table_eq]
  | none =>
    rcases (coherent.accepts_new_iff found).1 accepts with ⟨vacant, room⟩
    rcases coherent.set_new found vacant room with ⟨next, set, refines, -⟩
    rw [set, refines.table_eq]

theorem Grown.set {p : Property} (grown : ed.Grown longer) (done : (ed.set p).2 = .ok ()) :
    (longer.set p).2 = .ok () ∧ (ed.set p).1.Grown (longer.set p).1 := by
  have before := grown.before.setting p
  have after := grown.after.setting p
  by_cases accepts : ed.Accepts p
  · have table := grown.before.table_set accepts
    have table' := grown.after.table_set (grown.accepts accepts)
    generalize ed.set p = shortSet at before table
    generalize longer.set p = longSet at after table'
    cases before with
    | refused refused => exact absurd accepts refused
    | accepted _ coherent _ used capacity =>
      cases after with
      | refused refused => exact absurd (grown.accepts accepts) refused
      | accepted _ coherent' _ used' capacity' =>
        refine ⟨rfl, coherent, coherent', ?_, ?_, ?_⟩
        · rw [table, table', grown.table]
        · rw [used, used', grown.used, grown.charge]
        · rw [capacity, capacity']
          exact grown.capacity
  · rw [grown.before.set_refused accepts] at done
    cases done

theorem Grown.remove (grown : ed.Grown longer) (key : String) :
    (ed.remove key).Grown (longer.remove key) := by
  rcases grown.before.remove key with ⟨coherent, table, arena⟩
  rcases grown.after.remove key with ⟨coherent', table', arena'⟩
  refine ⟨coherent, coherent', ?_, ?_, ?_⟩
  · rw [table, table', grown.table]
  · rw [arena, arena', grown.used]
  · rw [arena, arena']
    exact grown.capacity

/-- A call that is granted in a buffer is answered the same in a longer one. Only the description
tells them apart. -/
theorem Grown.step (grown : ed.Grown longer) (name : String) {call : Call}
    (told : call ≠ .describe) (granted : (step name ed call).1.isOk = true) :
    (Editor.step name longer call).1 = (Editor.step name ed call).1
      ∧ (Editor.step name ed call).2.Grown (Editor.step name longer call).2 := by
  cases call with
  | set p =>
    have answer (other : Editor) :
        (Editor.step name other (.set p)).1 = (other.set p).2.map fun () => Answer.done := rfl
    rw [answer] at granted
    rw [answer, answer]
    cases done : (ed.set p).2 with
    | error fault =>
      rw [done] at granted
      cases granted
    | ok =>
      rcases grown.set done with ⟨done', next⟩
      rw [done']
      exact ⟨rfl, next⟩
  | remove key => exact ⟨rfl, grown.remove key⟩
  | get key => exact ⟨congrArg (Except.ok ∘ Answer.value) (grown.get? key), grown⟩
  | contains key => exact ⟨congrArg (Except.ok ∘ Answer.bool) (grown.contains key), grown⟩
  | list => exact ⟨congrArg (Except.ok ∘ Answer.properties) grown.properties, grown⟩
  | describe => exact absurd rfl told

/-! ## Runs -/

theorem Grown.trace (grown : ed.Grown longer) (name : String) {calls : List Call}
    (told : .describe ∉ calls)
    (granted : ∀ answer ∈ answers (Editor.step name) ed calls, answer.isOk = true) :
    (PropertyRecord.trace (Editor.step name) Editor.outline longer calls).1
        = (PropertyRecord.trace (Editor.step name) Editor.outline ed calls).1
      ∧ (runFrom (Editor.step name) ed calls).Grown (runFrom (Editor.step name) longer calls) := by
  induction calls generalizing ed longer with
  | nil => exact ⟨rfl, grown⟩
  | cons call calls ih =>
    rw [List.mem_cons, not_or] at told
    have first : (Editor.step name ed call).1.isOk = true := granted _ List.mem_cons_self
    rcases grown.step name (Ne.symm told.1) first with ⟨same, next⟩
    rcases ih next told.2 fun answer member => granted answer (List.mem_cons_of_mem _ member) with
      ⟨later, last⟩
    refine ⟨?_, last⟩
    rw [PropertyRecord.trace, PropertyRecord.trace]
    simp only [same, next.outline, later]

/-- What is encoded in front of an arena is encoded the same in a longer buffer. -/
theorem Grown.encode (grown : ed.Grown longer) (encoded : ed.encode.1 = .ok ()) :
    longer.encode.1 = .ok () ∧ longer.encode.2.written = ed.encode.2.written := by
  rcases grown.before.encode_ok encoded with ⟨written, beside⟩
  rw [written] at beside
  have room : (encodeRecord longer.properties).length + longer.arena.used
      ≤ longer.arena.capacity := by
    rw [grown.properties, grown.used]
    exact Nat.le_trans beside grown.capacity
  have encoded' := grown.after.encode_of_le room
  refine ⟨encoded', ?_⟩
  rw [(grown.after.encode_ok encoded').1, written, grown.properties]

/-! ## Opening -/

/-- Whether the value of a pair is passed over does not depend on the editor. -/
theorem foreign_importPair (ed longer : Editor) (limit larger : Nat) (r : Reader) :
    (longer.importPair larger r).foreign = (ed.importPair limit r).foreign := by
  rw [importPair, importPair]
  cases skipped : r.skipItem with
  | error => rfl
  | ok atValue =>
    cases kept : atValue.atStorable with
    | error => simp only [kept]
    | ok storable =>
      cases storable with
      | false | true => simp only [kept]

/-- An import that comes to its end passes over the same values in a longer buffer. -/
theorem Imports.foreign_importPairs {limit larger count : Nat} {imported result : Listing}
    {r : Reader} (before : ed.Imports limit imported)
    (after : longer.Imports larger imported) (wider : limit ≤ larger)
    (completes : Walk.Completes limit count r imported result) (foreign : List Nat) :
    (importPairs larger count r longer foreign).foreign
      = (importPairs limit count r ed foreign).foreign := by
  induction completes generalizing ed longer foreign with
  | done => rfl
  | full count r full =>
    rw [importPairs, importPairs, before.length, after.length, if_pos full, if_pos full]
  | @foreign count r _ _ _ vacant paired _ ih =>
    rcases importPair_foreign ed limit paired with ⟨kept, passed⟩
    rcases importPair_foreign longer larger paired with ⟨kept', passed'⟩
    rw [importPairs, importPairs, before.length, after.length, if_neg vacant, if_neg vacant]
    simp only [passed, passed', kept, kept', foreign_importPair ed longer limit larger r]
    exact ih before after _
  | @property count r _ _ _ _ vacant paired fits _ ih =>
    rcases before.importPair_ok (Nat.lt_of_not_le vacant) paired fits with ⟨next, passed, -⟩
    rcases after.importPair_ok (Nat.lt_of_not_le vacant) paired (Nat.le_trans fits wider) with
      ⟨next', passed', -⟩
    rw [importPairs, importPairs, before.length, after.length, if_neg vacant, if_neg vacant]
    simp only [passed, passed', foreign_importPair ed longer limit larger r]
    exact ih next next' _

section

variable {record rest more : Bytes} (whole : (openOver (record ++ rest) record.length).stop = none)
  (shorter : (record ++ rest).length ≤ (record ++ more).length)

include whole shorter

/-- An editor that is opened without a fault is opened the same in a longer buffer. -/
theorem grown_openOver :
    (openOver (record ++ rest) record.length).editor.Grown
      (openOver (record ++ more) record.length).editor := by
  have before := opens_openOver_append record rest
  have after := opens_openOver_append record more
  rw [((stop_openOver_append record rest).1 whole).ofRecord_eq shorter] at after
  refine ⟨before.refines.coherent, after.refines.coherent, ?_, ?_, ?_⟩
  · rw [before.refines.table_eq, after.refines.table_eq]
  · rw [before.charged, after.charged]
  · rw [before.capacity, after.capacity]
    exact shorter

theorem stop_openOver_of_longer : (openOver (record ++ more) record.length).stop = none :=
  (stop_openOver_append record more).2
    (((stop_openOver_append record rest).1 whole).mono shorter)

theorem foreign_openOver_of_longer :
    (openOver (record ++ more) record.length).foreign
      = (openOver (record ++ rest) record.length).foreign := by
  rcases (stop_openOver_append record rest).1 whole with rfl | ⟨count, next, result, header, walk⟩
  · simp [openOver]
  · have nonempty : record ≠ [] := by
      rintro rfl
      cases header
    rw [openOver_append nonempty, openOver_append nonempty, header]
    exact (imports_empty_append record rest).foreign_importPairs (imports_empty_append record more)
      (Walk.limit_mono record shorter) walk []

/-- There is the same to report of it, and no fault. -/
theorem notes_openOver_of_longer (name : RecordName) :
    (openOver (record ++ more) record.length).notes name
      = (openOver (record ++ rest) record.length).notes name := by
  rw [Opening.notes, Opening.notes, foreign_openOver_of_longer whole shorter, whole,
    stop_openOver_of_longer whole shorter, Option.toList_none, List.map_nil, List.map_nil]

end

/-- An edit that has enough room goes the same way in any longer buffer. If the record is imported
without a fault, or there is none, and all calls are granted, then they are granted again with the
same answers. The editor shows the same after each of them and has handed out as many bytes, and if
the properties are encoded then they are encoded to the same bytes. -/
theorem session_of_longer (name : RecordName) (record rest more : Bytes) (calls : List Call)
    (told : .describe ∉ calls) (shorter : (record ++ rest).length ≤ (record ++ more).length) :
    let opening := openOver (record ++ rest) record.length
    let again := openOver (record ++ more) record.length
    let ed := runFrom (step name.text) opening.editor calls
    let longer := runFrom (step name.text) again.editor calls
    opening.stop = none →
      (∀ answer ∈ answers (step name.text) opening.editor calls, answer.isOk = true) →
        again.stop = none ∧ again.notes name = opening.notes name
          ∧ again.editor.outline = opening.editor.outline
          ∧ (trace (step name.text) outline again.editor calls).1
            = (trace (step name.text) outline opening.editor calls).1
          ∧ (ed.encode.1 = .ok () →
            longer.encode.1 = .ok () ∧ longer.encode.2.written = ed.encode.2.written) := by
  intro opening again ed longer whole granted
  have opened : opening.editor.Grown again.editor := grown_openOver whole shorter
  rcases opened.trace name.text told granted with ⟨same, grown⟩
  exact ⟨stop_openOver_of_longer whole shorter, notes_openOver_of_longer whole shorter name,
    opened.outline, same, grown.encode⟩

/-- A record with a property and an array, edited in seventeen bytes and in forty. The value of the
property is replaced by a larger one, which is removed again. -/
theorem session_of_longer_array :
    let name : RecordName := ⟨"r", by decide, by decide⟩
    let record : Bytes := [0xa2, 0x61, 0x61, 0x05, 0x61, 0x62, 0x80]
    let calls : List Call := [.set ⟨"a", .text "xyz"⟩, .set ⟨"c", .int 7⟩, .remove "a", .list]
    let opening := openOver (record ++ List.replicate 10 0) record.length
    let again := openOver (record ++ List.replicate 33 1) record.length
    let longer := runFrom (step name.text) again.editor calls
    again.notes name = [.foreign 6]
      ∧ (trace (step name.text) outline again.editor calls).1
        = (trace (step name.text) outline opening.editor calls).1
      ∧ longer.encode.1 = .ok () ∧ longer.encode.2.written = [0xa1, 0x61, 0x63, 0x07] := by
  intro name record calls opening again longer
  let ed := runFrom (step name.text) opening.editor calls
  have session := session_of_longer name record (List.replicate 10 0) (List.replicate 33 1) calls
    (by simp [calls]) (by decide) (by decide +kernel) (by decide +kernel)
  have reported : opening.notes name = [.foreign 6] := by decide +kernel
  have first : ed.encode.1 = .ok () ∧ ed.encode.2.written = [0xa1, 0x61, 0x63, 0x07] := by
    decide +kernel
  rcases session with ⟨-, notes, -, same, encoded⟩
  rcases encoded first.1 with ⟨done, written⟩
  -- Only up to the local definitions, so that no run is evaluated to compare it with another.
  with_reducible exact ⟨notes.trans reported, same, done, written.trans first.2⟩

end Editor

end PropertyRecord
