import PropertyRecord.Proofs.Wire.Size
import PropertyRecord.Proofs.Wire.Writing

/-!
# Writing and reading back

A record is written by one call for its map header and one for each property, and read by one call
for the header and, for each property, a call for the key and the calls that ask for the type of the
value. What the calls answer is what was written, in the same order, and the last of them leaves the
position behind the record.

Main statement: `dialogue_reads_writes`.
-/

namespace PropertyRecord

/-! ## Dialogues -/

/-- A run of a state machine in which each call is answered by the reply beside it. -/
inductive Dialogue {σ κ α : Type} (step : σ → κ → α × σ) : σ → List (κ × α) → σ → Prop where
  | nil (s : σ) : Dialogue step s [] s
  | cons {s between last : σ} {call : κ} {reply : α} {rest : List (κ × α)}
      (first : step s call = (reply, between)) (later : Dialogue step between rest last) :
      Dialogue step s ((call, reply) :: rest) last

namespace Dialogue

variable {σ κ α : Type} {step : σ → κ → α × σ} {s between last : σ}

theorem single {call : κ} {reply : α} (stepped : step s call = (reply, last)) :
    Dialogue step s [(call, reply)] last :=
  .cons stepped (.nil last)

theorem append {early late : List (κ × α)} (first : Dialogue step s early between)
    (second : Dialogue step between late last) : Dialogue step s (early ++ late) last := by
  induction first with
  | nil => exact second
  | cons stepped _ ih => exact .cons stepped (ih second)

end Dialogue

/-- The calls that write a record, and their replies. -/
def Listing.writes (ps : Listing) : List (Writer.Call × Except Fault Writer.Answer) :=
  (.beginMap ps.length, .ok .done) :: ps.map fun p => (.write p, .ok .done)

/-- A property, and buffers that are long enough to read its key and its payload into. -/
structure Delivery where
  property : Property
  keyOut : Bytes
  payloadOut : Bytes
  keyFits : (utf8 property.key).length ≤ keyOut.length
  payloadFits : property.value.payload.length ≤ payloadOut.length

/-- The calls that read a value of this type, with the replies that tell this value. -/
def Value.reads (out : Bytes) : Value → List (Reading.Call × Reading.Reply)
  | null => [(.peekByte, ⟨.ok (.byte nullByte), none⟩), (.skipItem, ⟨.ok .done, none⟩)]
  | bool b => [(.readBool, ⟨.ok (.bool b), none⟩)]
  | int i => [(.readInt, ⟨.ok (.int i), none⟩)]
  | uint u => [(.readUInt, ⟨.ok (.uint u), none⟩)]
  | double d => [(.readDouble, ⟨.ok (.double d), none⟩)]
  | text s => [(.readText out, ⟨.ok (.text s), some (Bytes.overlay (utf8 s) out)⟩)]
  | bytes bs => [(.readBytes out, ⟨.ok (.bytes bs), some (Bytes.overlay bs out)⟩)]

namespace Delivery

/-- The calls that read the key and the value, with their replies. -/
def reads (d : Delivery) : List (Reading.Call × Reading.Reply) :=
  (.readText d.keyOut,
    ⟨.ok (.text d.property.key), some (Bytes.overlay (utf8 d.property.key) d.keyOut)⟩)
    :: d.property.value.reads d.payloadOut

/-- The calls that read a record with these properties, with their replies. -/
def allReads (ds : List Delivery) : List (Reading.Call × Reading.Reply) :=
  (.readMapHeader, ⟨.ok (.count ds.length), none⟩) :: ds.flatMap reads

end Delivery

/-! ## Writing -/

namespace Writer

variable {w : Writer}

/-- Properties are written one behind the other as long as there is room. -/
theorem dialogue_write {ps : Listing} (room : (ps.flatMap Property.encode).length ≤ w.remaining) :
    Dialogue step w (ps.map fun p => (.write p, .ok .done))
      ⟨w.written ++ ps.flatMap Property.encode,
        w.free.drop (ps.flatMap Property.encode).length⟩ := by
  induction ps generalizing w with
  | nil =>
    rw [List.flatMap_nil, List.append_nil]
    exact .nil w
  | cons p ps ih =>
    rw [List.flatMap_cons, List.length_append] at room
    rw [List.flatMap_cons, List.length_append, ← List.append_assoc, ← List.drop_drop]
    have first : step w (.write p) = (.ok .done, w.put p.encode) :=
      step_of_le (Nat.le_of_add_right_le room)
    apply Dialogue.cons first
    apply ih
    rw [remaining_put]
    exact Nat.le_sub_of_add_le' room

/-- A record is written to any buffer that is long enough for it. -/
theorem dialogue_writes {ps : Listing} {buffer : Bytes}
    (room : (encodeRecord ps).length ≤ buffer.length) :
    Dialogue step (ofBuffer buffer) ps.writes
      ⟨encodeRecord ps, buffer.drop (encodeRecord ps).length⟩ := by
  rw [encodeRecord, List.length_append] at room ⊢
  rw [← List.drop_drop]
  have first : step (ofBuffer buffer) (.beginMap ps.length)
      = (.ok .done, (ofBuffer buffer).put (encodeMapHeader ps.length)) :=
    step_of_le (Nat.le_of_add_right_le room)
  apply Dialogue.cons first
  apply dialogue_write
  rw [remaining_put]
  exact Nat.le_sub_of_add_le' room

/-- Calls that all succeed have put their canonical bytes one behind the other. -/
theorem put_of_dialogue {last : Writer} {entries : List (Call × Except Fault Answer)}
    (dialogue : Dialogue step w entries last) (granted : ∀ entry ∈ entries, entry.2 = .ok .done) :
    last = w.put (entries.flatMap fun entry => entry.1.canonical)
      ∧ (entries.flatMap fun entry => entry.1.canonical).length ≤ w.remaining := by
  induction dialogue with
  | nil w => exact ⟨(put_nil w).symm, Nat.zero_le _⟩
  | @cons w between last call reply rest first _ ih =>
    have done : reply = .ok .done := granted _ List.mem_cons_self
    by_cases room : call.canonical.length ≤ w.remaining
    · rw [step_of_le room] at first
      cases first
      rcases ih fun entry member => granted entry (List.mem_cons_of_mem _ member) with
        ⟨appended, fits⟩
      rw [remaining_put] at fits
      rw [List.flatMap_cons, ← put_put, List.length_append]
      exact ⟨appended, Nat.add_le_of_le_sub' room fits⟩
    · rw [step_of_lt (Nat.lt_of_not_le room)] at first
      cases first
      cases done

/-- What was written as a record with these properties is the canonical one. -/
theorem written_of_dialogue_writes {ps : Listing} {buffer : Bytes}
    (dialogue : Dialogue step (ofBuffer buffer) ps.writes w) :
    w.written = encodeRecord ps ∧ (encodeRecord ps).length ≤ buffer.length := by
  have granted : ∀ entry ∈ ps.writes, entry.2 = .ok .done := by
    simp [Listing.writes]
  have canonical : (ps.writes.flatMap fun entry => entry.1.canonical) = encodeRecord ps := by
    rw [Listing.writes, List.flatMap_cons, List.flatMap_map]
    rfl
  rcases put_of_dialogue dialogue granted with ⟨appended, fits⟩
  rw [canonical] at appended fits
  rw [appended]
  exact ⟨rfl, fits⟩

end Writer

/-! ## Reading -/

namespace Reading

variable {reading : Reading} {pos : Nat} {rest : Bytes}

theorem dialogue_value {v : Value} {next : Reader} {out : Bytes}
    (read : reading.current.value = .ok (v.reread, next))
    (fits : v.payload.length ≤ out.length) :
    Dialogue step reading (v.reads out) { reading with current := next } := by
  cases v with
  | null =>
    have skipped := step_skipItem_of_ok (Reader.skipItem_of_value read)
    rcases Reader.reads_of_value read with ⟨header, -, reads⟩
    cases reads with
    | null peeked =>
      apply Dialogue.cons
      · rw [step, peeked]
        rfl
      · exact .single skipped
  | bool b =>
    apply Dialogue.single
    rw [step, Reader.readBool_of_value read]
    rfl
  | int i =>
    apply Dialogue.single
    rw [step, Reader.readInt_of_value read, Value.int64?_reread]
    rfl
  | uint u =>
    apply Dialogue.single
    rw [step, Reader.readUInt_of_value read]
    rfl
  | double d =>
    apply Dialogue.single
    rw [step, Reader.readDouble_of_value read]
    rfl
  | text s =>
    have filled (next : Reader) : Reader.filling (some s) utf8 next out
        = ⟨.ok (s, next), Bytes.overlay (utf8 s) out⟩ := Reader.filling_of_le fits
    apply Dialogue.single
    rw [step, Reader.readText_of_value read, Value.text?_reread, Value.text?, filled]
    rfl
  | bytes bs =>
    have filled (next : Reader) : Reader.filling (some bs) id next out
        = ⟨.ok (bs, next), Bytes.overlay bs out⟩ := Reader.filling_of_le fits
    apply Dialogue.single
    rw [step, Reader.readBytes_of_value read, Value.bytes?_reread, Value.bytes?, filled]
    rfl

theorem dialogue_delivery {d : Delivery}
    (here : reading.current = ⟨pos, d.property.encode ++ rest⟩)
    (small : d.property.footprint < unsignedBound) :
    Dialogue step reading d.reads
      { reading with current := ⟨pos + d.property.encode.length, rest⟩ } := by
  rw [Property.footprint] at small
  have keySmall : (utf8 d.property.key).length < unsignedBound := by omega
  have payloadSmall : d.property.value.payload.length < unsignedBound := by omega
  rcases Reader.exists_of_encode pos rest keySmall payloadSmall with
    ⟨atValue, initial, named, -, -, read⟩
  rw [← here] at named
  apply Dialogue.cons
  · rw [step, Reader.readText_eq_filling named, Reader.filling_of_le d.keyFits]
    rfl
  · exact dialogue_value read d.payloadFits

theorem dialogue_deliveries {ds : List Delivery} {trailing : Bytes}
    (here : reading.current
      = ⟨pos, (ds.map Delivery.property).flatMap Property.encode ++ trailing⟩)
    (small : Listing.footprint (ds.map Delivery.property) < unsignedBound) :
    Dialogue step reading (ds.flatMap Delivery.reads)
      { reading with current :=
          ⟨pos + ((ds.map Delivery.property).flatMap Property.encode).length, trailing⟩ } := by
  induction ds generalizing reading pos with
  | nil =>
    rw [List.map_nil, List.flatMap_nil, List.nil_append] at here
    rw [List.map_nil, List.flatMap_nil, List.flatMap_nil, List.length_nil, Nat.add_zero, ← here]
    exact .nil reading
  | cons d ds ih =>
    rw [List.map_cons, Listing.footprint_cons] at small
    rw [List.map_cons, List.flatMap_cons, List.append_assoc] at here
    rw [List.map_cons, List.flatMap_cons, List.flatMap_cons, List.length_append, ← Nat.add_assoc]
    exact (dialogue_delivery here (by omega)).append (ih rfl (by omega))

end Reading

/-- The calls that read a record are answered with what was written, whatever bytes stand behind
the record. -/
theorem Reading.dialogue_allReads {ds : List Delivery} (trailing : Bytes)
    (small : (encodeRecord (ds.map Delivery.property)).length < unsignedBound) :
    let record := encodeRecord (ds.map Delivery.property)
    Dialogue step (.ofBytes (record ++ trailing)) (Delivery.allReads ds)
      { Reading.ofBytes (record ++ trailing) with current := ⟨record.length, trailing⟩ } := by
  intro record
  have shorter := Listing.footprint_le_length_encodeRecord (ds.map Delivery.property)
  have count := Listing.length_le_length_encodeRecord (ds.map Delivery.property)
  rw [List.length_map] at count
  have split : record ++ trailing
      = encodeMapHeader ds.length
        ++ ((ds.map Delivery.property).flatMap Property.encode ++ trailing) := by
    rw [← List.append_assoc, ← List.length_map Delivery.property]
    rfl
  have header := Reader.readMapHeader_encode 0
    ((ds.map Delivery.property).flatMap Property.encode ++ trailing)
    (Nat.lt_of_le_of_lt count small)
  rw [← split] at header
  have length : record.length
      = 0 + Header.sizeFor ds.length
        + ((ds.map Delivery.property).flatMap Property.encode).length := by
    rw [Nat.zero_add, ← List.length_map Delivery.property, ← Header.length_encode .map,
      ← List.length_append]
    rfl
  rw [length]
  apply Dialogue.cons
  · have read : (Reading.ofBytes (record ++ trailing)).current.readMapHeader = _ := header
    rw [step, read]
    rfl
  · exact dialogue_deliveries rfl (Nat.lt_of_le_of_lt shorter small)

/-- Decoding undoes encoding. Any properties are written to a buffer that is long enough for them,
and whatever bytes come to stand behind the record, the reads that ask for what was written are
answered with it and leave the position at the end of the record. The length of a buffer is a number
of the machine, which a header has room for. -/
theorem dialogue_reads_writes (ds : List Delivery) (buffer trailing : Bytes)
    (machine : buffer.length < unsignedBound)
    (room : (encodeRecord (ds.map Delivery.property)).length ≤ buffer.length) :
    ∃ w : Writer,
      Dialogue Writer.step (.ofBuffer buffer) (Listing.writes (ds.map Delivery.property)) w
        ∧ w.size = (encodeRecord (ds.map Delivery.property)).length
        ∧ Dialogue Reading.step (.ofBytes (w.written ++ trailing)) (Delivery.allReads ds)
          { Reading.ofBytes (w.written ++ trailing) with current := ⟨w.size, trailing⟩ } :=
  ⟨_, Writer.dialogue_writes room, rfl,
    Reading.dialogue_allReads trailing (Nat.lt_of_le_of_lt room machine)⟩

/-- The smallest integer and a text, read back in front of another byte. -/
theorem dialogue_reads_writes_int_text :
    let ds : List Delivery :=
      [⟨⟨"n", .int Int64.minValue⟩, [0], [], by decide, by decide⟩,
        ⟨⟨"t", .text "hi"⟩, [0], [0, 0, 0], by decide, by decide⟩]
    let buffer : Bytes := List.replicate 20 0
    ∃ w : Writer,
      Dialogue Writer.step (.ofBuffer buffer) (Listing.writes (ds.map Delivery.property)) w
        ∧ w.size = 17
        ∧ Dialogue Reading.step (.ofBytes (w.written ++ [7])) (Delivery.allReads ds)
          { Reading.ofBytes (w.written ++ [7]) with current := ⟨w.size, [7]⟩ } := by
  intro ds buffer
  rcases dialogue_reads_writes ds buffer [7] (by decide) (by decide) with
    ⟨w, written, size, read⟩
  exact ⟨w, written, size.trans (by decide), read⟩

end PropertyRecord
