import PropertyRecord.Editor.LayoutCalls
import PropertyRecord.Proofs.Editor.Embedded

/-!
# Calls follow those of the editor

Each step of a call on a layout is a step of the call on the editor that it is the layout of: it
does not stop, it comes to the same, and what it leaves is again the layout of what the editor
becomes.
For the keys in the table this needs that their places were handed out, and for what is read that
the places of all its entries were.

Main statements: `Embeds.follows_set`, `Embeds.follows_remove` and `Embeds.follows_answering` for
one call, and `Embeds.get?_eq` and `Embeds.properties?_eq` for what is read.
-/

namespace PropertyRecord

namespace Arena

variable {a : Arena} {span : Span} {base : Nat}

section

variable (low : base ≤ a.boundary) (machine : a.capacity < unsignedBound)

include low machine

theorem Allotted.textIn? (allotted : a.Allotted span) :
    (span.place a.capacity).textIn? (a.buffer.drop base) base = some (a.textAt span) := by
  rw [Place.textIn?, allotted.bytesIn? low machine]
  rfl

/-- The value of an entry whose places were handed out. -/
theorem valueIn?_placed {entry : Entry} (allotted : ∀ span ∈ entry.spans, a.Allotted span) :
    (entry.value.placed a.capacity).valueIn? (a.buffer.drop base) base
      = some (a.valueAt entry.value) := by
  obtain ⟨key, value⟩ := entry
  cases value with
  | null | bool | int | uint | double => rfl
  | text span =>
    have read := (allotted span (by simp [Entry.spans, Stored.span?])).textIn? low machine
    rw [Stored.placed, PlacedValue.valueIn?, read]
    rfl
  | bytes span =>
    have read := (allotted span (by simp [Entry.spans, Stored.span?])).bytesIn? low machine
    rw [Stored.placed, PlacedValue.valueIn?, read]
    rfl

theorem propertyIn?_placed {entry : Entry} (allotted : ∀ span ∈ entry.spans, a.Allotted span) :
    (entry.placed a.capacity).propertyIn? (a.buffer.drop base) base
      = some (a.propertyAt entry) := by
  have key : (entry.placed a.capacity).key.textIn? (a.buffer.drop base) base = _ :=
    (allotted entry.key List.mem_cons_self).textIn? low machine
  have value : (entry.placed a.capacity).value.valueIn? (a.buffer.drop base) base = _ :=
    valueIn?_placed low machine allotted
  rw [PlacedEntry.propertyIn?, key, propertyAt]
  cases a.textAt entry.key with
  | none => rfl
  | some name =>
    simp only [bind, Option.bind, value]
    cases a.valueAt entry.value <;> rfl

end

end Arena

namespace Layout

variable {length : Nat} {ed : Editor} {layout : Layout} {α β γ : Type}

/-- What a computation comes to that ends in a layout of the editor. -/
def Ends (length : Nat) (ed : Editor) (result : Except Fault α)
    (ran : Option (Except Fault α × Layout)) : Prop :=
  ∃ next, Embeds length 0 ed next ∧ ran = some (result, next)

theorem Ends.map {f : α → β} {result : Except Fault α} {x : Laying α}
    (ends : Ends length ed result (x.run layout)) :
    Ends length ed (result.map f) ((do let a ← x; return f a).run layout) := by
  rcases ends with ⟨next, embeds, ran⟩
  cases result with
  | ok a => exact ⟨next, embeds, Machine.run_bind_ok ran _⟩
  | error fault => exact ⟨next, embeds, Machine.run_bind_error ran _⟩

theorem run_ask {question : Layout → Option α} {a : α} (answered : question layout = some a) :
    (ask question).run layout = some (.ok a, layout) :=
  Machine.run_look (congrArg Checked.orStop answered)

namespace Embeds

theorem ends_ask (embeds : Embeds length 0 ed layout) {question : Layout → Option α} {a : α}
    (answered : question layout = some a) : Ends length ed (.ok a) ((ask question).run layout) :=
  ⟨layout, embeds, run_ask answered⟩

/-- The editor's own budget, as nothing is held. -/
theorem limit_eq (embeds : Embeds length 0 ed layout) :
    min (length / 2) (length - 0) = ed.arena.budget := by
  rw [Arena.budget, embeds.capacity]
  omega

/-! ## Steps -/

theorem find?_eq (embeds : Embeds length 0 ed layout) (key : Bytes)
    (entries : ∀ entry ∈ ed.entries, ed.arena.Allotted entry.key) :
    layout.find? key = some (ed.find? key) := by
  rw [Layout.find?, embeds.buffer]
  exact embeds.find? (Nat.zero_le _) key entries

theorem run_find (embeds : Embeds length 0 ed layout) (key : Bytes)
    (entries : ∀ entry ∈ ed.entries, ed.arena.Allotted entry.key) :
    (find key).run layout = some (.ok (ed.find? key), layout) :=
  run_ask (embeds.find?_eq key entries)

theorem run_check (embeds : Embeds length 0 ed layout) (size : Nat) :
    (check size).run layout
      = some (if ed.arena.fits ed.arena.budget size then .ok () else .error .exhausted,
          layout) := by
  have checked := embeds.check_eq size
  have seen {result : Except Fault Nat} (same : layout.marks.check size = Checked.ofExcept result) :
      (Machine.look fun layout => layout.marks.check size).run layout = some (result, layout) :=
    Machine.run_look same
  rw [embeds.limit_eq] at checked
  rw [check]
  split
  next fits =>
    rw [if_pos fits] at checked
    exact Machine.run_bind_ok (seen checked) _
  next full =>
    rw [if_neg full] at checked
    exact Machine.run_bind_error (seen checked) _

theorem run_checkBoth (embeds : Embeds length 0 ed layout) (first second : Nat) :
    (checkBoth first second).run layout
      = some (if ed.arena.fits ed.arena.budget (first + second) then .ok () else .error .exhausted,
          layout) := by
  rw [checkBoth]
  by_cases word : first + second < unsignedBound
  · have total := congrArg (Checked.orFault .exhausted) (Word.add?_of_lt word)
    rw [Machine.run_bind_ok (Machine.run_check total)]
    exact embeds.run_check _
  · have none := congrArg (Checked.orFault .exhausted) (Word.add?_of_le (Nat.le_of_not_lt word))
    have full : ¬ ed.arena.fits ed.arena.budget (first + second) = true := by
      have machine := embeds.machine_capacity
      rw [Arena.fits_iff, Arena.budget]
      omega
    rw [if_neg full]
    exact Machine.run_bind_error (Machine.run_check none) _

/-- Bytes are copied over as many that were handed out last. -/
theorem run_overwrite (embeds : Embeds length 0 ed layout) {bytes : Bytes}
    (newest : bytes.length ≤ ed.arena.used) :
    (overwrite ((ed.arena.newest bytes.length).place length) bytes).run layout
      = some (.ok (), { layout with buffer := layout.buffer.splice ed.arena.boundary bytes }) := by
  have allotted : ed.arena.Allotted (ed.arena.newest bytes.length) := ⟨Nat.le_refl _, newest⟩
  have range := allotted.rangeFrom? (Nat.zero_le _) embeds.machine_capacity
  have read := allotted.slice? (Nat.zero_le _)
  have size : (ed.arena.bytesAt (ed.arena.newest bytes.length)).length = bytes.length := by
    rw [Arena.bytesAt, Arena.newest, Nat.sub_self, List.drop_zero, List.length_take_of_le newest]
  have start : ed.arena.offset (ed.arena.newest bytes.length) - 0 = ed.arena.boundary := rfl
  rw [embeds.capacity, start] at range
  rw [List.drop_zero, ← embeds.buffer, start] at read
  rw [overwrite, ExceptT.run_mk, range]
  simp only [bind, Option.bind, read, size, if_true]
  rfl

/-- Bytes are copied into the arena, or there is no room for them. -/
theorem follows_stash (embeds : Embeds length 0 ed layout) (bytes : Bytes) :
    Ends length { ed with arena := (ed.arena.store bytes).1 }
      ((ed.arena.store bytes).2.map (Span.place length)) ((stash bytes).run layout) := by
  rw [Arena.store, stash]
  split
  next fits =>
    have room : ed.arena.fits (min (length / 2) (length - 0)) bytes.length = true :=
      embeds.limit_eq.symm ▸ fits
    rcases embeds.run_alloc_of_fits room with ⟨grown, used, ran⟩
    have newest : bytes.length ≤ (ed.arena.extend bytes.length).used := by
      rw [used]
      exact Nat.le_add_left ..
    have span : (ed.arena.stash bytes).newest bytes.length
        = (ed.arena.extend bytes.length).newest bytes.length := by
      rw [Arena.newest, Arena.stash, Arena.used_fill newest]
      rfl
    refine ⟨_, grown.fill newest, ?_⟩
    rw [Machine.run_bind_ok ran, Machine.run_bind_ok (grown.run_overwrite newest)]
    exact congrArg (fun span => some (Except.ok (Span.place length span), _)) span.symm
  next full =>
    have large : ¬ ed.arena.fits (min (length / 2) (length - 0)) bytes.length = true :=
      embeds.limit_eq.symm ▸ full
    exact ⟨layout, embeds, Machine.run_bind_error (embeds.run_alloc_of_full large) _⟩

/-- A slot for a key is found or claimed, or there is none, and a slot that is found is there. -/
theorem follows_slotFor (embeds : Embeds length 0 ed layout) (key : Bytes) (extra : Nat)
    (entries : ∀ entry ∈ ed.entries, ed.arena.Allotted entry.key) :
    Ends length (ed.slotFor key extra).1 (ed.slotFor key extra).2
        ((slotFor key extra).run layout)
      ∧ ∀ index, (ed.slotFor key extra).2 = .ok index →
        index < (ed.slotFor key extra).1.slots.length := by
  have found := embeds.run_find key entries
  rw [Editor.slotFor, slotFor, Machine.run_bind_ok found]
  cases slot : ed.find? key with
  | some index =>
    have below := Editor.lt_length_of_find? slot
    have checked := embeds.run_check extra
    dsimp only
    split
    next fits =>
      rw [if_pos fits] at checked
      refine ⟨⟨layout, embeds, Machine.run_bind_ok checked _⟩, ?_⟩
      rintro _ ⟨⟩
      exact below
    next full =>
      rw [if_neg full] at checked
      refine ⟨⟨layout, embeds, Machine.run_bind_error checked _⟩, ?_⟩
      rintro _ ⟨⟩
  | none =>
    have vacant : (ask fun layout => some layout.table.hasVacancy).run layout
        = some (.ok ed.slots.hasVacancy, layout) :=
      run_ask (congrArg some embeds.table.hasVacancy)
    dsimp only
    rw [Machine.run_bind_ok vacant]
    cases room : ed.slots.hasVacancy with
    | false =>
      refine ⟨⟨layout, embeds, rfl⟩, ?_⟩
      rintro _ ⟨⟩
    | true =>
      have checked := embeds.run_checkBoth key.length extra
      simp only [Bool.true_and, if_true]
      split
      next fits =>
        rw [if_pos fits] at checked
        rw [Machine.run_bind_ok checked]
        rcases embeds.follows_stash key with ⟨copied, embeds, ran⟩
        generalize stored : ed.arena.store key = outcome at embeds ran
        obtain ⟨arena, result⟩ := outcome
        cases result with
        | error fault =>
          refine ⟨⟨copied, embeds, Machine.run_bind_error ran _⟩, ?_⟩
          rintro _ ⟨⟩
        | ok span =>
          rcases embeds.run_claim ⟨span, .null⟩ with ⟨table, shows, claimed⟩
          refine ⟨⟨_, embeds.withTable shows, (Machine.run_bind_ok ran _).trans claimed⟩, ?_⟩
          intro index done
          dsimp only at done ⊢
          rw [Slots.claim_of_hasVacancy room] at done ⊢
          cases done
          exact Slots.vacancy_lt_length_place ..
      next full =>
        rw [if_neg full] at checked
        refine ⟨⟨layout, embeds, Machine.run_bind_error checked _⟩, ?_⟩
        rintro _ ⟨⟩

/-- A payload is copied, and the value is stored with its place. -/
theorem follows_payload (embeds : Embeds length 0 ed layout) (bytes : Bytes)
    {stored : Span → Stored} {placed : Place → PlacedValue}
    (same : ∀ span, (stored span).placed length = placed (span.place length)) :
    Ends length { ed with arena := (ed.arena.store bytes).1 }
      (((ed.arena.store bytes).2.map stored).map (Stored.placed length))
      ((do let place ← stash bytes; return placed place).run layout) := by
  have copied := (embeds.follows_stash bytes).map (f := placed)
  cases result : (ed.arena.store bytes).2 with
  | error fault =>
    rw [result] at copied
    exact copied
  | ok span =>
    rw [result] at copied
    change Ends length _ (.ok ((stored span).placed length)) _
    rw [same]
    exact copied

/-- A payload is copied into the arena, or there is no room for it. -/
theorem follows_storeValue (embeds : Embeds length 0 ed layout) (v : Value) :
    Ends length { ed with arena := (ed.arena.storeValue v).1 }
      ((ed.arena.storeValue v).2.map (Stored.placed length)) ((storeValue v).run layout) := by
  cases v with
  | null | bool | int | uint | double => exact ⟨layout, embeds, rfl⟩
  | text s => exact embeds.follows_payload (utf8 s) fun _ => rfl
  | bytes bs => exact embeds.follows_payload bs fun _ => rfl

/-! ## Calls -/

/-- A property is set as the editor sets it. -/
theorem follows_set (embeds : Embeds length 0 ed layout) (p : Property)
    (entries : ∀ entry ∈ ed.entries, ed.arena.Allotted entry.key) :
    Ends length (ed.set p).1 (ed.set p).2 ((set p).run layout) := by
  have slot := embeds.follows_slotFor (utf8 p.key) p.value.payload.length entries
  rw [Editor.set, set]
  generalize ed.slotFor (utf8 p.key) p.value.payload.length = outcome at slot ⊢
  obtain ⟨slotted, result⟩ := outcome
  rcases slot with ⟨⟨found, embeds, ran⟩, below⟩
  cases result with
  | error fault => exact ⟨found, embeds, Machine.run_bind_error ran _⟩
  | ok index =>
    rw [Machine.run_bind_ok ran]
    rcases embeds.follows_storeValue p.value with ⟨copied, embeds, ran⟩
    dsimp only at embeds ran ⊢
    generalize slotted.arena.storeValue p.value = outcome at embeds ran ⊢
    obtain ⟨arena, result⟩ := outcome
    cases result with
    | error fault => exact ⟨copied, embeds, Machine.run_bind_error ran _⟩
    | ok stored =>
      rcases embeds.run_setValue (below index rfl) stored with ⟨table, shows, given⟩
      exact ⟨_, embeds.withTable shows, (Machine.run_bind_ok ran _).trans given⟩

/-- A property is removed as the editor removes it. -/
theorem follows_remove (embeds : Embeds length 0 ed layout) (key : String)
    (entries : ∀ entry ∈ ed.entries, ed.arena.Allotted entry.key) :
    Ends length (ed.remove key) (.ok ()) ((remove key).run layout) := by
  have found := embeds.run_find (utf8 key) entries
  rw [Editor.remove, remove, Machine.run_bind_ok found]
  cases slot : ed.find? (utf8 key) with
  | some index =>
    rcases embeds.table.remove? (Editor.lt_length_of_find? slot) with ⟨table, removed, shows⟩
    refine ⟨_, embeds.withTable shows, ?_⟩
    dsimp only
    rw [vacate, ExceptT.run_mk, removed]
    rfl
  | none => exact ⟨layout, embeds, rfl⟩

/-! ## Questions -/

/-- The bytes at a place that was handed out. -/
theorem bytesIn?_eq (embeds : Embeds length 0 ed layout) {span : Span}
    (allotted : ed.arena.Allotted span) :
    (span.place length).bytesIn? layout.buffer 0 = some (some (ed.arena.bytesAt span)) := by
  have read := allotted.bytesIn? (Nat.zero_le _) embeds.machine_capacity
  rw [List.drop_zero, embeds.capacity, ← embeds.buffer] at read
  exact read

theorem describe?_eq (embeds : Embeds length 0 ed layout) (record : String) :
    layout.describe? record = some (ed.describe record) := by
  rw [describe?, count?, embeds.table.liveCount?, embeds.length_buffer, embeds.marks,
    Editor.describe, embeds.capacity]
  rfl

/-- Entries that are read one after the other. -/
theorem mapM_placed {entries : List Entry} {read : PlacedEntry → Option β} {shows : Entry → β}
    (same : ∀ entry ∈ entries, read (entry.placed length) = some (shows entry)) :
    (entries.map (Entry.placed length)).mapM read = some (entries.map shows) := by
  induction entries with
  | nil => rfl
  | cons entry entries ih =>
    have later := ih fun other member => same other (.tail _ member)
    rw [List.map_cons, List.mapM_cons, same entry List.mem_cons_self, later]
    rfl

section

variable (embeds : Embeds length 0 ed layout) (coherent : ed.Coherent)

include embeds coherent

theorem valueIn?_eq {entry : Entry} (live : entry ∈ ed.entries) :
    (entry.value.placed length).valueIn? layout.buffer 0 = some (ed.arena.valueAt entry.value) := by
  have read := Arena.valueIn?_placed (Nat.zero_le _) embeds.machine_capacity
    (coherent.allotted entry live)
  rw [List.drop_zero, embeds.capacity, ← embeds.buffer] at read
  exact read

theorem propertyIn?_eq (entry : Entry) (live : entry ∈ ed.entries) :
    (entry.placed length).propertyIn? layout.buffer 0 = some (ed.arena.propertyAt entry) := by
  have read := Arena.propertyIn?_placed (Nat.zero_le _) embeds.machine_capacity
    (coherent.allotted entry live)
  rw [List.drop_zero, embeds.capacity, ← embeds.buffer] at read
  exact read

theorem contains?_eq (key : String) : layout.contains? key = some (ed.contains key) := by
  rw [contains?, embeds.find?_eq (utf8 key) coherent.key_allotted]
  rfl

theorem get?_eq (key : String) : layout.get? key = some (ed.get? key) := by
  rw [get?, embeds.find?_eq (utf8 key) (coherent.key_allotted), Editor.get?]
  cases found : ed.find? (utf8 key) with
  | none => rfl
  | some index =>
    -- The slot that was found has an entry, which is the one that was compared.
    rcases List.findIdx?_eq_some_iff_getElem.1 found with ⟨below, named, -⟩
    have slot := List.getElem?_eq_getElem below
    cases entered : ed.slots[index] with
    | none => simp [entered, Arena.hasKey] at named
    | some entry =>
      rw [entered] at slot
      simp only [bind, Option.bind, embeds.table.entry? slot, slot]
      exact embeds.valueIn?_eq coherent (Editor.mem_entries slot)

theorem properties?_eq : layout.properties? = some ed.properties := by
  have shown := mapM_placed (embeds.propertyIn?_eq coherent)
  have all : (ed.entries.map ed.arena.propertyAt).filterMap id = ed.properties := by
    rw [List.filterMap_map, Editor.entries, List.filterMap_filterMap, Editor.properties]
    rfl
  rw [properties?, embeds.table.live?]
  simp only [bind, Option.bind]
  rw [← Editor.entries, shown]
  exact congrArg some all

/-- A call is answered as the editor answers it. -/
theorem follows_answering (record : String) (call : Editor.Call) :
    Ends length (ed.step record call).2 (ed.step record call).1
      ((answering record call).run layout) := by
  cases call with
  | set p => exact (embeds.follows_set p coherent.key_allotted).map
  | remove key => exact (embeds.follows_remove key coherent.key_allotted).map
  | get key => exact (embeds.ends_ask (embeds.get?_eq coherent key)).map
  | contains key => exact (embeds.ends_ask (embeds.contains?_eq coherent key)).map
  | list => exact (embeds.ends_ask (embeds.properties?_eq coherent)).map
  | describe => exact (embeds.ends_ask (embeds.describe?_eq record)).map

theorem step_eq (record : String) (call : Editor.Call) :
    ∃ next, layout.step record call = (some (ed.step record call).1, next)
      ∧ Embeds length 0 (ed.step record call).2 next := by
  rcases embeds.follows_answering coherent record call with ⟨next, embeds, ran⟩
  refine ⟨next, ?_, embeds⟩
  rw [step, ran]

end

end Embeds

/-- A run of calls on the layout of an editor is one on the editor. -/
theorem embeds_runFrom (record : String) (calls : List Editor.Call)
    (embeds : Embeds length 0 ed layout) (within : ed.Within length) :
    Embeds length 0 (runFrom (Editor.step record) ed calls)
      (runFrom (step record) layout calls) := by
  induction calls generalizing ed layout with
  | nil => exact embeds
  | cons call calls ih =>
    rcases embeds.step_eq within.coherent record call with ⟨next, stepped, embeds⟩
    rw [runFrom_cons, runFrom_cons, stepped]
    exact ih embeds (within.step record call)

end Layout

end PropertyRecord
