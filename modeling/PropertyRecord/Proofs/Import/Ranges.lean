import PropertyRecord.Proofs.Editor.Ranges

/-!
# What an import hands out

While a record is imported, copies may be made only behind a floor: behind the record and in the
back half of the buffer. Copying within the limit that this sets makes an arena grow, whether or not
the copy is filled, and what was handed out before stays handed out. So when a pair is given its
slot, the key just read and the keys in the table lie in what was handed out.

Main statements: `grows_copyValue`, `Imports.importPair` for what holds between two pairs, and
`Imports.allotted` for the keys of one pair.
-/

namespace PropertyRecord

namespace Arena

variable {a later last : Arena} {limit : Nat} {r : Reader} {span : Span}

/-- What copying within a limit does to an arena, whether or not it succeeds. -/
structure Grows (a : Arena) (limit : Nat) (later : Arena) : Prop where
  longer : a.used ≤ later.used
  within : later.used ≤ limit
  capacity : later.capacity = a.capacity

theorem Grows.refl (within : a.used ≤ limit) : a.Grows limit a := ⟨Nat.le_refl _, within, rfl⟩

theorem Grows.trans (first : a.Grows limit later) (second : later.Grows limit last) :
    a.Grows limit last where
  longer := Nat.le_trans first.longer second.longer
  within := second.within
  capacity := second.capacity.trans first.capacity

theorem Grows.allotted (grows : a.Grows limit later) (allotted : a.Allotted span) :
    later.Allotted span := ⟨Nat.le_trans allotted.inside grows.longer, allotted.size⟩

variable {size : Nat}

/-- Bytes handed out within the limit. -/
theorem grows_extend (bounded : limit ≤ a.capacity) (fits : a.fits limit size = true) :
    a.Grows limit (a.extend size)
      ∧ (a.extend size).Allotted ((a.extend size).newest size) := by
  have room := fits_iff.1 fits
  have used := used_extend (le_below_of_fits bounded fits)
  refine ⟨⟨?_, ?_, a.capacity_extend size⟩, Nat.le_refl _, ?_⟩
  · omega
  · omega
  · rw [newest, used]
    exact Nat.le_add_left ..

/-- What copying a string comes to: the arena has grown within the limit, and the place of a copy
was handed out. -/
structure Copying (a : Arena) (limit : Nat) (outcome : Arena × Except Fault (Span × Reader)) :
    Prop where
  grows : a.Grows limit outcome.1
  placed : ∀ span next, outcome.2 = .ok (span, next) → outcome.1.Allotted span

theorem Copying.failed (within : a.used ≤ limit) (fault : Fault) :
    a.Copying limit (a, .error fault) := ⟨.refl within, fun _ _ done => by cases done⟩

theorem copying_copyString {α : Type} {read : Reader → Bytes → Filled (α × Reader)}
    (sized : ∀ r out, (read r out).out.length = out.length) (bounded : limit ≤ a.capacity)
    (within : a.used ≤ limit) (r : Reader) : a.Copying limit (a.copyString limit r read) := by
  rw [copyString]
  cases r.peekStringLength with
  | error fault => exact .failed within fault
  | ok size =>
    by_cases fits : a.fits limit size = true
    · rcases grows_extend bounded fits with ⟨grows, allotted⟩
      simp only [fits, if_true]
      generalize filled : read r ((a.extend size).bytesAt ((a.extend size).newest size)) = outcome
      have short : outcome.out.length ≤ (a.extend size).used := by
        rw [← filled, sized, bytesAt, List.length_take]
        exact Nat.le_trans (Nat.min_le_left ..) allotted.size
      have used := used_fill short
      refine ⟨⟨?_, ?_, ?_⟩, ?_⟩
      · exact used ▸ grows.longer
      · exact used ▸ grows.within
      · exact (capacity_fill short).trans grows.capacity
      · intro span next done
        cases result : outcome.result with
        | error fault =>
          rw [result] at done
          cases done
        | ok content =>
          rw [result] at done
          cases done
          exact ⟨used ▸ allotted.inside, allotted.size⟩
    · simp only [fits]
      exact .failed within .exhausted

theorem copying_readText (bounded : limit ≤ a.capacity) (within : a.used ≤ limit) (r : Reader) :
    a.Copying limit (a.copyString limit r Reader.readText) :=
  copying_copyString Reader.length_out_readText bounded within r

/-- A value that is copied, or read in place, or that fails to be. -/
theorem grows_copyValue (bounded : limit ≤ a.capacity) (within : a.used ≤ limit) (r : Reader) :
    a.Grows limit (a.copyValue limit r).1 := by
  have text := copying_readText bounded within r
  have bytes := copying_copyString Reader.length_out_readBytes bounded within r
  rw [copyValue]
  split
  case h_4 => exact text.grows
  case h_5 => exact bytes.grows
  all_goals exact .refl within

end Arena

namespace Editor

variable {buffer : Bytes} {ed : Editor} {r next : Reader} {limit : Nat}

/-- A pair that does not end the import leaves an editor that shows the imported pairs. -/
theorem Imports.importPair {imported : Listing} (imports : ed.Imports limit imported)
    (vacant : ed.slots.length < maxProperties) (passed : (ed.importPair limit r).next = .ok next) :
    ∃ imported, (ed.importPair limit r).editor.Imports limit imported := by
  -- Otherwise the pair would have ended the import.
  have accepted : ¬ r.Refused limit ed.arena.used := by
    intro refused
    rcases importPair_error imports.half refused with ⟨_, fault, _, _, stopped⟩
    rw [stopped] at passed
    cases passed
  simp only [Reader.Refused, not_forall] at accepted
  rcases accepted with ⟨found, behind, paired, fits⟩
  cases found with
  | none =>
    rw [(importPair_foreign ed limit paired).1]
    exact ⟨imported, imports⟩
  | some p =>
    have room : Listing.footprint imported + p.footprint ≤ limit := by
      rw [← imports.charged]
      exact Nat.le_of_not_lt fun large => fits ⟨p, rfl, large⟩
    rcases imports.importPair_ok (imports.length ▸ vacant) paired room with ⟨next, -, -⟩
    exact ⟨_, next⟩

/-- When a pair has been copied, its key and the keys that it is compared with are handed out. -/
theorem Imports.allotted {imported : Listing} {keyed last : Arena} {key : Span}
    {atValue next : Reader} {stored : Stored} (imports : ed.Imports limit imported)
    (copied : ed.arena.copyString limit r Reader.readText = (keyed, .ok (key, atValue)))
    (valued : keyed.copyValue limit atValue = (last, .ok (stored, next))) :
    last.Allotted key ∧ ∀ entry ∈ ed.entries, last.Allotted entry.key := by
  have bounded : limit ≤ ed.arena.capacity := Nat.le_trans imports.half (Nat.div_le_self ..)
  have text := Arena.copying_readText bounded imports.within r
  rw [copied] at text
  have held : limit ≤ keyed.capacity := text.grows.capacity ▸ bounded
  have grows := Arena.grows_copyValue held text.grows.within atValue
  rw [valued] at grows
  have coherent : ed.Coherent := imports.refines.coherent
  exact ⟨grows.allotted (text.placed _ _ rfl), fun entry live =>
    (text.grows.trans grows).allotted (coherent.key_allotted entry live)⟩

/-- The lowest place that an import copies to: behind the record and in the back half of the buffer.
-/
def importFloor (buffer : Bytes) (held : Nat) : Nat :=
  max held (buffer.length - buffer.length / 2)

theorem importLimit_add_importFloor {held : Nat} (inside : held ≤ buffer.length) :
    importLimit buffer held + importFloor buffer held = buffer.length := by
  rw [importLimit, importFloor]
  omega

end Editor

end PropertyRecord
