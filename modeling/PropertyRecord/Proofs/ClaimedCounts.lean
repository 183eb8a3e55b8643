import PropertyRecord.Proofs.Wire.Capped
import PropertyRecord.Proofs.Wire.OneItem
import PropertyRecord.Record.Lookup

/-!
# Claimed counts

An import and a lookup make as many steps as the header of the record claims pairs, up to any word,
and each step may skip items that claim to hold as many others. Every step that is followed by
another one has passed two items, and no item is empty, so both come to their end within the bytes
that there are, whatever is claimed: they come to the same if all their loops are capped at one step
more than the bytes left.

Main statements: `Editor.openOverWithin_eq`, `locateInWithin_eq` and `claimed_counts_end`.
-/

namespace PropertyRecord

/-! ## Capped imports -/

namespace Editor

/-- Imports or passes over one pair like `importPair`, with no loop longer than the cap. A value
that is imported has no items in it, so reading it is no loop. -/
def importPairWithin (cap : Nat → Nat) (ed : Editor) (limit : Nat) (r : Reader) : PairImport :=
  match r.skipItemWithin cap with
  | .error fault => ⟨ed, none, .error fault⟩
  | .ok atValue =>
    match atValue.atStorable with
    | .error fault => ⟨ed, none, .error fault⟩
    | .ok false => ⟨ed, some atValue.pos, atValue.skipItemWithin cap⟩
    | .ok true =>
      let (imported, next) := ed.importProperty limit r
      ⟨imported, none, next⟩

/-- Imports up to `count` pairs like `importPairs`, with no loop longer than the cap. -/
def importPairsWithin (cap : Nat → Nat) (limit : Nat) :
    (count : Nat) → Reader → Editor → (foreign : List Nat) → Opening
  | 0, _, ed, foreign => ⟨ed, foreign.reverse, none⟩
  | count + 1, r, ed, foreign =>
    if maxProperties ≤ ed.slots.length then ⟨ed, foreign.reverse, none⟩
    else
      let pair := ed.importPairWithin cap limit r
      let passed := pair.foreign.toList ++ foreign
      match pair.next with
      | .error fault => ⟨pair.editor, passed.reverse, some fault⟩
      | .ok next => importPairsWithin cap limit count next pair.editor passed

/-- Opens an editor over a record like `openOver`, with no loop longer than the cap. -/
def openOverWithin (cap : Nat → Nat) (buffer : Bytes) (existing : Nat) : Opening :=
  let held := min existing buffer.length
  if held = 0 then ⟨empty buffer, [], none⟩
  else
    match (Reader.ofBytes (buffer.take held)).readMapHeader with
    | .error fault => ⟨empty buffer, [], some fault⟩
    | .ok (count, next) =>
      importPairsWithin cap (importLimit buffer held) (min count (cap next.remaining)) next
        (empty buffer) []

variable {cap : Nat → Nat} {ed : Editor} {limit count steps : Nat} {r next : Reader}

theorem exists_of_importProperty {imported : Editor}
    (done : ed.importProperty limit r = (imported, .ok next)) :
    ∃ atValue, r.skipItem = .ok atValue ∧ atValue.skipItem = .ok next := by
  rw [importProperty] at done
  split at done
  next => cases done
  next keyed key atValue named =>
    split at done
    next => cases done
    next arena value behind valued =>
      cases done
      exact ⟨atValue, Arena.skipItem_of_copyText named, Arena.skipItem_of_copyValue valued⟩

/-- An import goes on behind the two items of a pair. -/
theorem exists_of_importPair (passed : (ed.importPair limit r).next = .ok next) :
    ∃ atValue, r.skipItem = .ok atValue ∧ atValue.skipItem = .ok next := by
  rw [importPair] at passed
  split at passed
  next => cases passed
  next atValue skipped =>
    split at passed
    next => cases passed
    next => exact ⟨atValue, skipped, passed⟩
    next =>
      generalize done : ed.importProperty limit r = outcome at passed
      exact exists_of_importProperty (done.trans (Prod.ext rfl passed))

theorem importPairWithin_eq (ample : ∀ left, left < cap left) (ed : Editor) (limit : Nat)
    (r : Reader) : ed.importPairWithin cap limit r = ed.importPair limit r := by
  rw [importPairWithin, Reader.skipItemWithin_eq ample]
  rfl

theorem importPairsWithin_eq (ample : ∀ left, left < cap left) (limit count : Nat) (r : Reader)
    (ed : Editor) (foreign : List Nat) :
    importPairsWithin cap limit count r ed foreign = importPairs limit count r ed foreign := by
  induction count generalizing r ed foreign with
  | zero => rfl
  | succ count ih =>
    rw [importPairsWithin, importPairWithin_eq ample]
    simp only [ih]
    rfl

/-- The pairs of a record that may be more than its bytes may as well be as many as they like. -/
theorem importPairs_min (limit count : Nat) (ed : Editor) (foreign : List Nat)
    (ample : r.remaining < steps) :
    importPairs limit (min count steps) r ed foreign = importPairs limit count r ed foreign := by
  induction count generalizing r ed foreign steps with
  | zero => rw [Nat.zero_min]
  | succ count ih =>
    cases steps with
    | zero => exact absurd ample (Nat.not_lt_zero _)
    | succ steps =>
      rw [Nat.add_min_add_right, importPairs, importPairs]
      split
      next => rfl
      next =>
        simp only
        split
        next => rfl
        next next passed =>
          rcases exists_of_importPair passed with ⟨atValue, skipped, behind⟩
          have key := Reader.remaining_lt_of_skipLevels skipped
          have value := Reader.remaining_lt_of_skipLevels behind
          exact ih _ _ (by omega)

/-- An editor that is opened over a record does not depend on an ample cap. -/
theorem openOverWithin_eq (ample : ∀ left, left < cap left) (buffer : Bytes) (existing : Nat) :
    openOverWithin cap buffer existing = openOver buffer existing := by
  rw [openOverWithin, openOver]
  split
  next => rfl
  next =>
    cases (Reader.ofBytes (buffer.take (min existing buffer.length))).readMapHeader with
    | error fault => rfl
    | ok announced =>
      simp only
      rw [importPairsWithin_eq ample, importPairs_min _ _ _ _ (ample _)]

end Editor

/-! ## Capped lookups -/

/-- Walks to the value of a key like `locate`, with no skip that has a loop longer than the cap. -/
def Reader.locateWithin (cap : Nat → Nat) (key : String) : (count : Nat) → Reader → Option Reader
  | 0, _ => none
  | count + 1, r =>
    match (r.readText (List.replicate maxNameSize 0)).result with
    | .ok (found, next) =>
      if found = key then some next
      else
        match next.skipItemWithin cap with
        | .ok after => locateWithin cap key count after
        | .error _ => none
    | .error .exhausted =>
      match r.skipItemWithin cap with
      | .ok next =>
        match next.skipItemWithin cap with
        | .ok after => locateWithin cap key count after
        | .error _ => none
      | .error _ => none
    | .error _ => none

/-- Finds the value of a key in a record like `locateIn`, with no loop longer than the cap. -/
def locateInWithin (cap : Nat → Nat) (record : Bytes) (key : String) : Option Reader :=
  match (Reader.ofBytes record).readMapHeader with
  | .ok (count, next) => next.locateWithin cap key (min count (cap next.remaining))
  | .error _ => none

namespace Reader

variable {cap : Nat → Nat} {r : Reader} {key : String} {steps : Nat}

theorem locateWithin_eq (ample : ∀ left, left < cap left) (key : String) (count : Nat)
    (r : Reader) : r.locateWithin cap key count = r.locate key count := by
  induction count generalizing r with
  | zero => rfl
  | succ count ih =>
    rw [locateWithin, skipItemWithin_eq ample]
    simp only [ih]
    rfl

theorem locate_min (count : Nat) (ample : r.remaining < steps) :
    r.locate key (min count steps) = r.locate key count := by
  induction count generalizing r steps with
  | zero => rw [Nat.zero_min]
  | succ count ih =>
    cases steps with
    | zero => exact absurd ample (Nat.not_lt_zero _)
    | succ steps =>
      rw [Nat.add_min_add_right, locate, locate]
      split
      next found atValue named =>
        have key := remaining_lt_of_skipLevels (exists_readText_iff.1 ⟨found, named⟩).1
        split
        next => rfl
        next =>
          split
          next next skipped =>
            have value := remaining_lt_of_skipLevels skipped
            exact ih (by omega)
          next => rfl
      next =>
        split
        next atValue skipped =>
          have key := remaining_lt_of_skipLevels skipped
          split
          next next behind =>
            have value := remaining_lt_of_skipLevels behind
            exact ih (by omega)
          next => rfl
        next => rfl
      next => rfl

end Reader

theorem locateInWithin_eq {cap : Nat → Nat} (ample : ∀ left, left < cap left) (record : Bytes)
    (key : String) : locateInWithin cap record key = locateIn record key := by
  rw [locateInWithin, locateIn]
  cases (Reader.ofBytes record).readMapHeader with
  | ok announced =>
    simp only
    rw [Reader.locateWithin_eq ample, Reader.locate_min _ (ample _)]
  | error fault => rfl

/-- Loops over claimed counts come to their end within the bytes that there are, whatever is
claimed. A skip that succeeds consumes at least one byte, however deep it is nested. An array or a
map that claims more items than there are bytes behind its header is refused, and the cursor is put
back. So no loop needs more steps than one more than the bytes left where it starts: if all loops
of a skip, of an import and of a lookup are capped there, a skip has the same result and leaves the
cursor in the same place, also where it fails, and the editor that is opened and the position that
is found are the same. -/
theorem claimed_counts_end {source : Bytes} (machine : source.length < unsignedBound) {c : Cursor}
    (inside : c.Inside source) (depth : Nat) (buffer : Bytes) (existing : Nat) (record : Bytes)
    (key : String) :
    let cap : Nat → Nat := fun left => left + 1
    (∀ next, (Cursor.skipNested depth).run c = some (.ok (), next) →
        next.Inside source ∧ c.pos < next.pos)
      ∧ (∀ header, c.reader.peekHeader = .ok header →
        header.Overclaims (c.reader.advance header.size).remaining →
          ∃ fault, Cursor.skipItem.run c = some (.error fault, c))
      ∧ (Cursor.skipNestedWithin cap depth).run c = (Cursor.skipNested depth).run c
      ∧ (Cursor.skipItemWithin cap).run c = Cursor.skipItem.run c
      ∧ Reader.skipItemWithin cap = Reader.skipItem
      ∧ Editor.openOverWithin cap buffer existing = Editor.openOver buffer existing
      ∧ locateInWithin cap record key = locateIn record key := by
  intro cap
  have ample (left : Nat) : left < cap left := Nat.lt_succ_self left
  refine ⟨fun next skipped => ?_, fun header parsed overclaims => ?_, ?_, ?_, ?_, ?_, ?_⟩
  · exact (Cursor.advances_skipNested machine inside depth).inside inside skipped
  · exact Cursor.run_skipItem_of_overclaims machine inside parsed overclaims
  · exact Cursor.run_skipNestedWithin machine ample inside depth
  · exact Cursor.run_skipItemWithin machine ample inside
  · exact Reader.skipItemWithin_eq ample
  · exact Editor.openOverWithin_eq ample buffer existing
  · exact locateInWithin_eq ample record key

/-- The largest count of pairs, with one pair behind it. The skip is refused, and the import and the
lookup find the pair. -/
theorem claimed_counts_end_largest :
    let cap : Nat → Nat := fun left => left + 1
    let record : Bytes := 0xbb :: List.replicate 8 0xff ++ [0x61, 0x6b, 0x01]
    let c : Cursor := ⟨record, 0⟩
    let buffer := record ++ List.replicate 8 0
    (∃ fault, Cursor.skipItem.run c = some (.error fault, c))
      ∧ (Cursor.skipItemWithin cap).run c = Cursor.skipItem.run c
      ∧ (Editor.openOver buffer record.length).editor.properties = [⟨"k", .uint 1⟩]
      ∧ locateIn record "k" = some ⟨11, [0x01]⟩ := by
  intro cap record c buffer
  have machine : record.length < unsignedBound := by decide
  have inside : c.Inside record := ⟨rfl, Nat.zero_le _⟩
  rcases claimed_counts_end machine inside 0 buffer record.length record "k" with
    ⟨-, refused, -, skip, -, opened, located⟩
  have parsed : c.reader.peekHeader = .ok ⟨.map, 27, 0xffffffffffffffff, 9⟩ := by decide
  refine ⟨refused _ parsed (.inr ⟨rfl, by decide⟩), skip, ?_, ?_⟩
  · rw [← opened]
    decide +kernel
  · rw [← located]
    decide +kernel

end PropertyRecord
