import PropertyRecord.Proofs.Editor.Refinement
import PropertyRecord.Proofs.Import.Copying

/-!
# One pair of an import

What an import makes of one pair: a property that is read and fits is copied and assigned to its
key, a pair with a foreign value is passed over, and any other pair ends the import and leaves in
the arena what was set aside for it.

Main statements: `importPair_ok`, `importPair_foreign` and `importPair_error`.
-/

namespace PropertyRecord

namespace Editor

variable {ed : Editor} {limit : Nat} {r atValue next : Reader} {initial : UInt8}

/-! ## Storable values -/

/-- A property that is read and fits is copied, key and payload, and assigned. -/
theorem importProperty_ok {key : String} {v : Value} (half : limit ≤ ed.arena.budget)
    (named : r.text = .ok (key, atValue)) (peeked : atValue.peekByte = .ok initial)
    (kept : storable initial = true) (read : atValue.value = .ok (v, next))
    (fits : ed.arena.used + Property.footprint ⟨key, v⟩ ≤ limit) :
    let keyed := ed.arena.stash (utf8 key)
    let copied := keyed.stash v.payload
    ed.importProperty limit r
      = (assign ⟨copied, ed.slots⟩ (keyed.newest (utf8 key).length)
          (Stored.ofValue (copied.newest v.payload.length) v), .ok next) := by
  intro keyed copied
  rw [Property.footprint_mk] at fits
  have keyFits : ed.arena.used + (utf8 key).length ≤ limit := by omega
  have room := Arena.le_below (Nat.le_trans keyFits half)
  have valueFits : keyed.used + v.payload.length ≤ limit := by
    rw [Arena.used_stash room]
    omega
  have valueHalf : limit ≤ keyed.budget := by
    rw [Arena.budget_stash room]
    exact half
  have valueCopied : (ed.arena.stash (utf8 key)).copyValue limit atValue = _ :=
    Arena.copyValue_ok valueHalf peeked kept read valueFits
  rw [importProperty, Arena.copyText_ok half named keyFits]
  simp only [valueCopied]
  rfl

/-- A property that is not read, or does not fit, leaves what was set aside for it. -/
theorem importProperty_error (half : limit ≤ ed.arena.budget)
    (skipped : r.skipItem = .ok atValue) (peeked : atValue.peekByte = .ok initial)
    (kept : storable initial = true)
    (refused : ∀ key v next, r.text = .ok (key, atValue) → atValue.value = .ok (v, next) →
      limit < ed.arena.used + Property.footprint ⟨key, v⟩) :
    ∃ bytes fault, bytes.length = r.lost limit ed.arena.used
      ∧ ed.importProperty limit r
        = ({ ed with arena := ed.arena.stash bytes }, .error fault) := by
  cases named : r.text with
  | error fault =>
    have unread : ∀ s next, r.text = .ok (s, next) →
        limit < ed.arena.used + (utf8 s).length := by
      intro s next read
      rw [named] at read
      cases read
    rcases Arena.copyText_error half unread with ⟨bytes, fault, length, copied⟩
    refine ⟨bytes, fault, ?_, ?_⟩
    · simp only [Reader.lost, skipped, peeked, kept, if_true, named]
      exact length
    · rw [importProperty, copied]
  | ok found =>
    rcases found with ⟨key, after⟩
    obtain rfl := Reader.eq_of_text_of_skipItem named skipped
    by_cases keyFits : ed.arena.used + (utf8 key).length ≤ limit
    · have room := Arena.le_below (Nat.le_trans keyFits half)
      have used := Arena.used_stash room
      have budget := Arena.budget_stash room
      have valueRefused : ∀ v next, atValue.value = .ok (v, next) →
          limit < (ed.arena.stash (utf8 key)).used + v.payload.length := by
        intro v next read
        have large := refused key v next named read
        rw [Property.footprint_mk] at large
        rw [used]
        omega
      rcases Arena.copyValue_error (budget ▸ half) (used ▸ keyFits) peeked kept valueRefused with
        ⟨bytes, fault, length, copied⟩
      rw [used] at length
      -- The key was copied before its value failed, so both are left behind as one copy.
      refine ⟨bytes ++ utf8 key, fault, ?_, ?_⟩
      · simp only [Reader.lost, skipped, peeked, kept, if_true, named, keyFits]
        rw [List.length_append, length, Nat.add_comm]
      · have space := atValue.setAside_le limit keyFits
        rw [Nat.add_assoc] at space
        rw [importProperty, Arena.copyText_ok half named keyFits]
        simp only [copied]
        rw [Arena.stash_stash]
        have below := Arena.le_below (Nat.le_trans space half)
        omega
    · have keyRefused : ∀ s next, r.text = .ok (s, next) →
          limit < ed.arena.used + (utf8 s).length := by
        intro s next read
        rw [named] at read
        cases read
        exact Nat.lt_of_not_le keyFits
      rcases Arena.copyText_error half keyRefused with ⟨bytes, fault, length, copied⟩
      refine ⟨bytes, fault, ?_, ?_⟩
      · have claimed := Reader.peekStringLength_of_payload (.inl rfl) (Reader.text_eq_ok named)
        simp only [Reader.lost, skipped, peeked, kept, if_true, named, keyFits, if_false]
        rw [length, Reader.setAside, claimed]
        exact if_neg keyFits
      · rw [importProperty, copied]

/-! ## Any pair -/

/-- A pair with a foreign value is passed over. -/
theorem importPair_foreign (ed : Editor) (limit : Nat) (foreign : r.pair = .ok (none, next)) :
    (ed.importPair limit r).editor = ed ∧ (ed.importPair limit r).next = .ok next := by
  rcases Reader.exists_of_pair_none foreign with ⟨atValue, initial, skipped, peeked, other, passed⟩
  have kind := Reader.atStorable_of_peekByte peeked
  rw [other] at kind
  simp only [importPair, skipped, kind, passed, and_self]

/-- A pair with a property that fits is imported. -/
theorem importPair_ok {p : Property} (half : limit ≤ ed.arena.budget)
    (found : r.pair = .ok (some p, next)) (fits : ed.arena.used + p.footprint ≤ limit) :
    let keyed := ed.arena.stash (utf8 p.key)
    let copied := keyed.stash p.value.payload
    (ed.importPair limit r).editor
        = assign ⟨copied, ed.slots⟩ (keyed.newest (utf8 p.key).length)
            (Stored.ofValue (copied.newest p.value.payload.length) p.value)
      ∧ (ed.importPair limit r).next = .ok next := by
  intro keyed copied
  obtain ⟨atValue, initial, skipped, peeked, kept, named, read⟩ := Reader.exists_of_pair_some found
  have kind := Reader.atStorable_of_peekByte peeked
  rw [kept] at kind
  have imported := importProperty_ok half named peeked kept read fits
  simp only [importPair, skipped, kind, imported]
  exact ⟨rfl, trivial⟩

/-- Any other pair ends the import, and what was set aside for it stays so. -/
theorem importPair_error (half : limit ≤ ed.arena.budget)
    (refused : r.Refused limit ed.arena.used) :
    ∃ bytes fault, bytes.length = r.lost limit ed.arena.used
      ∧ (ed.importPair limit r).editor = { ed with arena := ed.arena.stash bytes }
      ∧ (ed.importPair limit r).next = .error fault := by
  cases skipped : r.skipItem with
  | error fault =>
    refine ⟨[], fault, ?_, ?_⟩
    · rw [Reader.lost, skipped]
      rfl
    · simp only [importPair, skipped, Arena.stash_nil, and_self]
  | ok atValue =>
    cases peeked : atValue.peekByte with
    | error fault =>
      refine ⟨[], fault, ?_, ?_⟩
      · simp only [Reader.lost, skipped, peeked, List.length_nil]
      · have unknown : atValue.atStorable = .error fault := by
          rw [Reader.atStorable, peeked]
          rfl
        simp only [importPair, skipped, unknown, Arena.stash_nil, and_self]
    | ok initial =>
      have kind := Reader.atStorable_of_peekByte peeked
      cases kept : storable initial with
      | false =>
        rw [kept] at kind
        cases passed : atValue.skipItem with
        | error fault =>
          refine ⟨[], fault, ?_, ?_⟩
          · simp [Reader.lost, skipped, peeked, kept]
          · simp only [importPair, skipped, kind, passed, Arena.stash_nil, and_self]
        | ok next =>
          have foreign : r.pair = .ok (none, next) := by
            simp [Reader.pair, skipped, peeked, kept, passed, bind, Except.bind, pure, Except.pure]
          rcases refused none next foreign with ⟨p, found, -⟩
          cases found
      | true =>
        rw [kept] at kind
        have large : ∀ key v next, r.text = .ok (key, atValue) → atValue.value = .ok (v, next) →
            limit < ed.arena.used + Property.footprint ⟨key, v⟩ := by
          intro key v next named read
          have found : r.pair = .ok (some ⟨key, v⟩, next) := by
            simp only [Reader.pair, skipped, peeked, kept, named, read, bind, Except.bind,
              if_true, pure, Except.pure]
          rcases refused (some ⟨key, v⟩) next found with ⟨p, same, large⟩
          cases same
          exact large
        rcases importProperty_error half skipped peeked kept large with
          ⟨bytes, fault, length, imported⟩
        refine ⟨bytes, fault, length, ?_⟩
        simp only [importPair, skipped, kind, imported, and_self]

end Editor

end PropertyRecord
