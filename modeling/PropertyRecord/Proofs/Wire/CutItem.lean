import PropertyRecord.Proofs.Wire.Decoding
import PropertyRecord.Proofs.Wire.Grammar

/-!
# Cut items

The first bytes of an item, without the last of them, are refused as malformed wherever the cut
falls: in a header, in the content of a string, or in an item that is nested in others. Up to the
cut a skip sees what it sees in the whole item. So it never descends further than the item does, and
it meets no header that is not supported. No item is therefore the front of another one.

Main statements: `skipItem_take`, `IsItem.eq_of_isPrefix` and `Reading.step_skipItem_take`.
-/

namespace PropertyRecord

/-- A header that is cut is malformed. -/
theorem Spells.parse_take {major : MajorType} {argument size : Nat} {head : Bytes}
    (spells : Spells major argument head) (cut : size < head.length) :
    Header.parse (head.take size) = .error .malformed := by
  cases size with
  | zero => rfl
  | succ size =>
    cases spells with
    | inline argument small =>
      rw [List.length_singleton] at cut
      omega
    | wide info digits announced =>
      rw [List.length_cons] at cut
      have width := widthFor_eq_some_iff.2 announced
      have known : 24 ≤ info ∧ info < 32 := by
        simp only [List.mem_cons, Prod.mk.injEq, List.not_mem_nil, or_false] at announced
        omega
      have outside : ¬ info < 24 := Nat.not_lt.2 known.1
      have short : Bytes.cut? digits.length (digits.take size) = none := by
        rw [Bytes.cut?_eq_none_iff, List.length_take]
        omega
      rw [List.take_succ_cons, Header.parse]
      simp only [infoOf_initialByte major _ known.2, outside, if_false, width, short]

namespace Reader

variable {levels count size pos : Nat} {item items : Bytes}

/-- What a skip makes of the bytes behind a header. -/
def skipContent (levels : Nat) (major : MajorType) (argument : Nat) (content : Reader) :
    Except Fault Reader :=
  match major with
  | .unsigned | .negative | .simple => .ok content
  | .bytes | .text =>
    if Bytes.holds argument content.rest then .ok (content.advance argument)
    else .error .malformed
  | .array => repeatedly (skipLevels levels) argument content
  | .map => repeatedly (skipLevels levels) (2 * argument) content
  | .tag => skipLevels levels content

theorem skipLevels_append {major : MajorType} {argument : Nat} {head : Bytes}
    (spells : Spells major argument head) (pos : Nat) (rest : Bytes) :
    skipLevels (levels + 1) ⟨pos, head ++ rest⟩
      = skipContent levels major argument ⟨pos + head.length, rest⟩ := by
  rcases (passes_append pos head rest).peekHeader spells with ⟨info, parsed⟩
  rw [skipLevels, parsed]
  simp only [bind, Except.bind, advance_append]
  cases major <;> rfl

/-- A cut falls in the header, and ends the skip there, or in what is behind it. -/
theorem skipLevels_take_append {major : MajorType} {argument : Nat} {head content : Bytes}
    (spells : Spells major argument head) (cut : size < (head ++ content).length)
    (behind : ∀ {size : Nat} (pos : Nat), size < content.length →
      skipContent levels major argument ⟨pos, content.take size⟩ = .error .malformed) :
    skipLevels (levels + 1) ⟨pos, (head ++ content).take size⟩ = .error .malformed := by
  by_cases within : size < head.length
  · have broken : (⟨pos, head.take size⟩ : Reader).peekHeader = .error .malformed :=
      spells.parse_take within
    rw [List.take_append_of_le_length (Nat.le_of_lt within), skipLevels, broken]
    rfl
  · rw [List.length_append] at cut
    rw [List.take_append, List.take_of_length_le (Nat.le_of_not_lt within),
      skipLevels_append spells]
    exact behind _ (by omega)

/-- An item that is cut is refused if items that are nested in it are when they are cut. -/
theorem skipLevels_succ_take
    (below : ∀ {count size : Nat} {items : Bytes} (pos : Nat), AreNested levels count items →
      size < items.length →
      repeatedly (skipLevels levels) count ⟨pos, items.take size⟩ = .error .malformed)
    (isItem : IsItem levels item) (cut : size < item.length) :
    skipLevels (levels + 1) ⟨pos, item.take size⟩ = .error .malformed := by
  cases isItem with
  | plain kind spells =>
    have broken : (⟨pos, item.take size⟩ : Reader).peekHeader = .error .malformed :=
      spells.parse_take cut
    rw [skipLevels, broken]
    rfl
  | @string _ argument _ _ content kind spells complete =>
    refine skipLevels_take_append spells cut fun {size} pos left => ?_
    have short : ¬ Bytes.holds argument (content.take size) = true := by
      rw [Bytes.holds_iff, List.length_take]
      omega
    rcases kind with rfl | rfl
    · exact if_neg short
    · exact if_neg short
  | array spells nested =>
    exact skipLevels_take_append spells cut fun pos left => below pos nested left
  | map spells nested =>
    exact skipLevels_take_append spells cut fun pos left => below pos nested left
  | tag spells nested =>
    refine skipLevels_take_append spells cut fun pos left => ?_
    have single := below pos nested left
    rwa [repeatedly_one] at single

/-- Nested items of which the last bytes are missing are refused at the one that is cut. -/
theorem repeatedly_skipLevels_take (pos : Nat) (nested : AreNested levels count items)
    (cut : size < items.length) :
    repeatedly (skipLevels levels) count ⟨pos, items.take size⟩ = .error .malformed := by
  -- On the levels, and for each on the number of items, as the items themselves are built.
  induction levels generalizing count size pos items with
  | zero =>
    cases nested
    exact absurd cut (Nat.not_lt_zero size)
  | succ levels below =>
    induction count generalizing size pos items with
    | zero =>
      cases nested
      exact absurd cut (Nat.not_lt_zero size)
    | succ count ih =>
      cases nested with
      | @cons _ _ item items isItem nested =>
        rw [repeatedly]
        by_cases within : size < item.length
        · rw [List.take_append_of_le_length (Nat.le_of_lt within),
            skipLevels_succ_take below isItem within]
        · have skipped := skipLevels_eq_ok_iff.2 ⟨item, isItem,
            passes_append pos item (items.take (size - item.length))⟩
          rw [List.length_append] at cut
          rw [List.take_append, List.take_of_length_le (Nat.le_of_not_lt within), skipped]
          exact ih _ nested (by omega)

theorem skipItem_take (isItem : IsItem maxNesting item) (cut : size < item.length) (pos : Nat) :
    (⟨pos, item.take size⟩ : Reader).skipItem = .error .malformed :=
  skipLevels_succ_take repeatedly_skipLevels_take isItem cut

end Reader

/-- No item is the front of another one. -/
theorem IsItem.eq_of_isPrefix {item other : Bytes} (isItem : IsItem maxNesting item)
    (also : IsItem maxNesting other) (front : item <+: other) : item = other := by
  have taken : item = other.take item.length := List.prefix_iff_eq_take.1 front
  refine front.eq_of_length (Nat.le_antisymm front.length_le (Nat.le_of_not_lt fun cut => ?_))
  -- Otherwise the item would be a cut of the other one, which is refused.
  have refused := Reader.skipItem_take also cut 0
  have skipped := Reader.skipItem_of_isItem isItem 0 []
  rw [← taken] at refused
  rw [List.append_nil, refused] at skipped
  cases skipped

namespace Reading

/-- An item that can be skipped cannot be skipped if any of its last bytes are missing, and what is
then reported is always that the bytes are malformed, whatever the item is and wherever it is cut.
The reading is left as it was, and so is the cursor of the machine, which moves on up to the cut and
is put back. So no item that can be skipped is the front of another one. -/
theorem step_skipItem_take (reading : Reading) (n : Nat)
    (skipped : reading.step .skipItem
      = (⟨.ok .done, none⟩, { reading with current := reading.current.advance n })) :
    let item := reading.current.rest.take n
    (∀ size < n, ∀ cut : Reading, cut.current.rest = item.take size →
        cut.step .skipItem = (⟨.error .malformed, none⟩, cut))
      ∧ (∀ size < n, ∀ (source : Bytes) (cut : Decoding), source.length < unsignedBound →
          cut.Inside source → source.drop cut.current.pos = item.take size →
          cut.step .skipItem = (some ⟨.error .malformed, none⟩, cut))
      ∧ ∀ (other : Reading) (k : Nat),
          other.step .skipItem
            = (⟨.ok .done, none⟩, { other with current := other.current.advance k }) →
          item <+: other.current.rest.take k → item = other.current.rest.take k := by
  intro item
  have atItem {r : Reading} {k : Nat} (done : r.step .skipItem
      = (⟨.ok .done, none⟩, { r with current := r.current.advance k })) : r.current.AtItem k :=
    ((step_skipItem_iff r).1 k).1 done
  have whole := atItem skipped
  have length : item.length = n := List.length_take_of_le whole.1
  have refused (cut : Reading) (size : Nat) (less : size < n)
      (left : cut.current.rest = item.take size) :
      cut.step .skipItem = (⟨.error .malformed, none⟩, cut) := by
    refine step_skipItem_of_error ?_
    have broken := Reader.skipItem_take whole.2 (length.symm ▸ less) cut.current.pos
    rwa [← left] at broken
  refine ⟨fun size less cut => refused cut size less, ?_, ?_⟩
  · intro size less source cut machine inside left
    rcases Decoding.exists_makes machine inside .skipItem with ⟨reply, next, makes⟩
    have rest : cut.reading.current.rest = item.take size := by
      rw [← left, ← inside.current.data]
      rfl
    have reply_eq : reply = ⟨.error .malformed, none⟩ :=
      congrArg Prod.fst (makes.reading_eq.symm.trans (refused cut.reading size less rest))
    have failed : reply.result.isOk = false := congrArg (·.result.isOk) reply_eq
    rw [makes.step_eq, reply_eq, makes.unmoved failed]
  · intro other k done front
    exact whole.2.eq_of_isPrefix (atItem done).2 front

/-- A text in as many arrays as may be nested in each other, without its last byte. The cut is in
the deepest item that there can be, and is not taken for one that is nested too deep. -/
theorem step_skipItem_take_deepest :
    let nested : Bytes := List.replicate maxNesting 0x81
    let cut : Reading := .ofBytes (nested ++ [0x61])
    (Reading.step (.ofBytes (nested ++ [0x61, 0x78])) .skipItem).1.result.isOk = true
      ∧ cut.step .skipItem = (⟨.error .malformed, none⟩, cut) := by
  intro nested cut
  have skipped : Reading.step (.ofBytes (nested ++ [0x61, 0x78])) .skipItem
      = (⟨.ok .done, none⟩, { Reading.ofBytes (nested ++ [0x61, 0x78]) with
          current := (Reader.ofBytes (nested ++ [0x61, 0x78])).advance 34 }) := by
    rfl
  rcases step_skipItem_take _ 34 skipped with ⟨refused, -, -⟩
  exact ⟨by rw [skipped]; rfl, refused 33 (by decide) cut (by decide)⟩

end Reading

end PropertyRecord
