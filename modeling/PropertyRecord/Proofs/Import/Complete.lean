import PropertyRecord.Proofs.Import.Opening

/-!
# Imports that come to their end

An import comes to its end if it stops at no pair: whatever it looks at is passed over or copied,
until there are no more pairs or no more slots. The limit on what may be copied is then never in
the way, so a larger one changes nothing, and neither does a longer buffer.

Main statements: `stop_openOver_append`, which says when that is so, and `Whole.ofRecord_eq`.
-/

namespace PropertyRecord

namespace Walk

/-- A walk that stops at no pair, with the pairs imported at its beginning and at its end. -/
inductive Completes (limit : Nat) :
    (count : Nat) → Reader → (imported result : Listing) → Prop where
  | done (r : Reader) (imported : Listing) : Completes limit 0 r imported imported
  | full {imported : Listing} (count : Nat) (r : Reader)
      (full : maxProperties ≤ (Listing.merge imported).length) :
      Completes limit (count + 1) r imported imported
  | foreign {count : Nat} {r next : Reader} {imported result : Listing}
      (vacant : ¬ maxProperties ≤ (Listing.merge imported).length)
      (paired : r.pair = .ok (none, next)) (later : Completes limit count next imported result) :
      Completes limit (count + 1) r imported result
  | property {count : Nat} {r next : Reader} {imported result : Listing} {p : Property}
      (vacant : ¬ maxProperties ≤ (Listing.merge imported).length)
      (paired : r.pair = .ok (some p, next))
      (fits : Listing.footprint imported + p.footprint ≤ limit)
      (later : Completes limit count next (imported ++ [p]) result) :
      Completes limit (count + 1) r imported result

variable {limit larger count capacity : Nat} {r : Reader} {imported result : Listing}
  {record : Bytes}

/-- A walk that stops at no pair loses nothing. -/
theorem Completes.ofPairs_eq (completes : Completes limit count r imported result) :
    ofPairs limit count r imported = ⟨result, 0⟩ := by
  induction completes with
  | done => rfl
  | full count r full => rw [ofPairs, if_pos full]
  | foreign vacant paired _ ih =>
    rw [ofPairs, if_neg vacant, paired]
    exact ih
  | property vacant paired fits _ ih =>
    rw [ofPairs, if_neg vacant, paired]
    simp only [fits, if_true]
    exact ih

/-- A walk that stops at no pair does not stop if more may be copied, and comes to the same. -/
theorem Completes.mono (completes : Completes limit count r imported result)
    (longer : limit ≤ larger) : Completes larger count r imported result := by
  induction completes with
  | done => exact .done _ _
  | full count r full => exact .full count r full
  | foreign vacant paired _ ih => exact .foreign vacant paired ih
  | property vacant paired fits _ ih =>
    exact .property vacant paired (Nat.le_trans fits longer) ih

/-! ## The first pair, if there are slots left -/

section

variable {next : Reader} {p : Property}
  (vacant : ¬ maxProperties ≤ (Listing.merge imported).length)

include vacant

theorem completes_foreign_iff (paired : r.pair = .ok (none, next)) :
    Completes limit (count + 1) r imported result ↔ Completes limit count next imported result := by
  constructor
  · intro completes
    cases completes with
    | full _ _ full => exact absurd full vacant
    | foreign _ again later =>
      cases paired.symm.trans again
      exact later
    | property _ again => cases paired.symm.trans again
  · exact .foreign vacant paired

theorem completes_property_iff (paired : r.pair = .ok (some p, next)) :
    Completes limit (count + 1) r imported result
      ↔ Listing.footprint imported + p.footprint ≤ limit
        ∧ Completes limit count next (imported ++ [p]) result := by
  constructor
  · intro completes
    cases completes with
    | full _ _ full => exact absurd full vacant
    | foreign _ again => cases paired.symm.trans again
    | property _ again fits later =>
      cases paired.symm.trans again
      exact ⟨fits, later⟩
  · rintro ⟨fits, later⟩
    exact .property vacant paired fits later

/-- A pair that is refused stops the walk. -/
theorem not_completes_of_refused (refused : r.Refused limit (Listing.footprint imported)) :
    ¬ Completes limit (count + 1) r imported result := by
  intro completes
  cases completes with
  | full _ _ full => exact vacant full
  | foreign _ paired =>
    rcases refused _ _ paired with ⟨p, found, -⟩
    cases found
  | property _ paired fits =>
    rcases refused _ _ paired with ⟨p, found, large⟩
    cases found
    exact Nat.not_lt_of_le fits large

end

/-! ## Records -/

/-- The walk over a record at the front of a buffer of `capacity` bytes stops at no pair. Where
there are no bytes, there is no record to walk. -/
def Whole (capacity : Nat) (record : Bytes) : Prop :=
  record = [] ∨ ∃ count next result, (Reader.ofBytes record).readMapHeader = .ok (count, next)
    ∧ Completes (Walk.limit capacity record) count next [] result

theorem limit_mono (record : Bytes) (longer : capacity ≤ larger) :
    Walk.limit capacity record ≤ Walk.limit larger record := by
  rw [Walk.limit, Walk.limit]
  omega

theorem Whole.mono (whole : Whole capacity record) (longer : capacity ≤ larger) :
    Whole larger record := by
  rcases whole with rfl | ⟨count, next, result, header, completes⟩
  · exact .inl rfl
  · exact .inr ⟨count, next, result, header, completes.mono (limit_mono record longer)⟩

/-- A walk that stops at no pair is the same in any longer buffer. -/
theorem Whole.ofRecord_eq (whole : Whole capacity record) (longer : capacity ≤ larger) :
    ofRecord larger record = ofRecord capacity record := by
  rcases whole with rfl | ⟨count, next, result, header, completes⟩
  · rfl
  · rw [ofRecord, ofRecord, header]
    simp only [completes.ofPairs_eq, (completes.mono (limit_mono record longer)).ofPairs_eq]

end Walk

namespace Editor

variable {ed : Editor} {limit : Nat} {imported : Listing}

/-- The loop of an import ends without a fault exactly if the walk stops at no pair. -/
theorem Imports.stop_importPairs_eq_none_iff (imports : ed.Imports limit imported) (count : Nat)
    (r : Reader) (foreign : List Nat) :
    (importPairs limit count r ed foreign).stop = none
      ↔ ∃ result, Walk.Completes limit count r imported result := by
  -- On the announced count, as the loop: the invariant says that both look at the same pair.
  induction count generalizing r ed imported foreign with
  | zero => exact iff_of_true rfl ⟨imported, .done r imported⟩
  | succ count ih =>
    rw [importPairs, imports.length]
    by_cases full : maxProperties ≤ (Listing.merge imported).length
    · rw [if_pos full]
      exact iff_of_true rfl ⟨imported, .full count r full⟩
    · rw [if_neg full]
      have stopped (refused : r.Refused limit (Listing.footprint imported)) :
          (importPairs limit (count + 1) r ed foreign).stop = none
            ↔ ∃ result, Walk.Completes limit (count + 1) r imported result := by
        have refused' := imports.charged.symm ▸ refused
        rcases importPair_error imports.half refused' with ⟨_, fault, -, -, failed⟩
        rw [importPairs, imports.length, if_neg full]
        simp only [failed]
        refine iff_of_false (fun same => by cases same) ?_
        rintro ⟨result, completes⟩
        exact Walk.not_completes_of_refused full refused completes
      rw [importPairs, imports.length, if_neg full] at stopped
      cases paired : r.pair with
      | error fault => exact stopped (Reader.refused_of_error paired)
      | ok found =>
        rcases found with ⟨found, next⟩
        cases found with
        | none =>
          rcases importPair_foreign ed limit paired with ⟨editor, passed⟩
          simp only [passed, editor, ih imports, Walk.completes_foreign_iff full paired]
        | some p =>
          by_cases fits : Listing.footprint imported + p.footprint ≤ limit
          · rcases imports.importPair_ok (Nat.lt_of_not_le full) paired fits with
              ⟨imports', passed, -⟩
            simp only [passed, ih imports', Walk.completes_property_iff full paired, fits, true_and]
          · exact stopped (Reader.refused_of_large paired fits)

/-- A record at the front of a buffer is imported pair by pair. -/
theorem openOver_append {record : Bytes} (nonempty : record ≠ []) (rest : Bytes) :
    openOver (record ++ rest) record.length
      = match (Reader.ofBytes record).readMapHeader with
        | .error fault => ⟨empty (record ++ rest), [], some fault⟩
        | .ok (count, next) =>
          importPairs (Walk.limit (record ++ rest).length record) count next
            (empty (record ++ rest)) [] := by
  have held : min record.length (record ++ rest).length = record.length := by
    rw [List.length_append, Nat.min_eq_left (Nat.le_add_right _ _)]
  rw [openOver, held, List.take_left, if_neg (mt List.length_eq_zero_iff.1 nonempty)]
  rfl

theorem imports_empty_append (record rest : Bytes) :
    (empty (record ++ rest)).Imports (Walk.limit (record ++ rest).length record) [] :=
  imports_empty (Nat.min_le_left _ _)

/-- An editor is opened without a fault exactly if the walk over its record stops at no pair. -/
theorem stop_openOver_append (record rest : Bytes) :
    (openOver (record ++ rest) record.length).stop = none
      ↔ Walk.Whole (record ++ rest).length record := by
  by_cases nonempty : record = []
  · subst nonempty
    exact iff_of_true (by simp [openOver]) (.inl rfl)
  · rw [openOver_append nonempty, Walk.Whole]
    simp only [nonempty, false_or]
    cases header : (Reader.ofBytes record).readMapHeader with
    | error fault => simp
    | ok announced =>
      rcases announced with ⟨count, next⟩
      simp only [(imports_empty_append record rest).stop_importPairs_eq_none_iff count next []]
      constructor
      · rintro ⟨result, completes⟩
        exact ⟨count, next, result, rfl, completes⟩
      · rintro ⟨_, _, result, same, completes⟩
        cases same
        exact ⟨result, completes⟩

end Editor

end PropertyRecord
