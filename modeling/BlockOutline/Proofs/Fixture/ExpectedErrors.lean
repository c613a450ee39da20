import BlockOutline.Proofs.Fixture.Verdict

/-! # Expected errors

A fixture that expects an error passes exactly if loading fails with that text in its message, as
long as its description can be read. Where the description is no text, the header is at fault,
whatever is expected. -/

namespace BlockOutline

open Toml (Node Key)

/-- A document whose description, if it has one, is a text. -/
inductive DescribedByText : Node → Prop where
  | intro (span) {entries}
      (description : ∀ entry ∈ entries, entry.1.name = "description" → IsString entry.2) :
      DescribedByText (.table span entries)

/-- Where the expectations are well formed, only the description can be at fault in a header. -/
theorem Expects.isHeader_iff {document : Node} {e : Expectations} (he : Expects document e)
    (htable : ∃ span entries, document = .table span entries) (hkeys : document.DistinctKeys) :
    IsHeader document ↔ DescribedByText document := by
  obtain ⟨span, entries, rfl⟩ := htable
  constructor
  · intro h
    cases h with
    | intro _ description _ => exact .intro span description
  · intro h
    cases h with
    | intro _ description =>
        refine .intro span description ?_
        intro entry hentry hname
        obtain ⟨record, expect⟩ := he
        have hnodup := Record.nodup_members (by decide) hkeys record
        cases record
        have hlookup := lookup_eq_some_of_mem hnodup (List.mem_map_of_mem hentry)
        rw [member, hname] at hlookup
        rw [hlookup] at expect
        cases expect with
        | given h =>
            exact h.isExpectations (hkeys.of_mem_parts (List.mem_map_of_mem hentry))

namespace Fixture

theorem failure_header_iff {path : Bytes} {source : String} :
    (∃ err, (run ⟨path, .ok source⟩).failure = some (.header err)) ↔
      ¬∃ header, FixtureHeader.load source = .ok header := by
  cases hheader : FixtureHeader.load source with
  | error err => simp [run, hheader]
  | ok header =>
      have hne (err : LoadError) : (run ⟨path, .ok source⟩).failure ≠ some (.header err) :=
        failure_ne_header hheader err
      simpa using hne

/-- Of a document with well-formed expectations the fixture passes exactly if its description can be
read and loading fails with the expected text in the message; and it is the header that fails
exactly if the description cannot be read. -/
theorem expected_error_reached {path : Bytes} {source : String} {document : Node} {e : Expectations}
    {wanted : String} (hparse : Toml.parse source = .ok document) (he : Expects document e)
    (hwanted : e.error = some wanted) :
    ((run ⟨path, .ok source⟩).passed = true ↔ DescribedByText document ∧
        ∃ err, Outline.load source 0 = .error err ∧
          ∃ before after, err.message = before ++ wanted ++ after) ∧
      ((∃ err, (run ⟨path, .ok source⟩).failure = some (.header err)) ↔
        ¬DescribedByText document) := by
  obtain ⟨span, entries, htable, hkeys⟩ := Toml.distinctKeys_parse hparse
  have hshape := he.isHeader_iff ⟨span, entries, htable⟩ hkeys
  have hheader : (∃ header, FixtureHeader.load source = .ok header) ↔
      DescribedByText document := by
    simp only [FixtureHeader.load_eq_ok_iff hparse]
    rw [← hshape]
    exact FixtureHeader.read_isOk_iff ⟨span, entries, htable⟩
  refine ⟨?_, failure_header_iff.trans (not_congr hheader)⟩
  constructor
  · intro hpassed
    obtain ⟨_, header, hsource, hload, hjudge⟩ := passed_iff_load.mp hpassed
    cases hsource
    refine ⟨hheader.mp ⟨header, hload⟩, ?_⟩
    obtain ⟨document', hparse', -, he'⟩ := FixtureHeader.exists_load_iff.mp ⟨header, hload, rfl⟩
    cases hparse.symm.trans hparse'
    obtain rfl := he'.only he
    rcases judge_eq_none_iff.mp hjudge with ⟨_, err, herror, hfailed, hcontains⟩ | ⟨hnone, -⟩
    · cases hwanted.symm.trans herror
      exact ⟨err, hfailed, (Text.contains_iff _ _).mp hcontains⟩
    · rw [hwanted] at hnone
      cases hnone
  · intro h
    obtain ⟨hdescribed, err, hfailed, hmessage⟩ := h
    obtain ⟨header, hload, rfl⟩ :=
      FixtureHeader.exists_load_iff.mpr ⟨document, hparse, hshape.mpr hdescribed, he⟩
    refine passed_iff_load.mpr ⟨source, header, rfl, hload, judge_eq_none_iff.mpr (.inl ?_)⟩
    exact ⟨wanted, err, hwanted, hfailed, (Text.contains_iff _ _).mpr hmessage⟩

/-- An unknown key beside a described outline without a root. -/
theorem expected_error_reached_by_unknown_key :
    let source := "description = \"d\"\nrot = 1\n[expect]\nerror = \"rot\"\n"
    ∃ document e, Toml.parse source = .ok document ∧ Expects document e ∧ e.error = some "rot" ∧
      ((run ⟨"a", .ok source⟩).passed = true ↔ DescribedByText document ∧
        ∃ err, Outline.load source 0 = .error err ∧
          ∃ before after, err.message = before ++ "rot" ++ after) ∧
      (run ⟨"a", .ok source⟩).passed = true := by
  intro source
  have hheader : FixtureHeader.load source =
      .ok ⟨some "d", ⟨none, none, none, none, some "rot"⟩⟩ := by
    decide +kernel
  have hload : Outline.load source 0 =
      .error ⟨.schema (.unknownField "rot" ["description", "root", "expect"]), some ⟨18, 21⟩, 0⟩ := by
    decide +kernel
  obtain ⟨document, hparse, hshape, he⟩ := FixtureHeader.exists_load_iff.mp ⟨_, hheader, rfl⟩
  obtain ⟨hpassed, -⟩ := expected_error_reached hparse he rfl
  refine ⟨document, _, hparse, he, rfl, hpassed, hpassed.mpr ⟨?_, _, hload, ?_⟩⟩
  · cases hshape with
    | intro span description _ => exact .intro span description
  · exact (Text.contains_iff _ _).mp (by decide +kernel)

/-- An error in the description that is expected by its own text, and yet is not found. -/
theorem expected_error_behind_description :
    let source := "description = 1\n[root]\n[expect]\nerror = \"a string\"\n"
    ∃ document e err, Toml.parse source = .ok document ∧ Expects document e ∧
      e.error = some "a string" ∧ Outline.load source 0 = .error err ∧
      (∃ before after, err.message = before ++ "a string" ++ after) ∧
      (run ⟨"a", .ok source⟩).passed = false := by
  intro source
  let expectations : Node :=
    .table ⟨23, 50⟩ [(⟨"error", ⟨32, 37⟩⟩, .scalar ⟨40, 50⟩ (.string "a string"))]
  have hparse : Toml.parse source = .ok (.table ⟨0, 15⟩
      [(⟨"description", ⟨0, 11⟩⟩, .scalar ⟨14, 15⟩ (.integer 1)),
        (⟨"root", ⟨17, 21⟩⟩, .table ⟨16, 22⟩ []), (⟨"expect", ⟨24, 30⟩⟩, expectations)]) := by
    decide +kernel
  have hload : Outline.load source 0 =
      .error ⟨.schema (.wrongType (.integer 1) .string), some ⟨14, 15⟩, 0⟩ := by
    decide +kernel
  have hread : Expectations.read expectations =
      .ok ⟨none, none, none, none, some "a string"⟩ := by
    decide +kernel
  obtain ⟨_, _, -, hkeys⟩ := Toml.distinctKeys_parse hparse
  have hexpect : expectations.DistinctKeys := hkeys.of_mem_parts (by simp [Node.parts])
  have hwrites := Expectations.writes_of_read hexpect hread
  refine ⟨_, _, _, hparse, .intro rfl (.given hwrites), rfl, hload, ?_, ?_⟩
  · exact (Text.contains_iff _ _).mp (by decide +kernel)
  · decide +kernel

end Fixture

end BlockOutline
