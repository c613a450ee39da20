import BlockOutline.Proofs.Fixture.Header
import BlockOutline.Proofs.Walk.Metrics

/-! # Verdicts

A fixture passes exactly if its document meets what it expects: loading fails with the expected text
in the message, or the tree has the expected metrics. -/

namespace BlockOutline

open Fallible
open Toml (Node Key)

/-! ## Texts within texts -/

namespace Text

theorem occursIn_iff {α : Type} [BEq α] [LawfulBEq α] (part xs : List α) :
    occursIn part xs = true ↔ ∃ before after, xs = before ++ part ++ after := by
  induction xs with
  | nil => cases part <;> simp [occursIn]
  | cons x xs ih =>
      rw [occursIn, Bool.or_eq_true, List.isPrefixOf_iff_prefix, ih]
      constructor
      · rintro (⟨after, h⟩ | ⟨before, after, rfl⟩)
        · exact ⟨[], after, by simpa using h.symm⟩
        · exact ⟨x :: before, after, by simp⟩
      · rintro ⟨before, after, h⟩
        cases before with
        | nil => exact .inl ⟨after, by simpa using h.symm⟩
        | cons y before =>
            simp only [List.cons_append, List.cons.injEq] at h
            exact .inr ⟨before, after, h.2⟩

theorem contains_iff (text part : String) :
    contains text part = true ↔ ∃ before after, text = before ++ part ++ after := by
  rw [contains, occursIn_iff]
  constructor
  · rintro ⟨before, after, h⟩
    refine ⟨String.ofList before, String.ofList after, String.toList_inj.mp ?_⟩
    simpa using h
  · rintro ⟨before, after, rfl⟩
    exact ⟨before.toList, after.toList, by simp⟩

end Text

/-! ## Expectations that are met -/

/-- A tree with the expected metrics, as far as any are expected. -/
structure Meets (e : Expectations) (tree : Block String) : Prop where
  height : ∀ n ∈ e.height, tree.levels = n
  blockCount : ∀ n ∈ e.blockCount, tree.size = n
  prototypes : ∀ names ∈ e.prototypes, tree.prototypesBelow.map Block.displayName = names
  statements : ∀ texts ∈ e.statements, tree.statementsBelow = texts

namespace Expectations

theorem compare?_eq_none_iff {α : Type} [DecidableEq α] {mismatch : α → α → Mismatch}
    {expected : Option α} {actual : α} :
    compare? mismatch expected actual = none ↔ ∀ e ∈ expected, actual = e := by
  cases expected <;> simp [compare?]

theorem report?_eq_none {e : Expectations} {tree : Block String} :
    e.report? tree = none ↔ e.mismatches tree = [] := by
  unfold report?
  split <;> simp_all

theorem report?_eq_none_iff {e : Expectations} {tree : Block String} :
    e.report? tree = none ↔ Meets e tree := by
  rw [report?_eq_none, mismatches, List.filterMap_eq_nil_iff]
  simp only [List.mem_cons, List.not_mem_nil, or_false, forall_eq_or_imp, forall_eq, id,
    compare?_eq_none_iff, Block.displayNames, Block.height_eq_levels, Block.blockCount_eq_size,
    Block.allPrototypes_eq, Block.allStatements_eq]
  exact ⟨fun ⟨height, blockCount, prototypes, statements⟩ =>
      ⟨height, blockCount, prototypes, statements⟩,
    fun ⟨height, blockCount, prototypes, statements⟩ =>
      ⟨height, blockCount, prototypes, statements⟩⟩

end Expectations

/-! ## Expectations of a document -/

/-- Nothing is expected where the entry for it is absent. -/
inductive WritesExpect : Option Node → Expectations → Prop where
  | absent : WritesExpect none {}
  | given {value e} (h : WritesExpectations value e) : WritesExpect (some value) e

/-- What a document expects, whatever else it holds. -/
inductive Expects (document : Node) (e : Expectations) : Prop where
  | intro {members} (record : Record.outline.members document = some members)
      (expect : WritesExpect (members.lookup "expect") e) : Expects document e

theorem WritesExpect.only {written : Option Node} {e e' : Expectations} (h : WritesExpect written e)
    (h' : WritesExpect written e') : e = e' := by
  cases h with
  | absent =>
      cases h'
      rfl
  | given h =>
      cases h' with
      | given h' => exact writesOnly_expectations e _ _ h h'

theorem Expects.only {document : Node} {e e' : Expectations} (h : Expects document e)
    (h' : Expects document e') : e = e' := by
  obtain ⟨record, expect⟩ := h
  obtain ⟨record', expect'⟩ := h'
  cases record.symm.trans record'
  exact expect.only expect'

namespace FixtureHeader

theorem expects_of_read {document : Node} (hkeys : document.DistinctKeys) {header : FixtureHeader}
    (h : read document = .ok header) : Expects document header.expect := by
  obtain ⟨entries, hentries, -⟩ := Record.readFields_eq_ok_iff.mp h
  have record := (Record.members_eq_some_iff Record.outline document _).mpr ⟨entries, hentries, rfl⟩
  have hread := fun h h' entry => (readEntry_eq_ok_iff h h' entry).mp
  refine .intro record ?_
  refine Record.readFields_field hread h (by decide) hkeys record (·.expect) "expect" .absent ?_
  intro h h' written value hpart henters
  cases henters with
  | description => simp
  | expect hvalue =>
      rw [if_pos rfl]
      exact .given (Expectations.writes_of_read (hkeys.of_mem_parts hpart) hvalue)
  | other _ hexpect => simp [hexpect]

theorem load_eq_ok_iff_read {source : String} {header : FixtureHeader} :
    load source = .ok header ↔
      ∃ document, Toml.parse source = .ok document ∧ read document = .ok header := by
  constructor
  · intro h
    obtain ⟨document, hdocument, -⟩ := bind_eq_ok_iff.mp h
    have hparse := mapError_eq_ok_iff.mp hdocument
    exact ⟨document, hparse, (load_eq_ok_iff hparse header).mp h⟩
  · rintro ⟨document, hparse, h⟩
    exact (load_eq_ok_iff hparse header).mpr h

/-- A header is loaded exactly from a document that is well formed as far as headers go, and says
what the document expects. -/
theorem exists_load_iff {source : String} {e : Expectations} :
    (∃ header, load source = .ok header ∧ header.expect = e) ↔
      ∃ document, Toml.parse source = .ok document ∧ IsHeader document ∧ Expects document e := by
  simp only [load_eq_ok_iff_read]
  constructor
  · rintro ⟨header, ⟨document, hparse, h⟩, rfl⟩
    obtain ⟨span, entries, htable, hkeys⟩ := Toml.distinctKeys_parse hparse
    have hshape := (read_isOk_iff ⟨span, entries, htable⟩).mp ⟨header, h⟩
    exact ⟨document, hparse, hshape, expects_of_read hkeys h⟩
  · rintro ⟨document, hparse, hshape, he⟩
    obtain ⟨span, entries, htable, hkeys⟩ := Toml.distinctKeys_parse hparse
    obtain ⟨header, h⟩ := (read_isOk_iff ⟨span, entries, htable⟩).mpr hshape
    exact ⟨header, ⟨document, hparse, h⟩, (expects_of_read hkeys h).only he⟩

end FixtureHeader

/-! ## Passing -/

namespace Fixture

theorem judge_eq_none_iff {e : Expectations} {loaded : Except LoadError Outline} :
    judge e loaded = none ↔
      (∃ wanted err, e.error = some wanted ∧ loaded = .error err ∧
        Text.contains err.message wanted = true) ∨
      (e.error = none ∧ ∃ o, loaded = .ok o ∧ Meets e o.tree) := by
  unfold judge
  split
  · next wanted err herror => simp [herror]
  · next herror => simp [herror]
  · next herror => simp [herror]
  · next o herror => simp [herror, Expectations.report?_eq_none_iff]

theorem passed_iff_load {path : Bytes} {text : Except ReadError String} :
    (run ⟨path, text⟩).passed = true ↔
      ∃ source header, text = .ok source ∧ FixtureHeader.load source = .ok header ∧
        judge header.expect (Outline.load source 0) = none := by
  cases text with
  | error e => simp [run, FixtureResult.passed]
  | ok source =>
      cases hheader : FixtureHeader.load source with
      | error e => simp [run, hheader, FixtureResult.passed]
      | ok header => simp [run, hheader, FixtureResult.passed]

/-- What a fixture passes by: loading fails as expected, or it succeeds with a tree as expected. -/
inductive PassesBy (source : String) (document : Node) (e : Expectations) : Prop where
  | error {wanted err} (expected : e.error = some wanted) (shape : ¬ IsOutline document)
      (load : Outline.load source 0 = .error err)
      (message : ∃ before after, err.message = before ++ wanted ++ after) :
      PassesBy source document e
  | tree {o} (expected : e.error = none) (shape : IsOutline document)
      (written : WritesOutline document o) (meets : Meets e o.tree) : PassesBy source document e

theorem judge_load_eq_none_iff {source : String} {document : Node}
    (h : Toml.parse source = .ok document) (e : Expectations) :
    judge e (Outline.load source 0) = none ↔ PassesBy source document e := by
  obtain ⟨span, entries, htable, hkeys⟩ := Toml.distinctKeys_parse h
  have hshape := Outline.read_isOk_iff ⟨span, entries, htable⟩ hkeys
  have hload (o) : Outline.load source 0 = .ok o ↔ WritesOutline document o := by
    rw [Outline.load_eq_ok_iff h, Outline.read_eq_ok_iff_writes ⟨span, entries, htable⟩ hkeys]
  rw [judge_eq_none_iff]
  constructor
  · rintro (⟨wanted, err, herror, hfailed, hmessage⟩ | ⟨herror, o, ho, hmeets⟩)
    · refine .error herror ?_ hfailed ((Text.contains_iff _ _).mp hmessage)
      intro houtline
      obtain ⟨o, ho⟩ := hshape.mpr houtline
      rw [← Outline.load_eq_ok_iff h 0, hfailed] at ho
      cases ho
    · refine .tree herror (hshape.mp ⟨o, ?_⟩) ((hload o).mp ho) hmeets
      exact (Outline.load_eq_ok_iff h 0 o).mp ho
  · rintro (⟨herror, -, hfailed, hmessage⟩ | ⟨herror, -, hwritten, hmeets⟩)
    · exact .inl ⟨_, _, herror, hfailed, (Text.contains_iff _ _).mpr hmessage⟩
    · exact .inr ⟨herror, _, (hload _).mpr hwritten, hmeets⟩

theorem passed_iff_document {path : Bytes} {text : Except ReadError String} :
    (run ⟨path, text⟩).passed = true ↔
      ∃ source document e, text = .ok source ∧ Toml.parse source = .ok document ∧
        IsHeader document ∧ Expects document e ∧ PassesBy source document e := by
  rw [passed_iff_load]
  constructor
  · rintro ⟨source, header, rfl, hheader, hjudge⟩
    obtain ⟨document, hparse, hshape, he⟩ := FixtureHeader.exists_load_iff.mp ⟨header, hheader, rfl⟩
    exact ⟨source, document, _, rfl, hparse, hshape, he, (judge_load_eq_none_iff hparse _).mp hjudge⟩
  · rintro ⟨source, document, e, rfl, hparse, hshape, he, hpasses⟩
    obtain ⟨header, hheader, rfl⟩ := FixtureHeader.exists_load_iff.mpr ⟨document, hparse, hshape, he⟩
    exact ⟨source, header, rfl, hheader, (judge_load_eq_none_iff hparse _).mpr hpasses⟩

/-- Where an error is expected, nothing else that is expected matters. -/
theorem run_of_expected_error {path : Bytes} {source : String} {header : FixtureHeader} {wanted : String}
    (hheader : FixtureHeader.load source = .ok header) (h : header.expect.error = some wanted) :
    run ⟨path, .ok source⟩ =
      ⟨path, header.description, judge { error := some wanted } (Outline.load source 0)⟩ := by
  have hjudge (loaded) : judge header.expect loaded = judge { error := some wanted } loaded := by
    cases loaded <;> simp only [judge, h]
  simp only [run, hheader, hjudge]

end Fixture

/-! ## Verdicts and the program -/

theorem Program.code_eq_zero_iff {lookup : Lookup} {environment : Environment}
    {arguments : List String} {invocation : CommandLine.Invocation} {file : String}
    {listing : Listing} (hread : CommandLine.read arguments = .ok invocation)
    (htask : invocation.task = .inspect file listing) :
    (run lookup environment arguments).code = 0 ↔
      ∃ source o, (lookup file).bind Entry.read = .ok source ∧ Outline.load source 0 = .ok o := by
  refine ⟨load_of_inspect hread htask, ?_⟩
  rintro ⟨source, o, hsource, ho⟩
  simp only [run, hread, htask, perform, inspect, hsource, ho]

theorem Fixture.PassesBy.load_isOk_iff {source : String} {document : Node} {e : Expectations}
    (hparse : Toml.parse source = .ok document) (h : PassesBy source document e) :
    (∃ o, Outline.load source 0 = .ok o) ↔ e.error = none := by
  obtain ⟨span, entries, htable, hkeys⟩ := Toml.distinctKeys_parse hparse
  cases h with
  | error expected _ load => simp [expected, load]
  | tree expected shape =>
      obtain ⟨o, ho⟩ := (Outline.read_isOk_iff ⟨span, entries, htable⟩ hkeys).mpr shape
      exact iff_of_true ⟨o, (Outline.load_eq_ok_iff hparse 0 o).mpr ho⟩ expected

/-- A fixture passes exactly if it can be read, its header is well formed, and either loading fails
as expected or the tree that is written has the expected metrics. Where an error is expected, nothing
else counts; and of the files that pass, those can be shown that expect no error. -/
theorem Fixture.passed_iff :
    (∀ path text, (run ⟨path, text⟩).passed = true ↔
      ∃ source document e, text = .ok source ∧ Toml.parse source = .ok document ∧
        IsHeader document ∧ Expects document e ∧ PassesBy source document e) ∧
    (∀ path source header wanted, FixtureHeader.load source = .ok header →
      header.expect.error = some wanted →
      run ⟨path, .ok source⟩ =
        ⟨path, header.description, judge { error := some wanted } (Outline.load source 0)⟩) ∧
    ∀ lookup environment arguments invocation file listing path,
      CommandLine.read arguments = .ok invocation →
      invocation.task = .inspect file listing →
      (run ⟨path, (lookup file).bind Entry.read⟩).passed = true →
      ∃ source document e, (lookup file).bind Entry.read = .ok source ∧
        Toml.parse source = .ok document ∧ Expects document e ∧
        ((Program.run lookup environment arguments).code = 0 ↔ e.error = none) := by
  refine ⟨fun _ _ => passed_iff_document, fun _ _ _ _ => run_of_expected_error, ?_⟩
  intro lookup environment arguments invocation file listing path hread htask hpassed
  obtain ⟨source, document, e, hsource, hparse, -, he, hpasses⟩ := passed_iff_document.mp hpassed
  refine ⟨source, document, e, hsource, hparse, he, ?_⟩
  rw [Program.code_eq_zero_iff hread htask, ← hpasses.load_isOk_iff hparse]
  constructor
  · rintro ⟨source', o, hsource', ho⟩
    cases hsource.symm.trans hsource'
    exact ⟨o, ho⟩
  · rintro ⟨o, ho⟩
    exact ⟨source, o, hsource, ho⟩

/-- A fixture that passes by the text of its error, although it expects a height as well. -/
theorem Fixture.passed_iff_error_beside_height :
    let source := "root = 1\nexpect = [7, 1, [], [], \"struct\"]"
    (∃ document e, Toml.parse source = .ok document ∧ IsHeader document ∧ Expects document e ∧
        PassesBy source document e) ∧
      run ⟨"a", .ok source⟩ =
        ⟨"a", none, judge { error := some "struct" } (Outline.load source 0)⟩ ∧
      ∃ document e, Toml.parse source = .ok document ∧ Expects document e ∧
        ((Program.run (fun _ => .ok (.file (.ok source))) ⟨fun _ => none, ""⟩ ["show", "a"]).code = 0 ↔
          e.error = none) := by
  intro source
  obtain ⟨hpassed, herror, hshown⟩ := passed_iff
  have hheader : FixtureHeader.load source =
      .ok ⟨none, ⟨some 7, some 1, some [], some [], some "struct"⟩⟩ := by
    decide +kernel
  have hload : Outline.load source 0 =
      .error ⟨.schema (.wrongType (.integer 1) (.record "OutlineNode")), some ⟨7, 8⟩, 0⟩ := by
    decide +kernel
  have hrun : (run ⟨"a", .ok source⟩).passed = true := by
    rw [herror "a" source _ _ hheader rfl, hload]
    decide +kernel
  have hread : CommandLine.read ["show", "a"] =
      .ok ⟨true, 0, .inspect "a" ⟨false, false, false, false⟩⟩ := by
    decide +kernel
  obtain ⟨_, document, e, ⟨⟩, hparse, hshape, he, hpasses⟩ := (hpassed _ _).mp hrun
  obtain ⟨_, document', e', hsource, hparse', he', hcode⟩ := hshown
    (fun _ => .ok (.file (.ok source))) ⟨fun _ => none, ""⟩ _ _ _ _ "a" hread rfl hrun
  cases hsource
  exact ⟨⟨document, e, hparse, hshape, he, hpasses⟩, herror "a" source _ _ hheader rfl,
    document', e', hparse', he', hcode⟩

end BlockOutline
