import BlockOutline.Program
import BlockOutline.Proofs.Outline.Loading

/-! # Fixture headers

A fixture is read twice: its header leniently, its outline strictly. Where both succeed they agree,
and where only the header can be read the fault is not in it. -/

namespace BlockOutline

open Fallible
open Toml (Node Key)

/-! ## Reading headers -/

/-- A document whose description and expectations are well formed, whatever else it holds. -/
inductive IsHeader : Node → Prop where
  | intro (span) {entries}
      (description : ∀ entry ∈ entries, entry.1.name = "description" → IsString entry.2)
      (expect : ∀ entry ∈ entries, entry.1.name = "expect" → IsExpectations entry.2) :
      IsHeader (.table span entries)

namespace FixtureHeader

/-- What an entry can change. -/
inductive Enters (h : FixtureHeader) : String → Node → FixtureHeader → Prop where
  | description {value text} (hvalue : WritesString value text) :
      Enters h "description" value { h with description := some text }
  | expect {value e} (hvalue : Expectations.read value = .ok e) :
      Enters h "expect" value { h with expect := e }
  | other {name value} (hdescription : name ≠ "description") (hexpect : name ≠ "expect") :
      Enters h name value h

theorem readEntry_eq_ok_iff (h h' : FixtureHeader) (entry : Key × Node) :
    h.readEntry entry = .ok h' ↔ h.Enters entry.1.name entry.2 h' := by
  obtain ⟨⟨name, span⟩, value⟩ := entry
  constructor
  · intro hread
    simp only [readEntry] at hread
    split at hread
    · obtain ⟨text, ht, ⟨⟩⟩ := bind_eq_ok_iff.mp hread
      exact .description (readString_eq_ok_iff.mp ht)
    · obtain ⟨e, he, ⟨⟩⟩ := bind_eq_ok_iff.mp hread
      exact .expect he
    · next hdescription hexpect =>
      cases hread
      exact .other hdescription hexpect
  · intro henters
    cases henters with
    | description hvalue => simp [readEntry, readString_eq_ok_iff.mpr hvalue]
    | expect hvalue => simp [readEntry, hvalue]
    | other hdescription hexpect => simp [readEntry]

theorem readEntry_isOk_iff (h : FixtureHeader) (entry : Key × Node) :
    (∃ h', h.readEntry entry = .ok h') ↔
      (entry.1.name = "description" → IsString entry.2) ∧
        (entry.1.name = "expect" → IsExpectations entry.2) := by
  obtain ⟨⟨name, span⟩, value⟩ := entry
  simp only [readEntry_eq_ok_iff]
  constructor
  · rintro ⟨h', henters⟩
    cases henters with
    | description hvalue => simpa using isString_iff.mpr ⟨_, hvalue⟩
    | expect hvalue => simpa using Expectations.read_isOk_iff.mp ⟨_, hvalue⟩
    | other hdescription hexpect => simp [hdescription, hexpect]
  · rintro ⟨hstring, hexpectations⟩
    by_cases hdescription : name = "description"
    · subst hdescription
      obtain ⟨text, hvalue⟩ := isString_iff.mp (hstring rfl)
      exact ⟨_, .description hvalue⟩
    by_cases hexpect : name = "expect"
    · subst hexpect
      obtain ⟨e, hvalue⟩ := Expectations.read_isOk_iff.mpr (hexpectations rfl)
      exact ⟨_, .expect hvalue⟩
    exact ⟨h, .other hdescription hexpect⟩

theorem read_isOk_iff {document : Node} (hd : ∃ span entries, document = .table span entries) :
    (∃ h, read document = .ok h) ↔ IsHeader document := by
  obtain ⟨span, entries, rfl⟩ := hd
  refine (foldlM_isOk_iff (fun h entry _ => readEntry_isOk_iff h entry) {}).trans ?_
  constructor
  · intro hentries
    exact .intro span (fun entry he => (hentries entry he).1) fun entry he => (hentries entry he).2
  · rintro ⟨_, description, expect⟩ entry he
    exact ⟨description entry he, expect entry he⟩

theorem load_eq_ok_iff {source : String} {document : Node} (hdocument : Toml.parse source = .ok document)
    (h : FixtureHeader) : load source = .ok h ↔ read document = .ok h := by
  have hparse : parseDocument source 0 = .ok document := mapError_eq_ok_iff.mpr hdocument
  unfold load
  rw [hparse]
  exact mapError_eq_ok_iff

end FixtureHeader

/-! ## Agreement -/

/-- What a header says of the parts of an outline. -/
def Outline.Parts.header (p : Outline.Parts) : FixtureHeader :=
  ⟨p.description, p.expect.getD {}⟩

theorem Outline.Enters.header {p p' : Outline.Parts} {name : String} {value : Node}
    (h : Outline.Enters p name value p') : p.header.Enters name value p'.header := by
  cases h with
  | description hvalue => exact .description hvalue
  | root => exact .other (by decide) (by decide)
  | expect hvalue => exact .expect hvalue

/-- Where an outline is read, the header is read as well, and says the same. -/
theorem FixtureHeader.read_of_outline {document : Node} {o : Outline}
    (h : Outline.read document = .ok o) :
    read document = .ok ⟨o.description, o.expect.getD {}⟩ := by
  obtain ⟨entries, hentries, hrun⟩ :=
    Record.readFields_eq_ok_iff.mp (Outline.read_eq_ok_iff.mp h)
  refine Record.readFields_eq_ok_iff.mpr ⟨entries, hentries, ?_⟩
  refine foldlM_simulates Outline.Parts.header ?_ hrun
  intro p p' entry _ hread
  exact (readEntry_eq_ok_iff _ _ _).mpr ((Outline.readEntry_eq_ok_iff _ _ _).mp hread).header

/-! ## Faults outside of a header -/

/-- A fault of the root, or of a key that outlines do not have. -/
inductive OutsideHeader : Node → SchemaError → Prop where
  | missingRoot (span) {entries} (absent : ∀ entry ∈ entries, entry.1.name ≠ "root") :
      OutsideHeader (.table span entries) ⟨.missingField "root", span⟩
  | malformedRoot (span) {entries} {entry : Key × Node} {e} (he : entry ∈ entries)
      (hname : entry.1.name = "root") (h : OutlineNode.read entry.2 = .error e) :
      OutsideHeader (.table span entries) e
  | unknownKey (span) {entries} {entry : Key × Node} (he : entry ∈ entries)
      (unknown : entry.1.name ∉ Record.outline.fields) :
      OutsideHeader (.table span entries)
        ⟨.unknownField entry.1.name Record.outline.fields, entry.1.span⟩

theorem outsideHeader_of_readEntry {span : Toml.Span} {entries : List (Key × Node)}
    (hheader : IsHeader (.table span entries)) {entry : Key × Node} (he : entry ∈ entries)
    {p : Outline.Parts} {e : SchemaError} (h : Outline.readEntry p entry = .error e) :
    OutsideHeader (.table span entries) e := by
  cases hheader with
  | intro _ description expect =>
      obtain ⟨⟨name, keySpan⟩, value⟩ := entry
      simp only [Outline.readEntry] at h
      split at h
      · obtain ⟨text, htext⟩ := isString_iff.mp (description _ he rfl)
        rw [readString_eq_ok_iff.mpr htext] at h
        cases h
      · rcases bind_eq_error_iff.mp h with h | ⟨_, _, ⟨⟩⟩
        exact .malformedRoot span he rfl h
      · obtain ⟨e', he'⟩ := Expectations.read_isOk_iff.mpr (expect _ he rfl)
        rw [he'] at h
        cases h
      · next hdescription hroot hexpect =>
        cases h
        refine .unknownKey span he ?_
        simpa [Record.outline] using ⟨hdescription, hroot, hexpect⟩

/-- Where only the header is well formed, the fault is not in it. -/
theorem outsideHeader_of_read {document : Node} (hkeys : document.DistinctKeys)
    (hheader : IsHeader document) {e : SchemaError} (h : Outline.read document = .error e) :
    OutsideHeader document e := by
  have hshape := hheader
  cases hshape with
  | @intro span entries =>
      -- Either an entry fails, or all are read and none of them is the root.
      rcases bind_eq_error_iff.mp h with hrun | ⟨p, hparts, hmissing⟩
      · obtain ⟨p, entry, he, hread⟩ := exists_step_of_foldlM_eq_error hrun
        exact outsideHeader_of_readEntry hheader he hread
      · have hroot := (Outline.given_of_readFields hkeys rfl hparts).root
        cases hp : p.root with
        | some root =>
            rw [hp] at hmissing
            cases hmissing
        | none =>
            rw [hp] at hroot hmissing
            cases hmissing
            refine .missingRoot span ?_
            intro entry he hname
            have hfound := Record.isSome_lookup_iff.mpr (Record.mem_names_iff.mpr ⟨entry, he, hname⟩)
            rw [isSome_eq_of_rel hroot] at hfound
            cases hfound

/-! ## Texts -/

namespace FixtureHeader

theorem load_of_outline {source : String} {file : ℕ} {o : Outline}
    (h : Outline.load source file = .ok o) :
    load source = .ok ⟨o.description, o.expect.getD {}⟩ := by
  obtain ⟨document, hdocument, -⟩ := bind_eq_ok_iff.mp h
  have hparse := mapError_eq_ok_iff.mp hdocument
  rw [load_eq_ok_iff hparse]
  exact read_of_outline ((Outline.load_eq_ok_iff hparse file o).mp h)

theorem outsideHeader_of_load {source : String} {file : ℕ} {header : FixtureHeader} {e : LoadError}
    (hheader : load source = .ok header) (h : Outline.load source file = .error e) :
    ∃ document v, Toml.parse source = .ok document ∧ IsHeader document ∧
      OutsideHeader document v ∧ e = ⟨.schema v.violation, some v.span, file⟩ := by
  obtain ⟨document, hdocument, -⟩ := bind_eq_ok_iff.mp hheader
  have hparse := mapError_eq_ok_iff.mp hdocument
  obtain ⟨span, entries, htable, hkeys⟩ := Toml.distinctKeys_parse hparse
  have hshape : IsHeader document :=
    (read_isOk_iff ⟨span, entries, htable⟩).mp ⟨header, (load_eq_ok_iff hparse header).mp hheader⟩
  have hstrict : parseDocument source file = .ok document := mapError_eq_ok_iff.mpr hparse
  unfold Outline.load at h
  rw [hstrict] at h
  obtain ⟨v, hv, rfl⟩ := mapError_eq_error_iff.mp h
  exact ⟨document, v, hparse, hshape, outsideHeader_of_read hkeys hshape hv, rfl⟩

end FixtureHeader

theorem Program.load_of_inspect {lookup : Lookup} {environment : Environment}
    {arguments : List String} {invocation : CommandLine.Invocation} {file : String}
    {listing : Listing} (hread : CommandLine.read arguments = .ok invocation)
    (htask : invocation.task = .inspect file listing)
    (hcode : (run lookup environment arguments).code = 0) :
    ∃ source o, (lookup file).bind Entry.read = .ok source ∧ Outline.load source 0 = .ok o := by
  unfold run at hcode
  rw [hread] at hcode
  simp only [htask, perform, inspect] at hcode
  split at hcode
  · cases hcode
  · next source hsource =>
    split at hcode
    · cases hcode
    · next o ho => exact ⟨source, o, hsource, ho⟩

theorem Fixture.failure_ne_header {path : Bytes} {source : String} {header : FixtureHeader}
    (h : FixtureHeader.load source = .ok header) (e : LoadError) :
    (run ⟨path, .ok source⟩).failure ≠ some (.header e) := by
  simp only [run, h, judge]
  split
  · split <;> simp
  · simp
  · simp
  · cases header.expect.report? _ <;> simp

/-- Headers and outlines agree: what an outline says its header says as well, an outline that fails
under a good header fails outside of it, and no file that can be shown has a bad header. -/
theorem FixtureHeader.agrees_with_outline :
    (∀ source file o, Outline.load source file = .ok o →
        FixtureHeader.load source = .ok ⟨o.description, o.expect.getD {}⟩) ∧
      (∀ source file header e, FixtureHeader.load source = .ok header →
        Outline.load source file = .error e →
        ∃ document v, Toml.parse source = .ok document ∧ IsHeader document ∧
          OutsideHeader document v ∧ e = ⟨.schema v.violation, some v.span, file⟩) ∧
      ∀ lookup environment arguments invocation file listing,
        CommandLine.read arguments = .ok invocation →
        invocation.task = .inspect file listing →
        (Program.run lookup environment arguments).code = 0 →
        ∀ path e, (Fixture.run ⟨path, (lookup file).bind Entry.read⟩).failure ≠
          some (.header e) := by
  refine ⟨fun _ _ _ => load_of_outline, fun _ _ _ _ => outsideHeader_of_load, ?_⟩
  intro lookup environment arguments invocation file listing hread htask hcode path e
  obtain ⟨source, o, hsource, ho⟩ := Program.load_of_inspect hread htask hcode
  rw [hsource]
  exact Fixture.failure_ne_header (load_of_outline ho) e

theorem FixtureHeader.agrees_with_outline_malformed :
    FixtureHeader.load "root = []" = .ok ⟨none, {}⟩ ∧
      (∃ document v, Toml.parse "description = \"d\"\nroot = 1" = .ok document ∧
        OutsideHeader document v ∧
        Outline.load "description = \"d\"\nroot = 1" 0 =
          .error ⟨.schema v.violation, some v.span, 0⟩) ∧
      ∀ path e, (Fixture.run ⟨path, .ok "root = []"⟩).failure ≠ some (.header e) := by
  obtain ⟨hload, hfault, hshown⟩ := agrees_with_outline
  refine ⟨hload "root = []" 0 ⟨none, {}, none⟩ (by decide +kernel), ?_, ?_⟩
  · have hheader : load "description = \"d\"\nroot = 1" = .ok ⟨some "d", {}⟩ := by decide +kernel
    have herror : Outline.load "description = \"d\"\nroot = 1" 0 =
        .error ⟨.schema (.wrongType (.integer 1) (.record "OutlineNode")), some ⟨25, 26⟩, 0⟩ := by decide +kernel
    obtain ⟨document, v, hparse, -, houtside, he⟩ := hfault _ 0 _ _ hheader herror
    exact ⟨document, v, hparse, houtside, he ▸ herror⟩
  · have hread : CommandLine.read ["show", "a"] =
        .ok ⟨true, 0, .inspect "a" ⟨false, false, false, false⟩⟩ := by decide +kernel
    exact hshown (fun _ => .ok (.file (.ok "root = []"))) ⟨fun _ => none, ""⟩ _ _ _ _ hread rfl
      (by decide +kernel)

end BlockOutline
